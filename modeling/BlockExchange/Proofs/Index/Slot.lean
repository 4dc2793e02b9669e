import BlockExchange.Proofs.Index.Run

namespace BlockExchange

namespace Timestamp

variable {a b c : Timestamp}

theorem le_def : a ≤ b ↔ a.seconds < b.seconds ∨ a.seconds = b.seconds ∧ a.nanos ≤ b.nanos := Iff.rfl

theorem le_refl (a : Timestamp) : a ≤ a := by
  rw [le_def]
  omega

theorem le_trans (hab : a ≤ b) (hbc : b ≤ c) : a ≤ c := by
  rw [le_def] at *
  omega

theorem le_of_not_le (h : ¬a ≤ b) : b ≤ a := by
  rw [le_def] at *
  omega

theorem le_antisymm (hab : a ≤ b) (hba : b ≤ a) : a = b := by
  rw [le_def] at *
  cases a
  cases b
  simp only [mk.injEq]
  simp only at hab hba
  omega

end Timestamp

theorem FileRecord.supersedes_some (new old : FileRecord) :
    new.supersedes (some old) = true ↔ old.lastModified ≤ new.lastModified := by
  simp [supersedes]

abbrev Slot := Option FileRecord × Option BlockList

def Slot.settle (s : Slot) (p : FileRecord × Option BlockList) : Slot :=
  if p.1.supersedes s.1 then (some p.1, p.2) else s

namespace Index

def Operation.offer? (k : InFolder String) : Operation → Option (FileRecord × Option BlockList)
  | message folder _ files => if folder = k.folder then offered? folder k.item files else none
  | _ => none

def Operation.Names (k : InFolder String) : Operation → Prop
  | message folder _ files => folder = k.folder ∧ k.item ∈ files.map (·.name)
  | _ => False

def Operation.isClearing : Operation → Bool
  | clearing _ => true
  | _ => false

end Index

open Index

namespace Memory

def slot (m : Memory) (k : InFolder String) : Slot :=
  ((m.files.get? k).map (·.withSequence 0), m.blocks.get? k)

def TakesIn (m : Memory) : Operation → Prop
  | .message folder peer files =>
    (m.markers.get? ⟨folder, peer⟩).isSome ∧ m.Admits folder files
  | _ => True

variable {m : Memory} {folder : String} {files : List FileEntry} {k : InFolder String}

theorem supersedes_withSequence (new : FileRecord) (old : Option FileRecord) (n : Int) :
    new.supersedes (old.map (·.withSequence n)) = new.supersedes old := by
  cases old <;> rfl

theorem find?_brought_of_ne (h : k.folder ≠ folder) :
    (m.brought folder files).find? (·.1.key = k) = none := by
  apply List.find?_eq_none.mpr
  intro p hp hkey
  apply h
  rw [← of_decide_eq_true hkey, brought_key hp]

theorem get?_files_written (m : Memory) (folder : String) (files : List FileEntry)
    (k : InFolder String) :
    (m.written folder files).files.get? k =
      (((m.brought folder files).find? (·.1.key = k)).map (·.1)).or (m.files.get? k) :=
  get?_files_putAll (nodup_brought_key m folder files) k

theorem get?_blocks_written (m : Memory) (folder : String) (files : List FileEntry)
    (k : InFolder String) :
    (m.written folder files).blocks.get? k =
      ((m.brought folder files).find? (·.1.key = k)).elim (m.blocks.get? k) (·.2) :=
  get?_blocks_putAll (nodup_brought_key m folder files) k

theorem mem_files_written {r : FileRecord} (h : r ∈ (m.written folder files).files.get? k) :
    r ∈ m.files.get? k ∨ ∃ p ∈ m.brought folder files, p.1 = r ∧ p.1.key = k := by
  rw [Option.mem_def, get?_files_written] at h
  cases hfind : (m.brought folder files).find? (·.1.key = k) with
  | none =>
    rw [hfind, Option.map_none, Option.none_or] at h
    exact .inl h
  | some p =>
    rw [hfind, Option.map_some, Option.some_or] at h
    have hkey : p.1.key = k := by simpa using List.find?_some hfind
    exact .inr ⟨p, List.mem_of_find?_eq_some hfind, Option.some.inj h, hkey⟩

theorem get?_files_written_of_none (m : Memory) (files : List FileEntry)
    (h : k.folder = folder → m.taken? folder k.item files = none) :
    (m.written folder files).files.get? k = m.files.get? k ∧
      (m.written folder files).blocks.get? k = m.blocks.get? k := by
  have hfind : (m.brought folder files).find? (·.1.key = k) = none := by
    by_cases hk : k.folder = folder
    · have hmap := find?_brought m folder k.item files
      rw [h hk, Option.map_eq_none_iff, ← hk] at hmap
      rw [← hk]
      exact hmap
    · exact find?_brought_of_ne hk
  rw [get?_files_written, get?_blocks_written, hfind]
  exact ⟨rfl, rfl⟩

theorem slot_written_of_some {p : FileRecord × Option BlockList}
    (h : m.taken? folder k.item files = some p) (hk : k.folder = folder) :
    (m.written folder files).slot k = (some p.1, p.2) := by
  have hmap := find?_brought m folder k.item files
  have hkey : (⟨folder, k.item⟩ : InFolder String) = k := by rw [← hk]
  rw [h, hkey] at hmap
  obtain ⟨q, hq, rfl⟩ := Option.map_eq_some_iff.mp hmap
  rw [slot, get?_files_written, get?_blocks_written, hq]
  rfl

theorem slot_merged (m : Memory) (marker : Marker) (folder : String) (files : List FileEntry)
    (peer : DeviceId) (k : InFolder String) :
    (m.merged marker folder files).slot k =
      ((Operation.message folder peer files).offer? k).elim (m.slot k) (m.slot k).settle := by
  have hslot : (m.merged marker folder files).slot k = (m.written folder files).slot k := rfl
  rw [hslot, Operation.offer?]
  by_cases hk : k.folder = folder
  · have hkey : (⟨folder, k.item⟩ : InFolder String) = k := by rw [← hk]
    rw [if_pos hk.symm]
    cases hoff : offered? folder k.item files with
    | none =>
      have hnone : m.taken? folder k.item files = none := by rw [taken?, hoff, Option.filter_none]
      have hsame := m.get?_files_written_of_none files fun _ => hnone
      rw [slot, hsame.1, hsame.2]
      rfl
    | some p =>
      have hsup : p.1.supersedes (m.slot k).1 = p.1.supersedes (m.files.get? k) :=
        supersedes_withSequence _ _ 0
      rw [Option.elim_some, Slot.settle, hsup]
      split_ifs with hs
      · have hsome : m.taken? folder k.item files = some p :=
          taken?_eq_some_iff.mpr ⟨hoff, hkey.symm ▸ hs⟩
        exact slot_written_of_some hsome hk
      · have hnone : m.taken? folder k.item files = none := by
          rw [taken?, hoff, hkey]
          exact Option.filter_some_neg (by simpa using hs)
        have hsame := m.get?_files_written_of_none files fun _ => hnone
        rw [slot, hsame.1, hsame.2]
        rfl
  · have hsame := m.get?_files_written_of_none files fun hfolder => absurd hfolder hk
    rw [if_neg (Ne.symm hk), slot, hsame.1, hsame.2]
    rfl

theorem slot_perform {operation : Operation} (hclear : ¬operation.isClearing)
    (htake : m.TakesIn operation) (k : InFolder String) :
    (m.perform operation).slot k = (operation.offer? k).elim (m.slot k) (m.slot k).settle := by
  cases operation with
  | message folder peer files =>
    obtain ⟨marker, hmarker⟩ := Option.isSome_iff_exists.mp htake.1
    rw [perform_message_of_admits hmarker htake.2]
    exact slot_merged m marker folder files peer k
  | announcement folder peer indexId maxSequence => rfl
  | clearing draw => exact absurd rfl hclear

def TakesInAll : List Operation → Memory → Prop
  | [], _ => True
  | operation :: rest, m => m.TakesIn operation ∧ TakesInAll rest (m.perform operation)

theorem slot_run {operations : List Operation}
    (hclear : ∀ operation ∈ operations, ¬operation.isClearing) (htake : TakesInAll operations m)
    (k : InFolder String) :
    (m.run operations).slot k = (operations.filterMap (·.offer? k)).foldl Slot.settle (m.slot k) := by
  induction operations generalizing m with
  | nil => rfl
  | cons operation rest ih =>
    have hrest : ∀ o ∈ rest, ¬o.isClearing := fun o ho => hclear o (List.mem_cons_of_mem _ ho)
    have hone := slot_perform (hclear operation List.mem_cons_self) htake.1 k
    have hstep : m.run (operation :: rest) = (m.perform operation).run rest := rfl
    rw [hstep, ih hrest htake.2, hone, List.filterMap_cons]
    cases operation.offer? k <;> rfl

theorem get?_files_perform {operation : Operation} (hclear : ¬operation.isClearing)
    (hname : ¬operation.Names k) : (m.perform operation).files.get? k = m.files.get? k := by
  cases operation with
  | message folder peer files =>
    rcases m.perform_message_cases folder peer files with heq | ⟨marker, -, -, heq⟩
    · rw [heq]
    · rw [heq]
      apply (m.get?_files_written_of_none files _).1
      intro hfolder
      have hnot : k.item ∉ files.map (·.name) := fun hmem => hname ⟨hfolder.symm, hmem⟩
      rw [taken?, offered?_eq_none folder hnot, Option.filter_none]
  | announcement folder peer indexId maxSequence => rfl
  | clearing draw => exact absurd rfl hclear

theorem get?_files_run {operations : List Operation}
    (hclear : ∀ operation ∈ operations, ¬operation.isClearing)
    (hname : ∀ operation ∈ operations, ¬operation.Names k) :
    (m.run operations).files.get? k = m.files.get? k := by
  induction operations generalizing m with
  | nil => rfl
  | cons operation rest ih =>
    have hstep : m.run (operation :: rest) = (m.perform operation).run rest := rfl
    rw [hstep, ih (fun o ho => hclear o (List.mem_cons_of_mem _ ho))
      (fun o ho => hname o (List.mem_cons_of_mem _ ho)),
      get?_files_perform (hclear operation List.mem_cons_self) (hname operation List.mem_cons_self)]

end Memory

namespace Index

theorem receiveMessage_isOk_iff {i : Index} {m : Memory} (h : i.store.Holds m) {folder : String}
    {peer : DeviceId} {files : List FileEntry} (hb : ∀ f ∈ files, f.Bounded) :
    (i.receiveMessage folder peer files).1.isOk = true ↔ m.TakesIn (.message folder peer files) := by
  constructor
  · intro hok
    cases hk : m.markers.get? ⟨folder, peer⟩ with
    | none =>
      rw [receiveMessage_noMarker h hk] at hok
      cases hok
    | some marker =>
      constructor
      · rw [hk]
        rfl
      · by_contra hadm
        rw [receiveMessage_refused h hb hk hadm] at hok
        cases hok
  · rintro ⟨hsome, hadm⟩
    obtain ⟨marker, hk⟩ := Option.isSome_iff_exists.mp hsome
    rw [(receiveMessage_ok h hb hk hadm).1]
    rfl

theorem holds_taken {i : Index} {m : Memory} (h : i.store.Holds m) {folder : String}
    {peer : DeviceId} {files : List FileEntry} (hb : ∀ f ∈ files, f.Bounded) {r : Received}
    (hr : (i.receiveMessage folder peer files).1 = .ok r) :
    ∃ marker, m.markers.get? ⟨folder, peer⟩ = some marker ∧
      r = m.received marker folder files ∧
      (i.receiveMessage folder peer files).2.store.Holds (m.merged marker folder files) := by
  obtain ⟨hmarker, hadm⟩ := (receiveMessage_isOk_iff h hb).mp (by rw [hr]; rfl)
  obtain ⟨marker, hk⟩ := Option.isSome_iff_exists.mp hmarker
  obtain ⟨hreply, hafter⟩ := receiveMessage_ok h hb hk hadm
  rw [hr] at hreply
  exact ⟨marker, hk, Except.ok.inj hreply, hafter⟩

theorem succeeds_iff {i : Index} {m : Memory} (h : i.store.Holds m) {operations : List Operation}
    (hb : ∀ operation ∈ operations, operation.Bounded) :
    Succeeds operations i ↔ Memory.TakesInAll operations m := by
  induction operations generalizing i m with
  | nil => exact Iff.rfl
  | cons operation rest ih =>
    have hfirst := hb operation List.mem_cons_self
    have hrest := ih (holds_perform h hfirst) fun o ho => hb o (List.mem_cons_of_mem _ ho)
    cases operation with
    | message folder peer files => exact and_congr (receiveMessage_isOk_iff h hfirst) hrest
    | announcement folder peer indexId maxSequence =>
      exact hrest.trans (iff_and_self.mpr fun _ => trivial)
    | clearing draw => exact hrest.trans (iff_and_self.mpr fun _ => trivial)

end Index

end BlockExchange
