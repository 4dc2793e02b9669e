import BlockExchange.Proofs.Index.LastWriter
import Mathlib

namespace BlockExchange

open Index

namespace Index

def acceptedEntries (folder : String) (old : Table String FileRecord) (files : List FileEntry) :
    List FileEntry :=
  (latestByPath files).filter fun f =>
    (f.prepare? folder 0).any fun p => p.1.supersedes (old.get? p.1.path)

structure IsStamped (folder : String) (start : Int) (entries : List FileEntry)
    (records : List FileRecord) : Prop where
  ascending : entries.Pairwise fun f g => f.sequence ≤ g.sequence
  distinct : (entries.map (·.name)).Nodup
  consecutive : records.map (·.sequence) = (List.range records.length).map fun n : Nat => start + n
  prepared : entries.Forall₂ (fun f r => ∃ blocks, f.prepare? folder r.sequence = some (r, blocks))
    records

variable {folder : String} {old : Table String FileRecord} {files : List FileEntry}

theorem pairwise_latestByPath (files : List FileEntry) :
    (latestByPath files).Pairwise fun f g => f.sequence ≤ g.sequence := by
  have hsorted := List.pairwise_mergeSort sequence_le_trans sequence_le_total files
  exact (hsorted.sublist (keepLast_sublist _)).imp fun h => of_decide_eq_true h

theorem forall₂_accepted (folder : String) (old : Table String FileRecord) (files : List FileEntry) :
    (acceptedEntries folder old files).Forall₂ (fun f p => f.prepare? folder 0 = some p)
      (accepted folder old files) := by
  unfold acceptedEntries accepted
  induction latestByPath files with
  | nil => exact .nil
  | cons f rest ih =>
    rw [List.filterMap_cons, List.filter_cons]
    cases hp : f.prepare? folder 0 with
    | none => exact ih
    | some p =>
      rw [List.filter_cons, Option.any_some]
      split_ifs
      · exact .cons hp ih
      · exact ih

theorem forall₂_stamp {entries : List FileEntry} {pairs : List (FileRecord × Option BlockList)}
    (h : entries.Forall₂ (fun f p => f.prepare? folder 0 = some p) pairs) (start : Int) :
    entries.Forall₂ (fun f p => f.prepare? folder p.1.sequence = some p) (stamp start pairs) := by
  induction h generalizing start with
  | nil => exact .nil
  | cons hp _ ih =>
    refine .cons ?_ (ih _)
    rw [FileEntry.prepare?_withSequence, hp]
    rfl

theorem map_sequence_stamp (start : Int) (pairs : List (FileRecord × Option BlockList)) :
    (stamp start pairs).map (·.1.sequence) =
      (List.range pairs.length).map fun n : Nat => start + n := by
  induction pairs generalizing start with
  | nil => rfl
  | cons p rest ih =>
    rw [stamp, List.map_cons, ih, List.length_cons, List.range_succ_eq_map, List.map_cons,
      List.map_map]
    congr 1
    · exact (Int.add_zero start).symm
    · apply List.map_congr_left
      intro n _
      simp only [Function.comp_apply, Nat.cast_succ]
      omega

theorem length_stamp (start : Int) (pairs : List (FileRecord × Option BlockList)) :
    (stamp start pairs).length = pairs.length := by
  have h := congrArg List.length (map_sequence_stamp start pairs)
  simpa only [List.length_map, List.length_range] using h

theorem nodup_sequence_stamp (start : Int) (pairs : List (FileRecord × Option BlockList)) :
    ((stamp start pairs).map (·.1.sequence)).Nodup := by
  rw [map_sequence_stamp]
  apply List.nodup_range.map
  intro a b h
  exact Int.ofNat_inj.mp (Int.add_left_cancel h)

theorem sequence_of_mem_stamp {start : Int} {pairs : List (FileRecord × Option BlockList)}
    {p : FileRecord × Option BlockList} (h : p ∈ stamp start pairs) :
    start ≤ p.1.sequence ∧ p.1.sequence < start + pairs.length := by
  have hmem : p.1.sequence ∈ (stamp start pairs).map (·.1.sequence) :=
    List.mem_map.mpr ⟨p, h, rfl⟩
  rw [map_sequence_stamp] at hmem
  obtain ⟨n, hn, heq⟩ := List.mem_map.mp hmem
  have hlt := List.mem_range.mp hn
  omega

end Index

namespace Memory

variable {m : Memory} {folder : String} {files : List FileEntry} {k : InFolder String}
  {r : FileRecord}

/-- Every record has a number of its own that was given out. -/
structure Numbered (m : Memory) : Prop where
  start : 0 ≤ m.sequence
  range : ∀ k, ∀ r ∈ m.files.get? k, 1 ≤ r.sequence ∧ r.sequence ≤ m.sequence
  injective : ∀ k k', ∀ r ∈ m.files.get? k, ∀ r' ∈ m.files.get? k', r.sequence = r'.sequence → k = k'

theorem numbered_fresh (draw : UInt64) : (fresh draw).Numbered where
  start := Int.le_refl 0
  range _ _ h := nomatch h
  injective _ _ _ h := nomatch h

theorem mem_files_of_brought {p : FileRecord × Option BlockList} (h : p ∈ m.brought folder files) :
    p.1 ∈ (m.written folder files).files.get? p.1.key := by
  rw [get?_files_written, find?_eq_some_of_nodup (nodup_brought_key m folder files) h]
  rfl

theorem sequence_of_mem_brought {p : FileRecord × Option BlockList}
    (h : p ∈ m.brought folder files) :
    m.sequence < p.1.sequence ∧ p.1.sequence ≤ (m.written folder files).sequence := by
  have hrange := sequence_of_mem_stamp h
  have hseq : (m.written folder files).sequence = m.sequence + (m.taken folder files).length := rfl
  omega

theorem Numbered.written (h : m.Numbered) (folder : String) (files : List FileEntry) :
    (m.written folder files).Numbered := by
  have hseq : (m.written folder files).sequence = m.sequence + (m.taken folder files).length := rfl
  have hstart := h.start
  constructor
  · omega
  · intro k r hr
    rcases mem_files_written hr with hold | ⟨p, hp, rfl, -⟩
    · have hrange := h.range k r hold
      omega
    · have hnew := sequence_of_mem_brought hp
      omega
  · intro k k' r hr r' hr' heq
    rcases mem_files_written hr with hold | ⟨p, hp, rfl, rfl⟩ <;>
      rcases mem_files_written hr' with hold' | ⟨p', hp', rfl, rfl⟩
    · exact h.injective k k' r hold r' hold' heq
    · have hrange := h.range k r hold
      have hnew := sequence_of_mem_brought hp'
      omega
    · have hnew := sequence_of_mem_brought hp
      have hrange := h.range k' r' hold'
      omega
    · rw [List.inj_on_of_nodup_map (nodup_sequence_stamp _ _) hp hp' heq]

theorem Numbered.perform (h : m.Numbered) (operation : Operation) : (m.perform operation).Numbered := by
  cases operation with
  | message folder peer files =>
    rcases m.perform_message_cases folder peer files with heq | ⟨marker, -, -, heq⟩
    · rw [heq]
      exact h
    · rw [heq]
      have hw := h.written folder files
      exact ⟨hw.start, hw.range, hw.injective⟩
  | announcement folder peer indexId maxSequence => exact ⟨h.start, h.range, h.injective⟩
  | clearing draw => exact numbered_fresh draw

theorem Numbered.run (h : m.Numbered) (operations : List Operation) : (m.run operations).Numbered := by
  induction operations generalizing m with
  | nil => exact h
  | cons operation rest ih => exact ih (h.perform operation)

theorem Numbered.exists_file_perform (h : m.Numbered) {operation : Operation}
    (hclear : ¬operation.isClearing) (hr : r ∈ m.files.get? k) :
    ∃ r' ∈ (m.perform operation).files.get? k, r' = r ∨ r.sequence < r'.sequence := by
  cases operation with
  | message folder peer files =>
    rcases m.perform_message_cases folder peer files with heq | ⟨marker, -, -, heq⟩
    · rw [heq]
      exact ⟨r, hr, .inl rfl⟩
    · rw [heq]
      have hget : (m.merged marker folder files).files.get? k = _ :=
        m.get?_files_written folder files k
      rw [hget]
      cases hfind : (m.brought folder files).find? (·.1.key = k) with
      | none => exact ⟨r, hr, .inl rfl⟩
      | some p =>
        -- New numbers lie behind all that have been given out.
        have hnew := sequence_of_mem_brought (List.mem_of_find?_eq_some hfind)
        have hrange := h.range k r hr
        exact ⟨p.1, rfl, .inr (by omega)⟩
  | announcement folder peer indexId maxSequence => exact ⟨r, hr, .inl rfl⟩
  | clearing draw => exact absurd rfl hclear

theorem Numbered.exists_file_run (h : m.Numbered) {operations : List Operation}
    (hclear : ∀ operation ∈ operations, ¬operation.isClearing) (hr : r ∈ m.files.get? k) :
    ∃ r' ∈ (m.run operations).files.get? k, r' = r ∨ r.sequence < r'.sequence := by
  induction operations generalizing m r with
  | nil => exact ⟨r, hr, .inl rfl⟩
  | cons operation rest ih =>
    obtain ⟨r₁, hr₁, hone⟩ := h.exists_file_perform (hclear operation List.mem_cons_self) hr
    obtain ⟨r₂, hr₂, htwo⟩ := ih (h.perform operation)
      (fun o ho => hclear o (List.mem_cons_of_mem _ ho)) hr₁
    refine ⟨r₂, hr₂, ?_⟩
    rcases hone with rfl | hone
    · exact htwo
    · rcases htwo with rfl | htwo
      · exact .inr hone
      · exact .inr (Int.lt_trans hone htwo)

theorem isStamped_brought (m : Memory) (folder : String) (files : List FileEntry) :
    IsStamped folder (m.sequence + 1)
      (acceptedEntries folder (m.records folder (files.map (·.name))) files)
      ((m.brought folder files).map (·.1)) where
  ascending := (pairwise_latestByPath files).sublist List.filter_sublist
  distinct := (nodup_latestByPath files).sublist (List.filter_sublist.map _)
  consecutive := by
    rw [List.map_map, List.length_map, brought, length_stamp]
    exact map_sequence_stamp _ _
  prepared := by
    rw [List.forall₂_map_right_iff]
    exact (forall₂_stamp (forall₂_accepted folder _ files) _).imp fun _ p hp => ⟨p.2, hp⟩

theorem mem_acceptedEntries {f : FileEntry} :
    f ∈ acceptedEntries folder (m.records folder (files.map (·.name))) files ↔
      newest? f.name files = some f ∧ ∃ p, f.prepare? folder 0 = some p ∧
        p.1.supersedes (m.files.get? ⟨folder, f.name⟩) := by
  rw [acceptedEntries, List.mem_filter, mem_latestByPath, Option.any_eq_true]
  apply and_congr_right
  intro hnew
  have hname : f.name ∈ files.map (·.name) := List.mem_map_of_mem (mem_of_newest? hnew)
  apply exists_congr
  intro p
  apply and_congr_right
  intro hp
  have hpath : p.1.path = f.name := congrArg InFolder.item (FileEntry.prepare?_key hp)
  rw [hpath, get?_records, if_pos hname]

end Memory

theorem Store.Holds.mem_acceptedEntries {s : Store} {m : Memory} (h : s.Holds m) {folder : String}
    {files : List FileEntry} {f : FileEntry} :
    f ∈ acceptedEntries folder (m.records folder (files.map (·.name))) files ↔
      newest? f.name files = some f ∧ ∃ p old, f.prepare? folder 0 = some p ∧
        (s.answer (.file folder f.name)).1 = .ok old ∧ p.1.supersedes old := by
  rw [Memory.mem_acceptedEntries]
  apply and_congr_right
  intro _
  apply exists_congr
  intro p
  simp only [h.file_eq, Except.ok.injEq, exists_and_left, exists_eq_left']

namespace Index

theorem receiveMessage_stamps {i : Index} {m : Memory} (h : i.store.Holds m) (hm : m.Numbered)
    {folder : String} {peer : DeviceId} {files : List FileEntry} (hf : ∀ f ∈ files, f.Bounded)
    {r : Received} (hr : (i.receiveMessage folder peer files).1 = .ok r) :
    ((i.receiveMessage folder peer files).2.store.answer .sequence).1 =
        .ok (m.sequence + r.updated.length) ∧
      (∀ u ∈ r.updated, (i.receiveMessage folder peer files).2.store.Keeps folder u.path u ∧
        ∀ old, i.store.Keeps folder u.path old → old.sequence < u.sequence) ∧
      ∃ entries, IsStamped folder (m.sequence + 1) entries r.updated ∧
        ∀ f, f ∈ entries ↔ newest? f.name files = some f ∧
          ∃ p old, f.prepare? folder 0 = some p ∧
            (i.store.answer (.file folder f.name)).1 = .ok old ∧ p.1.supersedes old := by
  obtain ⟨marker, -, rfl, hafter⟩ := holds_taken h hf hr
  have hlength : (m.received marker folder files).updated.length = (m.taken folder files).length := by
    rw [Memory.received, List.length_map, Memory.brought, length_stamp]
  refine ⟨?_, ?_, _, m.isStamped_brought folder files, fun f => h.mem_acceptedEntries⟩
  · rw [hafter.sequence_eq, hlength]
    rfl
  · intro u hu
    obtain ⟨p, hp, rfl⟩ := List.mem_map.mp hu
    have hkey := Memory.brought_key hp
    constructor
    · exact hafter.keeps_iff.mpr (hkey ▸ Memory.mem_files_of_brought hp)
    · intro old hold
      have hrange := hm.range _ old (h.keeps_iff.mp hold)
      have hnew := Memory.sequence_of_mem_brought hp
      omega

/-- The records of an index have local sequence numbers of their own, up to the one given out last.
A message that is taken in gives out the numbers behind it, one for each record that it brings and in
the order in which the peer numbered them; a message that is refused gives out none. Until the index
is forgotten, a path only ever gets higher numbers. -/
theorem sequences_distinct_and_ascending {backend : Backend} {draw : UInt64} {store : Store}
    (hs : Store.create backend draw = .ok store) {operations : List Operation}
    (hb : ∀ operation ∈ operations, operation.Bounded) :
    let i := run { store } operations
    ∃ current : Int, (i.store.answer .sequence).1 = .ok current ∧
      (∀ folder path r, i.store.Keeps folder path r → 1 ≤ r.sequence ∧ r.sequence ≤ current) ∧
      (∀ folder path r folder' path' r', i.store.Keeps folder path r →
        i.store.Keeps folder' path' r' → r.sequence = r'.sequence → folder = folder' ∧ path = path') ∧
      (∀ folder peer (files : List FileEntry), (∀ f ∈ files, f.Bounded) →
        (∀ e, (i.receiveMessage folder peer files).1 = .error e →
          ((i.receiveMessage folder peer files).2.store.answer .sequence).1 = .ok current) ∧
        ∀ r, (i.receiveMessage folder peer files).1 = .ok r →
          ((i.receiveMessage folder peer files).2.store.answer .sequence).1 =
              .ok (current + r.updated.length) ∧
            (∀ u ∈ r.updated, (i.receiveMessage folder peer files).2.store.Keeps folder u.path u ∧
              ∀ old, i.store.Keeps folder u.path old → old.sequence < u.sequence) ∧
            ∃ entries, IsStamped folder (current + 1) entries r.updated ∧
              ∀ f, f ∈ entries ↔ newest? f.name files = some f ∧
                ∃ p old, f.prepare? folder 0 = some p ∧
                  (i.store.answer (.file folder f.name)).1 = .ok old ∧ p.1.supersedes old) ∧
      ∀ first rest, operations = first ++ rest → (∀ operation ∈ rest, ¬operation.isClearing) →
        ∀ folder path r, (run { store } first).store.Keeps folder path r →
          ∃ r', i.store.Keeps folder path r' ∧ (r' = r ∨ r.sequence < r'.sequence) := by
  intro i
  have hholds : i.store.Holds ((Memory.fresh draw).run operations) := holds_run_of_create hs hb
  have hnumbered := (Memory.numbered_fresh draw).run operations
  refine ⟨_, hholds.sequence_eq, ?_, ?_, ?_, ?_⟩
  · intro folder path r hr
    exact hnumbered.range _ r (hholds.keeps_iff.mp hr)
  · intro folder path r folder' path' r' hr hr' heq
    have hkey := hnumbered.injective _ _ r (hholds.keeps_iff.mp hr) r' (hholds.keeps_iff.mp hr') heq
    exact InFolder.mk.inj hkey
  · intro folder peer files hf
    refine ⟨?_, fun r hr => receiveMessage_stamps hholds hnumbered hf hr⟩
    intro e he
    rw [receiveMessage_of_error he]
    exact hholds.sequence_eq
  · rintro first rest rfl hclear folder path r hr
    have hbfirst : ∀ o ∈ first, o.Bounded := fun o ho => hb o (List.mem_append_left _ ho)
    rw [Memory.run_append] at hholds
    obtain ⟨r', hr', hstep⟩ := ((Memory.numbered_fresh draw).run first).exists_file_run hclear
      ((holds_run_of_create hs hbfirst).keeps_iff.mp hr)
    exact ⟨r', hholds.keeps_iff.mpr hr', hstep⟩

theorem sequences_distinct_and_ascending_directories :
    let operations : List Operation :=
      [.announcement "photos" .zero 7 2,
       .message "photos" .zero [.directory "winter" 11 2, .directory "summer" 10 1]]
    let files : List FileEntry :=
      [.directory "summer" 12 5, .directory "winter" 9 4, .directory "spring" 3 3]
    let i := run { store := .memory (.fresh 5) } operations
    ∃ r, (i.receiveMessage "photos" .zero files).1 = .ok r ∧
      r.updated.map (·.sequence) = [3, 4] ∧
      ((i.receiveMessage "photos" .zero files).2.store.answer .sequence).1 = .ok 4 := by
  intro operations files i
  have hs : Store.create .memory 5 = .ok (.memory (.fresh 5)) := rfl
  have hb : ∀ operation ∈ operations, operation.Bounded := by decide
  have hf : ∀ f ∈ files, f.Bounded := by decide
  obtain ⟨current, hcurrent, -, -, hmessage, -⟩ := sequences_distinct_and_ascending hs hb
  have hnow : (i.store.answer .sequence).1 = .ok 2 := by
    unfold i operations
    cbv
  obtain rfl : current = 2 := Except.ok.inj (hcurrent.symm.trans hnow)
  have hlength : (i.receiveMessage "photos" .zero files).1.map (·.updated.length) = .ok 2 := by
    unfold files i operations
    cbv
  cases hr : (i.receiveMessage "photos" .zero files).1 with
  | error e =>
    rw [hr] at hlength
    cases hlength
  | ok r =>
    rw [hr] at hlength
    have htwo : r.updated.length = 2 := Except.ok.inj hlength
    obtain ⟨hsequence, -, entries, hstamped, -⟩ := (hmessage "photos" .zero files hf).2 r hr
    rw [htwo] at hsequence
    refine ⟨r, rfl, ?_, hsequence⟩
    rw [hstamped.consecutive, htwo]
    rfl

end Index

end BlockExchange
