import BlockExchange.Proofs.Index.Slot

namespace BlockExchange

open Index

namespace Index

def deliveries (folder : String) (messages : List (DeviceId × List FileEntry)) : List Operation :=
  messages.map fun x => .message folder x.1 x.2

def Operation.SizesNonneg : Operation → Prop
  | message _ _ files => ∀ f ∈ files, ∀ b ∈ f.blocks, 0 ≤ b.size
  | _ => True

instance (operation : Operation) : Decidable operation.SizesNonneg :=
  match operation with
  | .message _ _ files => inferInstanceAs (Decidable (∀ f ∈ files, ∀ b ∈ f.blocks, 0 ≤ b.size))
  | .announcement .. => isTrue trivial
  | .clearing _ => isTrue trivial

def Operation.seen? (k : InFolder DeviceId) : Operation → Option Int
  | message folder peer files =>
    if k = ⟨folder, peer⟩ then (files.map (·.sequence.toInt)).max? else none
  | _ => none

theorem mem_deliveries {folder : String} {messages : List (DeviceId × List FileEntry)}
    {operation : Operation} :
    operation ∈ deliveries folder messages ↔
      ∃ x ∈ messages, .message folder x.1 x.2 = operation :=
  List.mem_map

end Index

theorem Marker.upTo_upTo (k : Marker) (a b : Int) : (k.upTo a).upTo b = k.upTo (max a b) := by
  simp only [upTo, max_assoc]

theorem FileRecord.liveSize_nonneg {records : List FileRecord}
    (h : ∀ r ∈ records, 0 ≤ (Weight.ofRecord r).size) : 0 ≤ liveSize records := by
  induction records with
  | nil => exact Int.le_refl 0
  | cons r rest ih =>
    have hr := h r List.mem_cons_self
    have hrest := ih fun r' hr' => h r' (List.mem_cons_of_mem _ hr')
    rw [liveSize_cons]
    omega

namespace Memory

def SizesNonneg (m : Memory) : Prop :=
  ∀ k, ∀ r ∈ m.files.get? k, 0 ≤ (Weight.ofRecord r).size

variable {m : Memory} {folder : String} {peer : DeviceId} {files : List FileEntry} {marker : Marker}

theorem sizesNonneg_fresh (draw : UInt64) : (fresh draw).SizesNonneg := by
  intro k r hr
  cases hr

theorem SizesNonneg.written (h : m.SizesNonneg)
    (hf : ∀ f ∈ files, ∀ b ∈ f.blocks, 0 ≤ b.size) : (m.written folder files).SizesNonneg := by
  intro k r hr
  rcases mem_files_written hr with hold | ⟨p, hp, rfl, -⟩
  · exact h k r hold
  · obtain ⟨path, q, n, hq, rfl⟩ := exists_of_mem_brought hp
    obtain ⟨f, hnew, hprep⟩ := offered?_eq_some_iff.mp (taken?_eq_some_iff.mp hq).1
    rw [Weight.ofRecord_withSequence]
    exact FileEntry.size_nonneg_of_prepare? (hf f (mem_of_newest? hnew)) hprep

theorem SizesNonneg.perform (h : m.SizesNonneg) {operation : Operation}
    (ho : operation.SizesNonneg) : (m.perform operation).SizesNonneg := by
  cases operation with
  | message folder peer files =>
    rcases m.perform_message_cases folder peer files with heq | ⟨marker, -, -, heq⟩
    · rw [heq]
      exact h
    · rw [heq]
      exact h.written ho
  | announcement folder peer indexId maxSequence => exact h
  | clearing draw => exact sizesNonneg_fresh draw

theorem SizesNonneg.run (h : m.SizesNonneg) {operations : List Operation}
    (ho : ∀ operation ∈ operations, operation.SizesNonneg) : (m.run operations).SizesNonneg := by
  induction operations generalizing m with
  | nil => exact h
  | cons operation rest ih =>
    exact ih (h.perform (ho operation List.mem_cons_self))
      fun o hmem => ho o (List.mem_cons_of_mem _ hmem)

theorem Balanced.admits (h : m.Balanced) (hk : m.IsWellKeyed) (hn : m.SizesNonneg)
    (hf : ∀ f ∈ files, ∀ b ∈ f.blocks, 0 ≤ b.size) : m.Admits folder files := by
  apply (h.admits_iff hk folder files).mpr
  apply FileRecord.liveSize_nonneg
  intro r hr
  obtain ⟨k, hget⟩ := Table.exists_get?_of_mem_values (List.mem_filter.mp hr).1
  exact hn.written hf k r hget

theorem advanced_eq_of_le
    (h : (advanced marker files).localSequence ≤ marker.localSequence) :
    advanced marker files = marker := by
  cases hmax : (files.map (·.sequence.toInt)).max? with
  | none => rw [advanced, hmax]
  | some newest =>
    have hadv : advanced marker files = marker.upTo newest := by rw [advanced, hmax]
    rw [hadv] at h ⊢
    have hle : max marker.localSequence newest ≤ marker.localSequence := h
    rw [Marker.upTo, max_eq_left (le_trans (le_max_right _ _) hle)]

theorem get?_markers_merged (hk : m.markers.get? marker.key = some marker)
    (k : InFolder DeviceId) :
    (m.merged marker folder files).markers.get? k =
      if k = marker.key then some (advanced marker files) else m.markers.get? k := by
  by_cases hle : (advanced marker files).localSequence ≤ marker.localSequence
  · have hsame := advanced_eq_of_le hle
    have hmarkers : (m.merged marker folder files).markers = m.markers := if_pos hle
    rw [hmarkers, hsame]
    split_ifs with hkey
    · rw [hkey, hk]
    · rfl
  · have hmarkers : (m.merged marker folder files).markers =
        m.markers.insert marker.key (advanced marker files) := if_neg hle
    rw [hmarkers, Table.get?_insert]

theorem get?_markers_perform (hkeyed : m.IsWellKeyed)
    (htake : m.TakesIn (.message folder peer files)) (k : InFolder DeviceId) :
    (m.perform (.message folder peer files)).markers.get? k =
      (m.markers.get? k).map fun marker =>
        ((Operation.message folder peer files).seen? k).elim marker marker.upTo := by
  obtain ⟨marker, hk⟩ := Option.isSome_iff_exists.mp htake.1
  have hkey : marker.key = ⟨folder, peer⟩ := hkeyed.markers.key_of_get? hk
  rw [perform_message_of_admits hk htake.2, get?_markers_merged (hkey ▸ hk), hkey]
  by_cases hkk : k = ⟨folder, peer⟩
  · rw [if_pos hkk, hkk, hk, Option.map_some, Operation.seen?, if_pos rfl, advanced]
    cases (files.map (·.sequence.toInt)).max? <;> rfl
  · rw [if_neg hkk, Operation.seen?, if_neg hkk]
    exact Option.map_id'.symm

theorem get?_markers_run {i : Index} (h : i.store.Holds m)
    {messages : List (DeviceId × List FileEntry)}
    (hb : ∀ operation ∈ deliveries folder messages, operation.Bounded)
    (htake : TakesInAll (deliveries folder messages) m) (k : InFolder DeviceId) :
    (m.run (deliveries folder messages)).markers.get? k =
      (m.markers.get? k).map fun marker =>
        ((deliveries folder messages).filterMap (·.seen? k)).foldl Marker.upTo marker := by
  induction messages generalizing i m with
  | nil => exact Option.map_id'.symm
  | cons x rest ih =>
    have hnext := holds_perform h (hb _ List.mem_cons_self)
    have hcons : deliveries folder (x :: rest) =
        .message folder x.1 x.2 :: deliveries folder rest := rfl
    have hstep : m.run (deliveries folder (x :: rest)) =
        (m.perform (.message folder x.1 x.2)).run (deliveries folder rest) := rfl
    rw [hstep, ih hnext (fun o ho => hb o (List.mem_cons_of_mem _ ho)) htake.2,
      get?_markers_perform h.keyed htake.1, Option.map_map]
    congr 1
    funext marker
    rw [hcons, List.filterMap_cons]
    cases (Operation.message folder x.1 x.2).seen? k <;> rfl

theorem takesInAll_deliveries {i : Index} (h : i.store.Holds m) (hbal : m.Balanced)
    (hn : m.SizesNonneg) {messages : List (DeviceId × List FileEntry)}
    (hb : ∀ operation ∈ deliveries folder messages, operation.Bounded)
    (ho : ∀ operation ∈ deliveries folder messages, operation.SizesNonneg)
    (hknown : ∀ x ∈ messages, (m.markers.get? ⟨folder, x.1⟩).isSome) :
    TakesInAll (deliveries folder messages) m := by
  induction messages generalizing i m with
  | nil => trivial
  | cons x rest ih =>
    have htake : m.TakesIn (.message folder x.1 x.2) :=
      ⟨hknown x List.mem_cons_self, hbal.admits h.keyed hn (ho _ List.mem_cons_self)⟩
    constructor
    · exact htake
    apply ih (holds_perform h (hb _ List.mem_cons_self)) (hbal.perform h.keyed _)
      (hn.perform (ho _ List.mem_cons_self))
    · intro operation hmem
      exact hb operation (List.mem_cons_of_mem _ hmem)
    · intro operation hmem
      exact ho operation (List.mem_cons_of_mem _ hmem)
    · -- A message moves markers, and removes none.
      intro y hy
      rw [get?_markers_perform h.keyed htake, Option.isSome_map]
      exact hknown y (List.mem_cons_of_mem _ hy)

end Memory

end BlockExchange
