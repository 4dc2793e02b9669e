import BlockExchange.Proofs.Database.Rows
import BlockExchange.Proofs.Memory
import BlockExchange.Store.Database.Answer
/-!
A database and a memory with the same contents: `Represents`. Each way to read a table answers what
memory holds, and each way to write one keeps the two together.
-/

namespace BlockExchange

namespace Database

section Rows

variable {κ ν ρ : Type} [Ord κ] [DecidableEq κ] [Std.TransOrd κ] [Std.LawfulEqOrd κ]

def IsRowsOf (toRow : ν → ρ) (rows : List ρ) (t : Table κ ν) : Prop :=
  ∃ values : List ν, rows = values.map toRow ∧ values.Perm t.values

variable {toRow : ν → ρ} {rows : List ρ} {t : Table κ ν} {key : ν → κ} {k : κ} {p : ρ → Bool}

omit [DecidableEq κ] [Std.TransOrd κ] [Std.LawfulEqOrd κ] in
theorem isRowsOf_empty (toRow : ν → ρ) : IsRowsOf toRow [] (∅ : Table κ ν) := ⟨[], rfl, .nil⟩

omit [Std.TransOrd κ] in
theorem IsRowsOf.find?_eq (h : IsRowsOf toRow rows t) (hk : t.IsKeyedBy key)
    (hp : ∀ v, p (toRow v) = decide (key v = k)) : rows.find? p = (t.get? k).map toRow := by
  obtain ⟨values, rfl, hperm⟩ := h
  have he : p ∘ toRow = fun v => decide (key v = k) := funext hp
  rw [List.find?_map, he, hk.find?_eq_get? hperm]

omit [Std.TransOrd κ] [Std.LawfulEqOrd κ] in
theorem IsRowsOf.erase (h : IsRowsOf toRow rows t) (hk : t.IsKeyedBy key)
    (hp : ∀ v, p (toRow v) = decide (key v = k)) :
    IsRowsOf toRow (rows.filter fun row => !p row) (t.erase k) := by
  obtain ⟨values, rfl, hperm⟩ := h
  use values.filter fun v => k ≠ key v
  constructor
  · rw [List.filter_map]
    congr 1
    apply List.filter_congr
    intro v _
    simp [hp, eq_comm]
  · rw [hk.values_erase]
    exact hperm.filter _

theorem IsRowsOf.replace (h : IsRowsOf toRow rows t) (hk : t.IsKeyedBy key)
    (hp : ∀ v, p (toRow v) = decide (key v = k)) (v : ν) :
    IsRowsOf toRow (Tables.replace p (toRow v) rows) (t.insert k v) := by
  obtain ⟨values, hrows, hperm⟩ := h.erase hk hp
  use values ++ [v]
  constructor
  · rw [Tables.replace, hrows, List.map_append, List.map_singleton]
  · exact (List.perm_append_singleton v values).trans
      ((hperm.cons v).trans (t.values_insert k v).symm)

end Rows

theorem isMarkerOf_ofMarker (folder : String) (device : DeviceId) (m : Marker) :
    Tables.isMarkerOf folder device.toHex (.ofMarker m) = decide (m.key = ⟨folder, device⟩) := by
  rw [Bool.eq_iff_iff]
  simp [Tables.isMarkerOf, MarkerRow.ofMarker, Marker.key, DeviceId.toHex_injective.eq_iff]

theorem isFileAt_ofRecord (folder path : String) (r : FileRecord) :
    Tables.isFileAt folder path (.ofRecord r) = decide (r.key = ⟨folder, path⟩) := by
  rw [Bool.eq_iff_iff]
  simp [Tables.isFileAt, FileRow.ofRecord, FileRecord.key]

theorem isBlocksAt_ofBlockList (folder path : String) (b : BlockList) :
    Tables.isBlocksAt folder path (.ofBlockList b) = decide (b.key = ⟨folder, path⟩) := by
  rw [Bool.eq_iff_iff]
  simp [Tables.isBlocksAt, BlocksRow.ofBlockList, BlockList.key]

structure Tables.Represents (t : Tables) (m : Memory) : Prop where
  keyed : m.IsWellKeyed
  sequence : t.sequence.current = m.sequence
  markers : IsRowsOf MarkerRow.ofMarker t.markers m.markers
  files : IsRowsOf FileRow.ofRecord t.files m.files
  blocks : IsRowsOf BlocksRow.ofBlockList t.blocks m.blocks
  stats : IsRowsOf id t.stats m.stats
  filesFit : ∀ r ∈ m.files.values, r.Storable
  blocksFit : ∀ b ∈ m.blocks.values, b.Storable

theorem represents_fresh (draw draw' : UInt64) : (Tables.fresh draw).Represents (.fresh draw') where
  keyed := ⟨Table.isKeyedBy_empty _, Table.isKeyedBy_empty _, Table.isKeyedBy_empty _,
    Table.isKeyedBy_empty _⟩
  sequence := rfl
  markers := isRowsOf_empty _
  files := isRowsOf_empty _
  blocks := isRowsOf_empty _
  stats := isRowsOf_empty _
  filesFit := fun _ h => nomatch h
  blocksFit := fun _ h => nomatch h

namespace Tables.Represents

variable {t : Tables} {m : Memory}

theorem marker_eq (h : t.Represents m) (folder : String) (device : DeviceId) :
    t.marker folder device = .ok (m.markers.get? ⟨folder, device⟩) := by
  rw [Tables.marker, h.markers.find?_eq h.keyed.markers (isMarkerOf_ofMarker folder device)]
  cases m.markers.get? ⟨folder, device⟩ with
  | none => rfl
  | some k => simp [MarkerRow.toMarker_ofMarker, Except.map]

theorem file_eq (h : t.Represents m) (folder path : String) :
    t.file folder path = .ok (m.files.get? ⟨folder, path⟩) := by
  rw [Tables.file, h.files.find?_eq h.keyed.files (isFileAt_ofRecord folder path)]
  cases hg : m.files.get? ⟨folder, path⟩ with
  | none => rfl
  | some r =>
    have hr : r ∈ m.files.values := h.keyed.files.mem_values.mpr (h.keyed.files.key_of_get? hg ▸ hg)
    simp [FileRow.toRecord_ofRecord (h.filesFit r hr), Except.map]

theorem blockList_eq (h : t.Represents m) (folder path : String) :
    t.blockList folder path = .ok (m.blocks.get? ⟨folder, path⟩) := by
  rw [Tables.blockList, h.blocks.find?_eq h.keyed.blocks (isBlocksAt_ofBlockList folder path)]
  cases hg : m.blocks.get? ⟨folder, path⟩ with
  | none => rfl
  | some b =>
    have hb : b ∈ m.blocks.values :=
      h.keyed.blocks.mem_values.mpr (h.keyed.blocks.key_of_get? hg ▸ hg)
    simp [BlocksRow.toBlockList_ofBlockList (h.blocksFit b hb), Except.map]

theorem statsOf_eq (h : t.Represents m) (folder : String) :
    t.statsOf folder = m.stats.get? folder := by
  rw [Tables.statsOf, h.stats.find?_eq h.keyed.stats (k := folder) (fun s => by simp), Option.map_id,
    id]

theorem putMarker (h : t.Represents m) (k : Marker) :
    (t.putMarker k).Represents { m with markers := m.markers.insert ⟨k.folder, k.device⟩ k } :=
  { h with
    keyed := { h.keyed with markers := h.keyed.markers.insert k }
    markers := h.markers.replace h.keyed.markers (isMarkerOf_ofMarker k.folder k.device) k }

theorem putFile (h : t.Represents m) {r : FileRecord} {blocks : Option BlockList} (hr : r.Storable)
    (hb : ∀ b ∈ blocks, b.Storable) (hk : ∀ b ∈ blocks, b.key = r.key) :
    (t.putFile r blocks).Represents (m.putFile r blocks) := by
  have hfiles := h.files.replace h.keyed.files (isFileAt_ofRecord r.folder r.path) r
  have hkeyed := h.keyed.files.insert r
  have hfit : ∀ r' ∈ (m.files.insert r.key r).values, r'.Storable := by
    intro r' hr'
    rcases Table.mem_values_of_insert hr' with rfl | hr'
    · exact hr
    · exact h.filesFit r' hr'
  cases blocks with
  | none =>
    exact { h with
      keyed := { h.keyed with files := hkeyed, blocks := h.keyed.blocks.erase _ }
      files := hfiles
      blocks := h.blocks.erase h.keyed.blocks (isBlocksAt_ofBlockList r.folder r.path)
      filesFit := hfit
      blocksFit := fun b hmem => h.blocksFit b (Table.mem_values_of_erase hmem) }
  | some b =>
    have hkey : b.key = r.key := hk b rfl
    have hblocks := h.blocks.replace h.keyed.blocks (isBlocksAt_ofBlockList b.folder b.path) b
    have hbkeyed := h.keyed.blocks.insert b
    have hbfit : ∀ b' ∈ (m.blocks.insert b.key b).values, b'.Storable := by
      intro b' hb'
      rcases Table.mem_values_of_insert hb' with rfl | hb'
      · exact hb b' rfl
      · exact h.blocksFit b' hb'
    have hput : m.putFile r (some b) =
        { m with files := m.files.insert r.key r, blocks := m.blocks.insert b.key b } := by
      rw [hkey]
      rfl
    rw [hput]
    exact { h with
      keyed := { h.keyed with files := hkeyed, blocks := hbkeyed }
      files := hfiles
      blocks := hblocks
      filesFit := hfit
      blocksFit := hbfit }

theorem putStats (h : t.Represents m) (s : FolderStats) :
    (t.putStats s).Represents { m with stats := m.stats.insert s.folder s } := by
  refine { h with keyed := { h.keyed with stats := h.keyed.stats.insert s }, stats := ?_ }
  have hs := h.statsOf_eq s.folder
  obtain ⟨values, hrows, hperm⟩ := h.stats
  rw [List.map_id] at hrows
  simp only [Tables.putStats, hs]
  refine ⟨_, (List.map_id _).symm, ?_⟩
  cases hg : m.stats.get? s.folder with
  | none =>
    have he : (m.stats.erase s.folder).values = m.stats.values := by
      rw [Table.values, Table.erase_of_get?_eq_none hg, Table.values]
    rw [if_neg (by simp), hrows]
    apply (List.perm_append_singleton s values).trans
    exact (hperm.cons s).trans (he ▸ (m.stats.values_insert s.folder s).symm)
  | some old =>
    have hold : old.folder = s.folder := h.keyed.stats.key_of_get? hg
    have hrest : ((m.stats.erase s.folder).values.map fun old =>
        if old.folder = s.folder then s else old) = (m.stats.erase s.folder).values := by
      rw [h.keyed.stats.values_erase]
      apply (List.map_congr_left _).trans (List.map_id _)
      intro other hmem
      have hne : other.folder ≠ s.folder := fun he => by simp [he] at hmem
      exact if_neg hne
    rw [if_pos (by simp), hrows]
    apply (hperm.map _).trans
    apply ((Table.values_of_get?_eq_some hg).map _).trans
    rw [List.map_cons, if_pos hold, hrest]
    exact (m.stats.values_insert s.folder s).symm

theorem foldlM_toRecord {records : List FileRecord} (hs : ∀ r ∈ records, r.Storable)
    (found : Table String FileRecord) :
    (records.map FileRow.ofRecord).foldlM (fun found row => do
      let r ← row.toRecord
      return found.insert r.path r) found =
    (.ok (records.foldl (fun found r => found.insert r.path r) found) :
      Except DatabaseFault (Table String FileRecord)) := by
  induction records generalizing found with
  | nil => rfl
  | cons r rest ih =>
    rw [List.map_cons, List.foldlM_cons, FileRow.toRecord_ofRecord (hs r List.mem_cons_self)]
    apply ih
    intro r' hr'
    exact hs r' (List.mem_cons_of_mem _ hr')

theorem search_eq (h : t.Represents m) (folder : String) (found : Table String FileRecord)
    (paths : List String) :
    ∃ found', t.search folder found paths = .ok found' ∧ ∀ path, found'.get? path =
      (if path ∈ paths then m.files.get? ⟨folder, path⟩ else none).or (found.get? path) := by
  obtain ⟨values, hrows, hperm⟩ := h.files
  let matching := values.filter fun r => r.folder == folder && paths.contains r.path
  use matching.foldl (fun found r => found.insert r.path r) found
  constructor
  · rw [Tables.search, hrows, List.filter_map]
    apply foldlM_toRecord
    intro r hr
    exact h.filesFit r (hperm.mem_iff.mp (List.mem_filter.mp hr).1)
  · intro path
    rw [Table.get?_foldl_insert FileRecord.path]
    congr 1
    rw [← List.filter_reverse, List.find?_filter]
    by_cases hp : path ∈ paths
    · rw [if_pos hp,
        ← h.keyed.files.find?_eq_get? ((List.reverse_perm values).trans hperm) ⟨folder, path⟩]
      congr 1
      funext r
      rw [Bool.eq_iff_iff]
      simp only [FileRecord.key, Bool.and_eq_true, beq_iff_eq, List.contains_iff_mem,
        decide_eq_true_eq, InFolder.mk.injEq]
      constructor
      · rintro ⟨⟨hf, -⟩, hr⟩
        exact ⟨hf, hr⟩
      · rintro ⟨hf, rfl⟩
        exact ⟨⟨hf, hp⟩, rfl⟩
    · rw [if_neg hp, List.find?_eq_none]
      intro r _ hr
      simp only [Bool.and_eq_true, beq_iff_eq, List.contains_iff_mem, decide_eq_true_eq] at hr
      exact hp (hr.2 ▸ hr.1.2)

theorem searchAll_eq (h : t.Represents m) (folder : String) (searches : Nat)
    (found : Table String FileRecord) (paths : List String)
    (hlen : paths.length ≤ searches * searchWidth) :
    ∃ found', t.searchAll folder searches found paths = .ok found' ∧ ∀ path, found'.get? path =
      (if path ∈ paths then m.files.get? ⟨folder, path⟩ else none).or (found.get? path) := by
  induction searches generalizing found paths with
  | zero =>
    have hnil : paths = [] := by simpa using hlen
    subst hnil
    exact ⟨found, rfl, fun _ => rfl⟩
  | succ searches ih =>
    obtain ⟨next, hnext, hget⟩ := h.search_eq folder found (paths.take searchWidth)
    have hrest : (paths.drop searchWidth).length ≤ searches * searchWidth := by
      rw [List.length_drop]
      rw [Nat.succ_mul] at hlen
      omega
    obtain ⟨last, hlast, hget'⟩ := ih next (paths.drop searchWidth) hrest
    use last
    constructor
    · rw [Tables.searchAll, hnext]
      exact hlast
    · intro path
      have hmem : path ∈ paths ↔ path ∈ paths.take searchWidth ∨ path ∈ paths.drop searchWidth := by
        rw [← List.mem_append, List.take_append_drop]
      rw [hget', hget]
      by_cases hd : path ∈ paths.drop searchWidth
      · rw [if_pos hd, if_pos (hmem.mpr (.inr hd)), ← Option.or_assoc]
        split
        · rw [Option.or_self]
        · rw [Option.or_none]
      · by_cases ht : path ∈ paths.take searchWidth
        · rw [if_neg hd, if_pos ht, if_pos (hmem.mpr (.inl ht)), Option.none_or]
        · have hp : path ∉ paths := fun hp => (hmem.mp hp).elim ht hd
          rw [if_neg hd, if_neg ht, if_neg hp, Option.none_or]

theorem records_eq (h : t.Represents m) (folder : String) (paths : List String) :
    t.records folder paths = .ok (m.records folder paths) := by
  have hlen : paths.length ≤ (paths.length + (searchWidth - 1)) / searchWidth * searchWidth := by
    rw [searchWidth]
    omega
  -- There are as many searches as it takes.
  obtain ⟨found, hfound, hget⟩ := h.searchAll_eq folder _ {} paths hlen
  have heq : found = m.records folder paths := Table.ext_get? fun path => by
    rw [hget, Memory.get?_records, Table.get?_empty, Option.or_none]
  rw [Tables.records, hfound, heq]

end Tables.Represents

end Database

end BlockExchange
