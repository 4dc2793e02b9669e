import BlockExchange.Index.Prepare
import BlockExchange.Model.FolderStats
import BlockExchange.Proofs.Store.Agreement

namespace BlockExchange

/-- An entry whose lists are as long as lists get: the memory of a machine holds no longer ones. -/
structure FileEntry.Bounded (f : FileEntry) : Prop where
  versions : f.versions.length < 2 ^ 63
  blocks : f.blocks.length < 2 ^ 63
  hashes : ∀ b ∈ f.blocks, b.hash.length < 2 ^ 63

instance (f : FileEntry) : Decidable f.Bounded :=
  decidable_of_iff
    (f.versions.length < 2 ^ 63 ∧ f.blocks.length < 2 ^ 63 ∧ ∀ b ∈ f.blocks, b.hash.length < 2 ^ 63)
    ⟨fun h => ⟨h.1, h.2.1, h.2.2⟩, fun h => ⟨h.versions, h.blocks, h.hashes⟩⟩

namespace BlockList

variable {folder path : String} {blocks : List Block} {b : BlockList}

theorem ofBlocks_eq_ok (h : ofBlocks folder path blocks = .ok b) :
    b.key = ⟨folder, path⟩ ∧ b.blocks = blocks := by
  unfold ofBlocks at h
  split at h
  · cases h
  · cases h
    exact ⟨rfl, rfl⟩

end BlockList

namespace BlockEntry

theorem storable_toBlock {b : BlockEntry} (h : b.hash.length < 2 ^ 63) : b.toBlock.Storable where
  offset := ⟨b.offset.le_toInt, b.offset.toInt_lt⟩
  size := ⟨b.size.le_toInt, b.size.toInt_lt⟩
  hash := by
    rw [toBlock, Hex.length_ofText_encode]
    omega

end BlockEntry

theorem Block.totalSize_nonneg {blocks : List Block} (h : ∀ b ∈ blocks, 0 ≤ b.size) :
    0 ≤ totalSize blocks := by
  induction blocks with
  | nil => exact Int.le_refl 0
  | cons b rest ih =>
    have hb := h b List.mem_cons_self
    have hrest := ih fun b' hb' => h b' (List.mem_cons_of_mem _ hb')
    rw [totalSize, List.foldr_cons, ← totalSize]
    omega

namespace FileEntry

variable {f : FileEntry} {folder : String} {r : FileRecord} {blocks : Option BlockList}

theorem prepare?_eq_some {sequence : Int} (h : f.prepare? folder sequence = some (r, blocks)) :
    ∃ kind, f.kind? folder = some (kind, blocks) ∧
      r = { folder, path := f.name, lastModified := f.lastModified, modifiedBy := f.modifiedBy,
            deleted := f.deleted, versions := f.versions, permissions := f.permissions,
            noPermissions := f.noPermissions, sequence, kind } := by
  unfold prepare? at h
  split_ifs at h
  obtain ⟨⟨kind, blocks'⟩, hkind, heq⟩ := Option.map_eq_some_iff.mp h
  cases heq
  exact ⟨kind, hkind, rfl⟩

theorem prepare?_withSequence (f : FileEntry) (folder : String) (sequence : Int) :
    f.prepare? folder sequence =
      (f.prepare? folder 0).map fun p => (p.1.withSequence sequence, p.2) := by
  unfold prepare?
  split_ifs
  · rfl
  · cases f.kind? folder <;> rfl

theorem prepare?_key {sequence : Int} (h : f.prepare? folder sequence = some (r, blocks)) :
    r.key = ⟨folder, f.name⟩ := by
  obtain ⟨kind, -, rfl⟩ := prepare?_eq_some h
  rfl

theorem prepare?_lastModified {sequence : Int}
    (h : f.prepare? folder sequence = some (r, blocks)) : r.lastModified = f.lastModified := by
  obtain ⟨kind, -, rfl⟩ := prepare?_eq_some h
  rfl

theorem prepare?_sequence {sequence : Int} (h : f.prepare? folder sequence = some (r, blocks)) :
    r.sequence = sequence := by
  obtain ⟨kind, -, rfl⟩ := prepare?_eq_some h
  rfl

theorem fileKind?_eq_some {kind : FileKind} (h : f.fileKind? folder = some (kind, blocks)) :
    ∃ b, BlockList.ofBlocks folder f.name (f.blocks.map (·.toBlock)) = .ok b ∧
      (f.deleted = true ∧ kind = .file b.hash f.size.toInt true ∧ blocks = none ∨
        f.deleted = false ∧ kind = .file b.hash b.size true ∧ blocks = some b) := by
  unfold fileKind? at h
  split at h
  · cases h
  next b hb =>
    refine ⟨b, hb, ?_⟩
    split_ifs at h with hdel hsize
    · cases h
      exact .inl ⟨hdel, rfl, rfl⟩
    · cases h
      exact .inr ⟨by simpa using hdel, rfl, rfl⟩

theorem kind?_eq_some {kind : FileKind} (h : f.kind? folder = some (kind, blocks)) :
    f.fileKind? folder = some (kind, blocks) ∨
      blocks = none ∧ (kind = .directory ∨ ∃ target, kind = .symlink target) := by
  unfold kind? at h
  split at h
  · exact .inl h
  · cases h
    exact .inr ⟨rfl, .inl rfl⟩
  · cases h
    exact .inr ⟨rfl, .inr ⟨_, rfl⟩⟩
  all_goals cases h

theorem prepare?_blocks {sequence : Int} {b : BlockList}
    (h : f.prepare? folder sequence = some (r, some b)) :
    BlockList.ofBlocks folder f.name (f.blocks.map (·.toBlock)) = .ok b ∧
      r.kind = .file b.hash b.size true := by
  obtain ⟨kind, hkind, rfl⟩ := prepare?_eq_some h
  rcases kind?_eq_some hkind with hfile | ⟨hnone, -⟩
  · obtain ⟨b', hb', ⟨-, -, hnone⟩ | ⟨-, rfl, hsome⟩⟩ := fileKind?_eq_some hfile
    · cases hnone
    · cases hsome
      exact ⟨hb', rfl⟩
  · cases hnone

theorem prepare?_check {sequence : Int} (h : f.prepare? folder sequence = some (r, blocks)) :
    Store.checkWrite r blocks = .ok () := by
  rw [Store.checkWrite_eq_ok_iff]
  rintro b rfl
  obtain ⟨hb, hkind⟩ := prepare?_blocks h
  rw [BlockList.checkAgainst_eq_ok_iff, prepare?_key h]
  exact ⟨⟨true, hkind⟩, (BlockList.ofBlocks_eq_ok hb).1⟩

theorem Bounded.prepare? (hf : f.Bounded) {sequence : Int}
    (h : f.prepare? folder sequence = some (r, blocks)) :
    r.Storable ∧ ∀ b ∈ blocks, b.Storable := by
  constructor
  · obtain ⟨kind, -, rfl⟩ := prepare?_eq_some h
    exact Nat.lt_trans hf.versions (by decide)
  · rintro b rfl
    have hblocks := (BlockList.ofBlocks_eq_ok (prepare?_blocks h).1).2
    constructor
    · rw [hblocks, List.length_map]
      exact Nat.lt_trans hf.blocks (by decide)
    · rw [hblocks, List.forall_mem_map]
      exact fun block hmem => BlockEntry.storable_toBlock (hf.hashes block hmem)

theorem size_nonneg_of_prepare? (hf : ∀ b ∈ f.blocks, 0 ≤ b.size) {sequence : Int}
    (h : f.prepare? folder sequence = some (r, blocks)) : 0 ≤ (Weight.ofRecord r).size := by
  obtain ⟨kind, hkind, rfl⟩ := prepare?_eq_some h
  unfold Weight.ofRecord
  split_ifs with hdel
  · exact Int.le_refl 0
  · rcases kind?_eq_some hkind with hfile | ⟨-, rfl | ⟨target, rfl⟩⟩
    · obtain ⟨b, hb, ⟨hdel', -, -⟩ | ⟨-, rfl, -⟩⟩ := fileKind?_eq_some hfile
      · exact absurd hdel' hdel
      · change 0 ≤ b.size
        rw [← b.size_eq, (BlockList.ofBlocks_eq_ok hb).2]
        apply Block.totalSize_nonneg
        rw [List.forall_mem_map]
        exact fun block hmem => Int32.le_iff_toInt_le.mp (hf block hmem)
    · exact Int.le_refl 0
    · exact Int.le_refl 0

end FileEntry

end BlockExchange
