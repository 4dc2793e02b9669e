import BlockExchange.Proofs.Index.Paired

namespace BlockExchange

theorem FileType.ofInt32?_eq_some_iff {n : Int32} {t : FileType} :
    ofInt32? n = some t ↔ t.toInt32 = n := by
  constructor
  · intro h
    simpa using List.find?_some h
  · rintro rfl
    cases t <;> rfl

namespace BlockEntry

theorem hashBytes_toBlock (b : BlockEntry) : b.toBlock.hashBytes = .ok b.hash := by
  rw [Block.hashBytes, toBlock, Hex.decode_encode]

theorem mapM_hashBytes (blocks : List BlockEntry) :
    (blocks.map (·.toBlock)).mapM Block.hashBytes = .ok (blocks.map (·.hash)) := by
  induction blocks with
  | nil => rfl
  | cons b rest ih =>
    rw [List.map_cons, List.mapM_cons, hashBytes_toBlock, ih]
    rfl

end BlockEntry

namespace FileEntry

def contentHash (f : FileEntry) : String :=
  Hex.encode (Sha256.digest (f.blocks.map (·.hash)).flatten)

def contentSize (f : FileEntry) : Int :=
  (f.blocks.map (·.size.toInt)).sum

variable {f : FileEntry} {folder : String} {kind : FileKind} {blocks : Option BlockList}

theorem joinedHashes_blocks (f : FileEntry) :
    Block.joinedHashes (f.blocks.map (·.toBlock)) = .ok (f.blocks.map (·.hash)).flatten := by
  rw [Block.joinedHashes, BlockEntry.mapM_hashBytes]
  rfl

theorem exists_ofBlocks (f : FileEntry) (folder : String) :
    ∃ b, BlockList.ofBlocks folder f.name (f.blocks.map (·.toBlock)) = .ok b := by
  unfold BlockList.ofBlocks
  split
  next e he =>
    rw [joinedHashes_blocks] at he
    cases he
  next => exact ⟨_, rfl⟩

theorem exists_blockList (f : FileEntry) (folder : String) :
    ∃ b, BlockList.ofBlocks folder f.name (f.blocks.map (·.toBlock)) = .ok b ∧
      b.blocks = f.blocks.map (·.toBlock) ∧ b.hash = f.contentHash ∧ b.size = f.contentSize := by
  obtain ⟨b, hb⟩ := f.exists_ofBlocks folder
  have hblocks := (BlockList.ofBlocks_eq_ok hb).2
  have hhash := b.hash_eq
  rw [hblocks, joinedHashes_blocks] at hhash
  refine ⟨b, hb, hblocks, (Except.ok.inj hhash).symm, ?_⟩
  rw [← b.size_eq, hblocks, Block.totalSize_eq_sum, List.map_map]
  rfl

def announcedKind (f : FileEntry) : FileKind :=
  if f.fileType = 0 then .file f.contentHash f.size.toInt true
  else if f.fileType = 1 then .directory
  else .symlink f.symlinkTarget

theorem fileKind?_eq_none_iff :
    f.fileKind? folder = none ↔ f.deleted = false ∧ f.contentSize ≠ f.size.toInt := by
  obtain ⟨b, hb, -, -, hsize⟩ := f.exists_blockList folder
  simp only [fileKind?, hb, hsize]
  by_cases hdel : f.deleted = true
  · simp [hdel]
  · simp [hdel]

theorem fileKind?_eq_announced (h : f.fileKind? folder = some (kind, blocks)) :
    kind = .file f.contentHash f.size.toInt true ∧ (blocks.isSome ↔ f.deleted = false) ∧
      ∀ b ∈ blocks, b.blocks = f.blocks.map (·.toBlock) := by
  obtain ⟨b, hb, hblocks, hhash, -⟩ := f.exists_blockList folder
  simp only [fileKind?, hb, hhash] at h
  split_ifs at h with hdel hsize
  · cases h
    exact ⟨rfl, by simp [hdel], by simp⟩
  · cases h
    refine ⟨by rw [not_not.mp hsize], by simp [hdel], ?_⟩
    rintro _ ⟨⟩
    exact hblocks

theorem kind?_eq (f : FileEntry) (folder : String) :
    f.kind? folder =
      if f.fileType = 0 then f.fileKind? folder
      else if f.fileType = 1 then some (.directory, none)
      else if f.fileType = 4 then some (.symlink f.symlinkTarget, none)
      else none := by
  unfold kind?
  cases htype : FileType.ofInt32? f.fileType with
  | some t =>
    have hnumber : t.toInt32 = f.fileType := FileType.ofInt32?_eq_some_iff.mp htype
    rw [← hnumber]
    cases t <;> rfl
  | none =>
    have hnot : ∀ t : FileType, f.fileType ≠ t.toInt32 := by
      intro t ht
      rw [FileType.ofInt32?_eq_some_iff.mpr ht.symm] at htype
      cases htype
    have hfile : f.fileType ≠ 0 := hnot .file
    have hdirectory : f.fileType ≠ 1 := hnot .directory
    have hsymlink : f.fileType ≠ 4 := hnot .symlink
    rw [if_neg hfile, if_neg hdirectory, if_neg hsymlink]

theorem kind?_eq_none_iff :
    f.kind? folder = none ↔ f.fileType ∉ [0, 1, 4] ∨
      f.fileType = 0 ∧ f.deleted = false ∧ f.contentSize ≠ f.size.toInt := by
  rw [kind?_eq]
  split_ifs with hfile hdirectory hsymlink
  · rw [fileKind?_eq_none_iff]
    simp [hfile]
  · simp [hdirectory]
  · simp [hsymlink]
  · simp [hfile, hdirectory, hsymlink]

theorem kind?_eq_announced (h : f.kind? folder = some (kind, blocks)) :
    kind = f.announcedKind ∧ (blocks.isSome ↔ kind.isFile ∧ f.deleted = false) ∧
      ∀ b ∈ blocks, b.blocks = f.blocks.map (·.toBlock) := by
  rw [kind?_eq] at h
  unfold announcedKind
  split_ifs at h ⊢ with hfile hdirectory hsymlink
  · obtain ⟨rfl, hsome, hlist⟩ := fileKind?_eq_announced h
    exact ⟨rfl, by simpa [FileKind.isFile] using hsome, hlist⟩
  · cases h
    exact ⟨rfl, by simp [FileKind.isFile], by simp⟩
  · cases h
    exact ⟨rfl, by simp [FileKind.isFile], by simp⟩

theorem prepare?_eq_none_iff {sequence : Int} :
    f.prepare? folder sequence = none ↔ f.versions = [] ∨ f.kind? folder = none := by
  unfold prepare?
  split_ifs with hversions
  · simp [List.isEmpty_iff.mp hversions]
  · rw [Option.map_eq_none_iff, or_iff_right (mt List.isEmpty_iff.mpr hversions)]

/-- An entry is left out if it has no versions, is of none of the three types, or is that of a file
which is not deleted and has another size than its blocks; that its block list could not be read
never happens. Otherwise it becomes the record that it announces. A file has the digest of its
block hashes, deleted or not, and is marked as absent. A block list comes with it exactly if it is
not deleted, and is made of the announced blocks. -/
theorem prepare?_outcome (f : FileEntry) (folder : String) (sequence : Int) :
    (∃ b, BlockList.ofBlocks folder f.name (f.blocks.map (·.toBlock)) = .ok b) ∧
    (f.prepare? folder sequence = none ↔
      f.versions = [] ∨ f.fileType ∉ [0, 1, 4] ∨
        f.fileType = 0 ∧ f.deleted = false ∧ (f.blocks.map (·.size.toInt)).sum ≠ f.size.toInt) ∧
    ∀ r blocks, f.prepare? folder sequence = some (r, blocks) →
      r = { folder, path := f.name
            lastModified := ⟨f.modifiedSeconds.toInt, f.modifiedNanos.toInt⟩
            modifiedBy := f.modifiedBy, deleted := f.deleted, versions := f.versions
            permissions := f.permissions, noPermissions := f.noPermissions, sequence
            kind :=
              if f.fileType = 0 then
                .file (Hex.encode (Sha256.digest (f.blocks.map (·.hash)).flatten)) f.size.toInt true
              else if f.fileType = 1 then .directory
              else .symlink f.symlinkTarget } ∧
      (blocks.isSome ↔ r.kind.isFile ∧ r.deleted = false) ∧
      ∀ b ∈ blocks, b.checkAgainst r = .ok () ∧
        b.blocks.mapM Block.hashBytes = .ok (f.blocks.map (·.hash)) ∧
        b.blocks.map (fun block => (block.offset, block.size)) =
          f.blocks.map fun e => (e.offset.toInt, e.size.toInt) := by
  refine ⟨f.exists_ofBlocks folder, ?_, ?_⟩
  · rw [prepare?_eq_none_iff, kind?_eq_none_iff]
    rfl
  · intro r blocks h
    have hcheck := (Store.checkWrite_eq_ok_iff r blocks).mp (prepare?_check h)
    obtain ⟨kind, hkind, rfl⟩ := prepare?_eq_some h
    obtain ⟨rfl, hsome, hlist⟩ := kind?_eq_announced hkind
    refine ⟨rfl, hsome, fun b hb => ⟨hcheck b hb, ?_, ?_⟩⟩
    · rw [hlist b hb, BlockEntry.mapM_hashBytes]
    · rw [hlist b hb, List.map_map]
      rfl

theorem prepare?_outcome_beach :
    let beach : FileEntry :=
      { name := "beach", size := 5, versions := [⟨1, 1⟩]
        blocks := [⟨0, 3, [1, 2], 0⟩, ⟨3, 2, [255], 0⟩] }
    ∃ r b, beach.prepare? "photos" 7 = some (r, some b) ∧ b.checkAgainst r = .ok () ∧
      b.blocks.mapM Block.hashBytes = .ok [[1, 2], [255]] ∧
      r.kind = .file (Hex.encode (Sha256.digest [1, 2, 255])) 5 true := by
  intro beach
  obtain ⟨-, hnone, hsome⟩ := prepare?_outcome beach "photos" 7
  have hne : beach.prepare? "photos" 7 ≠ none := by
    rw [ne_eq, hnone]
    decide
  obtain ⟨⟨r, blocks⟩, hprep⟩ := Option.ne_none_iff_exists'.mp hne
  obtain ⟨rfl, hlive, hlist⟩ := hsome r blocks hprep
  obtain ⟨b, rfl⟩ := Option.isSome_iff_exists.mp (hlive.mpr ⟨rfl, rfl⟩)
  obtain ⟨hcheck, hread, -⟩ := hlist b rfl
  exact ⟨_, b, hprep, hcheck, hread, rfl⟩

end FileEntry

end BlockExchange
