import BlockExchange.Proofs.Index.Slot

namespace BlockExchange

open Index

/-- What may stand at a path: a record that came in with versions and without content, and with it
the block list that it was made from, if it is that of a file which is not deleted. -/
structure FileRecord.IsPairedWith (r : FileRecord) (blocks : Option BlockList) : Prop where
  versioned : r.versions ≠ []
  absent : ∀ hash size invalid, r.kind = .file hash size invalid → invalid = true
  isSome : blocks.isSome = r.isLiveFile
  check : ∀ b ∈ blocks, b.checkAgainst r = .ok ()

def Slot.IsPaired (s : Slot) : Prop :=
  s.1.elim (s.2 = none) fun r => r.IsPairedWith s.2

theorem Slot.IsPaired.settle {s : Slot} (h : s.IsPaired) {p : FileRecord × Option BlockList}
    (hp : p.1.IsPairedWith p.2) : (s.settle p).IsPaired := by
  unfold Slot.settle
  split_ifs
  · exact hp
  · exact h

theorem Block.totalSize_eq_sum (blocks : List Block) :
    totalSize blocks = (blocks.map (·.size)).sum := by
  rw [totalSize, List.sum_eq_foldr, List.foldr_map]

theorem BlockList.exists_hashes (b : BlockList) :
    ∃ hashes, b.blocks.mapM Block.hashBytes = .ok hashes ∧
      b.hash = Hex.encode (Sha256.digest hashes.flatten) := by
  have heq := b.hash_eq
  unfold Block.joinedHashes at heq
  cases hm : b.blocks.mapM Block.hashBytes with
  | error e =>
    rw [hm] at heq
    cases heq
  | ok hashes =>
    rw [hm] at heq
    exact ⟨hashes, rfl, (Except.ok.inj heq).symm⟩

namespace FileEntry

variable {f : FileEntry} {folder : String} {sequence : Int} {r : FileRecord}
  {blocks : Option BlockList}

theorem prepare?_versions (h : f.prepare? folder sequence = some (r, blocks)) : r.versions ≠ [] := by
  obtain ⟨kind, -, rfl⟩ := prepare?_eq_some h
  unfold prepare? at h
  split_ifs at h with hempty
  exact fun hnil => hempty (List.isEmpty_iff.mpr hnil)

theorem isPairedWith_of_prepare? (h : f.prepare? folder sequence = some (r, blocks)) :
    r.IsPairedWith blocks := by
  have hversions := prepare?_versions h
  have hcheck := (Store.checkWrite_eq_ok_iff r blocks).mp (prepare?_check h)
  obtain ⟨kind, hkind, rfl⟩ := prepare?_eq_some h
  rcases kind?_eq_some hkind with hfile | ⟨rfl, rfl | ⟨target, rfl⟩⟩
  · obtain ⟨b, -, ⟨hdel, rfl, rfl⟩ | ⟨hdel, rfl, rfl⟩⟩ := fileKind?_eq_some hfile
    · refine ⟨hversions, ?_, by simp [FileRecord.isLiveFile, hdel], hcheck⟩
      rintro _ _ _ ⟨⟩
      rfl
    · refine ⟨hversions, ?_, by simp [FileRecord.isLiveFile, hdel, FileKind.isFile], hcheck⟩
      rintro _ _ _ ⟨⟩
      rfl
  · refine ⟨hversions, ?_, by simp [FileRecord.isLiveFile, FileKind.isFile], hcheck⟩
    rintro _ _ _ ⟨⟩
  · refine ⟨hversions, ?_, by simp [FileRecord.isLiveFile, FileKind.isFile], hcheck⟩
    rintro _ _ _ ⟨⟩

end FileEntry

theorem Index.isPairedWith_of_offered? {folder path : String} {files : List FileEntry}
    {p : FileRecord × Option BlockList} (h : offered? folder path files = some p) :
    p.1.IsPairedWith p.2 := by
  obtain ⟨f, -, hp⟩ := offered?_eq_some_iff.mp h
  exact FileEntry.isPairedWith_of_prepare? hp

namespace Memory

variable {m : Memory}

def Paired (m : Memory) : Prop := ∀ k, (m.slot k).IsPaired

theorem paired_fresh (draw : UInt64) : (fresh draw).Paired := fun _ => rfl

theorem Paired.perform (h : m.Paired) (operation : Operation) : (m.perform operation).Paired := by
  cases operation with
  | message folder peer files =>
    rcases m.perform_message_cases folder peer files with heq | ⟨marker, -, -, heq⟩
    · rw [heq]
      exact h
    · intro k
      rw [heq, m.slot_merged marker folder files peer k]
      cases hoff : (Operation.message folder peer files).offer? k with
      | none => exact h k
      | some p =>
        rw [Operation.offer?, Option.ite_none_right_eq_some] at hoff
        exact (h k).settle (isPairedWith_of_offered? hoff.2)
  | announcement folder peer indexId maxSequence => exact h
  | clearing draw => exact paired_fresh draw

theorem Paired.run (h : m.Paired) (operations : List Operation) : (m.run operations).Paired := by
  induction operations generalizing m with
  | nil => exact h
  | cons operation rest ih => exact ih (h.perform operation)

end Memory

namespace Index

theorem blocks_iff_live_file {backend : Backend} {draw : UInt64} {store : Store}
    (hs : Store.create backend draw = .ok store) {operations : List Operation}
    (hb : ∀ operation ∈ operations, operation.Bounded) (folder path : String) :
    ∃ record blocks,
      ((run { store } operations).store.answer (.file folder path)).1 = .ok record ∧
      ((run { store } operations).store.answer (.blocks folder path)).1 = .ok blocks ∧
      (blocks.isSome ↔ ∃ r ∈ record, r.isLiveFile) ∧
      (∀ r ∈ record, ∀ b ∈ blocks, b.checkAgainst r = .ok () ∧
        r.kind.size? = some (b.blocks.map (·.size)).sum ∧
        ∃ hashes, b.blocks.mapM Block.hashBytes = .ok hashes ∧
          r.kind.hash? = some (Hex.encode (Sha256.digest hashes.flatten))) ∧
      ∀ r ∈ record, r.versions ≠ [] ∧
        ∀ hash size invalid, r.kind = .file hash size invalid → invalid = true := by
  have hholds := holds_run_of_create hs hb
  have hpaired := (Memory.paired_fresh draw).run operations ⟨folder, path⟩
  refine ⟨_, _, hholds.file_eq folder path, hholds.blocks_eq folder path, ?_⟩
  unfold Memory.slot at hpaired
  cases hr : ((Memory.fresh draw).run operations).files.get? ⟨folder, path⟩ with
  | none =>
    rw [hr] at hpaired
    have hnone : ((Memory.fresh draw).run operations).blocks.get? ⟨folder, path⟩ = none := hpaired
    simp [hnone]
  | some r =>
    rw [hr] at hpaired
    obtain ⟨hversions, habsent, hsome, hcheck⟩ := hpaired
    refine ⟨?_, ?_, ?_⟩
    · rw [hsome]
      constructor
      · intro hlive
        exact ⟨r, rfl, hlive⟩
      · rintro ⟨_, ⟨⟩, hlive⟩
        exact hlive
    · rintro _ ⟨⟩ b hb
      have hok : b.checkAgainst r = .ok () := hcheck b hb
      obtain ⟨⟨invalid, hkind⟩, -⟩ := (b.checkAgainst_eq_ok_iff r).mp hok
      obtain ⟨hashes, hread, hhash⟩ := b.exists_hashes
      refine ⟨hok, ?_, hashes, hread, ?_⟩
      · rw [hkind, FileKind.size?, ← b.size_eq, Block.totalSize_eq_sum]
      · rw [hkind, FileKind.hash?, hhash]
    · rintro _ ⟨⟩
      exact ⟨hversions, habsent⟩

theorem blocks_iff_live_file_beach :
    let entry : FileEntry :=
      { name := "beach", size := 5, versions := [⟨1, 1⟩], sequence := 1
        blocks := [⟨0, 3, [1, 2], 0⟩, ⟨3, 2, [255], 0⟩] }
    let operations : List Operation :=
      [.announcement "photos" .zero 7 2,
       .message "photos" .zero [{ entry with deleted := true }],
       .message "photos" .zero [.directory "beach" 0 1],
       .message "photos" .zero [entry]]
    ∃ r b, (run { store := .memory (.fresh 5) } operations).store.Keeps "photos" "beach" r ∧
      ((run { store := .memory (.fresh 5) } operations).store.answer (.blocks "photos" "beach")).1 =
        .ok (some b) ∧
      r.kind.size? = some 5 ∧ r.kind.hash? = some (Hex.encode (Sha256.digest [1, 2, 255])) := by
  intro entry operations
  have hs : Store.create .memory 5 = .ok (.memory (.fresh 5)) := rfl
  have hlive : ((run { store := .memory (.fresh 5) } operations).store.answer
      (.file "photos" "beach")).1.map (·.map (·.isLiveFile)) = .ok (some true) := by
    unfold operations entry
    decide +kernel
  have hblocks : ((run { store := .memory (.fresh 5) } operations).store.answer
      (.blocks "photos" "beach")).1.map (·.map (·.blocks)) =
        .ok (some [⟨0, 3, "0102"⟩, ⟨3, 2, "ff"⟩]) := by
    unfold operations entry
    decide +kernel
  have hbounded : ∀ operation ∈ operations, operation.Bounded := by decide
  obtain ⟨record, blocks, hr, hb, -, hpair, -⟩ := blocks_iff_live_file hs hbounded "photos" "beach"
  rw [hr] at hlive
  rw [hb] at hblocks
  obtain ⟨r, rfl, -⟩ := Option.map_eq_some_iff.mp (Except.ok.inj hlive)
  obtain ⟨b, rfl, hlist⟩ := Option.map_eq_some_iff.mp (Except.ok.inj hblocks)
  obtain ⟨-, hsize, hashes, hread, hhash⟩ := hpair r rfl b rfl
  rw [hlist] at hsize hread
  obtain rfl : [[1, 2], [255]] = hashes := Except.ok.inj hread
  exact ⟨r, b, hr, hb, hsize, hhash⟩

end Index

end BlockExchange
