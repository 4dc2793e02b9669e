import BlockExchange.Proofs.Cbor.Lossless
import BlockExchange.Proofs.Hex
import BlockExchange.Store.Database.Row

namespace BlockExchange

def FileRecord.Storable (r : FileRecord) : Prop :=
  r.versions.length < 2 ^ 64

structure Block.Storable (b : Block) : Prop where
  offset : -2 ^ 63 ≤ b.offset ∧ b.offset < 2 ^ 63
  size : -2 ^ 31 ≤ b.size ∧ b.size < 2 ^ 31
  hash : (Bytes.ofText b.hash).length < 2 ^ 64

structure BlockList.Storable (b : BlockList) : Prop where
  length : b.blocks.length < 2 ^ 64
  blocks : ∀ block ∈ b.blocks, block.Storable

theorem BlockList.ofBlocks_blocks (b : BlockList) : ofBlocks b.folder b.path b.blocks = .ok b := by
  have hh := b.hash_eq
  obtain ⟨folder, path, blocks, hash, size, hhash, rfl⟩ := b
  simp only [ofBlocks]
  split
  next e he => simp [he, Except.map] at hh
  next hashes he =>
    simp only [he, Except.map, Except.ok.injEq] at hh
    subst hh
    rfl

namespace Database

theorem mapM_map_eq_ok {ν ρ : Type} {toRow : ν → ρ} {ofRow : ρ → Except DatabaseFault ν}
    {values : List ν} (h : ∀ v ∈ values, ofRow (toRow v) = .ok v) :
    (values.map toRow).mapM ofRow = .ok values := by
  induction values with
  | nil => rfl
  | cons v rest ih =>
    rw [List.map_cons, List.mapM_cons, h v List.mem_cons_self,
      ih fun w hw => h w (List.mem_cons_of_mem _ hw)]
    rfl

theorem versionsShape_fits {versions : List Version} (hl : versions.length < 2 ^ 64) :
    versionsShape.Fits versions := by
  refine ⟨hl, fun v _ => ⟨?_, ?_, fun n _ => Range.fits_int64 n⟩⟩
  · simp
  · decide

theorem blocksShape_fits {b : BlockList} (hb : b.Storable) : blocksShape.Fits b.blocks := by
  refine ⟨hb.length, fun block hmem => ?_⟩
  have hs := hb.blocks block hmem
  exact ⟨rfl, Range.fits_count hs.offset.1 hs.offset.2, Range.fits_smallCount hs.size.1 hs.size.2,
    hs.hash, trivial⟩

theorem readBlob_versions {versions : List Version} (hl : versions.length < 2 ^ 64) (column : String) :
    readBlob versionsShape column (versionsShape.toCbor versions) = .ok versions := by
  have hr := Shape.ofCbor_toCbor (s := versionsShape) (by decide) (versionsShape_fits hl) (by decide)
  simp only [readBlob, hr]

theorem readBlob_blocks {b : BlockList} (hb : b.Storable) (column : String) :
    readBlob blocksShape column (blocksShape.toCbor b.blocks) = .ok b.blocks := by
  have hr := Shape.ofCbor_toCbor (s := blocksShape) (by decide +kernel) (blocksShape_fits hb) (by decide)
  simp only [readBlob, hr]

namespace MarkerRow

theorem toMarker_ofMarker (m : Marker) : (ofMarker m).toMarker = .ok m := by
  simp [toMarker, ofMarker, DeviceId.ofHex_toHex]

end MarkerRow

namespace FileRow

theorem toKind_ofRecord (r : FileRecord) : (ofRecord r).toKind = .ok r.kind := by
  cases h : r.kind <;>
    simp [toKind, ofRecord, h, FileKind.name, FileKind.size?, FileKind.hash?]

theorem toRecord_ofRecord {r : FileRecord} (h : r.Storable) : (ofRecord r).toRecord = .ok r := by
  simp only [toRecord, toKind_ofRecord, bind, Except.bind]
  simp [ofRecord, readBlob_versions h, pure, Except.pure]

end FileRow

theorem BlocksRow.toBlockList_ofBlockList {b : BlockList} (hb : b.Storable) :
    (ofBlockList b).toBlockList = .ok b := by
  simp only [toBlockList, ofBlockList, readBlob_blocks hb, Except.mapError, bind, Except.bind,
    BlockList.ofBlocks_blocks]

end Database

end BlockExchange
