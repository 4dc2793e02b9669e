import BlockExchange.Proofs.Table
import BlockExchange.Store.Memory

namespace BlockExchange

def Marker.key (m : Marker) : InFolder DeviceId := ⟨m.folder, m.device⟩

def FileRecord.key (r : FileRecord) : InFolder String := ⟨r.folder, r.path⟩

def BlockList.key (b : BlockList) : InFolder String := ⟨b.folder, b.path⟩

namespace Memory

structure IsWellKeyed (m : Memory) : Prop where
  markers : m.markers.IsKeyedBy Marker.key
  files : m.files.IsKeyedBy FileRecord.key
  blocks : m.blocks.IsKeyedBy BlockList.key
  stats : m.stats.IsKeyedBy FolderStats.folder

theorem get?_records (m : Memory) (folder : String) (paths : List String) (path : String) :
    (m.records folder paths).get? path =
      if path ∈ paths then m.files.get? ⟨folder, path⟩ else none := by
  have hfold : ∀ step : Table String FileRecord → String → Table String FileRecord,
      (∀ found p, (step found p).get? path =
        if path = p then (m.files.get? ⟨folder, p⟩).or (found.get? path) else found.get? path) →
      ∀ found, (paths.foldl step found).get? path =
        (if path ∈ paths then m.files.get? ⟨folder, path⟩ else none).or (found.get? path) := by
    intro step hstep
    induction paths with
    | nil => exact fun _ => rfl
    | cons p rest ih =>
      intro found
      rw [List.foldl_cons, ih, hstep]
      by_cases hp : path = p
      · subst hp
        by_cases hr : path ∈ rest
        · simp [hr, ← Option.or_assoc]
        · simp [hr]
      · simp [hp]
  refine (hfold _ (fun found p => ?_) ∅).trans (by rw [Table.get?_empty, Option.or_none])
  cases hg : m.files.get? ⟨folder, p⟩ with
  | none => simp
  | some r => simp [Table.get?_insert]

end Memory

end BlockExchange
