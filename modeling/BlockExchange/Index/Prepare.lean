import BlockExchange.Model.BlockList
import BlockExchange.Wire.Message

namespace BlockExchange

namespace BlockEntry

def toBlock (b : BlockEntry) : Block :=
  ⟨b.offset.toInt, b.size.toInt, Hex.encode b.hash⟩

end BlockEntry

namespace FileEntry

def lastModified (f : FileEntry) : Timestamp :=
  ⟨f.modifiedSeconds.toInt, f.modifiedNanos.toInt⟩

/-- Kind and block list of a file. A deleted one has no blocks, and its size is as announced. -/
def fileKind? (folder : String) (f : FileEntry) : Option (FileKind × Option BlockList) :=
  match BlockList.ofBlocks folder f.name (f.blocks.map (·.toBlock)) with
  | .error _ => none
  | .ok b =>
    if f.deleted then some (.file b.hash f.size.toInt true, none)
    else if b.size ≠ f.size.toInt then none
    else some (.file b.hash b.size true, some b)

def kind? (folder : String) (f : FileEntry) : Option (FileKind × Option BlockList) :=
  match FileType.ofInt32? f.fileType with
  | some .file => f.fileKind? folder
  | some .directory => some (.directory, none)
  | some .symlink => some (.symlink f.symlinkTarget, none)
  | some .symlinkFile | some .symlinkDirectory | none => none

def prepare? (folder : String) (f : FileEntry) (sequence : Int) :
    Option (FileRecord × Option BlockList) :=
  if f.versions.isEmpty then none
  else
    (f.kind? folder).map fun (kind, blocks) =>
      ({ folder, path := f.name, lastModified := f.lastModified, modifiedBy := f.modifiedBy,
         deleted := f.deleted, versions := f.versions, permissions := f.permissions,
         noPermissions := f.noPermissions, sequence, kind }, blocks)

end FileEntry

end BlockExchange
