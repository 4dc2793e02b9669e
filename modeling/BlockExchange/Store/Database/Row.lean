import BlockExchange.Cbor.Reader
import BlockExchange.Cbor.Writer
import BlockExchange.Model.Document
import BlockExchange.Store.Error
/-!
The rows of the database's tables, and what they stand for. Columns hold texts, signed 64-bit
numbers and blobs: unsigned numbers are stored by their bits, device ids in hexadecimal, and version
vectors and block lists in CBOR.
-/

namespace BlockExchange.Database

structure MarkerRow where
  folder : String
  device : String
  indexId : Int64
  localSequence : Int
  maxSequence : Int
  deriving DecidableEq

structure FileRow where
  folder : String
  path : String
  fileName : String
  parent : String
  fileType : String
  size : Option Int
  hash : Option String
  invalid : Bool
  target : Option String
  seconds : Int
  nanos : Int
  modifiedBy : Int64
  deleted : Bool
  permissions : UInt32
  noPermissions : Bool
  versions : Bytes
  sequence : Int
  deriving DecidableEq

structure BlocksRow where
  folder : String
  path : String
  hash : String
  size : Int
  blocks : Bytes
  deriving DecidableEq

def versionPair : Shape Version :=
  .convert
    (fun l =>
      match l.1 with
      | [id, value] => some ⟨id.toUInt64, value.toUInt64⟩
      | _ => none)
    (fun v => ⟨[v.id.toInt64, v.value.toInt64], rfl⟩)
    (.tuple 2 .int64)

def versionsShape : Shape (List Version) :=
  .sequence versionPair

def blocksShape : Shape (List Block) :=
  .sequence Block.shape

def readBlob {α : Type} (s : Shape α) (column : String) (blob : Bytes) :
    Except DatabaseFault α :=
  match s.ofCbor blob with
  | .ok a => .ok a
  | .error _ => .error (.unreadable column)

namespace MarkerRow

def ofMarker (m : Marker) : MarkerRow :=
  ⟨m.folder, m.device.toHex, m.indexId.toInt64, m.localSequence, m.maxSequence⟩

def toMarker (row : MarkerRow) : Except DatabaseFault Marker :=
  match DeviceId.ofHex row.device with
  | .ok device =>
    .ok ⟨row.folder, device, row.indexId.toUInt64, row.localSequence, row.maxSequence⟩
  | .error _ => .error (.unreadable "device_id")

end MarkerRow

namespace FileRow

def ofRecord (r : FileRecord) : FileRow where
  folder := r.folder
  path := r.path
  fileName := r.fileName
  parent := r.parent
  fileType := r.kind.name
  size := r.kind.size?
  hash := r.kind.hash?
  invalid := match r.kind with
    | .file _ _ invalid => invalid
    | _ => false
  target := match r.kind with
    | .symlink target => some target
    | _ => none
  seconds := r.lastModified.seconds
  nanos := r.lastModified.nanos
  modifiedBy := r.modifiedBy.toInt64
  deleted := r.deleted
  permissions := r.permissions
  noPermissions := r.noPermissions
  versions := versionsShape.toCbor r.versions
  sequence := r.sequence

def toKind (row : FileRow) : Except DatabaseFault FileKind :=
  if row.fileType = "file" then
    match row.size, row.hash with
    | some size, some hash => .ok (.file hash size row.invalid)
    | _, _ => .error (.unreadable "size")
  else if row.fileType = "directory" then .ok .directory
  else if row.fileType = "symlink" then .ok (.symlink (row.target.getD ""))
  else .error (.unreadable "file_type")

def toRecord (row : FileRow) : Except DatabaseFault FileRecord := do
  let kind ← row.toKind
  let versions ← readBlob versionsShape "versions" row.versions
  return {
    folder := row.folder, path := row.path, lastModified := ⟨row.seconds, row.nanos⟩
    modifiedBy := row.modifiedBy.toUInt64, deleted := row.deleted, versions
    permissions := row.permissions, noPermissions := row.noPermissions, sequence := row.sequence
    kind }

end FileRow

namespace BlocksRow

def ofBlockList (b : BlockList) : BlocksRow :=
  ⟨b.folder, b.path, b.hash, b.size, blocksShape.toCbor b.blocks⟩

def toBlockList (row : BlocksRow) : Except StoreError BlockList := do
  let blocks ← (readBlob blocksShape "blocks" row.blocks).mapError .database
  (BlockList.ofBlocks row.folder row.path blocks).mapError .model

end BlocksRow

end BlockExchange.Database
