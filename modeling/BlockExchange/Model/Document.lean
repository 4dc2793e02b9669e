import BlockExchange.Model.BlockList
import BlockExchange.Model.FolderStats
import BlockExchange.Model.Marker
import BlockExchange.Wire.Layout

namespace BlockExchange

open Fields

structure FileDocument where
  record : FileRecord
  fileName : String
  parent : String
  deriving DecidableEq, Repr

structure BlockDocument where
  folder : String
  path : String
  blocks : List Block
  hash : String
  size : Int
  deriving DecidableEq, Repr

def FileRecord.toDocument (r : FileRecord) : FileDocument :=
  ⟨r, r.fileName, r.parent⟩

def BlockList.toDocument (b : BlockList) : BlockDocument :=
  ⟨b.folder, b.path, b.blocks, b.hash, b.size⟩

def Timestamp.shape : Shape Timestamp :=
  .iso (fun (seconds, nanos, ()) => ⟨seconds, nanos⟩) (fun t => (t.seconds, t.nanos, ()))
    (.record (required "seconds" .count (required "nanos" .smallCount .nil)))

def FileKind.shape : Shape FileKind :=
  .iso
    (fun
      | .inl (hash, size, invalid, ()) => .file hash size invalid
      | .inr (.inl ()) => .directory
      | .inr (.inr (.inl (target, ()))) => .symlink target)
    (fun
      | .file hash size invalid => .inl (hash, size, invalid, ())
      | .directory => .inr (.inl ())
      | .symlink target => .inr (.inr (.inl (target, ()))))
    (.choice
      (.content "File"
        (.record (required "hash" .text (required "size" .count (required "invalid" .bool .nil))))
      (.bare "Directory"
      (.content "Symlink" (.record (required "target" .text .nil)) .nil))))

def FileDocument.shape : Shape FileDocument :=
  .iso
    (fun (folder, path, fileName, parent, lastModified, modifiedBy, deleted, versions, permissions,
        noPermissions, sequence, kind, ()) =>
      ⟨⟨folder, path, lastModified, modifiedBy, deleted, versions, permissions, noPermissions,
        sequence, kind⟩, fileName, parent⟩)
    (fun ⟨r, fileName, parent⟩ => (r.folder, r.path, fileName, parent, r.lastModified,
      r.modifiedBy, r.deleted, r.versions, r.permissions, r.noPermissions, r.sequence, r.kind, ()))
    (.record (required "folder" .text (required "path" .text (required "file_name" .text
      (required "parent" .text (required "last_modified" Timestamp.shape
      (required "last_modified_by" .uint64 (required "deleted" .bool
      (required "versions" (.sequence Version.shape) (required "permissions" .uint32
      (required "no_permissions" .bool (required "sequence" .count
      (required "kind" FileKind.shape .nil)))))))))))))

def Block.shape : Shape Block :=
  .iso (fun (offset, size, hash, ()) => ⟨offset, size, hash⟩)
    (fun b => (b.offset, b.size, b.hash, ()))
    (.record (required "offset" .count (required "size" .smallCount (required "hash" .text .nil))))

def BlockDocument.shape : Shape BlockDocument :=
  .iso (fun (folder, path, blocks, hash, size, ()) => ⟨folder, path, blocks, hash, size⟩)
    (fun b => (b.folder, b.path, b.blocks, b.hash, b.size, ()))
    (.record (required "folder" .text (required "path" .text
      (required "blocks" (.sequence Block.shape) (required "hash" .text
      (required "size" .count .nil))))))

def Marker.shape : Shape Marker :=
  .iso
    (fun (folder, device, indexId, localSequence, maxSequence, ()) =>
      ⟨folder, device, indexId, localSequence, maxSequence⟩)
    (fun m => (m.folder, m.device, m.indexId, m.localSequence, m.maxSequence, ()))
    (.record (required "folder" .text (required "device_id" DeviceId.shape
      (required "index_id" .uint64 (required "local_sequence" .count
      (required "max_sequence" .count .nil))))))

def FolderStats.shape : Shape FolderStats :=
  .iso (fun (folder, files, dirs, size, lastUpdate, ()) => ⟨folder, files, dirs, size, lastUpdate⟩)
    (fun s => (s.folder, s.files, s.dirs, s.size, s.lastUpdate, ()))
    (.record (required "folder" .text (required "file_count" .count (required "dir_count" .count
      (required "size" .count (required "last_update" .count .nil))))))

end BlockExchange
