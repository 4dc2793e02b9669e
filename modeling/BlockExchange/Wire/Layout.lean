import BlockExchange.Shape
import BlockExchange.Wire.Message

namespace BlockExchange

open Fields

def DeviceId.shape : Shape DeviceId :=
  .iso (fun l => ⟨l.1, l.2⟩) (fun id => ⟨id.bytes, id.length_eq⟩) (.tuple 32 .uint8)

def Version.shape : Shape Version :=
  .iso (fun (id, value, ()) => ⟨id, value⟩) (fun v => (v.id, v.value, ()))
    (.record (required "id" .uint64 (required "value" .uint64 .nil)))

namespace Wire

def hello : Shape Hello :=
  .iso (fun (device, client, version, ()) => ⟨device, client, version⟩)
    (fun h => (h.deviceName, h.clientName, h.clientVersion, ()))
    (.record (required "device_name" .text (required "client_name" .text
      (required "client_version" .text .nil))))

def offeredDevice : Shape OfferedDevice :=
  .iso
    (fun (id, name, addresses, maxSequence, introducer, indexId, ()) =>
      ⟨id, name, addresses, maxSequence, introducer, indexId⟩)
    (fun d => (d.id, d.name, d.addresses, d.maxSequence, d.introducer, d.indexId, ()))
    (.record (required "id" DeviceId.shape (required "name" .text
      (required "addresses" (.sequence .text) (required "max_sequence" .int64
      (required "introducer" .bool (required "index_id" .uint64 .nil)))))))

def offeredFolder : Shape OfferedFolder :=
  .iso
    (fun (id, label, readOnly, ignorePermissions, ignoreDelete, disableTempIndexes, paused,
        devices, ()) =>
      ⟨id, label, readOnly, ignorePermissions, ignoreDelete, disableTempIndexes, paused, devices⟩)
    (fun f => (f.id, f.label, f.readOnly, f.ignorePermissions, f.ignoreDelete,
      f.disableTempIndexes, f.paused, f.devices, ()))
    (.record (required "id" .text (required "label" .text (required "read_only" .bool
      (required "ignore_permissions" .bool (required "ignore_delete" .bool
      (required "disable_temp_indexes" .bool (required "paused" .bool
      (required "devices" (.sequence offeredDevice) .nil)))))))))

def blockEntry : Shape BlockEntry :=
  .iso (fun (offset, size, hash, weakHash, ()) => ⟨offset, size, hash, weakHash⟩)
    (fun b => (b.offset, b.size, b.hash, b.weakHash, ()))
    (.record (required "offset" .int64 (required "size" .int32
      (required "hash" (.sequence .uint8) (required "weak_hash" .uint32 .nil)))))

def fileEntry : Shape FileEntry :=
  .iso
    (fun (name, fileType, size, permissions, seconds, nanos, modifiedBy, deleted, invalid,
        noPermissions, versions, sequence, blockSize, blocks, target, ()) =>
      ⟨name, fileType, size, permissions, seconds, nanos, modifiedBy, deleted, invalid,
        noPermissions, versions, sequence, blockSize, blocks, target⟩)
    (fun f => (f.name, f.fileType, f.size, f.permissions, f.modifiedSeconds, f.modifiedNanos,
      f.modifiedBy, f.deleted, f.invalid, f.noPermissions, f.versions, f.sequence, f.blockSize,
      f.blocks, f.symlinkTarget, ()))
    (.record (required "name" .text (required "file_type" .int32 (required "size" .int64
      (required "permissions" .uint32 (required "modified_s" .int64
      (required "modified_ns" .int32 (required "modified_by" .uint64
      (required "deleted" .bool (required "invalid" .bool (required "no_permissions" .bool
      (required "version" (.sequence Version.shape) (required "sequence" .int64
      (required "block_size" .int32 (required "blocks" (.sequence blockEntry)
      (required "symlink_target" .text .nil))))))))))))))))

def indexPart : Shape IndexPart :=
  .iso (fun (folder, files, ()) => ⟨folder, files⟩) (fun p => (p.folder, p.files, ()))
    (.record (required "folder" .text (required "files" (.sequence fileEntry) .nil)))

def blockRequest : Shape BlockRequest :=
  .iso
    (fun (id, folder, name, offset, size, hash, fromTemporary, ()) =>
      ⟨id, folder, name, offset, size, hash, fromTemporary⟩)
    (fun r => (r.id, r.folder, r.name, r.offset, r.size, r.hash, r.fromTemporary, ()))
    (.record (required "id" .int32 (required "folder" .text (required "name" .text
      (required "offset" .int64 (required "size" .int32 (required "hash" (.sequence .uint8)
      (required "from_temporary" .bool .nil))))))))

def errorCode : Shape ErrorCode :=
  .iso
    (fun
      | .inl () => .noError
      | .inr (.inl ()) => .generic
      | .inr (.inr (.inl ())) => .noSuchFile
      | .inr (.inr (.inr (.inl ()))) => .invalidFile)
    (fun
      | .noError => .inl ()
      | .generic => .inr (.inl ())
      | .noSuchFile => .inr (.inr (.inl ()))
      | .invalidFile => .inr (.inr (.inr (.inl ()))))
    (.choice (.bare "NoError" (.bare "Generic" (.bare "NoSuchFile" (.bare "InvalidFile" .nil)))))

def blockResponse : Shape BlockResponse :=
  .iso (fun (id, data, code, ()) => ⟨id, data, code⟩) (fun r => (r.id, r.data, r.code, ()))
    (.record (required "id" .int32 (required "data" .octets (required "code" errorCode .nil))))

def progressUpdate : Shape ProgressUpdate :=
  .iso (fun (name, versions, indexes, ()) => ⟨name, versions, indexes⟩)
    (fun u => (u.name, u.versions, u.blockIndexes, ()))
    (.record (required "name" .text (required "version" (.sequence Version.shape)
      (required "block_indexes" (.sequence .int32) .nil))))

def downloadProgress : Shape DownloadProgress :=
  .iso (fun (folder, updates, ()) => ⟨folder, updates⟩) (fun p => (p.folder, p.updates, ()))
    (.record (required "folder" .text (required "updates" (.sequence progressUpdate) .nil)))

def clusterConfig : Shape (List OfferedFolder) :=
  .iso (fun (folders, ()) => folders) (fun folders => (folders, ()))
    (.record (required "folders" (.sequence offeredFolder) .nil))

def closeReason : Shape String :=
  .iso (fun (reason, ()) => reason) (fun reason => (reason, ()))
    (.record (required "reason" .text .nil))

def message : Shape Message :=
  .iso
    (fun
      | .inl folders => .clusterConfig folders
      | .inr (.inl part) => .index part
      | .inr (.inr (.inl part)) => .indexUpdate part
      | .inr (.inr (.inr (.inl r))) => .request r
      | .inr (.inr (.inr (.inr (.inl r)))) => .response r
      | .inr (.inr (.inr (.inr (.inr (.inl p))))) => .downloadProgress p
      | .inr (.inr (.inr (.inr (.inr (.inr (.inl ())))))) => .ping
      | .inr (.inr (.inr (.inr (.inr (.inr (.inr (.inl reason))))))) => .close reason)
    (fun
      | .clusterConfig folders => .inl folders
      | .index part => .inr (.inl part)
      | .indexUpdate part => .inr (.inr (.inl part))
      | .request r => .inr (.inr (.inr (.inl r)))
      | .response r => .inr (.inr (.inr (.inr (.inl r))))
      | .downloadProgress p => .inr (.inr (.inr (.inr (.inr (.inl p)))))
      | .ping => .inr (.inr (.inr (.inr (.inr (.inr (.inl ()))))))
      | .close reason => .inr (.inr (.inr (.inr (.inr (.inr (.inr (.inl reason))))))))
    (.choice (.content "ClusterConfig" clusterConfig (.content "Index" indexPart
      (.content "IndexUpdate" indexPart (.content "Request" blockRequest
      (.content "Response" blockResponse (.content "DownloadProgress" downloadProgress
      (.bare "Ping" (.content "Close" closeReason .nil)))))))))

end Wire

end BlockExchange
