import BlockExchange.Model.DeviceId
import BlockExchange.Model.FileRecord

namespace BlockExchange

structure Hello where
  deviceName : String
  clientName : String
  clientVersion : String
  deriving DecidableEq, Repr

structure OfferedDevice where
  id : DeviceId
  name : String
  addresses : List String := []
  maxSequence : Int64
  introducer : Bool := false
  indexId : UInt64
  deriving DecidableEq

structure OfferedFolder where
  id : String
  label : String := ""
  readOnly : Bool := false
  ignorePermissions : Bool := false
  ignoreDelete : Bool := false
  disableTempIndexes : Bool := false
  paused : Bool := false
  devices : List OfferedDevice := []
  deriving DecidableEq

structure BlockEntry where
  offset : Int64
  size : Int32
  hash : Bytes
  weakHash : UInt32 := 0
  deriving DecidableEq

structure FileEntry where
  name : String
  fileType : Int32 := 0
  size : Int64 := 0
  permissions : UInt32 := 0
  modifiedSeconds : Int64 := 0
  modifiedNanos : Int32 := 0
  modifiedBy : UInt64 := 0
  deleted : Bool := false
  invalid : Bool := false
  noPermissions : Bool := false
  versions : List Version := []
  sequence : Int64 := 0
  blockSize : Int32 := 0
  blocks : List BlockEntry := []
  symlinkTarget : String := ""
  deriving DecidableEq

inductive FileType where
  | file
  | directory
  | symlinkFile
  | symlinkDirectory
  | symlink
  deriving DecidableEq, Repr

structure IndexPart where
  folder : String
  files : List FileEntry := []
  deriving DecidableEq

structure BlockRequest where
  id : Int32
  folder : String
  name : String
  offset : Int64 := 0
  size : Int32 := 0
  hash : Bytes := []
  fromTemporary : Bool := false
  deriving DecidableEq

inductive ErrorCode where
  | noError
  | generic
  | noSuchFile
  | invalidFile
  deriving DecidableEq, Repr

structure BlockResponse where
  id : Int32
  data : Bytes := []
  code : ErrorCode := .noError
  deriving DecidableEq

structure ProgressUpdate where
  name : String
  versions : List Version := []
  blockIndexes : List Int32 := []
  deriving DecidableEq

structure DownloadProgress where
  folder : String
  updates : List ProgressUpdate := []
  deriving DecidableEq

inductive Message where
  | clusterConfig (folders : List OfferedFolder)
  | index (part : IndexPart)
  | indexUpdate (part : IndexPart)
  | request (r : BlockRequest)
  | response (r : BlockResponse)
  | downloadProgress (p : DownloadProgress)
  | ping
  | close (reason : String)
  deriving DecidableEq

namespace FileType

def toInt32 : FileType → Int32
  | file => 0
  | directory => 1
  | symlinkFile => 2
  | symlinkDirectory => 3
  | symlink => 4

def ofInt32? (n : Int32) : Option FileType :=
  [file, directory, symlinkFile, symlinkDirectory, symlink].find? (·.toInt32 = n)

end FileType

def BlockResponse.failed (id : Int32) (code : ErrorCode) : BlockResponse :=
  { id, code }

def Message.kind : Message → String
  | clusterConfig _ => "cluster_config"
  | index _ => "index"
  | indexUpdate _ => "index_update"
  | request _ => "request"
  | response _ => "response"
  | downloadProgress _ => "download_progress"
  | ping => "ping"
  | close _ => "close"

end BlockExchange
