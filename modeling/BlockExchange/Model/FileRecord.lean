import BlockExchange.Model.Path
import BlockExchange.Model.Timestamp

namespace BlockExchange

structure Version where
  id : UInt64
  value : UInt64
  deriving DecidableEq, Repr

inductive FileKind where
  | file (hash : String) (size : Int) (invalid : Bool)
  | directory
  | symlink (target : String)
  deriving DecidableEq, Repr

namespace FileKind

def name : FileKind → String
  | file .. => "file"
  | directory => "directory"
  | symlink _ => "symlink"

def isFile : FileKind → Bool
  | file .. => true
  | _ => false

def isDirectory : FileKind → Bool
  | directory => true
  | _ => false

def isSymlink : FileKind → Bool
  | symlink _ => true
  | _ => false

def size? : FileKind → Option Int
  | file _ size _ => some size
  | _ => none

def hash? : FileKind → Option String
  | file hash .. => some hash
  | _ => none

end FileKind

structure FileRecord where
  folder : String
  path : String
  lastModified : Timestamp := {}
  modifiedBy : UInt64 := 0
  deleted : Bool := false
  versions : List Version := []
  permissions : UInt32 := 0
  noPermissions : Bool := false
  sequence : Int := 0
  kind : FileKind
  deriving DecidableEq, Repr

namespace FileRecord

def fileName (r : FileRecord) : String :=
  Path.fileName r.path

def parent (r : FileRecord) : String :=
  Path.parent r.path

def folderRoot (folder : String) : FileRecord :=
  { folder, path := Path.root, permissions := 0o066, noPermissions := true, kind := .directory }

def withSequence (r : FileRecord) (sequence : Int) : FileRecord :=
  { r with sequence }

def latestVersion? (r : FileRecord) : Option Version :=
  r.versions.getLast?

end FileRecord

end BlockExchange
