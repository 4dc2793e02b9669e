import BlockExchange.Model.FileRecord

namespace BlockExchange

structure Weight where
  files : Int := 0
  dirs : Int := 0
  size : Int := 0
  deriving DecidableEq, Repr

namespace Weight

instance : Add Weight := ⟨fun a b => ⟨a.files + b.files, a.dirs + b.dirs, a.size + b.size⟩⟩
instance : Sub Weight := ⟨fun a b => ⟨a.files - b.files, a.dirs - b.dirs, a.size - b.size⟩⟩

def ofRecord (r : FileRecord) : Weight :=
  if r.deleted then {}
  else
    match r.kind with
    | .file _ size _ => { files := 1, size }
    | .directory => { dirs := 1 }
    | .symlink _ => {}

def ofRecord? : Option FileRecord → Weight
  | some r => ofRecord r
  | none => {}

end Weight

structure FolderStats where
  folder : String
  files : Int := 0
  dirs : Int := 0
  size : Int := 0
  lastUpdate : Int := 0
  deriving DecidableEq, Repr

namespace FolderStats

def recordCount (s : FolderStats) : Int :=
  s.files + s.dirs

def isNonNegative (s : FolderStats) : Bool :=
  0 ≤ s.files && 0 ≤ s.dirs && 0 ≤ s.size

def shift (s : FolderStats) (w : Weight) : FolderStats :=
  { s with files := s.files + w.files, dirs := s.dirs + w.dirs, size := s.size + w.size }

end FolderStats

end BlockExchange
