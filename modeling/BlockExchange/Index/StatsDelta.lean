import BlockExchange.Model.FolderStats

namespace BlockExchange

structure StatsDelta where
  folder : String
  change : Weight := {}
  lastModified : Option Timestamp := none
  deriving DecidableEq, Repr

namespace StatsDelta

def isEmpty (d : StatsDelta) : Bool :=
  d.change == {} && d.lastModified.isNone

def fold (d : StatsDelta) (old : Option FileRecord) (new : FileRecord) : StatsDelta :=
  { d with
    change := d.change - .ofRecord? old + .ofRecord new
    lastModified := some new.lastModified }

end StatsDelta

end BlockExchange
