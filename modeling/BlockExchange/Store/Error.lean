import BlockExchange.Model.Error
import BlockExchange.Model.FolderStats

namespace BlockExchange

inductive DatabaseFault where
  | unreadable (column : String)
  | schemaVersion (n : Int)
  | missingTable (name : String)
  | existingTable (name : String)
  deriving DecidableEq, Repr

inductive StoreError where
  | database (fault : DatabaseFault)
  | model (cause : ModelError)
  | orphanBlocks (path : String)
  | negativeStats (stats : FolderStats)
  | refused (reason : String)
  deriving DecidableEq, Repr

def DatabaseFault.message : DatabaseFault → String
  | unreadable column => "unreadable column " ++ column
  | schemaVersion n => s!"schema version {n} is out of range"
  | missingTable name => "no such table: " ++ name
  | existingTable name => s!"table {name} already exists"

def StoreError.message : StoreError → String
  | database fault => "database error: " ++ fault.message
  | model cause => "invalid record: " ++ cause.message
  | orphanBlocks path => s!"invalid data: blocks for {path} without a matching record"
  | negativeStats s =>
    s!"invalid data: folder stats for {s.folder} would become negative: files={s.files} " ++
      s!"dirs={s.dirs} size={s.size}"
  | refused reason => "invalid data: " ++ reason

end BlockExchange
