import BlockExchange.Index.Prepare
import BlockExchange.Index.StatsDelta
import BlockExchange.Store.Transaction
/-!
Merging announced records into the index: the last writer wins, by modification time.
-/

namespace BlockExchange

/-- Whether a record takes the place of another one. Of equal times the newcomer wins. -/
def FileRecord.supersedes (new : FileRecord) (old : Option FileRecord) : Bool :=
  old.all fun old => old.lastModified ≤ new.lastModified

namespace Index

def keepLast : List FileEntry → List FileEntry
  | [] => []
  | f :: rest => if rest.any (·.name = f.name) then keepLast rest else f :: keepLast rest

/-- One entry for each path, that of the greatest sequence number, in the order of these numbers. -/
def latestByPath (files : List FileEntry) : List FileEntry :=
  keepLast (files.mergeSort fun a b => a.sequence ≤ b.sequence)

def accepted (folder : String) (old : Table String FileRecord) (files : List FileEntry) :
    List (FileRecord × Option BlockList) :=
  ((latestByPath files).filterMap fun f => f.prepare? folder 0).filter fun (r, _) =>
    r.supersedes (old.get? r.path)

def stamp : (start : Int) → List (FileRecord × Option BlockList) →
    List (FileRecord × Option BlockList)
  | _, [] => []
  | start, (r, blocks) :: rest => (r.withSequence start, blocks) :: stamp (start + 1) rest

def pushRecords (folder : String) (files : List FileEntry) (old : Table String FileRecord)
    (delta : StatsDelta) : Transaction StoreError (List FileRecord × StatsDelta) := do
  let taken := accepted folder old files
  let start ← (Query.nextSequences taken.length).ask
  let stamped := stamp start taken
  let records := stamped.map (·.1)
  Store.putFiles records (stamped.filterMap (·.2))
  return (records, records.foldl (fun d r => d.fold (old.get? r.path) r) delta)

/-- Merges one record. A sequence number is taken even if the record is not. -/
def pushRecord (folder : String) (f : FileEntry) (old : Option FileRecord) (delta : StatsDelta) :
    Transaction StoreError (Option FileRecord × StatsDelta) := do
  let sequence ← (Query.nextSequences 1).ask
  match f.prepare? folder sequence with
  | none => return (none, delta)
  | some (r, blocks) =>
    if r.supersedes old then
      (Query.putFile r blocks).ask
      return (some r, delta.fold old r)
    else return (none, delta)

def flush (delta : StatsDelta) : Transaction StoreError Unit := do
  if delta.isEmpty then return ()
  (Query.addStats delta.folder delta.change).ask
  match delta.lastModified with
  | some time => (Query.touchStats delta.folder time.toMillis).ask
  | none => return ()

end Index

end BlockExchange
