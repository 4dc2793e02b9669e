import BlockExchange.Model.BlockList
import BlockExchange.Model.Marker
import BlockExchange.Store.Error
import BlockExchange.Table
/-!
Transactions on the index: what may be asked of a store, and programs of such questions. A store is
a function that answers questions; `Transaction.run` plays a program against it.
-/

namespace BlockExchange

inductive Query where
  | marker (folder : String) (device : DeviceId)
  | allMarkers
  | putMarker (m : Marker)
  | file (folder path : String)
  | files (folder : String) (paths : List String)
  | blocks (folder path : String)
  | children (folder parent : String)
  | putFile (r : FileRecord) (blocks : Option BlockList)
  | stats (folder : String)
  | allStats
  | addStats (folder : String) (change : Weight)
  | touchStats (folder : String) (millis : Int)
  | epoch
  | sequence
  | nextSequences (count : Nat)
  | clear (draw : UInt64)

abbrev Query.Reply : Query → Type
  | marker .. => Option Marker
  | allMarkers => List Marker
  | putMarker _ => Unit
  | file .. => Option FileRecord
  | files .. => Table String FileRecord
  | blocks .. => Option BlockList
  | children .. => List FileRecord
  | putFile .. => Unit
  | stats _ => Option FolderStats
  | allStats => List FolderStats
  | addStats .. => Unit
  | touchStats .. => Unit
  | epoch => UInt64
  | sequence => Int
  | nextSequences _ => Int
  | clear _ => Unit

/-- A program that asks questions. It sees the error of each and may go on behind it. -/
inductive Transaction (ε α : Type) where
  | done (a : α)
  | fail (e : ε)
  | ask (q : Query) (next : Except StoreError q.Reply → Transaction ε α)

namespace Transaction

variable {ε ε' α β σ : Type}

def bind (f : α → Transaction ε β) : Transaction ε α → Transaction ε β
  | done a => f a
  | fail e => fail e
  | ask q next => ask q fun r => (next r).bind f

instance : Monad (Transaction ε) where
  pure := done
  bind t f := t.bind f

def mapError (f : ε → ε') : Transaction ε α → Transaction ε' α
  | done a => done a
  | fail e => fail (f e)
  | ask q next => ask q fun r => (next r).mapError f

def attempt : Transaction ε α → Transaction ε (Except ε α)
  | done a => done (.ok a)
  | fail e => done (.error e)
  | ask q next => ask q fun r => (next r).attempt

def run (answer : (q : Query) → σ → Except StoreError q.Reply × σ) :
    Transaction ε α → σ → Except ε α × σ
  | done a, s => (.ok a, s)
  | fail e, s => (.error e, s)
  | ask q next, s =>
    let (r, s) := answer q s
    (next r).run answer s

def commit (answer : (q : Query) → σ → Except StoreError q.Reply × σ) (t : Transaction ε α)
    (s : σ) : Except ε α × σ :=
  match t.run answer s with
  | (.ok a, s') => (.ok a, s')
  | (.error e, _) => (.error e, s)

end Transaction

def Query.ask (q : Query) : Transaction StoreError q.Reply :=
  .ask q fun
    | .ok r => .done r
    | .error e => .fail e

namespace Store

def orphan? (records : List FileRecord) (lists : List BlockList) : Option BlockList :=
  lists.find? fun b => !records.any fun r => r.path = b.path

def blocksByPath (lists : List BlockList) : Table String BlockList :=
  lists.foldl (fun t b => t.insert b.path b) {}

/-- Sets the records in order; the first one of a path takes the path's block list. -/
def putEach : List FileRecord → Table String BlockList → Transaction StoreError Unit
  | [], _ => .done ()
  | r :: rest, lists => do
    (Query.putFile r (lists.get? r.path)).ask
    putEach rest (lists.erase r.path)

def putFiles (records : List FileRecord) (lists : List BlockList) : Transaction StoreError Unit :=
  match orphan? records lists with
  | some b => .fail (.orphanBlocks b.path)
  | none => putEach records (blocksByPath lists)

def checkWrite (r : FileRecord) : Option BlockList → Except StoreError Unit
  | none => .ok ()
  | some b => (b.checkAgainst r).mapError .model

def checkStats (s : FolderStats) : Except StoreError Unit :=
  if s.isNonNegative then .ok () else .error (.negativeStats s)

end Store

end BlockExchange
