import BlockExchange.Store.Database.Schema
import BlockExchange.Store.Memory

namespace BlockExchange

inductive Backend where
  | memory
  | database
  | file
  deriving DecidableEq

inductive Store where
  | memory (m : Memory)
  | database (versions : List Int) (tables : Database.Tables) (durable : Bool)

namespace Store

def answer (q : Query) : Store → Except StoreError q.Reply × Store
  | .memory m =>
    let (r, m) := m.answer q
    (r, .memory m)
  | .database versions tables durable =>
    let (r, tables) := Database.answer q tables
    (r, .database versions tables durable)

def transact {ε α : Type} (s : Store) (t : Transaction ε α) : Except ε α × Store :=
  t.commit answer s

def openDatabase (d : Database) (draw : UInt64) (durable : Bool) : Except StoreError Store :=
  match d.openTables draw with
  | .ok (versions, tables) => .ok (.database versions tables durable)
  | .error fault => .error (.database fault)

def create (backend : Backend) (draw : UInt64) : Except StoreError Store :=
  match backend with
  | .memory => .ok (.memory (.fresh draw))
  | .database => openDatabase {} draw false
  | .file => openDatabase {} draw true

def close : Store → Option Database
  | .database versions tables true => some ⟨versions, some tables.kept⟩
  | _ => none

def reopen (s : Store) (draw : UInt64) (meanwhile : Database → Database) :
    Except StoreError Store :=
  match s, s.close with
  | _, some d => openDatabase (meanwhile d) draw true
  | .memory _, none => create .memory draw
  | .database .., none => create .database draw

end Store

end BlockExchange
