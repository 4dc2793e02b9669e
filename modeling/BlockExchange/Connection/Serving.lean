import BlockExchange.Connection.Ending

namespace BlockExchange.Connection

def accept (x : Surroundings) (now : Nat) (info : ClusterInfo) (s : Submission) (c : Connection) :
    Connection :=
  match s.action with
  | .request r =>
    ({ c with nextId := c.nextId + 1, pending := c.pending ++ [(c.nextId, s.call)] }).dispatch
      (.request c.nextId) (.request { r with id := c.nextId })
  | .update p => c.dispatch (.update s.call) (.indexUpdate p)
  | .confirm => c.reply s.call (.confirmed (if c.isConnected then .ok info else .error .closed))
  | .close reason => c.leave x now (.local reason)

def settle (id : Int32) (r : Except ExchangeError BlockResponse) (c : Connection) :
    Option Connection :=
  (c.pending.find? (·.1 = id)).map fun (_, call) =>
    ({ c with pending := c.pending.eraseP (·.1 = id) }).reply call (.response r)

def hear (x : Surroundings) (now : Nat) (r : Report) (c : Connection) : Connection :=
  match r with
  | .response r =>
    (c.settle r.id (.ok r)).getD (c.leave x now (.failed (.violation (.unknownResponse r.id))))
  | .request r => c.dispatch .response (.response { x.serve c.device r with id := r.id })
  | .unsent id cause => (c.settle id (.error cause)).getD c

/-- What the control takes up next: what was put off, then reports, then a submission, and then the end
of another agent. -/
def attend (x : Surroundings) (now : Nat) (info : ClusterInfo) (c : Connection) :
    Option Connection :=
  match c.deferred, c.reports, c.inbox.take? with
  | s :: rest, _, _ => some ({ c with deferred := rest }.accept x now info s)
  | [], r :: rest, _ => some ({ c with reports := rest }.hear x now r)
  | [], [], some (s, inbox) => some ({ c with inbox }.accept x now info s)
  | [], [], none =>
    if c.isAbandoned then some (c.leave x now (.local "connection dropped"))
    else match c.ended with
      | .ok () :: rest => some ({ c with ended := rest }.leave x now .peerClosed)
      | .error e :: rest => some ({ c with ended := rest }.leave x now (.failed e))
      | [] => none

def announce (x : Surroundings) (now : Nat) (info : ClusterInfo) (rest : List String)
    (mine : Option Sending) (c : Connection) : Option Connection :=
  match mine, rest with
  | some s, rest =>
    (c.write .control s).map fun
      | (.going s, c) => { c with control := .announcing info rest (some s) }
      | (.done (.ok ()), c) => { c with control := .announcing info rest none }
      | (.done (.error e), c) => c.leave x now (.failed e)
  | none, folder :: rest =>
    some { c with control := .announcing info rest (some (.ofMessage (.index ⟨folder, []⟩))) }
  | none, [] => some { c with control := .serving info }

def part (now : Nat) (result : Except ExchangeError Unit) (s : Sending) (deadline : Nat)
    (c : Connection) : Option Connection :=
  match c.write .control s with
  | some (.going s, c) => some { c with control := .parting result s deadline }
  | some (.done _, c) => some (c.disconnect.stop result)
  | none =>
    if deadline ≤ now then some ((c.abandon .control s).disconnect.stop result) else none

end BlockExchange.Connection
