import BlockExchange.Connection.Incoming
import BlockExchange.Exchange.Cluster
import BlockExchange.Exchange.Hello
/-!
A connection at a moment of its life: what each of its agents is at, what callers have asked for and
what they have been told.
-/

namespace BlockExchange

inductive Phase where
  | connecting
  | authenticating
  | exchangingClusterConfig
  | active
  | closing
  | closed
  deriving DecidableEq, Repr

inductive Action where
  | request (r : BlockRequest)
  | update (p : IndexPart)
  | confirm
  | close (reason : String)

inductive Outcome where
  | response (r : Except ExchangeError BlockResponse)
  | updated (r : Except ExchangeError Unit)
  | confirmed (r : Except ExchangeError ClusterInfo)
  | closed

def Action.failed (e : ExchangeError) : Action → Outcome
  | request _ => .response (.error e)
  | update _ => .updated (.error e)
  | confirm => .confirmed (.error e)
  | close _ => .closed

structure Submission where
  call : Nat
  action : Action

def Submission.lost (e : ExchangeError) (s : Submission) : Option (Nat × Outcome) :=
  match s.action with
  | .close _ => none
  | action => some (s.call, action.failed e)

/-- The action queue: one submission has its place there, the others wait for it in order. When the
place becomes free, the first of them is let in and still has to take it. -/
inductive Inbox where
  | empty
  | held (s : Submission) (waiting : List Submission)
  | admitted (s : Submission) (waiting : List Submission)

namespace Inbox

def enter (s : Submission) : Inbox → Inbox
  | empty => held s []
  | held t waiting => held t (waiting ++ [s])
  | admitted t waiting => admitted t (waiting ++ [s])

def take? : Inbox → Option (Submission × Inbox)
  | held s [] => some (s, empty)
  | held s (t :: waiting) => some (s, admitted t waiting)
  | _ => none

def occupy? : Inbox → Option Inbox
  | admitted s waiting => some (held s waiting)
  | _ => none

def accepted : Inbox → List Submission
  | held s _ => [s]
  | _ => []

def refused : Inbox → List Submission
  | empty => []
  | held _ waiting => waiting
  | admitted s waiting => s :: waiting

end Inbox

inductive Report where
  | response (r : BlockResponse)
  | request (r : BlockRequest)
  | unsent (id : Int32) (cause : ExchangeError)
  deriving DecidableEq

inductive Errand where
  | request (id : Int32)
  | update (call : Nat)
  | response
  deriving DecidableEq, Repr

structure Worker where
  ticket : Nat
  errand : Errand
  sending : Sending
  deriving DecidableEq, Repr

def Worker.lost (w : Worker) : Option (Nat × Outcome) :=
  match w.errand with
  | .update call => some (call, .updated (.error .cancelled))
  | _ => none

inductive Reader where
  | idle
  | hello (r : Incoming)
  | greeted (h : Except ExchangeError Hello)
  | first (r : Incoming)
  | opened (m : Except ExchangeError Message)
  | serving (info : ClusterInfo) (r : Incoming)
  | merging (info : ClusterInfo) (folder : String) (r : Except ExchangeError Index.Received)

inductive KeepAlive where
  | off
  | resting (due : Nat)
  | pinging (due : Nat) (mine : Sending)
  | refused
  deriving DecidableEq, Repr

/-- The first ping is due after a period, which has to be something and within what the clock can
tell. -/
def KeepAlive.start (period horizon now : Nat) : KeepAlive :=
  if period = 0 ∨ horizon < now + period then refused else resting (now + period)

inductive Control where
  | dialing
  | greeting (mine : Option Sending)
  | building (hello : Hello) (folders : Except ExchangeError (List OfferedFolder))
  | clustering (hello : Hello) (mine : Option Sending)
  /-- The store is told what the peer announces. -/
  | agreeing (info : Except ExchangeError ClusterInfo)
  | announcing (info : ClusterInfo) (rest : List String) (mine : Option Sending)
  | serving (info : ClusterInfo)
  | parting (result : Except ExchangeError Unit) (mine : Sending) (deadline : Nat)
  | stopping (result : Except ExchangeError Unit)
  | finished (result : Except ExchangeError Unit)

def Control.phase : Control → Phase
  | dialing => .connecting
  | greeting _ => .authenticating
  | building .. | clustering .. | agreeing _ => .exchangingClusterConfig
  | announcing .. | serving _ => .active
  | parting .. | stopping _ => .closing
  | finished _ => .closed

def Control.handshake? : Control → Option (Option Sending)
  | dialing | building .. | agreeing _ => some none
  | greeting mine | clustering _ mine => some mine
  | _ => none

def Control.result? : Control → Option (Except ExchangeError Unit)
  | finished result => some result
  | _ => none

inductive Exit where
  | local (reason : String)
  | peerClosed
  | failed (cause : ExchangeError)

namespace Exit

def result : Exit → Except ExchangeError Unit
  | failed cause => .error cause
  | _ => .ok ()

def reason : Exit → String
  | .local reason => reason
  | peerClosed => ""
  | failed cause => cause.message

end Exit

structure Connection where
  device : DeviceId
  address : String
  stream : Option Stream
  control : Control := .dialing
  reader : Reader := .idle
  keepAlive : KeepAlive := .off
  workers : List Worker := []
  nextTicket : Nat := 0
  reports : List Report := []
  ended : List (Except ExchangeError Unit) := []
  pending : List (Int32 × Nat) := []
  nextId : Int32 := 0
  inbox : Inbox := .empty
  deferred : List Submission := []
  handles : Nat := 1
  calls : List Nat := []
  /-- The calls that wait for the connection to be closed. -/
  closers : List Nat := []
  replies : List (Nat × Outcome) := []
  answers : List (Nat × Outcome) := []

structure Surroundings where
  configuration : Configuration
  settings : ConnectionSettings
  serve : DeviceId → BlockRequest → BlockResponse
  /-- The last moment that the clock can tell, in milliseconds. -/
  horizon : Nat := 0x8000000000000000 * 1000
  grief : String := "task panicked"

namespace Connection

def phase (c : Connection) : Phase := c.control.phase

def isConnected (c : Connection) : Bool := c.stream.any (·.connected)

def disconnect (c : Connection) : Connection :=
  { c with stream := c.stream.map (·.disconnect) }

def isAbandoned (c : Connection) : Bool := c.handles = 0 && c.calls.isEmpty

def reply (call : Nat) (o : Outcome) (c : Connection) : Connection :=
  { c with replies := c.replies ++ [(call, o)] }

def submit (call : Nat) (action : Action) (c : Connection) : Connection :=
  let c := { c with calls := c.calls ++ [call] }
  match c.control, action with
  | .finished _, action => c.reply call (action.failed .closed)
  | _, .close reason =>
    { c with inbox := c.inbox.enter ⟨call, .close reason⟩, closers := c.closers ++ [call] }
  | _, action => { c with inbox := c.inbox.enter ⟨call, action⟩ }

def release (c : Connection) : Connection := { c with handles := c.handles - 1 }

end Connection

end BlockExchange
