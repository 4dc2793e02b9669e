import BlockExchange.Client.Load
import BlockExchange.Connection.Site
/-!
A client: its connections to the configured peers, over one index.
-/

namespace BlockExchange

inductive ClientOutcome where
  | connected (r : Except ClientError (DeviceId × Phase × ClusterInfo))
  | allConnected (devices : List DeviceId)
  | updated (r : Except ClientError Unit)
  | response (r : Except ExchangeError BlockResponse)
  | refused (e : ClientError)
  | stopped

/-- What is left of a call once a connection has answered. A fresh connection is kept if it comes
about. -/
inductive Plan where
  | connect (device : DeviceId) (fresh : Bool)
  | connectAll (device : DeviceId) (fresh : Bool) (rest connected : List DeviceId)
  | update
  | request
  | shutdown (rest : List Nat)

structure Undertaking where
  call : Nat
  session : Nat
  plan : Plan

structure Waiting where
  address : String
  stream : Stream
  peer : Peer

def Waiting.act (d : Deed) (w : Waiting) : Waiting :=
  let (stream, peer) := w.peer.act d w.stream
  let (stream, peer) := (peer.stepWriting stream).getD (stream, peer)
  { w with stream, peer }

structure Client where
  configuration : Configuration
  addresses : Addresses
  site : Site
  waiting : List Waiting := []
  connections : Table DeviceId Nat := {}
  undertakings : List Undertaking := []
  outcomes : List (Nat × ClientOutcome) := []

namespace Client

def start (s : ClientSettings) (serve : DeviceId → BlockRequest → BlockResponse) (draw : UInt64) :
    Except ClientError Client := do
  let configuration ← s.configuration.mapError .ofSettings
  let backend := if s.database.isSome then Backend.file else .memory
  let store ← (Store.create backend draw).mapError .store
  let addresses ← s.addresses.mapError .ofSettings
  return {
    configuration, addresses
    site := { surroundings := { configuration, settings := s.connection, serve }, index := { store } } }

def tell (call : Nat) (o : ClientOutcome) (c : Client) : Client :=
  { c with outcomes := c.outcomes ++ [(call, o)] }

def undergo (n : Nat) (e : Incident) (c : Client) : Client :=
  { c with site := c.site.undergo n e }

def phase? (n : Nat) (c : Client) : Option Phase :=
  c.site.sessions[n]?.map (·.connection.phase)

def live? (device : DeviceId) (c : Client) : Option Nat × Client :=
  match c.connections.get? device with
  | none => (none, c)
  | some n =>
    if c.phase? n = some .closed then
      (none, { c.undergo n .release with connections := c.connections.erase device })
    else (some n, c)

def undertake (call n : Nat) (plan : Plan) (a : Action) (c : Client) : Client :=
  { c.undergo n (.submit call a) with undertakings := c.undertakings ++ [⟨call, n, plan⟩] }

def dial (device : DeviceId) (address : String) (c : Client) : Client :=
  let found := c.waiting.find? (·.address = address)
  { c with
    waiting := c.waiting.eraseP (·.address = address)
    site := c.site.dial device address (found.map fun w => (w.stream, w.peer)) }

def reach? (device : DeviceId) (c : Client) : Option (Nat × Bool) × Client :=
  match c.live? device with
  | (some n, c) => (some (n, false), c)
  | (none, c) =>
    match c.addresses.get? device with
    | none => (none, c)
    | some address => (some (c.site.sessions.length, true), c.dial device address)

def connect (call : Nat) (device : DeviceId) (c : Client) : Client :=
  match c.reach? device with
  | (none, c) => c.tell call (.connected (.error (.unknownDevice device)))
  | (some (n, fresh), c) => c.undertake call n (.connect device fresh) .confirm

def connectEach (call : Nat) : (rest connected : List DeviceId) → Client → Client
  | [], connected, c => c.tell call (.allConnected connected)
  | device :: rest, connected, c =>
    match c.reach? device with
    | (none, c) => c.connectEach call rest connected
    | (some (n, fresh), c) => c.undertake call n (.connectAll device fresh rest connected) .confirm

def connectAll (call : Nat) (c : Client) : Client :=
  c.connectEach call (c.addresses.entries.map (·.1)) []

def update (call : Nat) (device : DeviceId) (p : IndexPart) (c : Client) : Client :=
  match c.live? device with
  | (none, c) => c.tell call (.updated (.error (.unknownDevice device)))
  | (some n, c) => c.undertake call n .update (.update p)

def request (call : Nat) (device : DeviceId) (r : BlockRequest) (c : Client) : Client :=
  match c.live? device with
  | (none, c) => c.tell call (.refused (.unknownDevice device))
  | (some n, c) => c.undertake call n .request (.request r)

def closeEach (call : Nat) : (rest : List Nat) → Client → Client
  | [], c => c.tell call .stopped
  | n :: rest, c => c.undertake call n (.shutdown rest) (.close "client shutting down")

def shutdown (call : Nat) (c : Client) : Client :=
  closeEach call (c.connections.entries.map (·.2)) { c with connections := {} }

def keep (device : DeviceId) (n : Nat) (c : Client) : Client :=
  let c := (c.connections.get? device).elim c fun old => c.undergo old .release
  { c with connections := c.connections.insert device n }

def adopt (device : DeviceId) (n : Nat) (fresh : Bool) (r : Except ExchangeError ClusterInfo)
    (c : Client) : Client :=
  match fresh, r with
  | false, _ => c
  | true, .ok _ => c.keep device n
  | true, .error _ => c.undergo n .release

def resume (u : Undertaking) (o : Outcome) (c : Client) : Client :=
  match u.plan, o with
  | .connect device fresh, .confirmed r =>
    let phase := (c.phase? u.session).getD .closed
    (c.adopt device u.session fresh r).tell u.call
      (.connected ((r.map (device, phase, ·)).mapError .exchange))
  | .connectAll device fresh rest connected, .confirmed r =>
    (c.adopt device u.session fresh r).connectEach u.call rest
      (if r.isOk then connected ++ [device] else connected)
  | .update, .updated r => c.tell u.call (.updated (r.mapError .exchange))
  | .request, .response r => c.tell u.call (.response r)
  | .shutdown rest, .closed => (c.undergo u.session .release).closeEach u.call rest
  | _, _ => c

def settleCall (n : Nat) (c : Client) (answer : Nat × Outcome) : Client :=
  let mine (u : Undertaking) : Bool := u.call = answer.1 && u.session = n
  match c.undertakings.find? mine with
  | none => c
  | some u => resume u answer.2 { c with undertakings := c.undertakings.eraseP mine }

def collect (n : Nat) (c : Client) : Client :=
  match c.site.sessions[n]? with
  | none => c
  | some s =>
    let (answers, s) := s.takeAnswers
    answers.foldl (settleCall n)
      { c with site := { c.site with sessions := c.site.sessions.set n s } }

def step (p : Nat × Party) (c : Client) : Option Client :=
  (c.site.step p).map fun site => { c with site }.collect p.1

def dynamics : Dynamics Client (Nat × Party) where
  parties c := c.site.parties
  step := step
  yields p c := Site.dynamics.yields p c.site
  waits p c := Site.dynamics.waits p c.site
  now c := c.site.now
  setNow now c := { c with site := { c.site with now } }
  alarms c := Site.dynamics.alarms c.site

def actPeer (name : String) (d : Deed) (c : Client) : Client :=
  { c with
    waiting := c.waiting.map fun w => if w.peer.name = name then w.act d else w
    site := { c.site with
      sessions := c.site.sessions.map fun s =>
        if s.peer.name = name then s.undergo (.peer d) else s } }

def addPeer (name address : String) (certificate : Bytes) (c : Client) : Client :=
  { c with waiting := c.waiting ++ [⟨address, { certificate }, { name }⟩] }

def peers (c : Client) : List Peer :=
  c.waiting.map (·.peer) ++
    c.site.sessions.filterMap fun s => s.connection.stream.map fun _ => s.peer

def mapPeers (f : Peer → Peer) (c : Client) : Client :=
  { c with
    waiting := c.waiting.map fun w => { w with peer := f w.peer }
    site := { c.site with sessions := c.site.sessions.map fun s => { s with peer := f s.peer } } }

def reopen (draw : UInt64) (c : Client) : Except ClientError Client := do
  let c := c.connections.entries.foldl (fun c (_, n) => c.undergo n .release) c
  let store ← (c.site.index.store.reopen draw id).mapError .store
  return { c with connections := {}, site := { c.site with index := { store } } }

end Client

end BlockExchange
