import BlockExchange.Connection.Ending

namespace BlockExchange.Connection

def stepDeferral (c : Connection) : Option Connection :=
  match c.control.handshake?, c.inbox.take? with
  | some _, some (s, inbox) => some { c with inbox, deferred := c.deferred ++ [s] }
  | some mine, none => if c.isAbandoned then some (c.giveUp mine .cancelled) else none
  | none, _ => none

/-- A step of an exchange of frames: ours is written while the peer's is read, and once both are done
the connection goes on. -/
def exchange {α : Type} (mine : Option Sending) (theirs : Option (Except ExchangeError α))
    (keep : Option Sending → Control) (proceed : α → Connection → Index × Connection) (i : Index)
    (c : Connection) : Option (Index × Connection) :=
  match theirs, mine with
  | some (.error e), mine => some (i, c.giveUp mine e)
  | _, some s =>
    (c.write .control s).map fun
      | (.going s, c) => (i, { c with control := keep (some s) })
      | (.done (.ok ()), c) => (i, { c with control := keep none })
      | (.done (.error e), c) => (i, c.giveUp none e)
  | some (.ok a), none => some (proceed a c)
  | none, none => none

def identify (h : Hello) (c : Connection) : Except ExchangeError Unit :=
  let actual := DeviceId.ofCertificate ((c.stream.map (·.certificate)).getD [])
  if actual ≠ c.device then .error (.authentication c.device actual) else h.check

def greet (x : Surroundings) (i : Index) (h : Hello) (c : Connection) : Index × Connection :=
  match c.identify h with
  | .error e => (i, c.giveUp none e)
  | .ok () =>
    let (folders, i) := Cluster.build x.configuration c.device h.deviceName i
    (i, { c with control := .building h folders, reader := .idle })

def offer (h : Hello) (folders : Except ExchangeError (List OfferedFolder)) (c : Connection) :
    Connection :=
  match folders with
  | .error e => c.giveUp none e
  | .ok folders => { c with
      control := .clustering h (some (.ofMessage (.clusterConfig folders)))
      reader := .first (.start Frame.messageFormat) }

def agree (x : Surroundings) (i : Index) (h : Hello) (m : Message) (c : Connection) :
    Index × Connection :=
  match m with
  | .clusterConfig folders =>
    let (info, i) := Cluster.receive x.configuration c.device folders h i
    (i, { c with control := .agreeing info, reader := .idle })
  | m => (i, c.giveUp none (.violation (.expectedClusterConfig m.kind)))

def activate (x : Surroundings) (now : Nat) (info : Except ExchangeError ClusterInfo)
    (c : Connection) : Connection :=
  match info with
  | .error e => c.giveUp none e
  | .ok info => { c with
      control := .announcing info info.shared none
      reader := .serving info (.start Frame.messageFormat)
      keepAlive := .start x.settings.keepAlive.toMillis x.horizon now }

end BlockExchange.Connection
