import BlockExchange.Index.Receive
import BlockExchange.Store

namespace BlockExchange

structure IndexEvent where
  folder : String
  peer : DeviceId
  files : List FileRecord
  marker : Marker
  stats : FolderStats

/-- What a subscriber has not read yet: the newest events, and how many older ones it has lost. -/
structure Feed where
  lost : Nat := 0
  events : List IndexEvent := []

namespace Feed

def capacity : Nat := 256

def publish (f : Feed) (e : IndexEvent) : Feed :=
  let events := f.events ++ [e]
  { lost := f.lost + (events.length - capacity), events := events.drop (events.length - capacity) }

end Feed

structure Index where
  store : Store
  feed : Feed := {}

namespace Index

def transact {ε α : Type} (i : Index) (t : Transaction ε α) : Except ε α × Index :=
  let (r, store) := i.store.transact t
  (r, { i with store })

def ask (i : Index) (q : Query) : Except ExchangeError q.Reply × Index :=
  i.transact (q.ask.mapError .store)

def merge (i : Index) (folder : String) (peer : DeviceId) (files : List FileEntry) :
    Except ExchangeError Received × Index :=
  i.transact (receive folder peer files)

def publish (i : Index) (folder : String) (peer : DeviceId) (r : Received) : Index :=
  if r.updated.isEmpty then i
  else { i with feed := i.feed.publish ⟨folder, peer, r.updated, r.marker, r.stats⟩ }

def receiveMessage (i : Index) (folder : String) (peer : DeviceId) (files : List FileEntry) :
    Except ExchangeError Received × Index :=
  match i.merge folder peer files with
  | (.ok r, i) => (.ok r, i.publish folder peer r)
  | (.error e, i) => (.error e, i)

def receiveAnnouncement (i : Index) (folder : String) (peer : DeviceId) (indexId : UInt64)
    (maxSequence : Int) : Except ExchangeError Marker × Index :=
  i.transact (announce folder peer indexId maxSequence)

def localState (i : Index) : Except ExchangeError (UInt64 × Int) × Index :=
  i.transact do
    let epoch ← Query.epoch.ask
    let sequence ← Query.sequence.ask
    return (epoch, sequence)

def statsOf (i : Index) (folder : String) : Except ExchangeError FolderStats × Index :=
  let (r, i) := i.ask (.stats folder)
  (r.map (·.getD { folder }), i)

end Index

end BlockExchange
