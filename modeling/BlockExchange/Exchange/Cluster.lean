import BlockExchange.Config
import BlockExchange.Index
/-!
The exchange of cluster configurations: which folders two devices share, and where each side's
index of them stands.
-/

namespace BlockExchange

structure ClusterInfo where
  shared : List String
  new : List String
  hello : Hello
  deriving DecidableEq

def ClusterInfo.hasFolder (c : ClusterInfo) (folder : String) : Bool :=
  c.shared.contains folder

namespace Cluster

def offer (c : Configuration) (peer : DeviceId) (peerName : String) (state : UInt64 × Int)
    (f : SharedFolder) (known : Option Marker) : OfferedFolder where
  id := f.id
  label := f.label
  devices :=
    [{ id := c.device, name := c.name, indexId := state.1, maxSequence := .ofInt state.2 },
     { id := peer, name := peerName, indexId := known.elim 0 (·.indexId),
       maxSequence := .ofInt (known.elim 0 (·.maxSequence)) }]

def buildFolders (c : Configuration) (peer : DeviceId) (peerName : String) (state : UInt64 × Int) :
    List SharedFolder → Index → Except ExchangeError (List OfferedFolder) × Index
  | [], i => (.ok [], i)
  | f :: rest, i =>
    match i.ask (.marker f.id peer) with
    | (.error e, i) => (.error e, i)
    | (.ok known, i) =>
      let (offers, i) := buildFolders c peer peerName state rest i
      (offers.map (offer c peer peerName state f known :: ·), i)

def build (c : Configuration) (peer : DeviceId) (peerName : String) (i : Index) :
    Except ExchangeError (List OfferedFolder) × Index :=
  match i.localState with
  | (.error e, i) => (.error e, i)
  | (.ok state, i) => buildFolders c peer peerName state (c.foldersSharedWith peer) i

/-- What an offer comes to, before any of it is noted. -/
inductive Verdict where
  | new
  | refused
  | shared (entry : Option OfferedDevice)

def judge (c : Configuration) (peer : DeviceId) (f : OfferedFolder) : Verdict :=
  match c.folder? f.id with
  | none => .new
  | some mine =>
    if !mine.isSharedWith peer then .refused
    else if !f.devices.any (·.id = c.device) then .refused
    else .shared (f.devices.find? (·.id = peer))

def insertId (id : String) : List String → List String
  | [] => [id]
  | other :: rest =>
    match compare id other with
    | .lt => id :: other :: rest
    | .eq => other :: rest
    | .gt => other :: insertId id rest

def note (peer : DeviceId) (folder : String) (i : Index) :
    Option OfferedDevice → Except ExchangeError Unit × Index
  | none => (.ok (), i)
  | some entry =>
    let (r, i) := i.receiveAnnouncement folder peer entry.indexId entry.maxSequence.toInt
    (r.map fun _ => (), i)

def receiveFolders (c : Configuration) (peer : DeviceId) :
    List OfferedFolder → ClusterInfo → Index → Except ExchangeError ClusterInfo × Index
  | [], info, i => (.ok info, i)
  | f :: rest, info, i =>
    match judge c peer f with
    | .new => receiveFolders c peer rest { info with new := info.new ++ [f.id] } i
    | .refused => receiveFolders c peer rest info i
    | .shared entry =>
      match note peer f.id i entry with
      | (.error e, i) => (.error e, i)
      | (.ok (), i) =>
        receiveFolders c peer rest { info with shared := insertId f.id info.shared } i

def receive (c : Configuration) (peer : DeviceId) (folders : List OfferedFolder) (hello : Hello)
    (i : Index) : Except ExchangeError ClusterInfo × Index :=
  receiveFolders c peer folders ⟨[], [], hello⟩ i

end Cluster

end BlockExchange
