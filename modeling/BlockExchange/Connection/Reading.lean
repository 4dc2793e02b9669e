import BlockExchange.Connection.State

namespace BlockExchange.Connection

def read {α : Type} (f : Frame.Format α) (r : Incoming) (c : Connection) :
    Option (Progress Incoming (Except ExchangeError α) × Connection) :=
  c.stream.bind fun s =>
    (r.advance f s.inbound).map fun (p, inbound) =>
      let c := { c with stream := some { s with inbound } }
      match p with
      | .done (.error .closed) => (p, c.disconnect)
      | p => (p, c)

def endReader (r : Except ExchangeError Unit) (c : Connection) : Connection :=
  { c with reader := .idle, ended := c.ended ++ [r] }

def take (info : ClusterInfo) (m : Message) (i : Index) (c : Connection) : Index × Connection :=
  let c := { c with reader := .serving info (.start Frame.messageFormat) }
  match m with
  | .index p | .indexUpdate p =>
    if info.hasFolder p.folder then
      let (r, i) := i.merge p.folder c.device p.files
      (i, { c with reader := .merging info p.folder r })
    else (i, c)
  | .response r => (i, { c with reports := c.reports ++ [.response r] })
  | .request r => (i, { c with reports := c.reports ++ [.request r] })
  | .ping => (i, c)
  | .close _ => (i, c.disconnect.endReader (.ok ()))
  | m => (i, c.endReader (.error (.violation (.unexpected m.kind))))

/-- What the reader does when the store is done with a message. One that comes before the peer's
progress in the folder is known is dropped. -/
def merged (info : ClusterInfo) (folder : String) (r : Except ExchangeError Index.Received)
    (i : Index) (c : Connection) : Index × Connection :=
  match r with
  | .ok r =>
    (i.publish folder c.device r,
      { c with reader := .serving info (.start Frame.messageFormat) })
  | .error (.noMarker _ _) => (i, { c with reader := .serving info (.start Frame.messageFormat) })
  | .error e => (i, c.endReader (.error e))

def stepReader (i : Index) (c : Connection) : Option (Index × Connection) :=
  match c.reader with
  | .idle | .greeted _ | .opened _ => none
  | .hello r =>
    (c.read Frame.helloFormat r).map fun
      | (.going r, c) => (i, { c with reader := .hello r })
      | (.done h, c) => (i, { c with reader := .greeted h })
  | .first r =>
    (c.read Frame.messageFormat r).map fun
      | (.going r, c) => (i, { c with reader := .first r })
      | (.done m, c) => (i, { c with reader := .opened m })
  | .serving info r =>
    (c.read Frame.messageFormat r).map fun
      | (.going r, c) => (i, { c with reader := .serving info r })
      | (.done (.ok m), c) => c.take info m i
      | (.done (.error e), c) => (i, c.endReader (.error e))
  | .merging info folder r => some (c.merged info folder r i)

end BlockExchange.Connection
