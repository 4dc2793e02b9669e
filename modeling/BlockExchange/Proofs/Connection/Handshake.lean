import BlockExchange.Proofs.Connection.Phase
import BlockExchange.Proofs.Connection.Transfer
import BlockExchange.Proofs.Exchange.Cluster

namespace BlockExchange

variable {device : DeviceId} {heard left written : Bytes}

def Sending.HasWritten (frame : Except CodecError Bytes) (written : Bytes) : Option Sending → Prop
  | none => written.IsPartOf frame
  | some s => s.IsAmid frame written

theorem Sending.HasWritten.isPartOf {frame : Except CodecError Bytes} {mine : Option Sending}
    (h : HasWritten frame written mine) : written.IsPartOf frame := by
  cases mine with
  | none => exact h
  | some s => exact IsAmid.isPartOf h

namespace Reader

variable {α : Type} {f : Frame.Format α} {reading : Incoming → Reader}
  {done : Except ExchangeError α → Reader} {r : Reader}

def IsAt (f : Frame.Format α) (reading : Incoming → Reader) (done : Except ExchangeError α → Reader)
    (heard left : Bytes) (r : Reader) : Prop :=
  (∃ incoming, r = reading incoming ∧ incoming.IsAmid f heard left) ∨
    ∃ result, r = done result ∧ ∀ a, result = .ok a → f.Opens a heard left

theorem isAt_start (f : Frame.Format α) (reading : Incoming → Reader)
    (done : Except ExchangeError α → Reader) (heard : Bytes) :
    (reading (.start f)).IsAt f reading done heard heard :=
  .inl ⟨_, rfl, Incoming.isAmid_start f heard⟩

theorem IsAt.append (h : r.IsAt f reading done heard left) (new : Bytes) :
    r.IsAt f reading done (heard ++ new) (left ++ new) := by
  rcases h with ⟨incoming, hr, hamid⟩ | ⟨result, hr, hopens⟩
  · exact .inl ⟨incoming, hr, hamid.append new⟩
  · exact .inr ⟨result, hr, fun a ha => (hopens a ha).append new⟩

def IsAtHello : (heard left : Bytes) → Reader → Prop := IsAt Frame.helloFormat hello greeted

def IsAtFirst : (heard left : Bytes) → Reader → Prop := IsAt Frame.messageFormat first opened

theorem IsAtHello.opens (h : r.IsAtHello heard left) {h' : Hello} (hr : r.hello? = some (.ok h')) :
    Frame.helloFormat.Opens h' heard left := by
  rcases h with ⟨incoming, rfl, -⟩ | ⟨result, rfl, hopens⟩
  · cases hr
  · exact hopens h' (Option.some.inj hr)

theorem IsAtFirst.opens (h : r.IsAtFirst heard left) {m : Message} (hr : r.first? = some (.ok m)) :
    Frame.messageFormat.Opens m heard left := by
  rcases h with ⟨incoming, rfl, -⟩ | ⟨result, rfl, hopens⟩
  · cases hr
  · exact hopens m (Option.some.inj hr)

def after (reading : Incoming → Reader) (done : Except ExchangeError α → Reader) :
    Progress Incoming (Except ExchangeError α) → Reader
  | .going r => reading r
  | .done result => done result

structure ReadsOne (f : Frame.Format α) (reading : Incoming → Reader)
    (done : Except ExchangeError α → Reader) : Prop where
  reads : ∀ {c : Connection} {r}, c.reader = reading r → ∀ i, c.stepReader i =
    (c.read f r).map fun q => (i, { q.2 with reader := after reading done q.1 })
  waits : ∀ {c : Connection} {result}, c.reader = done result → ∀ i, c.stepReader i = none

theorem readsOne_hello : ReadsOne Frame.helloFormat hello greeted where
  reads {c r} hr i := by
    rw [Connection.stepReader, hr]
    dsimp only
    rcases c.read Frame.helloFormat r with _ | ⟨_ | _, _⟩ <;> rfl
  waits hr i := by rw [Connection.stepReader, hr]

theorem readsOne_first : ReadsOne Frame.messageFormat first opened where
  reads {c r} hr i := by
    rw [Connection.stepReader, hr]
    dsimp only
    rcases c.read Frame.messageFormat r with _ | ⟨_ | _, _⟩ <;> rfl
  waits hr i := by rw [Connection.stepReader, hr]

theorem IsAt.step {c c' : Connection} {l : Link} {i i' : Index} (hone : ReadsOne f reading done)
    (hl : c.link = some l) (hr : c.reader.IsAt f reading done heard l.inbound)
    (h : c.stepReader i = some (i', c')) :
    i' = i ∧ ∃ stream inbound reader, inbound <:+ l.inbound ∧ stream.link = { l with inbound } ∧
      c' = { c with stream := some stream, reader } ∧ reader.IsAt f reading done heard inbound := by
  rcases hr with ⟨incoming, hr, hamid⟩ | ⟨result, hr, -⟩
  · rw [hone.reads hr] at h
    obtain ⟨⟨p, c₁⟩, hread, ⟨⟩⟩ := Option.map_eq_some_iff.mp h
    obtain ⟨stream, inbound, hsuffix, hlink, rfl, hkeeps⟩ := Connection.read_of_link hl hread
    refine ⟨rfl, stream, inbound, _, hsuffix, hlink, rfl, ?_⟩
    cases p with
    | going r' => exact .inl ⟨r', rfl, (hkeeps hamid).1 r' rfl⟩
    | done result =>
      refine .inr ⟨result, rfl, ?_⟩
      rintro a rfl
      exact (hkeeps hamid).2 a rfl
  · rw [hone.waits hr] at h
    cases h

end Reader

namespace Connection

variable {c c' : Connection} {l : Link}

/-- No worker is at work, and no pings are sent. -/
structure IsQuiet (device : DeviceId) (c : Connection) : Prop where
  device : c.device = device
  keepAlive : c.keepAlive = .off
  workers : c.workers = []

theorem IsQuiet.finish (h : c.IsQuiet device) (r : Except ExchangeError Unit) :
    (c.finish r).IsQuiet device :=
  ⟨h.device, h.keepAlive, rfl⟩

theorem IsQuiet.stop (h : c.IsQuiet device) (r : Except ExchangeError Unit) :
    (c.stop r).IsQuiet device := by
  unfold Connection.stop
  rw [h.keepAlive]
  exact ⟨h.device, rfl, h.workers⟩

theorem IsQuiet.giveUp (h : c.IsQuiet device) (mine : Option Sending) (e : ExchangeError) :
    (c.giveUp mine e).IsQuiet device := by
  cases mine with
  | none => exact h.stop _
  | some s =>
    have habandon : (c.abandon .control s).IsQuiet device := ⟨h.device, h.keepAlive, h.workers⟩
    exact habandon.stop _

theorem stepReader_of_idle (h : c.reader = .idle) (i : Index) : c.stepReader i = none := by
  rw [stepReader, h]

inductive QuietStep (c : Connection) (x : Surroundings) (now : Nat) (i i' : Index) (c' : Connection) :
    Prop
  | control (hcontrol : c.stepControl x now i = some (i', c'))
  | reader (hidle : c.reader ≠ .idle) (hreader : c.stepReader i = some (i', c'))
  | calledOff {mine : Option Sending} (hi : i' = i) (hc : c.control.handshake? = some mine)
    (hc' : c' = c.giveUp mine .cancelled)
  | callers {inbox : Inbox} {deferred : List Submission} {calls : List Nat}
    {replies answers : List (Nat × Outcome)} (hi : i' = i)
    (hc' : c' = { c with inbox, deferred, calls, replies, answers })

theorem IsQuiet.step_cases (h : c.IsQuiet device) {x : Surroundings} {now : Nat} {a : Agent}
    {i i' : Index} (hstep : c.step x now a i = some (i', c')) : c.QuietStep x now i i' c' := by
  cases acts_of_step hstep with
  | control hcontrol => exact .control hcontrol
  | deferral hdeferral =>
    cases defers_of_step hdeferral with
    | submission => exact .callers rfl rfl
    | surrender hc => exact .calledOff rfl hc rfl
  | reader hreader =>
    refine .reader (fun hidle => ?_) hreader
    rw [stepReader_of_idle hidle] at hreader
    cases hreader
  | keepAlive hkeep =>
    simp only [stepKeepAlive, h.keepAlive] at hkeep
    cases hkeep
  | worker hworker =>
    obtain ⟨_, hfind, -⟩ := Option.bind_eq_some_iff.mp hworker
    rw [h.workers] at hfind
    cases hfind
  | submitter hsubmitter => cases calls_of_submitter hsubmitter <;> exact .callers rfl rfl
  | caller hcaller => cases calls_of_caller hcaller <;> exact .callers rfl rfl

theorem identify_eq_ok (hl : c.link = some l) {hello : Hello} (h : c.identify hello = .ok ()) :
    Sha256.digest l.certificate = c.device.bytes ∧
      Text.allBlank hello.deviceName = false ∧ Text.allBlank hello.clientName = false := by
  obtain ⟨stream, hstream, rfl⟩ := exists_stream hl
  unfold identify Hello.check at h
  rw [hstream] at h
  dsimp only at h
  split_ifs at h with hdevice hname hclient
  refine ⟨congrArg DeviceId.bytes (not_not.mp hdevice), ?_, ?_⟩
  · exact Bool.eq_false_of_not_eq_true hname
  · exact Bool.eq_false_of_not_eq_true hclient

theorem IsQuiet.greet (hq : c.IsQuiet device) (hl : c.link = some l) (x : Surroundings) (i : Index)
    (hello : Hello) :
    (c.greet x i hello).1 = i ∧ ((∃ e, (c.greet x i hello).2 = c.giveUp none e) ∨
      (Sha256.digest l.certificate = device.bytes ∧ Text.allBlank hello.deviceName = false ∧
        Text.allBlank hello.clientName = false) ∧
      ∃ folders, (c.greet x i hello).2 =
        { c with control := .building hello folders, reader := .idle }) := by
  have hbuild := Cluster.index_build x.configuration c.device hello.deviceName i
  unfold Connection.greet
  cases hid : c.identify hello with
  | error e => exact ⟨rfl, .inl ⟨e, rfl⟩⟩
  | ok => exact ⟨hbuild, .inr ⟨hq.device ▸ identify_eq_ok hl hid, _, rfl⟩⟩

theorem agree_eq (c : Connection) (x : Surroundings) (i : Index) (hello : Hello) (m : Message) :
    (∃ e, c.agree x i hello m = (i, c.giveUp none e)) ∨
      ∃ folders, m = .clusterConfig folders ∧ c.agree x i hello m =
        ((Cluster.receive x.configuration c.device folders hello i).2,
          { c with
            control := .agreeing (Cluster.receive x.configuration c.device folders hello i).1
            reader := .idle }) := by
  unfold agree
  split
  · exact .inr ⟨_, rfl, rfl⟩
  · exact .inl ⟨_, rfl⟩

end Connection

inductive Link.Serves : Option Link → Option Link → (new : Bytes) → Prop
  | none : Serves none none []
  | some (l : Link) {outbound : Bytes} (new : Bytes) (h : outbound <:+ l.outbound) :
    Serves (some l) (some ⟨l.certificate, l.inbound ++ new, outbound⟩) new

theorem Link.serves_refl (l : Option Link) : Serves l l [] := by
  cases l with
  | none => exact .none
  | some l =>
    have hrefl : Serves (some l) (some ⟨l.certificate, l.inbound ++ [], l.outbound⟩) [] :=
      .some l [] List.suffix_rfl
    rw [List.append_nil] at hrefl
    exact hrefl

namespace Link.Serves

variable {before after : Option Link} {new : Bytes}

theorem certificate (h : Serves before after new) :
    after.map (·.certificate) = before.map (·.certificate) := by
  cases h <;> rfl

theorem exists_eq_some {l : Link} (h : Serves (Option.some l) after new) :
    ∃ outbound, after = Option.some ⟨l.certificate, l.inbound ++ new, outbound⟩ := by
  cases h with
  | some l new hsuffix => exact ⟨_, rfl⟩

end Link.Serves

namespace Session

variable {s s' : Session} {new : Bytes}

structure IsIdle (s s' : Session) (new : Bytes) : Prop where
  device : s'.connection.device = s.connection.device
  control : s'.connection.control = s.connection.control
  reader : s'.connection.reader = s.connection.reader
  keepAlive : s'.connection.keepAlive = s.connection.keepAlive
  workers : s'.connection.workers = s.connection.workers
  link : Link.Serves s.connection.link s'.connection.link new

theorem IsIdle.quiet (h : s.IsIdle s' new) (hq : s.connection.IsQuiet device) :
    s'.connection.IsQuiet device :=
  ⟨h.device.trans hq.device, h.keepAlive.trans hq.keepAlive, h.workers.trans hq.workers⟩

theorem isIdle_submit (call : Nat) (action : Action) (s : Session) :
    s.IsIdle { s with connection := s.connection.submit call action } [] := by
  unfold Connection.submit
  dsimp only
  split <;> exact ⟨rfl, rfl, rfl, rfl, rfl, Link.serves_refl _⟩

theorem link_act (peer : Peer) (d : Deed) (stream : Stream) :
    (peer.act d stream).1.link = stream.link := by
  cases d <;> rfl

theorem isIdle_undergo (e : Incident) (s : Session) : s.IsIdle (s.undergo e) [] := by
  cases e with
  | submit call action => exact isIdle_submit call action s
  | release => exact ⟨rfl, rfl, rfl, rfl, rfl, Link.serves_refl _⟩
  | peer d =>
    rw [undergo]
    cases hstep : s.stepPeer fun peer stream => some (peer.act d stream) with
    | none => exact ⟨rfl, rfl, rfl, rfl, rfl, Link.serves_refl _⟩
    | some s' =>
      obtain ⟨stream, after, peer, hstream, hact, rfl⟩ := stepPeer_eq_some hstep
      refine ⟨rfl, rfl, rfl, rfl, rfl, ?_⟩
      have hlink := link_act s.peer d stream
      rw [Option.some.inj hact] at hlink
      rw [Connection.link_of_stream hstream, ← hlink]
      exact Link.serves_refl _

theorem serves_stepReading {peer peer' : Peer} {stream after : Stream}
    (h : peer.stepReading stream = some (after, peer')) :
    Link.Serves (some stream.link) (some after.link) [] := by
  unfold Peer.stepReading at h
  split at h
  · cases h
  split at h
  · split_ifs at h
    cases h
    exact Link.serves_refl _
  · cases h
    have hserves := Link.Serves.some stream.link [] (List.nil_suffix (l := stream.link.outbound))
    rw [List.append_nil] at hserves
    exact hserves

theorem serves_stepWriting {peer peer' : Peer} {stream after : Stream}
    (h : peer.stepWriting stream = some (after, peer')) :
    ∃ new, Link.Serves (some stream.link) (some after.link) new := by
  unfold Peer.stepWriting at h
  split at h
  · cases h
  · split_ifs at h <;> cases h
    · exact ⟨[], Link.serves_refl _⟩
    · exact ⟨_, .some stream.link _ List.suffix_rfl⟩

theorem PeerMoves.isIdle (h : s.PeerMoves s') : ∃ new, s.IsIdle s' new := by
  obtain h | h := h
  · obtain ⟨stream, after, peer, hstream, hmove, rfl⟩ := stepPeer_eq_some h
    refine ⟨[], rfl, rfl, rfl, rfl, rfl, ?_⟩
    rw [Connection.link_of_stream hstream]
    exact serves_stepReading hmove
  · obtain ⟨stream, after, peer, hstream, hmove, rfl⟩ := stepPeer_eq_some h
    obtain ⟨new, hserves⟩ := serves_stepWriting hmove
    refine ⟨new, rfl, rfl, rfl, rfl, rfl, ?_⟩
    rw [Connection.link_of_stream hstream]
    exact hserves

theorem isIdle_takeAnswers (s : Session) : s.IsIdle s.takeAnswers.2 [] :=
  ⟨rfl, rfl, rfl, rfl, rfl, Link.serves_refl _⟩

theorem isIdle_of_callers {inbox : Inbox} {deferred : List Submission} {calls : List Nat}
    {replies answers : List (Nat × Outcome)}
    (h : s'.connection = { s.connection with inbox, deferred, calls, replies, answers }) :
    s.IsIdle s' [] := by
  refine ⟨?_, ?_, ?_, ?_, ?_, ?_⟩ <;> rw [h]
  exact Link.serves_refl _

end Session

end BlockExchange
