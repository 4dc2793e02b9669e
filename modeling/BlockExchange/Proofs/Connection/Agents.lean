import BlockExchange.Proofs.Connection.Run
import Mathlib.Tactic.SplitIfs

namespace BlockExchange

theorem Sending.link_abandon (s : Sending) (a : Agent) (stream : Stream) :
    (s.abandon a stream).link = stream.link := by
  cases s <;> rfl

theorem Sending.inbound_advance {s : Sending} {a : Agent} {stream after : Stream}
    {p : Progress Sending (Except ExchangeError Unit)} (h : s.advance a stream = some (p, after)) :
    after.inbound = stream.inbound := by
  unfold advance at h
  split at h
  · cases h
    rfl
  · cases h
    rfl
  · split_ifs at h <;> cases h <;> rfl
  · cases h
    rfl
  · split_ifs at h <;> cases h <;> rfl

namespace Reader

def hello? : Reader → Option (Except ExchangeError Hello)
  | greeted h => some h
  | _ => none

def first? : Reader → Option (Except ExchangeError Message)
  | opened m => some m
  | _ => none

end Reader

namespace Connection

variable {c c' : Connection}

theorem link_of_stream {s : Stream} (h : c.stream = some s) : c.link = some s.link := by
  rw [link, h, Option.map_some]

@[simp] theorem link_abandon (a : Agent) (s : Sending) (c : Connection) :
    (c.abandon a s).link = c.link := by
  rw [link, abandon, Option.map_map]
  congr 1
  funext stream
  exact s.link_abandon a stream

@[simp] theorem link_stop (r : Except ExchangeError Unit) (c : Connection) :
    (c.stop r).link = c.link := by
  unfold stop
  cases c.keepAlive with
  | pinging due s => exact c.link_abandon .keepAlive s
  | off | resting due | refused => rfl

@[simp] theorem link_giveUp (mine : Option Sending) (e : ExchangeError) (c : Connection) :
    (c.giveUp mine e).link = c.link := by
  cases mine with
  | none => exact c.link_stop _
  | some s => exact (link_stop _ _).trans (c.link_abandon .control s)

@[simp] theorem link_finish (r : Except ExchangeError Unit) (c : Connection) :
    (c.finish r).link = c.link := by
  rw [link, finish, Option.map_map]
  rfl

@[simp] theorem phase_leave (c : Connection) (x : Surroundings) (now : Nat) (e : Exit) :
    (c.leave x now e).phase = .closing := by
  unfold leave
  dsimp only
  split_ifs <;> rfl

@[simp] theorem control_deliver (e : Errand) (r : Except ExchangeError Unit) (c : Connection) :
    (c.deliver e r).control = c.control := by
  cases e <;> cases r <;> rfl

theorem write_eq_some {a : Agent} {s : Sending} {p : Progress Sending (Except ExchangeError Unit)}
    (h : c.write a s = some (p, c')) :
    ∃ stream after, c.stream = some stream ∧ s.advance a stream = some (p, after) ∧
      c' = { c with stream := some after } := by
  obtain ⟨stream, hstream, h⟩ := Option.bind_eq_some_iff.mp h
  obtain ⟨⟨_, after⟩, hadv, heq⟩ := Option.map_eq_some_iff.mp h
  obtain ⟨rfl, rfl⟩ := Prod.mk.inj heq
  exact ⟨stream, after, hstream, hadv, rfl⟩

def inbound? (c : Connection) : Option Pipe := c.stream.map (·.inbound)

theorem write_inbound {a : Agent} {s : Sending} {p : Progress Sending (Except ExchangeError Unit)}
    (h : c.write a s = some (p, c')) :
    ∃ stream, stream.map (·.inbound) = c.inbound? ∧ c' = { c with stream } := by
  obtain ⟨stream, after, hstream, hadv, rfl⟩ := write_eq_some h
  refine ⟨some after, ?_, rfl⟩
  rw [inbound?, hstream, Option.map_some, Option.map_some, Sending.inbound_advance hadv]

theorem read_eq_some {α : Type} {f : Frame.Format α} {r : Incoming}
    {p : Progress Incoming (Except ExchangeError α)} (h : c.read f r = some (p, c')) :
    ∃ stream inbound, c.stream = some stream ∧ r.advance f stream.inbound = some (p, inbound) ∧
      (c' = { c with stream := some { stream with inbound } } ∨
        c' = disconnect { c with stream := some { stream with inbound } }) := by
  obtain ⟨stream, hstream, h⟩ := Option.bind_eq_some_iff.mp h
  obtain ⟨⟨p', inbound⟩, hadv, heq⟩ := Option.map_eq_some_iff.mp h
  dsimp only at heq
  split at heq
  · obtain ⟨rfl, rfl⟩ := Prod.mk.inj heq
    exact ⟨stream, inbound, hstream, hadv, .inr rfl⟩
  · obtain ⟨rfl, rfl⟩ := Prod.mk.inj heq
    exact ⟨stream, inbound, hstream, hadv, .inl rfl⟩

theorem read_rest {α : Type} {f : Frame.Format α} {r : Incoming}
    {p : Progress Incoming (Except ExchangeError α)} (h : c.read f r = some (p, c')) :
    ∃ stream, c' = { c with stream } := by
  obtain ⟨_, _, _, _, rfl | rfl⟩ := read_eq_some h <;> exact ⟨_, rfl⟩

inductive Exchanges {α : Type} (mine : Option Sending) (theirs : Option (Except ExchangeError α))
    (keep : Option Sending → Control) (proceed : α → Connection → Index × Connection) (i : Index)
    (c : Connection) : Index → Connection → Prop
  | surrender (e : ExchangeError) : Exchanges mine theirs keep proceed i c i (c.giveUp mine e)
  | going {s s' : Sending} {c' : Connection} (hm : mine = some s)
    (hw : c.write .control s = some (.going s', c')) :
    Exchanges mine theirs keep proceed i c i { c' with control := keep (some s') }
  | written {s : Sending} {c' : Connection} (hm : mine = some s)
    (hw : c.write .control s = some (.done (.ok ()), c')) :
    Exchanges mine theirs keep proceed i c i { c' with control := keep none }
  | failure {s : Sending} {c' : Connection} {e : ExchangeError} (hm : mine = some s)
    (hw : c.write .control s = some (.done (.error e), c')) :
    Exchanges mine theirs keep proceed i c i (c'.giveUp none e)
  | both {a : α} (hm : mine = none) (ht : theirs = some (.ok a)) :
    Exchanges mine theirs keep proceed i c (proceed a c).1 (proceed a c).2

theorem exchange_eq_some {α : Type} {mine : Option Sending}
    {theirs : Option (Except ExchangeError α)} {keep : Option Sending → Control}
    {proceed : α → Connection → Index × Connection} {i i' : Index}
    (h : c.exchange mine theirs keep proceed i = some (i', c')) :
    Exchanges mine theirs keep proceed i c i' c' := by
  unfold exchange at h
  rcases mine with _ | s
  · rcases theirs with _ | (e | a)
    · cases h
    · cases h
      exact .surrender e
    · have hproceed : proceed a c = (i', c') := Option.some.inj h
      have hboth : Exchanges none (some (.ok a)) keep proceed i c _ _ := .both rfl rfl
      rw [hproceed] at hboth
      exact hboth
  · rcases theirs with _ | (e | a)
    case some.error =>
      cases h
      exact .surrender e
    -- As long as ours is not written, only a failure of theirs matters.
    all_goals
      obtain ⟨⟨p, c₁⟩, hw, h⟩ := Option.map_eq_some_iff.mp h
      rcases p with s' | (e | ⟨⟩) <;> cases h
      · exact .going rfl hw
      · exact .failure rfl hw
      · exact .written rfl hw

theorem stepControl_greeting {mine : Option Sending} (hc : c.control = .greeting mine)
    (x : Surroundings) (now : Nat) (i : Index) :
    c.stepControl x now i = c.exchange mine c.reader.hello? .greeting (greet x i) i := by
  unfold stepControl
  rw [hc]
  cases c.reader <;> rfl

theorem stepControl_clustering {hello : Hello} {mine : Option Sending}
    (hc : c.control = .clustering hello mine) (x : Surroundings) (now : Nat) (i : Index) :
    c.stepControl x now i =
      c.exchange mine c.reader.first? (.clustering hello) (agree x i hello) i := by
  unfold stepControl
  rw [hc]
  cases c.reader <;> rfl

theorem take_rest (info : ClusterInfo) (m : Message) (i : Index) (c : Connection) :
    ∃ stream reader reports ended,
      (c.take info m i).2 = { c with stream, reader, reports, ended } := by
  cases m with
  | index p | indexUpdate p =>
    unfold take
    dsimp only
    split_ifs <;> exact ⟨_, _, _, _, rfl⟩
  | _ => exact ⟨_, _, _, _, rfl⟩

theorem merged_rest (info : ClusterInfo) (folder : String)
    (r : Except ExchangeError Index.Received) (i : Index) (c : Connection) :
    ∃ reader ended, (c.merged info folder r i).2 = { c with reader, ended } := by
  unfold merged
  split <;> exact ⟨_, _, rfl⟩

variable {x : Surroundings} {now : Nat} {a : Agent} {i i' : Index}

theorem stepReader_rest (h : c.stepReader i = some (i', c')) :
    ∃ stream reader reports ended, c' = { c with stream, reader, reports, ended } := by
  unfold stepReader at h
  cases hreader : c.reader with rw [hreader] at h
  | idle | greeted | opened => cases h
  | hello r | first r =>
    obtain ⟨⟨p, c₁⟩, hread, h⟩ := Option.map_eq_some_iff.mp h
    obtain ⟨stream, rfl⟩ := read_rest hread
    cases p <;> cases h <;> exact ⟨_, _, _, _, rfl⟩
  | serving info r =>
    obtain ⟨⟨p, c₁⟩, hread, h⟩ := Option.map_eq_some_iff.mp h
    obtain ⟨stream, rfl⟩ := read_rest hread
    rcases p with r | (e | m)
    · cases h
      exact ⟨_, _, _, _, rfl⟩
    · cases h
      exact ⟨_, _, _, _, rfl⟩
    · have htake : take info m i { c with stream } = (i', c') := h
      have hrest := take_rest info m i { c with stream }
      rwa [htake] at hrest
  | merging info folder r =>
    obtain ⟨_, _, hmerged⟩ := merged_rest info folder r i c
    rw [Option.some.inj h] at hmerged
    exact ⟨_, _, _, _, hmerged⟩

theorem control_stepReader (h : c.stepReader i = some (i', c')) : c'.control = c.control := by
  obtain ⟨_, _, _, _, rfl⟩ := stepReader_rest h
  rfl

inductive Works (c : Connection) : Connection → Prop
  | going {stream : Option Stream} {workers : List Worker}
    (hs : stream.map (·.inbound) = c.inbound?) : Works c { c with stream, workers }
  | done {stream : Option Stream} {w : Worker} {workers : List Worker}
    (hs : stream.map (·.inbound) = c.inbound?) (r : Except ExchangeError Unit) :
    Works c (deliver w.errand r { c with stream, workers })

theorem works_of_step {ticket : Nat} (h : c.stepWorker ticket = some c') : Works c c' := by
  obtain ⟨w, -, h⟩ := Option.bind_eq_some_iff.mp h
  obtain ⟨⟨p, c₁⟩, hw, h⟩ := Option.bind_eq_some_iff.mp h
  obtain ⟨stream, hs, rfl⟩ := write_inbound hw
  cases p with
  | going s =>
    cases h
    exact .going hs
  | done r =>
    cases h
    exact .done hs r

inductive KeepsAlive (c : Connection) : Connection → Prop
  | going {stream : Option Stream} {keepAlive : KeepAlive}
    (hs : stream.map (·.inbound) = c.inbound?) (hk : keepAlive ≠ .refused) :
    KeepsAlive c { c with stream, keepAlive }
  | failure {stream : Option Stream} (e : ExchangeError)
    (hs : stream.map (·.inbound) = c.inbound?) :
    KeepsAlive c { c with stream, keepAlive := .off, ended := c.ended ++ [.error e] }

theorem keepsAlive_of_step (h : c.stepKeepAlive x now = some c') : KeepsAlive c c' := by
  unfold stepKeepAlive at h
  split at h
  · cases h
  · split_ifs at h
    cases h
    have hstream : c.stream.map (·.inbound) = c.inbound? := rfl
    exact .going hstream nofun
  · obtain ⟨⟨p, c₁⟩, hw, h⟩ := Option.map_eq_some_iff.mp h
    obtain ⟨stream, hs, rfl⟩ := write_inbound hw
    rcases p with s | (e | ⟨⟩) <;> cases h
    · exact .going hs nofun
    · exact .failure e hs
    · exact .going hs nofun
  · cases h
    have hstream : c.stream.map (·.inbound) = c.inbound? := rfl
    exact .failure _ hstream

inductive Defers (c : Connection) : Connection → Prop
  | submission {mine : Option Sending} {s : Submission} {inbox : Inbox}
    (hc : c.control.handshake? = some mine) (hi : c.inbox.take? = some (s, inbox)) :
    Defers c { c with inbox, deferred := c.deferred ++ [s] }
  | surrender {mine : Option Sending} (hc : c.control.handshake? = some mine) :
    Defers c (c.giveUp mine .cancelled)

theorem defers_of_step (h : c.stepDeferral = some c') : Defers c c' := by
  unfold stepDeferral at h
  split at h
  · rename_i hc hi
    cases h
    exact .submission hc hi
  · rename_i hc _
    split_ifs at h
    cases h
    exact .surrender hc
  · cases h

inductive Calls (c : Connection) : Connection → Prop
  | submission {inbox : Inbox} (hi : c.inbox.occupy? = some inbox) : Calls c { c with inbox }
  | answers : Calls c { c with
      calls := c.calls.filter fun call => !c.replies.any (·.1 = call)
      answers := c.answers ++ c.replies
      replies := [] }

theorem calls_of_submitter (h : c.stepSubmitter = some c') : c.Calls c' := by
  obtain ⟨inbox, hi, rfl⟩ := Option.map_eq_some_iff.mp h
  exact .submission hi

theorem calls_of_caller (h : c.stepCaller = some c') : c.Calls c' := by
  unfold stepCaller at h
  split_ifs at h
  cases h
  exact .answers

theorem control_stepWorker {ticket : Nat} (h : c.stepWorker ticket = some c') :
    c'.control = c.control := by
  cases works_of_step h with
  | going => rfl
  | done hs r => exact control_deliver _ r _

theorem control_stepKeepAlive (h : c.stepKeepAlive x now = some c') : c'.control = c.control := by
  cases keepsAlive_of_step h <;> rfl

theorem Calls.control_eq (h : c.Calls c') : c'.control = c.control := by
  cases h <;> rfl

inductive Acts (x : Surroundings) (now : Nat) (i : Index) (c c' : Connection) : Agent → Index → Prop
  | control {i' : Index} (h : c.stepControl x now i = some (i', c')) : Acts x now i c c' .control i'
  | deferral (h : c.stepDeferral = some c') : Acts x now i c c' .deferral i
  | reader {i' : Index} (h : c.stepReader i = some (i', c')) : Acts x now i c c' .reader i'
  | keepAlive (h : c.stepKeepAlive x now = some c') : Acts x now i c c' .keepAlive i
  | worker {ticket : Nat} (h : c.stepWorker ticket = some c') : Acts x now i c c' (.worker ticket) i
  | submitter (h : c.stepSubmitter = some c') : Acts x now i c c' .submitter i
  | caller (h : c.stepCaller = some c') : Acts x now i c c' .caller i

theorem acts_of_step (h : c.step x now a i = some (i', c')) : Acts x now i c c' a i' := by
  cases a with
  | control => exact .control h
  | deferral =>
    obtain ⟨_, hstep, ⟨⟩⟩ := Option.map_eq_some_iff.mp h
    exact .deferral hstep
  | reader => exact .reader h
  | keepAlive =>
    obtain ⟨_, hstep, ⟨⟩⟩ := Option.map_eq_some_iff.mp h
    exact .keepAlive hstep
  | worker ticket =>
    obtain ⟨_, hstep, ⟨⟩⟩ := Option.map_eq_some_iff.mp h
    exact .worker hstep
  | submitter =>
    obtain ⟨_, hstep, ⟨⟩⟩ := Option.map_eq_some_iff.mp h
    exact .submitter hstep
  | caller =>
    obtain ⟨_, hstep, ⟨⟩⟩ := Option.map_eq_some_iff.mp h
    exact .caller hstep

theorem control_step (ha : a ≠ .control) (hd : a ≠ .deferral)
    (h : c.step x now a i = some (i', c')) : c'.control = c.control := by
  cases acts_of_step h with
  | control => exact absurd rfl ha
  | deferral => exact absurd rfl hd
  | reader hstep => exact control_stepReader hstep
  | keepAlive hstep => exact control_stepKeepAlive hstep
  | worker hstep => exact control_stepWorker hstep
  | submitter hstep => exact (calls_of_submitter hstep).control_eq
  | caller hstep => exact (calls_of_caller hstep).control_eq

end Connection

end BlockExchange
