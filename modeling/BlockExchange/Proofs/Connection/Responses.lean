import BlockExchange.Proofs.Connection.Account
import BlockExchange.Proofs.Connection.Authentication
import BlockExchange.Proofs.Connection.Messages

namespace BlockExchange

def Topic.response? : Topic → Option BlockResponse
  | report r => r.response?
  | _ => none

def IsBehindAgreement (heard bytes : Bytes) : Prop :=
  ∃ hello left folders, Frame.helloFormat.Opens hello heard left ∧
    Frame.messageFormat.Opens (.clusterConfig folders) left bytes

def HasSent (heard : Bytes) (messages : List Message) : Prop :=
  ∃ bytes left, IsBehindAgreement heard bytes ∧ Frame.messageFormat.OpensAll messages bytes left

/-- The first responses that the peer has sent. -/
def HasAnswered (heard : Bytes) (responses : List BlockResponse) : Prop :=
  responses = [] ∨ ∃ messages, HasSent heard messages ∧
    responses <+: messages.filterMap Message.response?

theorem IsBehindAgreement.append {heard bytes : Bytes} (h : IsBehindAgreement heard bytes)
    (new : Bytes) : IsBehindAgreement (heard ++ new) (bytes ++ new) := by
  obtain ⟨hello, left, folders, hhello, hfirst⟩ := h
  exact ⟨hello, left ++ new, folders, hhello.append new, hfirst.append new⟩

theorem HasAnswered.append {heard : Bytes} {responses : List BlockResponse}
    (h : HasAnswered heard responses) (new : Bytes) : HasAnswered (heard ++ new) responses := by
  obtain rfl | ⟨messages, ⟨bytes, left, hbehind, hall⟩, hfirst⟩ := h
  · exact .inl rfl
  · exact .inr ⟨messages, ⟨_, _, hbehind.append new, hall.append new⟩, hfirst⟩

theorem HasAnswered.of_prefix {heard : Bytes} {responses responses' : List BlockResponse}
    (h : HasAnswered heard responses) (hshorter : responses' <+: responses) :
    HasAnswered heard responses' := by
  obtain rfl | ⟨messages, hsent, hfirst⟩ := h
  · exact .inl (List.prefix_nil.mp hshorter)
  · exact .inr ⟨messages, hsent, hshorter.trans hfirst⟩

def Control.isHearing : Control → Bool
  | announcing .. | serving _ | parting .. => true
  | _ => false

theorem Control.rank_of_isHearing {c : Control} (h : c.isHearing) :
    Phase.active.rank ≤ c.phase.rank := by
  cases c with
  | announcing | serving => exact Nat.le_refl _
  | parting => exact Nat.le_succ _
  | _ => cases h

theorem Control.Continues.phase_eq {c c' : Control} (h : c.Continues c') : c'.phase = c.phase := by
  cases h <;> rfl

namespace Connection

variable {c c' : Connection} {x : Surroundings} {now : Nat} {i i' : Index}

structure SameReading (c c' : Connection) : Prop where
  control : c'.control = c.control
  reader : c'.reader = c.reader
  unread : c'.unread = c.unread
  responses : c'.responses = c.responses

theorem Works.sameReading (h : c.Works c') : c.SameReading c' := by
  cases h with
  | going hs => exact ⟨rfl, rfl, unread_of_inbound? hs, rfl⟩
  | @done stream w workers hs r =>
    have hunread : { c with stream, workers }.unread = c.unread := unread_of_inbound? hs
    cases w.errand with
    | request id =>
      cases r with
      | ok => exact ⟨rfl, rfl, hunread, rfl⟩
      | error e =>
        refine ⟨rfl, rfl, hunread, ?_⟩
        exact List.filterMap_append.trans (List.append_nil _)
    | update call => exact ⟨rfl, rfl, hunread, rfl⟩
    | response => cases r <;> exact ⟨rfl, rfl, hunread, rfl⟩

theorem KeepsAlive.sameReading (h : c.KeepsAlive c') : c.SameReading c' := by
  cases h with
  | going hs | failure e hs => exact ⟨rfl, rfl, unread_of_inbound? hs, rfl⟩

theorem Calls.sameReading (h : c.Calls c') : c.SameReading c' := by
  cases h <;> exact ⟨rfl, rfl, rfl, rfl⟩

structure Hears (c c' : Connection) : Prop where
  unread : c'.unread = c.unread
  reader : c'.reader = c.reader ∧ c'.control.isHearing ∨ c'.reader = .idle
  responses : c'.responses = c.responses

theorem hears_leave (x : Surroundings) (now : Nat) (e : Exit) (c : Connection) :
    c.Hears (c.leave x now e) := by
  obtain ⟨stream, hs, ⟨s, deadline, heq⟩ | heq⟩ := c.leave_cases x now e <;> rw [heq]
  · exact ⟨unread_of_inbound? hs, .inl ⟨rfl, rfl⟩, rfl⟩
  · exact ⟨unread_of_inbound? hs, .inr rfl, rfl⟩

theorem Treats.hears {t : Topic} (h : Treats x now c t c') (hc : c.control.isHearing) :
    c.Hears c' := by
  cases h with
  | close | unknown | exit => exact c.hears_leave x now _
  | _ => exact ⟨rfl, .inl ⟨rfl, hc⟩, rfl⟩

theorem TakesUp.responses {t : Topic} (h : c.TakesUp t c') :
    t.response?.toList ++ c'.responses = c.responses := by
  cases h with
  | @report r rest hd hr =>
    rw [Connection.responses, Connection.responses, hr]
    cases r <;> rfl
  | _ => rfl

theorem TakesUp.sameReader {t : Topic} (h : c.TakesUp t c') :
    c'.reader = c.reader ∧ c'.unread = c.unread ∧ c'.control = c.control := by
  cases h <;> exact ⟨rfl, rfl, rfl⟩

theorem Controls.hears (h : Controls x now i c i' c') (hc : c.control.isHearing) :
    c'.unread = c.unread ∧ (c'.reader = c.reader ∧ c'.control.isHearing ∨ c'.reader = .idle) ∧
      c.takenUp?.toList.filterMap Topic.response? ++ c'.responses = c.responses := by
  have hquiet : ∀ {c' : Connection}, (∀ info, c.control ≠ .serving info) → c.Hears c' →
      c'.unread = c.unread ∧ (c'.reader = c.reader ∧ c'.control.isHearing ∨ c'.reader = .idle) ∧
        c.takenUp?.toList.filterMap Topic.response? ++ c'.responses = c.responses := by
    intro c' hne hhears
    rw [takenUp?_eq_none hne]
    exact ⟨hhears.unread, hhears.reader, hhears.responses⟩
  cases h with
  | opening mine hc' | introduction folders hc' hr | offer mine hc' | notice hc' hr hi
    | agreement hc' | finish hc' => rw [hc'] at hc; cases hc
  | deferral hrank hi | surrender e hs hrank =>
    rw [phase] at hrank
    cases hcontrol : c.control with rw [hcontrol] at hc hrank
    | announcing | serving | parting => simp [Control.phase, Phase.rank] at hrank
    | _ => cases hc
  | @writing stream control hs hcontinues =>
    generalize hcontrol : c.control = before at hcontinues
    rw [hcontrol] at hc
    have hunread : { c with stream, control }.unread = c.unread := unread_of_inbound? hs
    cases hcontinues with
    | greeting | clustering => cases hc
    | announcing | parting => exact hquiet (by simp [hcontrol]) ⟨hunread, .inl ⟨rfl, rfl⟩, rfl⟩
  | @failure info rest mine stream e hs hc' =>
    have hleave := hears_leave x now (.failed e) { c with stream }
    have hunread : { c with stream }.unread = c.unread := unread_of_inbound? hs
    exact hquiet (by simp [hc']) ⟨hleave.unread.trans hunread, hleave.reader, hleave.responses⟩
  | announced hc' => exact hquiet (by simp [hc']) ⟨rfl, .inl ⟨rfl, rfl⟩, rfl⟩
  | @attention info t c₁ hc' ht =>
    have htakes := takesUp_of_topic? ht
    obtain ⟨hreader, hunread, hcontrol⟩ := htakes.sameReader
    have htreats := (c₁.treats x now info t).hears (hcontrol ▸ hc)
    rw [takenUp?_eq_some hc' ht]
    refine ⟨htreats.unread.trans hunread, hreader ▸ htreats.reader, ?_⟩
    rw [htreats.responses, ← htakes.responses]
    cases ht' : t.response? <;> simp [ht']
  | parted hs hc' =>
    exact hquiet (by simp [hc']) ⟨unread_of_inbound? hs, .inr rfl, rfl⟩

theorem Controls.early (h : Controls x now i c i' c') (hp : c.phase.rank < Phase.active.rank)
    (hr : c.reader.info? = none) : c'.responses = c.responses ∧
      (c'.phase.rank < Phase.active.rank ∧ c'.reader.info? = none ∨
        c'.phase = .closing ∧ c'.reader = .idle ∨
        ∃ info, c.control = .agreeing (.ok info) ∧
          c'.control = .announcing info info.shared none ∧
          c'.reader = .serving info (.start Frame.messageFormat) ∧ c'.unread = c.unread) := by
  have hearly : ∀ control : Control, c.control = control →
      control.phase.rank < Phase.active.rank := by
    rintro _ rfl
    exact hp
  cases h with
  | opening mine hc => exact ⟨rfl, .inl ⟨by simp [phase, Control.phase, Phase.rank], rfl⟩⟩
  | deferral hrank hi => exact ⟨rfl, .inl ⟨hp, hr⟩⟩
  | @writing stream control hs hcontinues =>
    have hphase : control.phase.rank < Phase.active.rank := hcontinues.phase_eq ▸ hp
    exact ⟨rfl, .inl ⟨hphase, hr⟩⟩
  | surrender e hs hrank => exact ⟨rfl, .inr (.inl ⟨rfl, rfl⟩)⟩
  | introduction folders hc hr' =>
    exact ⟨rfl, .inl ⟨by simp [phase, Control.phase, Phase.rank], rfl⟩⟩
  | offer mine hc => exact ⟨rfl, .inl ⟨by simp [phase, Control.phase, Phase.rank], rfl⟩⟩
  | notice hc hr' hi => exact ⟨rfl, .inl ⟨by simp [phase, Control.phase, Phase.rank], rfl⟩⟩
  | agreement hc => exact ⟨rfl, .inr (.inr ⟨_, hc, rfl, rfl, rfl⟩)⟩
  | failure e hs hc => exact absurd (hearly _ hc) (by simp [Control.phase])
  | announced hc => exact absurd (hearly _ hc) (by simp [Control.phase])
  | attention hc ht => exact absurd (hearly _ hc) (by simp [Control.phase])
  | parted hs hc => exact absurd (hearly _ hc) (by simp [Control.phase, Phase.rank])
  | finish hc => exact absurd (hearly _ hc) (by simp [Control.phase, Phase.rank])

theorem Controls.deaf (h : Controls x now i c i' c') (hp : Phase.active.rank ≤ c.phase.rank)
    (hc : ¬c.control.isHearing) : c'.unread = c.unread ∧ c'.reader = c.reader ∧
      c.takenUp? = none ∧ c'.responses = [] := by
  have hlate : ∀ {control : Control}, c.control = control →
      Phase.active.rank ≤ control.phase.rank := by
    rintro _ rfl
    exact hp
  cases h with
  | @finish r hc' =>
    refine ⟨?_, rfl, takenUp?_eq_none (by simp [hc']), rfl⟩
    rw [unread, unread, link_finish]
  | opening mine hc' | introduction folders hc' hr | offer mine hc' | notice hc' hr hi
    | agreement hc' =>
    exact absurd (hlate hc') (by simp [Control.phase, Phase.rank])
  | deferral hrank hi | surrender e hs hrank => omega
  | @writing stream control hs hcontinues =>
    generalize hcontrol : c.control = before at hcontinues hc
    cases hcontinues with
    | greeting | clustering => exact absurd (hlate hcontrol) (by simp [Control.phase, Phase.rank])
    | announcing | parting => exact absurd rfl hc
  | failure e hs hc' | announced hc' | attention hc' ht | parted hs hc' =>
    exact absurd (by rw [hc']; rfl) hc

end Connection

namespace Course

variable {x : Surroundings} {device : DeviceId} {certificate? : Option Bytes} {c : Course}
  {s : Session} {i : Index} {topics : List Topic}

theorem heard_proceed (h : s.connection.unread <:+ c.session.connection.unread) (i : Index) :
    (c.proceed i s).heard = c.heard := by
  have hbehind : Bytes.behind c.session.inbound s.inbound = [] := Bytes.behind_of_suffix h
  rw [proceed, hbehind, List.append_nil]

inductive Hears (c : Course) (topics : List Topic) : Prop
  | before (hp : c.session.phase.rank < Phase.active.rank)
    (hr : c.session.connection.reader.info? = none)
    (hresponses : topics.filterMap Topic.response? ++ c.session.connection.responses = [])
  | reading {bytes : Bytes} {messages : List Message}
    (hc : c.session.connection.control.isHearing) (hb : IsBehindAgreement c.heard bytes)
    (hr : c.session.connection.reader.HasRead bytes messages c.session.connection.unread)
    (hresponses : topics.filterMap Topic.response? ++ c.session.connection.responses =
      messages.filterMap Message.response?)
  | finished (hp : Phase.active.rank ≤ c.session.phase.rank)
    (hr : c.session.connection.reader = .idle)
    (hresponses : HasAnswered c.heard
      (topics.filterMap Topic.response? ++ c.session.connection.responses))

theorem Hears.hasAnswered (h : c.Hears topics) :
    HasAnswered c.heard (topics.filterMap Topic.response?) := by
  cases h with
  | before hp hr hresponses => exact .inl (List.append_eq_nil_iff.mp hresponses).1
  | @reading bytes messages hc hb hr hresponses =>
    obtain ⟨left, hall⟩ := hr.opensAll
    exact .inr ⟨messages, ⟨bytes, left, hb, hall⟩, hresponses ▸ List.prefix_append _ _⟩
  | finished hp hr hresponses => exact hresponses.of_prefix (List.prefix_append _ _)

theorem Hears.serves (h : c.Hears topics) {new : Bytes}
    (hcontrol : s.connection.control = c.session.connection.control)
    (hreader : s.connection.reader = c.session.connection.reader)
    (hreports : s.connection.responses = c.session.connection.responses)
    (hserves : Link.Serves c.session.connection.link s.connection.link new) (i : Index) :
    (c.proceed i s).Hears topics := by
  obtain ⟨hheard, -, hunread⟩ := proceed_of_serves hserves i
  have hphase : s.phase = c.session.phase := congrArg Control.phase hcontrol
  cases h with
  | before hp hr hresponses =>
    exact .before (hphase ▸ hp) (hreader ▸ hr) (hreports ▸ hresponses)
  | reading hc hb hr hresponses =>
    refine .reading (hcontrol ▸ hc) (hheard ▸ hb.append new) ?_ (hreports ▸ hresponses)
    have hunread' : s.connection.unread = c.session.connection.unread ++ new := hunread
    change s.connection.reader.HasRead _ _ s.connection.unread
    rw [hreader, hunread']
    exact hr.append new
  | finished hp hr hresponses =>
    refine .finished (hphase ▸ hp) (hreader ▸ hr) ?_
    rw [hheard]
    exact hreports ▸ hresponses.append new

theorem Hears.same (h : c.Hears topics) (hs : c.session.connection.SameReading s.connection)
    (i : Index) : (c.proceed i s).Hears topics := by
  have hheard : (c.proceed i s).heard = c.heard :=
    heard_proceed (by simp only [hs.unread, List.suffix_refl]) i
  have hphase : s.phase = c.session.phase := congrArg Control.phase hs.control
  cases h with
  | before hp hr hresponses =>
    exact .before (hphase ▸ hp) (hs.reader ▸ hr) (hs.responses ▸ hresponses)
  | reading hc hb hr hresponses =>
    refine .reading (hs.control ▸ hc) (hheard ▸ hb) ?_ (hs.responses ▸ hresponses)
    change s.connection.reader.HasRead _ _ s.connection.unread
    rw [hs.reader, hs.unread]
    exact hr
  | finished hp hr hresponses =>
    refine .finished (hphase ▸ hp) (hs.reader ▸ hr) ?_
    rw [hheard]
    exact hs.responses ▸ hresponses

theorem Hears.reader_step (h : c.Hears topics)
    (hstep : c.session.connection.stepReader c.index = some (i, s.connection)) :
    (c.proceed i s).Hears topics := by
  have hcontrol := Connection.control_stepReader hstep
  have hphase : s.phase = c.session.phase := congrArg Control.phase hcontrol
  have hreads := Connection.reads_of_step hstep
  cases h with
  | before hp hr hresponses =>
    generalize hs : s.connection = c' at hreads
    cases hreads with
    | handshake hc hr' =>
      refine .before (hphase ▸ hp) ?_ ?_
      · exact (congrArg (·.reader.info?) hs).trans hr'
      · have hreports : s.connection.responses = c.session.connection.responses := by rw [hs]; rfl
        exact hreports ▸ hresponses
    | going hr' | message hr' | failure hr' | merged hr' => rw [hr'] at hr; cases hr
  | @reading bytes messages hc hb hr hresponses =>
    obtain ⟨new, hsuffix, hread, hnew⟩ := hreads.hasRead hr
    have hheard := heard_proceed hsuffix i
    have hresponses' : topics.filterMap Topic.response? ++ s.connection.responses =
        (messages ++ new).filterMap Message.response? := by
      rw [hnew, ← List.append_assoc, hresponses, List.filterMap_append]
    rcases hread with hread | ⟨hidle, left, hall⟩
    · exact .reading (hcontrol ▸ hc) (hheard ▸ hb) hread hresponses'
    · refine .finished ?_ hidle ?_
      · exact hphase ▸ Control.rank_of_isHearing hc
      · rw [hheard]
        exact .inr ⟨_, ⟨bytes, left, hb, hall⟩, hresponses' ▸ List.prefix_rfl⟩
  | finished hp hr hresponses =>
    rw [Connection.stepReader_of_idle hr] at hstep
    cases hstep

theorem Hears.control_before (hsound : c.Sound x device certificate?)
    (hp : c.session.phase.rank < Phase.active.rank)
    (hr : c.session.connection.reader.info? = none)
    (hresponses : topics.filterMap Topic.response? ++ c.session.connection.responses = [])
    (hcontrols : Connection.Controls x c.now c.index c.session.connection i s.connection) :
    (c.proceed i s).Hears topics := by
  obtain ⟨hsame, hcases⟩ := hcontrols.early hp hr
  have hnone : topics.filterMap Topic.response? ++ s.connection.responses = [] := by
    rw [hsame, hresponses]
  obtain ⟨hp', hr'⟩ | ⟨hp', hr'⟩ | ⟨info, hc, hcontrol, hreader, hunread⟩ := hcases
  · exact .before hp' hr' hnone
  · refine .finished ?_ hr' (.inl hnone)
    have hclosing : (c.proceed i s).session.phase = .closing := hp'
    rw [hclosing]
    decide
  · -- With the agreement the peer's messages begin.
    have hbehind : IsBehindAgreement c.heard c.session.connection.unread :=
      hsound.opens_agreement hc
    have hheard : (c.proceed i s).heard = c.heard :=
      heard_proceed (by simp only [hunread, List.suffix_refl]) i
    have hhearing : s.connection.control.isHearing := by rw [hcontrol]; rfl
    have hread : s.connection.reader.HasRead c.session.connection.unread []
        s.connection.unread := by
      rw [hreader, hunread]
      exact Reader.hasRead_serving info (.nil _)
    exact .reading hhearing (hheard ▸ hbehind) hread hnone

theorem Hears.control_step (h : c.Hears topics) (hsound : c.Sound x device certificate?)
    (hcontrols : Connection.Controls x c.now c.index c.session.connection i s.connection)
    (hrank : c.session.phase.rank ≤ s.phase.rank) :
    (c.proceed i s).Hears (topics ++ c.session.connection.takenUp?.toList) := by
  cases h with
  | before hp hr hresponses =>
    have hnone : c.session.connection.takenUp? = none := by
      apply Connection.takenUp?_eq_none
      intro info hc
      rw [Session.phase, Connection.phase, hc] at hp
      exact absurd hp (by simp [Control.phase])
    rw [hnone, Option.toList_none, List.append_nil]
    exact control_before hsound hp hr hresponses hcontrols
  | @reading bytes messages hc hb hr hresponses =>
    obtain ⟨hunread, hreader, htaken⟩ := hcontrols.hears hc
    have hheard : (c.proceed i s).heard = c.heard :=
      heard_proceed (by simp only [hunread, List.suffix_refl]) i
    have hresponses' : (topics ++ c.session.connection.takenUp?.toList).filterMap Topic.response? ++
        s.connection.responses = messages.filterMap Message.response? := by
      rw [List.filterMap_append, List.append_assoc, htaken, hresponses]
    rcases hreader with ⟨hreader, hc'⟩ | hidle
    · refine .reading hc' (hheard ▸ hb) ?_ hresponses'
      change s.connection.reader.HasRead _ _ s.connection.unread
      rw [hreader, hunread]
      exact hr
    · obtain ⟨left, hall⟩ := hr.opensAll
      refine .finished ((Control.rank_of_isHearing hc).trans hrank) hidle ?_
      rw [hheard]
      exact .inr ⟨messages, ⟨bytes, left, hb, hall⟩, hresponses' ▸ List.prefix_rfl⟩
  | finished hp hr hresponses =>
    have hover : ∀ {responses : List BlockResponse}, s.connection.unread =
        c.session.connection.unread → s.connection.reader = .idle →
        responses <+: topics.filterMap Topic.response? ++ c.session.connection.responses →
        (topics ++ c.session.connection.takenUp?.toList).filterMap Topic.response? ++
          s.connection.responses = responses →
        (c.proceed i s).Hears (topics ++ c.session.connection.takenUp?.toList) := by
      rintro _ hunread hreader hshorter rfl
      refine .finished (hp.trans hrank) hreader ?_
      rw [heard_proceed (by simp only [hunread, List.suffix_refl]) i]
      exact hresponses.of_prefix hshorter
    by_cases hc : c.session.connection.control.isHearing
    · obtain ⟨hunread, hreader, htaken⟩ := hcontrols.hears hc
      refine hover hunread (hreader.elim (fun h => h.1.trans hr) id) List.prefix_rfl ?_
      rw [List.filterMap_append, List.append_assoc, htaken]
    · obtain ⟨hunread, hreader, htaken, hnone⟩ := hcontrols.deaf hp hc
      refine hover hunread (hreader.trans hr) (List.prefix_append (topics.filterMap _) _) ?_
      rw [htaken, hnone, Option.toList_none, List.append_nil, List.append_nil]

theorem Hears.agent_step (h : c.Hears topics) (hsound : c.Sound x device certificate?) {a : Agent}
    (ha : a ≠ .control)
    (hstep : c.session.connection.step x c.now a c.index = some (i, s.connection)) :
    (c.proceed i s).Hears topics := by
  cases Connection.acts_of_step hstep with
  | control => exact absurd rfl ha
  | deferral hdeferral =>
    have hheard := h.control_step hsound (Connection.controls_of_deferral hdeferral)
      (Connection.leads_stepDeferral hdeferral).rank_le
    rwa [Connection.takenUp?_of_deferral hdeferral, Option.toList_none, List.append_nil] at hheard
  | reader hread => exact h.reader_step hread
  | keepAlive hkeep => exact h.same (Connection.keepsAlive_of_step hkeep).sameReading _
  | worker hwork => exact h.same (Connection.works_of_step hwork).sameReading _
  | submitter hsubmitter => exact h.same (Connection.calls_of_submitter hsubmitter).sameReading _
  | caller hcaller => exact h.same (Connection.calls_of_caller hcaller).sameReading _

theorem Hears.peer_step (h : c.Hears topics) (hpeer : c.session.PeerMoves s) (i : Index) :
    (c.proceed i s).Hears topics := by
  obtain ⟨new, hidle⟩ := hpeer.isIdle
  refine h.serves hidle.control hidle.reader ?_ hidle.link i
  obtain ⟨_, _, rfl⟩ := hpeer.rest
  rfl

theorem Hears.undergo (h : c.Hears topics) (e : Incident) :
    (c.proceed c.index (c.session.undergo e)).Hears topics := by
  have hidle := Session.isIdle_undergo e c.session
  refine h.serves hidle.control hidle.reader ?_ hidle.link _
  cases e with
  | submit call action =>
    rw [Session.undergo]
    dsimp only
    obtain ⟨-, heq⟩ | ⟨-, closers, heq⟩ := c.session.connection.submit_cases call action <;> rw [heq]
    · rfl
    · rfl
  | release => rfl
  | peer d =>
    rw [Session.undergo]
    cases hpeer : c.session.stepPeer fun peer stream => some (peer.act d stream) with
    | none => rfl
    | some s' =>
      obtain ⟨_, _, _, _, _, rfl⟩ := Session.stepPeer_eq_some hpeer
      rfl

theorem Hears.move {a : Account} (h : c.Hears a.topics) (hsound : c.Sound x device certificate?)
    (m : Move) : (c.move x m).Hears (a.note c.session.connection m).topics := by
  cases m with
  | party p =>
    have hturn := c.takesTurn_move x p
    generalize c.move x (.party p) = c₁ at hturn ⊢
    by_cases hp : p = .agent .control
    · subst hp
      rw [Account.note]
      cases hturn with
      | waiting hwaits =>
        rw [Connection.takenUp?_of_waiting (Option.map_eq_none_iff.mp hwaits)]
        exact (List.append_nil a.topics).symm ▸ h
      | agent hagent =>
        exact h.control_step hsound (Connection.controls_of_step hagent)
          (Connection.leads_stepControl hagent).rank_le
      | peer hp => exact absurd rfl (hp _)
    · rw [Account.note_party hp]
      cases hturn with
      | waiting => exact h
      | agent hagent => exact h.agent_step hsound (fun ha => hp (congrArg Party.agent ha)) hagent
      | peer _ hpeer => exact h.peer_step hpeer _
  | incident e => cases e <;> exact h.undergo _
  | telling =>
    exact h.serves (s := c.session.takeAnswers.2) rfl rfl rfl (Link.serves_refl _) c.index
  | peer p => exact h.serves (s := { c.session with peer := p }) rfl rfl rfl (Link.serves_refl _) c.index
  | elsewhere i | time now =>
    cases h with
    | before hp hr hresponses => exact .before hp hr hresponses
    | reading hc hb hr hresponses => exact .reading hc hb hr hresponses
    | finished hp hr hresponses => exact .finished hp hr hresponses

theorem hears_run {moves : List Move} {a : Account} (h : c.Hears a.topics)
    (hsound : c.Sound x device certificate?) :
    (c.run x moves).Hears (account x moves c a).topics := by
  induction moves generalizing c a with
  | nil => exact h
  | cons m rest ih => exact ih (h.move hsound m) (hsound.move m)

theorem hears_starting (device : DeviceId) (address : String) (found : Option (Stream × Peer))
    (i : Index) (now : Nat) : (starting (.dialed device address found) i now).Hears [] :=
  .before (Nat.zero_lt_succ _) rfl rfl

end Course

end BlockExchange
