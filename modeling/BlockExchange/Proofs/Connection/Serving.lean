import BlockExchange.Proofs.Connection.Closing
import BlockExchange.Proofs.Connection.Responses
import BlockExchange.Proofs.Connection.Verdict
import BlockExchange.Proofs.Wire.Framing

namespace BlockExchange

def SaysNoResponse (heard : Bytes) : Prop :=
  ∀ messages left, Frame.messageFormat.OpensAll messages heard left → ∀ r, .response r ∉ messages

theorem SaysNoResponse.of_append {heard new : Bytes} (h : SaysNoResponse (heard ++ new)) :
    SaysNoResponse heard :=
  fun messages _ hall => h messages _ (hall.append new)

theorem SaysNoResponse.of_opensAll {heard left : Bytes} {messages : List Message}
    (h : Frame.messageFormat.OpensAll messages heard left)
    (hleft : Frame.messageFormat.parse left = none) (hno : ∀ r, .response r ∉ messages) :
    SaysNoResponse heard :=
  fun _ _ h' r hr => hno r ((h.prefix_of hleft h').subset hr)

theorem SaysNoResponse.of_encode {messages : List Message} {frames : List Bytes}
    (hm : ∀ m ∈ messages, (Wire.message.toCbor m).length ≤ Frame.maxLength)
    (hframes : messages.mapM Frame.encode = .ok frames) (hno : ∀ r, .response r ∉ messages) :
    SaysNoResponse frames.flatten := by
  obtain ⟨frames', heq, hvalues⟩ := Frame.exists_mapM_encode hm
  cases hframes.symm.trans heq
  exact .of_opensAll (Frame.Format.opensAll_flatten hvalues) (by decide +kernel) hno

theorem KeepAlive.start_ne_refused {period horizon now : Nat} (hperiod : 0 < period)
    (hhorizon : now + period ≤ horizon) : start period horizon now ≠ refused := by
  rw [start, if_neg (by omega)]
  nofun

namespace Connection

variable {c c' : Connection} {x : Surroundings} {now : Nat} {i i' : Index}

def IsHungUp (c : Connection) : Prop := ∃ p, c.inbound? = some p ∧ p.closed = true

/-- Nobody on our side means to end the connection, its pings have a period that the clock can tell, and
no response is on its way to the control. -/
structure IsUndisturbed (c : Connection) : Prop where
  closing : ∀ s ∈ c.deferred ++ c.inbox.submissions, ∀ reason, s.action ≠ .close reason
  responses : c.responses = []
  held : c.isAbandoned = false
  timer : c.keepAlive ≠ .refused

structure IsServing (info : ClusterInfo) (device : DeviceId) (c : Connection) : Prop where
  peer : c.device = device
  control : c.control = .serving info
  stream : c.stream.isSome
  ended : c.ended = []
  undisturbed : c.IsUndisturbed

theorem inbound_read {α : Type} {f : Frame.Format α} {r : Incoming}
    {result : Progress Incoming (Except ExchangeError α)} (h : c.read f r = some (result, c'))
    {p : Pipe} (hp : c.inbound? = some p) : ∃ p', c'.inbound? = some p' ∧ p'.closed = p.closed := by
  obtain ⟨stream, inbound, hstream, hadv, heq⟩ := read_eq_some h
  rw [inbound?, hstream, Option.map_some, Option.some.injEq] at hp
  subst hp
  refine ⟨inbound, ?_, Incoming.closed_of_advance hadv⟩
  rcases heq with rfl | rfl <;> rfl

theorem read_fails {α : Type} {f : Frame.Format α} {r : Incoming} {e : ExchangeError} {bytes : Bytes}
    (h : c.read f r = some (.done (.error e), c')) (hr : r.IsAmid f bytes c.unread) :
    (∃ cause, e = .codec cause ∧ f.parse bytes = some (.error cause)) ∨
      e = .closed ∧ f.parse bytes = none ∧ c.IsHungUp := by
  obtain ⟨stream, inbound, hstream, hadv, -⟩ := read_eq_some h
  rw [unread, link_of_stream hstream] at hr
  rcases hr.fails hadv with hcause | ⟨he, hparse, hclosed⟩
  · exact .inl hcause
  · refine .inr ⟨he, hparse, stream.inbound, ?_, hclosed⟩
    rw [inbound?, hstream, Option.map_some]

structure Abides (c c' : Connection) : Prop where
  device : c'.device = c.device
  control : c'.control = c.control
  reader : c'.reader = c.reader
  inbound : c'.inbound? = c.inbound?
  ended : c'.ended = c.ended ∨ c.reader = .idle ∧ c.ended <+: c'.ended

theorem Abides.trans {c'' : Connection} (h : c.Abides c') (h' : c'.Abides c'') : c.Abides c'' where
  device := h'.device.trans h.device
  control := h'.control.trans h.control
  reader := h'.reader.trans h.reader
  inbound := h'.inbound.trans h.inbound
  ended := by
    obtain hsame | ⟨hidle, hmore⟩ := h.ended
    · rw [← hsame, ← h.reader]
      exact h'.ended
    · obtain hsame' | ⟨-, hmore'⟩ := h'.ended
      · exact .inr ⟨hidle, hsame' ▸ hmore⟩
      · exact .inr ⟨hidle, hmore.trans hmore'⟩

theorem Works.abides (h : c.Works c') : c.Abides c' := by
  cases h with
  | going hs => exact ⟨rfl, rfl, rfl, hs, .inl rfl⟩
  | @done stream w workers hs r =>
    cases w.errand <;> cases r <;> exact ⟨rfl, rfl, rfl, hs, .inl rfl⟩

theorem KeepsAlive.abides (h : c.KeepsAlive c') (hended : c.reader = .idle ∨ c'.ended = c.ended) :
    c.Abides c' := by
  cases h with
  | going hs hk => exact ⟨rfl, rfl, rfl, hs, .inl rfl⟩
  | failure e hs =>
    refine ⟨rfl, rfl, rfl, hs, hended.symm.imp_right fun hidle => ⟨hidle, ?_⟩⟩
    exact List.prefix_append _ _

theorem KeepsAlive.timer (h : c.KeepsAlive c') : c'.keepAlive ≠ .refused := by
  cases h with
  | going hs hk => exact hk
  | failure e hs => exact nofun

theorem Works.keepAlive_eq (h : c.Works c') : c'.keepAlive = c.keepAlive := by
  cases h with
  | going hs => rfl
  | @done stream w workers hs r => cases w.errand <;> cases r <;> rfl

theorem Calls.abides (h : c.Calls c') : c.Abides c' := by
  cases h <;> exact ⟨rfl, rfl, rfl, rfl, .inl rfl⟩

theorem Calls.keepAlive_eq (h : c.Calls c') : c'.keepAlive = c.keepAlive := by
  cases h <;> rfl

theorem abides_submit (call : Nat) (action : Action) (c : Connection) :
    c.Abides (c.submit call action) := by
  obtain ⟨-, heq⟩ | ⟨-, closers, heq⟩ := c.submit_cases call action <;> rw [heq] <;>
    exact ⟨rfl, rfl, rfl, rfl, .inl rfl⟩

theorem IsUndisturbed.same (h : c.IsUndisturbed) (hrequests : c.SameRequests c')
    (hreading : c.SameReading c') (hheld : c'.isAbandoned = false) (htimer : c'.keepAlive ≠ .refused) :
    c'.IsUndisturbed where
  closing := by
    rw [hrequests.deferred, hrequests.inbox]
    exact h.closing
  responses := hreading.responses.trans h.responses
  held := hheld
  timer := htimer

theorem IsUndisturbed.submit (h : c.IsUndisturbed) {call : Nat} {action : Action}
    (ha : ∀ reason, action ≠ .close reason) (hheld : (c.submit call action).isAbandoned = false) :
    (c.submit call action).IsUndisturbed := by
  refine ⟨?_, ?_, hheld, ?_⟩
  · obtain ⟨-, heq⟩ | ⟨-, closers, heq⟩ := c.submit_cases call action <;> rw [heq]
    · exact h.closing
    · intro s hs
      rw [Inbox.submissions_enter, ← List.append_assoc] at hs
      rcases List.mem_append.mp hs with hs | hs
      · exact h.closing s hs
      · rw [List.mem_singleton.mp hs]
        exact ha
  · obtain ⟨-, heq⟩ | ⟨-, closers, heq⟩ := c.submit_cases call action <;> rw [heq] <;>
      exact h.responses
  · obtain ⟨-, heq⟩ | ⟨-, closers, heq⟩ := c.submit_cases call action <;> rw [heq] <;>
      exact h.timer

structure CarriesOn (c c' : Connection) : Prop extends Abides c c' where
  deferred : c'.deferred = c.deferred
  inbox : c'.inbox = c.inbox
  reports : c'.reports = c.reports
  held : c'.isAbandoned = c.isAbandoned
  keepAlive : c'.keepAlive = c.keepAlive

theorem Treats.carriesOn_submission {s : Submission} (h : Treats x now c (.submission s) c')
    (hs : ∀ reason, s.action ≠ .close reason) : c.CarriesOn c' := by
  cases h with
  | close call reason => exact absurd rfl (hs reason)
  | settling ht hp => cases ht
  | _ => exact ⟨⟨rfl, rfl, rfl, rfl, .inl rfl⟩, rfl, rfl, rfl, rfl, rfl⟩

theorem Treats.carriesOn_report {r : Report} (h : Treats x now c (.report r) c')
    (hr : r.response? = none) : c.CarriesOn c' := by
  cases h with
  | unknown hp => cases hr
  | _ => exact ⟨⟨rfl, rfl, rfl, rfl, .inl rfl⟩, rfl, rfl, rfl, rfl, rfl⟩

theorem IsUndisturbed.carriesOn (h : c.IsUndisturbed) (hc : c.CarriesOn c') : c'.IsUndisturbed where
  closing := by
    rw [hc.deferred, hc.inbox]
    exact h.closing
  responses := by
    rw [Connection.responses, hc.reports]
    exact h.responses
  held := hc.held.trans h.held
  timer := hc.keepAlive ▸ h.timer

structure Concludes (r : Except ExchangeError Unit) (c c' : Connection) : Prop where
  before : c.control.result? = none
  verdict : c'.control.verdict? = some r
  reader : c'.reader = c.reader ∨ c'.reader = .idle
  inbound : c'.inbound? = c.inbound? ∨
    c'.control.result? = some r ∧ c'.inbound? = c.inbound?.map Pipe.close

theorem Concludes.unread {r : Except ExchangeError Unit} (h : c.Concludes r c') :
    c'.unread = c.unread := by
  obtain hsame | ⟨-, hclosed⟩ := h.inbound
  · exact unread_of_inbound? hsame
  · rw [unread_eq, unread_eq, hclosed]
    cases c.inbound? <;> rfl

theorem concludes_leave (x : Surroundings) (now : Nat) (e : Exit) (hc : c.control.result? = none) :
    c.Concludes e.result (c.leave x now e) := by
  obtain ⟨stream, hs, ⟨s, deadline, heq⟩ | heq⟩ := c.leave_cases x now e <;> rw [heq]
  · exact ⟨hc, rfl, .inl rfl, .inl hs⟩
  · exact ⟨hc, rfl, .inr rfl, .inl hs⟩

theorem Controls.concludes (h : Controls x now i c i' c') {r : Except ExchangeError Unit}
    (hv : c.control.verdict? = some r) : i' = i ∧ c.Concludes r c' := by
  have hearly : ¬c.phase.rank < Phase.active.rank := by
    rw [phase]
    cases hc : c.control with rw [hc] at hv
    | parting | stopping | finished => simp [Control.phase, Phase.rank]
    | _ => cases hv
  cases h with
  | opening mine hc | introduction folders hc hr | offer mine hc | notice hc hr hi | agreement hc
    | failure e hs hc | announced hc | attention hc ht => rw [hc] at hv; cases hv
  | deferral hrank hi | surrender e hs hrank => exact absurd hrank hearly
  | @writing stream control hs hcontinues =>
    generalize hbefore : c.control = before at hcontinues hv
    cases hcontinues with
    | parting r' deadline s s' => exact ⟨rfl, by rw [hbefore]; rfl, hv, .inl rfl, .inl hs⟩
    | _ => cases hv
  | parted hs hc =>
    rw [hc] at hv
    exact ⟨rfl, by rw [hc]; rfl, hv, .inr rfl, .inl hs⟩
  | @finish r' hc =>
    rw [hc] at hv
    cases hv
    refine ⟨rfl, by rw [hc]; rfl, rfl, .inl rfl, .inr ⟨rfl, ?_⟩⟩
    rw [inbound?, inbound?, Connection.finish]
    cases c.stream <;> rfl

theorem Controls.of_serving (h : Controls x now i c i' c') {info : ClusterInfo}
    (hc : c.control = .serving info) : i' = i ∧ ∃ t c₁, c.TakesUp t c₁ ∧ Treats x now c₁ t c' := by
  have hearly : ¬c.phase.rank < Phase.active.rank := by simp [phase, hc, Control.phase]
  cases h with
  | @attention info t c₁ hc' ht => exact ⟨rfl, t, c₁, takesUp_of_topic? ht, treats x now info t c₁⟩
  | deferral hrank hi | surrender e hs hrank => exact absurd hrank hearly
  | writing hs hcontinues => rw [hc] at hcontinues; cases hcontinues
  | opening mine hc' | introduction folders hc' hr | offer mine hc' | notice hc' hr hi
    | agreement hc' | failure e hs hc' | announced hc' | parted hs hc' | finish hc' =>
    cases hc.symm.trans hc'

theorem isAbandoned_leave (x : Surroundings) (now : Nat) (e : Exit) (c : Connection) :
    (c.leave x now e).isAbandoned = c.isAbandoned := by
  obtain ⟨stream, -, ⟨s, deadline, heq⟩ | heq⟩ := c.leave_cases x now e <;> rw [heq] <;> rfl

theorem Controls.isAbandoned_eq (h : Controls x now i c i' c') : c'.isAbandoned = c.isAbandoned := by
  cases h with
  | failure e hs hc => exact isAbandoned_leave x now _ _
  | @attention info t c₁ hc ht =>
    have htakes : c₁.isAbandoned = c.isAbandoned := by
      cases takesUp_of_topic? ht <;> rfl
    rw [← htakes]
    have htreats := treats x now info t c₁
    generalize c₁.treat x now info t = c' at htreats
    cases htreats with
    | close | unknown | exit => exact isAbandoned_leave x now _ _
    | _ => rfl
  | _ => rfl

theorem isAbandoned_stepReader (h : c.stepReader i = some (i', c')) :
    c'.isAbandoned = c.isAbandoned := by
  obtain ⟨_, _, _, _, rfl⟩ := stepReader_rest h
  rfl

def agenda (c : Connection) : Nat :=
  c.deferred.length + c.reports.length + c.inbox.submissions.length

theorem CarriesOn.agenda_eq (h : c.CarriesOn c') : c'.agenda = c.agenda := by
  rw [agenda, agenda, h.deferred, h.reports, h.inbox]

theorem IsUndisturbed.attention (h : c.IsUndisturbed) {t : Topic} {c₁ : Connection}
    (hc : c.control.result? = none) (ht : c.TakesUp t c₁) (ht' : Treats x now c₁ t c') :
    (c'.IsUndisturbed ∧ c.Abides c' ∧ c'.agenda < c.agenda) ∨
      ∃ r rest, c.ended = r :: rest ∧ c.Concludes r c' := by
  have hexit : ∀ {rest} (e : Exit), c.Concludes e.result
      (leave x now e { c with ended := rest }) := by
    intro rest e
    have h := concludes_leave x now e (c := { c with ended := rest }) hc
    exact ⟨h.before, h.verdict, h.reader, h.inbound⟩
  have hcarries : c₁.IsUndisturbed → c.Abides c₁ → c₁.agenda < c.agenda → c₁.CarriesOn c' →
      c'.IsUndisturbed ∧ c.Abides c' ∧ c'.agenda < c.agenda :=
    fun hu ha hlt hc => ⟨hu.carriesOn hc, ha.trans hc.toAbides, hc.agenda_eq ▸ hlt⟩
  cases ht with
  | @deferred s rest hd =>
    have hclosing := fun s hs => h.closing s (hd ▸ hs)
    have hs := ht'.carriesOn_submission (hclosing s List.mem_cons_self)
    refine .inl (hcarries ⟨?_, h.responses, h.held, h.timer⟩ ⟨rfl, rfl, rfl, rfl, .inl rfl⟩ ?_ hs)
    · exact fun s' hs' => hclosing s' (List.mem_cons_of_mem _ hs')
    · simp [agenda, hd]
  | @inbox s rest hd hr hi =>
    have hinbox := Inbox.submissions_of_take? hi
    have hclosing := fun s hs => h.closing s (hinbox ▸ List.mem_append_right _ hs)
    have hs := ht'.carriesOn_submission (hclosing s List.mem_cons_self)
    refine .inl (hcarries ⟨?_, h.responses, h.held, h.timer⟩ ⟨rfl, rfl, rfl, rfl, .inl rfl⟩ ?_ hs)
    · intro s' hs'
      exact hclosing s' (List.mem_cons_of_mem _ (by rwa [hd] at hs'))
    · simp [agenda, hinbox]
  | @report r rest hd hr =>
    have hresponses := h.responses
    rw [Connection.responses, hr, List.filterMap_cons] at hresponses
    have hnone : r.response? = none := by
      cases hresponse : r.response? with
      | none => rfl
      | some answer => rw [hresponse] at hresponses; cases hresponses
    rw [hnone] at hresponses
    have hs := ht'.carriesOn_report hnone
    refine .inl (hcarries ⟨h.closing, hresponses, h.held, h.timer⟩ ⟨rfl, rfl, rfl, rfl, .inl rfl⟩ ?_ hs)
    simp [agenda, hr]
  | abandonment ha => exact absurd ha (by simp [h.held])
  | @peerClosed rest he =>
    cases ht' with
    | exit => exact .inr ⟨_, rest, he, hexit .peerClosed⟩
    | settling ht hp => cases ht
  | @failed e rest he =>
    cases ht' with
    | exit => exact .inr ⟨_, rest, he, hexit (.failed e)⟩
    | settling ht hp => cases ht

end Connection

end BlockExchange
