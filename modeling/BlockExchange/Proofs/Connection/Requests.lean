import BlockExchange.Proofs.Connection.Responses
import BlockExchange.Proofs.Connection.Topics
/-!
Requests and their outcomes. An `Account` of a run remembers what has been submitted, what the control
has taken up, and what the callers have been told; a connection goes by it all the way
(`Account.Fits`). Each request is answered once, by the response of its number or by what has kept it
from one (`Course.requests_answered_once`).
-/

namespace BlockExchange

open Submission (requests)

namespace Account

def outcomes (a : Account) (c : Connection) : List (Nat × Except ExchangeError BlockResponse) :=
  Outcome.responses (a.told ++ c.outcomes)

structure Fits (a : Account) (c : Connection) : Prop where
  calls : (requests a.submitted).Perm ((a.outcomes c).map (·.1) ++ c.underWay)
  queue : c.control.result? = none → requests a.submitted =
    Topic.requests a.topics ++ (requests c.deferred ++ requests c.inbox.submissions)
  taken : Topic.requests a.topics <+: requests a.submitted
  nextId : c.nextId = Int32.ofNat (Topic.requests a.topics).length
  distinct : (c.pending.map (·.1)).Nodup
  pending : ∀ id call, (id, call) ∈ c.pending ↔
    c.control.result? = none ∧ Topic.IsAwaited a.topics id call
  settled : ∀ call r, Topic.IsSettled a.topics call r → (call, r) ∈ a.outcomes c
  outcomes : ∀ call r, (call, r) ∈ a.outcomes c → Topic.IsSettled a.topics call r ∨
    c.control.result? ≠ none ∧ (r = .error .cancelled ∨ r = .error .closed)
  finished : c.control.result? ≠ none → c.underWay = []
  violated : ∀ before t after, a.topics = before ++ t :: after →
    ∀ r, t = .report (.response r) → (∀ call, ¬Topic.IsAwaited before r.id call) →
      after = [] ∧ c.control.verdict? = some (.error (.violation (.unknownResponse r.id)))

/-- So few requests that their numbers do not come round. -/
def IsSmall (a : Account) : Prop := (requests a.submitted).length < 2 ^ 32

instance (a : Account) : Decidable a.IsSmall := inferInstanceAs (Decidable (_ < _))

variable {a : Account} {c c' : Connection} {x : Surroundings} {now : Nat}

theorem fits_nil (hcontrol : c.control = .dialing) (hnext : c.nextId = 0)
    (hoc : c.outcomes = []) (hpending : c.pending = []) (hdeferred : c.deferred = [])
    (hinbox : c.inbox = .empty) : Fits {} c where
  calls := by
    simp [Account.outcomes, Connection.underWay, hoc, hpending, hdeferred, hinbox,
      Outcome.responses, Inbox.submissions, Inbox.accepted, Inbox.refused]
  queue _ := by simp [hdeferred, hinbox, Inbox.submissions, Inbox.accepted, Inbox.refused]
  taken := List.prefix_rfl
  nextId := hnext
  distinct := by simp [hpending]
  pending id call := by
    rw [hpending]
    exact iff_of_false List.not_mem_nil fun h => Topic.not_isAwaited_nil h.2
  settled call r h := absurd h Topic.not_isSettled_nil
  outcomes call r h := by
    rw [Account.outcomes, hoc] at h
    cases h
  finished h := absurd (by rw [hcontrol]; rfl) h
  violated before t after heq := by
    cases before <;> cases heq

theorem perm_calls {a : Account} (h : c'.requests.Perm c.requests) :
    ((a.outcomes c').map (·.1) ++ c'.underWay).Perm ((a.outcomes c).map (·.1) ++ c.underWay) := by
  rw [Account.outcomes, Account.outcomes, Outcome.responses_append, Outcome.responses_append,
    List.map_append, List.map_append, List.append_assoc, List.append_assoc]
  exact h.append_left _

theorem outcomes_of_sameRequests (h : c.SameRequests c') (a : Account) :
    a.outcomes c' = a.outcomes c := by
  rw [Account.outcomes, Account.outcomes, Outcome.responses_append, Outcome.responses_append,
    h.responses]

theorem Fits.same (h : a.Fits c) (hs : c.SameRequests c')
    (hresult : c'.control.result? = none ↔ c.control.result? = none)
    (hverdict : ∀ r, c.control.verdict? = some r → c'.control.verdict? = some r) : a.Fits c' where
  calls := by
    rw [outcomes_of_sameRequests hs, Connection.underWay, hs.pending, hs.deferred, hs.inbox]
    exact h.calls
  queue hc' := by
    rw [hs.deferred, hs.inbox]
    exact h.queue (hresult.mp hc')
  taken := h.taken
  nextId := hs.nextId.trans h.nextId
  distinct := hs.pending ▸ h.distinct
  pending id call := by
    rw [hs.pending, hresult]
    exact h.pending id call
  settled call r hr := by
    rw [outcomes_of_sameRequests hs]
    exact h.settled call r hr
  outcomes call r hmem := by
    rw [outcomes_of_sameRequests hs] at hmem
    exact (h.outcomes call r hmem).imp_right (And.imp_left (mt hresult.mp))
  finished hc' := by
    rw [Connection.underWay, hs.pending, hs.deferred, hs.inbox]
    exact h.finished (mt hresult.mpr hc')
  violated before t after heq r ht hnot := by
    obtain ⟨hafter, hv⟩ := h.violated before t after heq r ht hnot
    exact ⟨hafter, hverdict _ hv⟩

theorem Fits.deferral (h : a.Fits c) {s : Submission} {inbox : Inbox}
    (hi : c.inbox.take? = some (s, inbox)) :
    a.Fits { c with inbox, deferred := c.deferred ++ [s] } := by
  have hqueue : requests (c.deferred ++ [s]) ++ requests inbox.submissions =
      requests c.deferred ++ requests c.inbox.submissions := by
    rw [Inbox.submissions_of_take? hi, Submission.requests_concat, Submission.requests_cons,
      List.append_assoc]
  have hunderWay : Connection.underWay { c with inbox, deferred := c.deferred ++ [s] } =
      c.underWay := by
    rw [Connection.underWay, Connection.underWay, List.append_assoc, hqueue, List.append_assoc]
  exact {
    calls := hunderWay ▸ h.calls
    queue := fun hc => hqueue ▸ h.queue hc
    taken := h.taken
    nextId := h.nextId
    distinct := h.distinct
    pending := h.pending
    settled := h.settled
    outcomes := h.outcomes
    finished := fun hc => hunderWay ▸ h.finished hc
    violated := h.violated }

theorem Fits.length_lt (h : a.Fits c) (hsmall : a.IsSmall) :
    (Topic.requests a.topics).length < 2 ^ 32 :=
  Nat.lt_of_le_of_lt h.taken.length_le hsmall

theorem Fits.call_unique (h : a.Fits c) (hsmall : a.IsSmall) {earlier later : List Topic} {t : Topic}
    (heq : a.topics = earlier ++ t :: later) {id : Int32} {call call' : Nat}
    (hcall : Topic.IsAwaited earlier id call) (hcall' : Topic.IsAwaited earlier id call') :
    call = call' := by
  refine hcall.call_unique ?_ hcall'
  have hlength := h.length_lt hsmall
  rw [heq, Topic.requests, List.filterMap_append, List.length_append] at hlength
  exact Nat.le_of_lt (Nat.lt_of_le_of_lt (Nat.le_add_right _ _) hlength)

theorem Fits.exists_report (h : a.Fits c) {call : Nat} {r : BlockResponse}
    (hmem : (call, .ok r) ∈ a.outcomes c) : ∃ earlier later,
      a.topics = earlier ++ .report (.response r) :: later ∧ Topic.IsAwaited earlier r.id call := by
  obtain ⟨earlier, t, later, heq, id, ht, hawaited⟩ | ⟨-, herror⟩ := h.outcomes call _ hmem
  · cases t with
    | report report =>
      cases report <;> cases ht
      exact ⟨earlier, later, heq, hawaited⟩
    | _ => cases ht
  · rcases herror with herror | herror <;> cases herror

theorem Fits.perm_outcomes (h : a.Fits c) (hclosed : c.phase = .closed) :
    ((a.outcomes c).map (·.1)).Perm (requests a.submitted) := by
  have hover : c.control.result? ≠ none := by
    cases hc : c.control with
    | finished r => exact Option.some_ne_none r
    | _ => rw [Connection.phase, hc] at hclosed; cases hclosed
  have hcalls := h.calls
  rw [h.finished hover, List.append_nil] at hcalls
  exact hcalls.symm

theorem Fits.attention (h : a.Fits c) (hsmall : a.IsSmall) {info : ClusterInfo} {t : Topic}
    {c₁ : Connection} (hc : c.control = .serving info) (ht : c.TakesUp t c₁)
    (hc' : Connection.Treats x now c₁ t c') :
    Fits { a with topics := a.topics ++ [t] } c' := by
  obtain ⟨hpending₁, hnext₁, hcontrol₁, houtcomes₁⟩ := ht.frame
  have hresult : c.control.result? = none := by rw [hc]; rfl
  have hresult' : c'.control.result? = none :=
    hc'.result?_eq_none ((congrArg Control.result? hcontrol₁).trans hresult)
  have hd₁ : (c₁.pending.map (·.1)).Nodup := hpending₁ ▸ h.distinct
  have hqueue' : requests a.submitted = Topic.requests (a.topics ++ [t]) ++
      (requests c'.deferred ++ requests c'.inbox.submissions) := by
    rw [h.queue hresult, ht.queue, hc'.queue.1, hc'.queue.2, Topic.requests_concat,
      List.append_assoc]
  -- What waits is what the topics leave waiting.
  have hawaited : ∀ id call, (id, call) ∈ c₁.pending ↔ Topic.IsAwaited a.topics id call := by
    intro id call
    rw [hpending₁, h.pending id call]
    exact and_iff_right hresult
  have hresponses : ∀ call r, (call, r) ∈ Account.outcomes { a with topics := a.topics ++ [t] } c' ↔
      (call, r) ∈ a.outcomes c ∨
        ∃ id, t.settling? = some (id, r) ∧ Topic.IsAwaited a.topics id call := by
    intro call r
    rw [Account.outcomes, Account.outcomes, Outcome.responses_append, Outcome.responses_append,
      List.mem_append, List.mem_append, hc'.mem_responses hd₁, houtcomes₁, or_assoc]
    simp only [hawaited]
  exact {
    calls := h.calls.trans (perm_calls (hc'.perm_requests.trans ht.perm_requests)).symm
    queue := fun _ => hqueue'
    taken := ⟨_, hqueue'.symm⟩
    nextId := by
      rw [hc'.nextId_eq, hnext₁, h.nextId, Topic.requests_concat, List.length_append,
        Int32.ofNat_add]
    distinct := by
      refine hc'.nodup_pending hd₁ fun call hmem => ?_
      rw [hawaited, hnext₁, h.nextId] at hmem
      exact Topic.not_isAwaited_next (h.length_lt hsmall) hmem
    pending := by
      intro id call
      rw [hc'.mem_pending hd₁, hawaited, hnext₁, h.nextId, Topic.isAwaited_concat]
      exact (and_iff_right hresult').symm
    settled := by
      intro call r hr
      rw [Topic.isSettled_concat] at hr
      exact (hresponses call r).mpr (hr.imp_left (h.settled call r))
    outcomes := by
      intro call r hmem
      rw [Topic.isSettled_concat]
      rcases (hresponses call r).mp hmem with hold | hnew
      · exact .inl (.inl ((h.outcomes call r hold).resolve_right fun hover => hover.1 hresult))
      · exact .inl (.inr hnew)
    finished := fun hover => absurd hresult' hover
    violated := by
      intro before t' after heq r ht' hnot
      obtain ⟨_, _, rest, heq', rfl, rfl, rfl⟩ | ⟨rfl, rfl, rfl⟩ := exists_split_concat
        (p := fun front b back => front = before ∧ b = t' ∧ back = after) |>.mp
          ⟨before, t', after, heq, rfl, rfl, rfl⟩
      · -- Once the end has been decided on, nothing is taken up.
        obtain ⟨-, hverdict⟩ := h.violated _ _ rest heq' r ht' hnot
        rw [hc] at hverdict
        cases hverdict
      · subst ht'
        exact ⟨rfl, hc'.verdict_unknown fun call hmem => hnot call ((hawaited _ call).mp hmem)⟩ }

theorem Fits.finish (h : a.Fits c) {r : Except ExchangeError Unit} (hc : c.control = .stopping r) :
    a.Fits (c.finish r) := by
  have hresult : c.control.result? = none := by rw [hc]; rfl
  have hover : (c.finish r).control.result? ≠ none := nofun
  have hout : a.outcomes (c.finish r) = a.outcomes c ++ Outcome.responses c.leftovers := by
    rw [Account.outcomes, Account.outcomes, Outcome.responses_append, Outcome.responses_append,
      Connection.responses_finish, List.append_assoc]
  exact {
    calls := h.calls.trans (perm_calls (c.perm_requests_finish r)).symm
    queue := fun hnone => absurd hnone hover
    taken := h.taken
    nextId := h.nextId
    distinct := List.nodup_nil
    pending := fun id call => iff_of_false nofun fun hawaited => hover hawaited.1
    settled := fun call r' hr => hout ▸ List.mem_append_left _ (h.settled call r' hr)
    outcomes := by
      intro call r' hmem
      rw [hout] at hmem
      rcases List.mem_append.mp hmem with hold | hleft
      · exact .inl ((h.outcomes call r' hold).resolve_right fun hno => hno.1 hresult)
      · refine .inr ⟨hover, ?_⟩
        rw [Connection.responses_leftovers] at hleft
        rcases List.mem_append.mp hleft with hleft | hleft <;>
          obtain ⟨_, -, heq⟩ := List.mem_map.mp hleft <;> cases heq
        · exact .inl rfl
        · exact .inr rfl
    finished := fun _ => rfl
    violated := by
      intro before t after heq r' ht hnot
      obtain ⟨hafter, hv⟩ := h.violated before t after heq r' ht hnot
      rw [hc] at hv
      exact ⟨hafter, hv⟩ }

theorem Fits.controls (h : a.Fits c) (hsmall : a.IsSmall) {i i' : Index}
    (hcontrols : Connection.Controls x now i c i' c') :
    Fits { a with topics := a.topics ++ c.takenUp?.toList } c' := by
  have hnone : a.topics ++ (none : Option Topic).toList = a.topics := List.append_nil _
  have hdisposes := hcontrols.disposes
  generalize c.takenUp? = t at hdisposes
  cases hdisposes with
  | same hsame hc hc' hv =>
    rw [hnone]
    exact h.same hsame (by rw [hc, hc']) hv
  | deferral hc hi =>
    rw [hnone]
    exact h.deferral hi
  | attention hc ht => exact h.attention hsmall hc ht (Connection.treats x now _ _ _)
  | finish hc =>
    rw [hnone]
    exact h.finish hc

theorem Fits.lineUp (h : a.Fits c) (s : Submission) (hresult : c.control.result? = none)
    {calls closers : List Nat} :
    Fits { a with submitted := a.submitted ++ [s] }
      { c with calls, closers, inbox := c.inbox.enter s } where
  calls := by
    have hunderWay : Connection.underWay { c with calls, closers, inbox := c.inbox.enter s } =
        c.underWay ++ s.request?.toList := by
      rw [Connection.underWay, Connection.underWay, Inbox.submissions_enter,
        Submission.requests_concat, ← List.append_assoc]
    rw [Submission.requests_concat, hunderWay, ← List.append_assoc]
    exact h.calls.append_right _
  queue _ := by
    rw [Submission.requests_concat, h.queue hresult, Inbox.submissions_enter,
      Submission.requests_concat]
    simp only [List.append_assoc]
  taken := Submission.requests_concat _ _ ▸ h.taken.trans (List.prefix_append _ _)
  nextId := h.nextId
  distinct := h.distinct
  pending := h.pending
  settled := h.settled
  outcomes := h.outcomes
  finished hover := absurd hresult hover
  violated := h.violated

theorem Fits.refuse (h : a.Fits c) (call : Nat) (action : Action) (hover : c.control.result? ≠ none)
    {calls : List Nat} :
    Fits { a with submitted := a.submitted ++ [⟨call, action⟩] }
      (Connection.reply call (action.failed .closed) { c with calls }) := by
  have hout : Account.outcomes { a with submitted := a.submitted ++ [⟨call, action⟩] }
      (Connection.reply call (action.failed .closed) { c with calls }) = a.outcomes c ++
        (Submission.request? ⟨call, action⟩).toList.map fun call => (call, .error .closed) := by
    rw [Account.outcomes, Account.outcomes, Outcome.responses_append, Outcome.responses_append,
      Connection.responses_reply, List.append_assoc]
    cases action <;> rfl
  exact {
    calls := by
      have hnone : c.underWay = [] := h.finished hover
      have hunderWay : Connection.underWay
          (Connection.reply call (action.failed .closed) { c with calls }) = [] := hnone
      have hcalls := h.calls
      rw [hnone, List.append_nil] at hcalls
      rw [Submission.requests_concat, hout, hunderWay, List.append_nil, List.map_append, List.map_map]
      exact hcalls.append (.of_eq (List.map_id _).symm)
    queue := fun hnone => absurd hnone hover
    taken := Submission.requests_concat _ _ ▸ h.taken.trans (List.prefix_append _ _)
    nextId := h.nextId
    distinct := h.distinct
    pending := h.pending
    settled := fun call' r' hr => hout ▸ List.mem_append_left _ (h.settled call' r' hr)
    outcomes := by
      intro call' r' hmem
      rw [hout] at hmem
      rcases List.mem_append.mp hmem with hold | hnew
      · exact h.outcomes call' r' hold
      · obtain ⟨_, -, hpair⟩ := List.mem_map.mp hnew
        cases hpair
        exact .inr ⟨hover, .inr rfl⟩
    finished := h.finished
    violated := h.violated }

theorem Fits.submit (h : a.Fits c) (call : Nat) (action : Action) :
    Fits { a with submitted := a.submitted ++ [⟨call, action⟩] } (c.submit call action) := by
  obtain ⟨⟨r, hc⟩, heq⟩ | ⟨hresult, closers, heq⟩ := c.submit_cases call action <;> rw [heq]
  · exact h.refuse call action (by rw [hc]; nofun)
  · exact h.lineUp ⟨call, action⟩ hresult

theorem Fits.telling (h : a.Fits c) :
    Fits { a with told := a.told ++ c.answers } { c with answers := [] } := by
  have hout : Account.outcomes { a with told := a.told ++ c.answers } { c with answers := [] } =
      a.outcomes c := by
    rw [Account.outcomes, Account.outcomes, Connection.outcomes, Connection.outcomes,
      List.nil_append, List.append_assoc]
  exact {
    calls := hout ▸ h.calls
    queue := h.queue
    taken := h.taken
    nextId := h.nextId
    distinct := h.distinct
    pending := h.pending
    settled := hout ▸ h.settled
    outcomes := hout ▸ h.outcomes
    finished := h.finished
    violated := h.violated }

theorem isPrefix_requests_note (c : Connection) (a : Account) (m : Move) :
    requests a.submitted <+: requests (a.note c m).submitted := by
  have hsame : ∀ {a' : Account}, a'.submitted = a.submitted →
      requests a.submitted <+: requests a'.submitted := fun h => h ▸ List.prefix_rfl
  cases m with
  | incident e =>
    cases e with
    | submit call action =>
      exact (Submission.requests_append a.submitted _) ▸ List.prefix_append _ _
    | _ => exact hsame rfl
  | party p =>
    cases p with
    | agent a => cases a <;> exact hsame rfl
    | _ => exact hsame rfl
  | _ => exact hsame rfl

theorem IsSmall.of_note {m : Move} (h : (a.note c m).IsSmall) : a.IsSmall :=
  Nat.lt_of_le_of_lt (isPrefix_requests_note c a m).length_le h

end Account

namespace Connection

variable {c c' : Connection} {x : Surroundings} {now : Nat} {i i' : Index}

theorem sameRequests_step {a : Agent} (ha : a ≠ .control) (hd : a ≠ .deferral)
    (h : c.step x now a i = some (i', c')) : c.SameRequests c' := by
  cases acts_of_step h with
  | control => exact absurd rfl ha
  | deferral => exact absurd rfl hd
  | reader hstep => exact sameRequests_stepReader hstep
  | keepAlive hstep => exact (keepsAlive_of_step hstep).sameRequests
  | worker hstep => exact (works_of_step hstep).sameRequests
  | submitter hstep => exact (calls_of_submitter hstep).sameRequests
  | caller hstep => exact (calls_of_caller hstep).sameRequests

end Connection

namespace Course

variable {x : Surroundings} {c : Course} {a : Account}

theorem isSmall_of_account {moves : List Move} (h : (account x moves c a).IsSmall) : a.IsSmall := by
  induction moves generalizing c a with
  | nil => exact h
  | cons m rest ih => exact (ih h).of_note

theorem fits_control {c₁ : Course} (h : a.Fits c.session.connection) (hsmall : a.IsSmall)
    (hturn : c.TakesTurn x (.agent .control) c₁) :
    (a.note c.session.connection (.party (.agent .control))).Fits c₁.session.connection := by
  rw [Account.note]
  cases hturn with
  | waiting hwaits =>
    rw [Connection.takenUp?_of_waiting (Option.map_eq_none_iff.mp hwaits)]
    exact (List.append_nil a.topics).symm ▸ h
  | peer hp => exact absurd rfl (hp _)
  | agent hagent => exact h.controls hsmall (Connection.controls_of_step hagent)

theorem fits_agent {agent : Agent} (h : a.Fits c.session.connection) (hsmall : a.IsSmall)
    (ha : agent ≠ .control) {i : Index} {c' : Connection}
    (hstep : c.session.connection.step x c.now agent c.index = some (i, c')) : a.Fits c' := by
  by_cases hd : agent = .deferral
  · subst hd
    cases Connection.acts_of_step hstep with
    | deferral hdeferral =>
      have hcontrols : Connection.Controls x c.now c.index c.session.connection c.index c' :=
        Connection.controls_of_deferral hdeferral
      have hfits := h.controls hsmall hcontrols
      rwa [Connection.takenUp?_of_deferral hdeferral, Option.toList_none, List.append_nil] at hfits
  · have hcontrol := Connection.control_step ha hd hstep
    exact h.same (Connection.sameRequests_step ha hd hstep) (by rw [hcontrol]) fun _ hv => hcontrol ▸ hv

theorem fits_move (h : a.Fits c.session.connection) (hsmall : a.IsSmall) (m : Move) :
    (a.note c.session.connection m).Fits (c.move x m).session.connection := by
  have hsame : ∀ {c' : Connection}, c.session.connection.SameRequests c' →
      c'.control = c.session.connection.control → a.Fits c' :=
    fun hs hc => h.same hs (by rw [hc]) fun _ hv => hc ▸ hv
  cases m with
  | party p =>
    have hturn := c.takesTurn_move x p
    generalize c.move x (.party p) = c₁ at hturn ⊢
    by_cases hp : p = .agent .control
    · subst hp
      exact fits_control h hsmall hturn
    · rw [Account.note_party hp]
      cases hturn with
      | waiting => exact h
      | agent hagent => exact fits_agent h hsmall (fun ha => hp (congrArg Party.agent ha)) hagent
      | peer _ hpeer =>
        obtain ⟨_, _, rfl⟩ := hpeer.rest
        exact hsame ⟨rfl, rfl, rfl, rfl, rfl⟩ rfl
  | incident e =>
    cases e with
    | submit call action => exact h.submit call action
    | release => exact hsame ⟨rfl, rfl, rfl, rfl, rfl⟩ rfl
    | peer d =>
      change a.Fits (c.session.undergo (.peer d)).connection
      rw [Session.undergo]
      cases hstep : c.session.stepPeer fun peer stream => some (peer.act d stream) with
      | none => exact h
      | some s' =>
        obtain ⟨_, _, _, _, _, rfl⟩ := Session.stepPeer_eq_some hstep
        exact hsame ⟨rfl, rfl, rfl, rfl, rfl⟩ rfl
  | telling => exact h.telling
  | peer p => exact h
  | elsewhere i => exact h
  | time now => exact h

theorem fits_run {moves : List Move} (h : a.Fits c.session.connection)
    (hsmall : (account x moves c a).IsSmall) :
    (account x moves c a).Fits (c.run x moves).session.connection := by
  induction moves generalizing c a with
  | nil => exact h
  | cons m rest ih =>
    have hnote : (a.note c.session.connection m).IsSmall := isSmall_of_account hsmall
    exact ih (fits_move h hnote.of_note m) hsmall

theorem fits_starting (device : DeviceId) (address : String) (found : Option (Stream × Peer))
    (i : Index) (now : Nat) :
    Account.Fits {} (starting (.dialed device address found) i now).session.connection :=
  Account.fits_nil rfl rfl rfl rfl rfl rfl

theorem control_takes_request (h : a.Fits c.session.connection) {call : Nat} {r : BlockRequest}
    (ht : c.session.connection.takenUp? = some (.submission ⟨call, .request r⟩)) :
    let id := Int32.ofNat (Topic.requests a.topics).length
    let after := (c.move x (.party (.agent .control))).session.connection
    after.pending = c.session.connection.pending ++ [(id, call)] ∧
      after.workers = c.session.connection.workers ++
        [⟨c.session.connection.nextTicket, .request id, .ofMessage (.request { r with id })⟩] := by
  intro id after
  have hnext : id = c.session.connection.nextId := h.nextId.symm
  cases hc : c.session.connection.control with
  | serving info =>
    rw [Connection.takenUp?, hc] at ht
    obtain ⟨⟨t, c₁⟩, htopic, rfl⟩ := Option.map_eq_some_iff.mp ht
    have hstep : c.session.connection.stepControl x c.now c.index =
        some (c.index, c₁.treat x c.now info (.submission ⟨call, .request r⟩)) := by
      simp only [Connection.stepControl, hc, Connection.attend_eq, htopic, Option.map_some]
    have hafter : after = c₁.treat x c.now info (.submission ⟨call, .request r⟩) :=
      congrArg (·.session.connection) (move_control hstep)
    rw [hafter, hnext]
    cases Connection.takesUp_of_topic? htopic <;> exact ⟨rfl, rfl⟩
  | _ =>
    rw [Connection.takenUp?, hc] at ht
    cases ht

theorem control_finishes {r : Except ExchangeError Unit}
    (hc : c.session.connection.control = .stopping r) :
    let open' := c.session.connection.pending.map (·.2) ++ requests c.session.connection.deferred ++
      requests c.session.connection.inbox.accepted
    let after := (c.move x (.party (.agent .control))).session.connection
    after.control = .finished r ∧ a.outcomes after = a.outcomes c.session.connection ++
      (open'.map (fun call => (call, .error .cancelled)) ++
        (requests c.session.connection.inbox.refused).map fun call => (call, .error .closed)) := by
  intro open' after
  have hafter : after = c.session.connection.finish r :=
    congrArg (·.session.connection) (move_finish hc)
  rw [hafter, ← Connection.responses_leftovers]
  refine ⟨rfl, ?_⟩
  rw [Account.outcomes, Account.outcomes, Outcome.responses_append, Outcome.responses_append,
    Connection.responses_finish, List.append_assoc]

/-- Each request of a run has at most one outcome, and exactly one once the connection is closed. It
is the response of its number that the peer has sent and that comes up while the request waits for it,
or the failure to write it that comes up then, or it comes with the end of the connection. -/
theorem requests_answered_once (x : Surroundings) (device : DeviceId) (address : String)
    (found : Option (Stream × Peer)) (i : Index) (now : Nat) (moves : List Move) :
    let start := starting (.dialed device address found) i now
    let c := start.run x moves
    let a := account x moves start {}
    let before := c.session.connection
    let after := (c.move x (.party (.agent .control))).session.connection
    (requests a.submitted).Nodup → a.IsSmall →
    -- Requests are taken up in line, and numbered in this order.
    (Topic.requests a.topics <+: requests a.submitted ∧
      ∀ call r, before.takenUp? = some (.submission ⟨call, .request r⟩) →
        let id := Int32.ofNat (Topic.requests a.topics).length
        after.pending = before.pending ++ [(id, call)] ∧ after.workers = before.workers ++
          [⟨before.nextTicket, .request id, .ofMessage (.request { r with id })⟩]) ∧
    -- A response is one of the peer's, of the number of a request that waits.
    (HasAnswered c.heard (a.topics.filterMap Topic.response?) ∧
      ∀ call r, (call, .ok r) ∈ a.outcomes before → ∃ earlier later,
        a.topics = earlier ++ .report (.response r) :: later ∧
          Topic.IsAwaited earlier r.id call) ∧
    (∀ earlier t later, a.topics = earlier ++ t :: later → ∀ id call call',
      Topic.IsAwaited earlier id call → Topic.IsAwaited earlier id call' → call = call') ∧
    (∀ earlier id cause later, a.topics = earlier ++ .report (.unsent id cause) :: later →
      ∀ call, Topic.IsAwaited earlier id call → (call, .error cause) ∈ a.outcomes before) ∧
    -- What is open at the end.
    (∀ r, before.control = .stopping r →
      let open' := before.pending.map (·.2) ++ requests before.deferred ++
        requests before.inbox.accepted
      after.control = .finished r ∧ a.outcomes after = a.outcomes before ++
        (open'.map (fun call => (call, .error .cancelled)) ++
          (requests before.inbox.refused).map fun call => (call, .error .closed))) ∧
    ((a.outcomes before).map (·.1)).Nodup ∧
    (before.phase = .closed → ((a.outcomes before).map (·.1)).Perm (requests a.submitted)) ∧
    -- A response for which nobody waits is the last thing that comes up.
    (∀ earlier r later, a.topics = earlier ++ .report (.response r) :: later →
      (∀ call, ¬Topic.IsAwaited earlier r.id call) → later = [] ∧
        before.control.verdict? = some (.error (.violation (.unknownResponse r.id)))) ∧
    ∀ r, before.control.verdict? = some r →
      ∃ more, (c.run x more).session.connection.control = .finished r := by
  intro start c a before after hcalls hsmall
  have hfits : a.Fits before := fits_run (fits_starting device address found i now) hsmall
  have hhears : c.Hears a.topics := hears_run (hears_starting device address found i now)
    (sound_starting x device address found i now)
  have hnodup : ((a.outcomes before).map (·.1) ++ before.underWay).Nodup :=
    hfits.calls.nodup_iff.mp hcalls
  refine ⟨⟨hfits.taken, fun call r ht => control_takes_request hfits ht⟩,
    ⟨hhears.hasAnswered, fun call r hmem => hfits.exists_report hmem⟩, ?_, ?_,
    fun r hc => control_finishes hc, (List.nodup_append.mp hnodup).1, hfits.perm_outcomes, ?_, ?_⟩
  · exact fun earlier t later heq id call call' => hfits.call_unique hsmall heq
  · intro earlier id cause later heq call hawaited
    exact hfits.settled call _ ⟨earlier, _, later, heq, id, rfl, hawaited⟩
  · exact fun earlier r later heq hnot => hfits.violated earlier _ later heq r rfl hnot
  · intro r hv
    obtain ⟨now', n, -, hfinished⟩ := exists_finished (x := x) hv
    exact ⟨_, hfinished⟩

theorem requests_answered_once_by_peer :
    let x : Surroundings := {
      configuration := ⟨.ofCertificate [3], "here", []⟩, settings := {}, serve _ r := { id := r.id } }
    let answer : BlockResponse := { id := 0, data := [1, 2, 3] }
    let said := (Frame.encodeHello ⟨"there", "client", "1"⟩).toOption.getD [] ++
      [Message.clusterConfig [], .response answer].flatMap fun m => (Frame.encode m).toOption.getD []
    let control := List.replicate 6 (Move.party (.agent .control))
    let reader := List.replicate 4 (Move.party (.agent .reader))
    let moves := .incident (.submit 7 (.request { id := 0, folder := "photos", name := "a" })) ::
      .party (.agent .deferral) :: .party .peerWriting ::
        control ++ reader ++ control ++ reader ++ control ++ reader ++ control
    let found : Option (Stream × Peer) := some ({ certificate := [1, 2] }, { outgoing := said })
    let start := starting (.dialed (.ofCertificate [1, 2]) "there" found)
      { store := .memory (.fresh 5) } 0
    (requests (account x moves start {}).submitted).Nodup ∧ (account x moves start {}).IsSmall ∧
      (7, .ok answer) ∈ (account x moves start {}).outcomes (start.run x moves).session.connection ∧
      ∃ earlier later,
        (account x moves start {}).topics = earlier ++ .report (.response answer) :: later ∧
          Topic.IsAwaited earlier answer.id 7 := by
  intro x answer said control reader moves found start
  have hcalls : (requests (account x moves start {}).submitted).Nodup := by decide +kernel
  have hsmall : (account x moves start {}).IsSmall := by decide +kernel
  have hmem : (7, .ok answer) ∈
      (account x moves start {}).outcomes (start.run x moves).session.connection := by
    decide +kernel
  refine ⟨hcalls, hsmall, hmem, ?_⟩
  have hstart : start = starting (.dialed (.ofCertificate [1, 2]) "there" found)
    { store := .memory (.fresh 5) } 0 := rfl
  rw [hstart] at hcalls hsmall hmem ⊢
  exact (requests_answered_once x _ _ found _ 0 moves hcalls hsmall).2.1.2 7 answer hmem

/-- Of two requests that nobody has taken up the second has not got its place in the queue, and finds
the connection closed. And where the frame of a request could not be written, which has been reported,
the end may come before anybody takes the report up. -/
theorem waiting_closed_and_unsent_cancelled :
    let x : Surroundings := {
      configuration := ⟨.ofCertificate [3], "here", []⟩, settings := {}, serve _ r := { id := r.id } }
    let request : Action := .request { id := 0, folder := "photos", name := "a" }
    let said := (Frame.encodeHello ⟨"there", "client", "1"⟩).toOption.getD [] ++
      (Frame.encode (.clusterConfig [])).toOption.getD []
    let found : Option (Stream × Peer) := some ({ certificate := [1, 2] }, { outgoing := said })
    let agent (a : Agent) (n : Nat) : List Move := List.replicate n (.party (.agent a))
    let submit (call : Nat) (action : Action) : Move := .incident (.submit call action)
    let start (found : Option (Stream × Peer)) := starting (.dialed (.ofCertificate [1, 2]) "there" found)
      { store := .memory (.fresh 5) } 0
    let queueing := [submit 0 request, submit 1 request]
    let serving := .party .peerWriting :: agent .control 6 ++ agent .reader 4 ++ agent .control 6 ++
      agent .reader 4 ++ agent .control 6
    let failing := serving ++ submit 7 request :: agent .control 1 ++ submit 8 (.close "bye") ::
      agent .control 1 ++ .incident (.peer .leave) :: agent (.worker 0) 3
    let outcomes (start : Course) (moves : List Move) :=
      (account x moves start {}).outcomes (start.run x moves).session.connection
    let closes (start : Course) (moves : List Move) : Bool :=
      (start.run x moves).session.phase = .closed
    (((start none).run x queueing).session.connection.underWay = [0, 1] ∧
      closes (start none) (queueing ++ agent .control 2) ∧
      outcomes (start none) (queueing ++ agent .control 2) =
        [(0, .error .cancelled), (1, .error .closed)]) ∧
    (((start found).run x failing).session.connection.pending = [(0, 7)] ∧
      ((start found).run x failing).session.connection.reports = [.unsent 0 .broken] ∧
      closes (start found) (failing ++ agent .control 4) ∧
      outcomes (start found) (failing ++ agent .control 4) = [(7, .error .cancelled)]) := by
  decide +kernel

end Course

end BlockExchange
