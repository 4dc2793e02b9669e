import BlockExchange.Proofs.Connection.Progress

namespace BlockExchange

def Move.HangsUp : Move → Prop
  | incident (.peer d) => d.HangsUp
  | _ => False

namespace Course

variable {x : Surroundings} {c : Course} {s : Session} {info : ClusterInfo} {device : DeviceId}
  {start : Index} {closed : Prop}

structure LeavesAlone (x : Surroundings) (c : Course) (m : Move) : Prop where
  index : ∀ i, m ≠ .elsewhere i
  closing : ∀ call reason, m ≠ .incident (.submit call (.close reason))
  held : (c.move x m).session.connection.isAbandoned = false
  /-- While messages are read the keep-alive does not fail to write. -/
  written : m = .party (.agent .keepAlive) → c.session.connection.reader ≠ .idle →
    c.session.connection.keepAlive = .refused ∨
      (c.move x m).session.connection.ended = c.session.connection.ended

def IsLeftAlone (x : Surroundings) : List Move → Course → Prop
  | [], _ => True
  | m :: rest, c => c.LeavesAlone x m ∧ IsLeftAlone x rest (c.move x m)

structure Serves (info : ClusterInfo) (device : DeviceId) (start : Index) (closed : Prop) (c : Course) :
    Prop where
  messages : c.session.connection.Serves info device start closed c.heard c.index
  stream : c.session.connection.ClosesWith closed

theorem Serves.still (h : c.Serves info device start closed) {hangsUp : Prop} (hstill : ¬hangsUp) :
    c.Serves info device start (closed ∨ hangsUp) := by
  rwa [propext (or_iff_left hstill)]

theorem Serves.abides (h : c.Serves info device start closed)
    (ha : c.session.connection.Abides s.connection)
    (hu : c.session.connection.IsUndisturbed → s.connection.IsUndisturbed) :
    (c.proceed c.index s).Serves info device start closed := by
  have hheard : (c.proceed c.index s).heard = c.heard :=
    heard_proceed (by simp only [Connection.unread_of_inbound? ha.inbound, List.suffix_refl]) _
  exact ⟨hheard ▸ h.messages.abides ha hu, h.stream.abides ha⟩

theorem Serves.gains (h : c.Serves info device start closed) {stream after : Stream} {new : Bytes}
    {hangsUp : Prop} (hstream : c.session.connection.stream = some stream)
    (hgains : stream.inbound.Gains after.inbound new hangsUp) (peer : Peer) :
    (c.proceed c.index ⟨{ c.session.connection with stream := some after }, peer⟩).Serves info device
      start (closed ∨ hangsUp) := by
  obtain ⟨hmessages, hstream'⟩ := h.messages.gains h.stream hstream hgains
  refine ⟨?_, hstream'⟩
  have hheard : (c.proceed c.index
      ⟨{ c.session.connection with stream := some after }, peer⟩).heard = c.heard ++ new := by
    have hbefore : c.session.inbound = stream.inbound.bytes := by
      rw [Session.inbound, Connection.link_of_stream hstream]
      rfl
    have hafter : Session.inbound ⟨{ c.session.connection with stream := some after }, peer⟩ =
        stream.inbound.bytes ++ new := hgains.bytes
    rw [proceed, hbefore, hafter, Bytes.behind_append]
  rw [hheard]
  exact hmessages

theorem Serves.reader_step (h : c.Serves info device start closed) {i : Index}
    (hno : SaysNoResponse c.heard)
    (hstep : c.session.connection.stepReader c.index = some (i, s.connection)) :
    (c.proceed i s).Serves info device start closed ∧ (c.proceed i s).heard = c.heard := by
  have hne : c.session.connection.reader ≠ .idle := by
    intro hidle
    rw [Connection.stepReader_of_idle hidle] at hstep
    cases hstep
  have hreads := Connection.reads_of_step hstep
  obtain ⟨messages, hread⟩ := h.messages.hasRead hne
  obtain ⟨-, hsuffix, -⟩ := hreads.hasRead hread
  have hheard := heard_proceed hsuffix i
  have hserves := h.messages.reads h.stream hno hreads hne
  have hcloses := h.stream.reads (Connection.control_stepReader hstep) hreads
    (h.messages.info?_isSome hne)
  exact ⟨⟨hheard ▸ hserves, hcloses⟩, hheard⟩

theorem Serves.control_step (h : c.Serves info device start closed) {i : Index}
    (hcontrols : c.session.connection.Controls x c.now c.index i s.connection) :
    (c.proceed i s).Serves info device start closed ∧ (c.proceed i s).heard = c.heard := by
  obtain ⟨hserves, hcases⟩ := h.messages.controls hcontrols
  have hunread : s.connection.unread = c.session.connection.unread := by
    obtain ha | ⟨r, hconcludes⟩ := hcases
    · exact Connection.unread_of_inbound? ha.inbound
    · exact hconcludes.unread
  have hheard : (c.proceed i s).heard = c.heard :=
    heard_proceed (by simp only [hunread, List.suffix_refl]) i
  refine ⟨⟨hheard ▸ hserves, ?_⟩, hheard⟩
  obtain ha | ⟨r, hconcludes⟩ := hcases
  · exact h.stream.abides ha
  · exact h.stream.concludes hconcludes

theorem Serves.calls_step (h : c.Serves info device start closed)
    (hheld : s.connection.isAbandoned = false)
    (hcalls : c.session.connection.Calls s.connection) :
    (c.proceed c.index s).Serves info device start closed :=
  h.abides hcalls.abides fun hu =>
    hu.same hcalls.sameRequests hcalls.sameReading hheld (hcalls.keepAlive_eq ▸ hu.timer)

theorem Serves.agent_step (h : c.Serves info device start closed) {a : Agent} {i : Index}
    (hno : SaysNoResponse (c.proceed i s).heard)
    (hheld : s.connection.isAbandoned = false)
    (hwritten : a = .keepAlive → c.session.connection.reader ≠ .idle →
      c.session.connection.keepAlive = .refused ∨ s.connection.ended = c.session.connection.ended)
    (hstep : c.session.connection.step x c.now a c.index = some (i, s.connection)) :
    (c.proceed i s).Serves info device start closed := by
  cases Connection.acts_of_step hstep with
  | control hcontrol => exact (h.control_step (Connection.controls_of_step hcontrol)).1
  | deferral hdeferral =>
    exact (h.control_step (x := x) (Connection.controls_of_deferral hdeferral)).1
  | reader hread => exact (h.reader_step hno.of_append hread).1
  | keepAlive hkeep =>
    have hkeeps := Connection.keepsAlive_of_step hkeep
    have hended : c.session.connection.reader = .idle ∨
        s.connection.ended = c.session.connection.ended :=
      or_iff_not_imp_left.mpr fun hr => (hwritten rfl hr).resolve_left (h.messages.timer hr)
    refine h.abides (hkeeps.abides hended) ?_
    exact fun hu => hu.same hkeeps.sameRequests hkeeps.sameReading hheld hkeeps.timer
  | worker hwork =>
    have hworks := Connection.works_of_step hwork
    exact h.abides hworks.abides fun hu =>
      hu.same hworks.sameRequests hworks.sameReading hheld (hworks.keepAlive_eq ▸ hu.timer)
  | submitter hsubmitter => exact h.calls_step hheld (Connection.calls_of_submitter hsubmitter)
  | caller hcaller => exact h.calls_step hheld (Connection.calls_of_caller hcaller)

theorem Serves.undergo (h : c.Serves info device start closed) {e : Incident}
    (hleft : c.LeavesAlone x (.incident e)) :
    (c.move x (.incident e)).Serves info device start (closed ∨ (Move.incident e).HangsUp) := by
  have hheld := hleft.held
  cases e with
  | submit call action =>
    have hserves := h.abides (s := c.session.undergo (.submit call action))
      (Connection.abides_submit call action _) fun hu =>
        hu.submit (fun reason ha => hleft.closing call reason (by rw [ha])) hheld
    exact hserves.still id
  | release =>
    have hserves := h.abides (s := c.session.undergo .release) ⟨rfl, rfl, rfl, rfl, .inl rfl⟩
      fun hu => ⟨hu.closing, hu.responses, hheld, hu.timer⟩
    exact hserves.still id
  | peer d =>
    obtain ⟨p, hp, -⟩ := h.stream
    obtain ⟨stream, hstream, -⟩ := Option.map_eq_some_iff.mp hp
    have hpeer : c.session.undergo (.peer d) =
        ⟨{ c.session.connection with stream := some (c.session.peer.act d stream).1 },
          (c.session.peer.act d stream).2⟩ := by
      simp only [Session.undergo, Session.stepPeer, hstream, Option.bind_some, Option.map_some,
        Option.getD_some]
    rw [move, hpeer]
    exact h.gains hstream (Peer.gains_act d c.session.peer stream) _

theorem Serves.move (h : c.Serves info device start closed) {m : Move} (hleft : c.LeavesAlone x m)
    (hno : SaysNoResponse (c.move x m).heard) :
    (c.move x m).Serves info device start (closed ∨ m.HangsUp) := by
  have hheld := hleft.held
  cases m with
  | incident e => exact h.undergo hleft
  | elsewhere i => exact absurd rfl (hleft.index i)
  | party p =>
    have hwritten := hleft.written
    have hturn := c.takesTurn_move x p
    generalize c.move x (.party p) = c₁ at hturn hno hheld hwritten ⊢
    cases hturn with
    | waiting => exact h.still id
    | agent hagent => exact (h.agent_step hno hheld (fun ha => hwritten (by rw [ha])) hagent).still id
    | peer _ hpeer =>
      obtain hpeer | hpeer := hpeer
      · obtain ⟨stream, after, peer, hstream, hread, rfl⟩ := Session.stepPeer_eq_some hpeer
        exact h.gains hstream (Peer.gains_stepReading hread) peer
      · obtain ⟨stream, after, peer, hstream, hwrite, rfl⟩ := Session.stepPeer_eq_some hpeer
        obtain ⟨new, hgains⟩ := Peer.gains_stepWriting hwrite
        exact h.gains hstream hgains peer
  | telling =>
    have hserves := h.abides (s := c.session.takeAnswers.2) ⟨rfl, rfl, rfl, rfl, .inl rfl⟩
      fun hu => ⟨hu.closing, hu.responses, hheld, hu.timer⟩
    exact hserves.still id
  | peer p =>
    have hserves := h.abides (s := { c.session with peer := p }) ⟨rfl, rfl, rfl, rfl, .inl rfl⟩ id
    exact hserves.still id
  | time now =>
    have hserves : (c.move x (.time now)).Serves info device start closed := ⟨h.messages, h.stream⟩
    exact hserves.still id

theorem exists_heard_move (x : Surroundings) (c : Course) (m : Move) :
    ∃ new, (c.move x m).heard = c.heard ++ new := by
  cases m with
  | party p =>
    rw [Course.move]
    cases c.session.step x c.now p c.index with
    | none => exact ⟨[], (List.append_nil _).symm⟩
    | some next => exact ⟨_, rfl⟩
  | elsewhere i | time now => exact ⟨[], (List.append_nil _).symm⟩
  | _ => exact ⟨_, rfl⟩

theorem exists_heard_run (x : Surroundings) (moves : List Move) (c : Course) :
    ∃ new, (c.run x moves).heard = c.heard ++ new := by
  induction moves generalizing c with
  | nil => exact ⟨[], (List.append_nil _).symm⟩
  | cons m rest ih =>
    obtain ⟨new, hnew⟩ := c.exists_heard_move x m
    obtain ⟨more, hmore⟩ := ih (c.move x m)
    exact ⟨new ++ more, by rw [← List.append_assoc, ← hnew]; exact hmore⟩

theorem Serves.run (h : c.Serves info device start closed) {moves : List Move}
    (hleft : c.IsLeftAlone x moves) (hno : SaysNoResponse (c.run x moves).heard) :
    (c.run x moves).Serves info device start (closed ∨ ∃ m ∈ moves, m.HangsUp) := by
  induction moves generalizing c closed with
  | nil => exact h.still (by simp)
  | cons m rest ih =>
    obtain ⟨new, hnew⟩ := (c.move x m).exists_heard_run x rest
    have hno' : SaysNoResponse (c.move x m).heard := by
      have hall : SaysNoResponse ((c.move x m).heard ++ new) := hnew ▸ hno
      exact hall.of_append
    have hrun := ih (h.move hleft.1 hno') hleft.2 hno
    rw [or_assoc, ← List.exists_mem_cons_iff] at hrun
    exact hrun

theorem Serves.finished (h : c.Serves info device start closed) {r : Except ExchangeError Unit}
    (hc : c.session.connection.control = .finished r) : ∃ messages left,
      Passes info device start c.heard messages left ∧
      EndsAt info device (messages.foldl (Index.serve info device) start) closed left r ∧
      c.index = messages.foldl (Index.serve info device) start := by
  cases h.messages with
  | reading hs => cases hc.symm.trans hs.control
  | merging hs => cases hc.symm.trans hs.control
  | finished hr hp he hi habout =>
    obtain ⟨hserving, -⟩ | hv := habout
    · cases hc.symm.trans hserving
    · rw [hc] at hv
      cases hv
      exact ⟨_, _, hp, he, hi⟩

end Course

inductive Move.IsOwn : Move → Prop
  | reader : IsOwn (.party (.agent .reader))
  | control : IsOwn (.party (.agent .control))
  | time (now : Nat) : IsOwn (.time now)

namespace Course

variable {x : Surroundings} {c : Course} {info : ClusterInfo} {device : DeviceId} {start : Index}
  {closed : Prop} {m : Move} {moves : List Move}

theorem move_own_cases (x : Surroundings) (c : Course) (hm : m.IsOwn) :
    (∃ now, c.move x m = { c with now }) ∨ ∃ i c',
      c.move x m = c.proceed i { c.session with connection := c' } ∧
      (c.session.connection.stepReader c.index = some (i, c') ∨
        c.session.connection.stepControl x c.now c.index = some (i, c')) := by
  cases hm with
  | time now => exact .inl ⟨now, rfl⟩
  | reader =>
    cases hstep : c.session.connection.stepReader c.index with
    | none => exact .inl ⟨c.now, by simp [Course.move, Session.step, Connection.step, hstep]⟩
    | some next => exact .inr ⟨_, _, move_agent (a := .reader) hstep, .inl rfl⟩
  | control =>
    cases hstep : c.session.connection.stepControl x c.now c.index with
    | none => exact .inl ⟨c.now, by simp [Course.move, Session.step, Connection.step, hstep]⟩
    | some next => exact .inr ⟨_, _, move_control hstep, .inr rfl⟩

theorem leavesAlone_of_isOwn (hm : m.IsOwn) (hheld : c.session.connection.isAbandoned = false) :
    c.LeavesAlone x m where
  index := by
    rintro i rfl
    cases hm
  closing := by
    rintro call reason rfl
    cases hm
  held := by
    obtain ⟨now, heq⟩ | ⟨i, c', heq, hstep | hstep⟩ := move_own_cases x c hm <;> rw [heq]
    · exact hheld
    · exact (Connection.isAbandoned_stepReader hstep).trans hheld
    · exact (Connection.controls_of_step hstep).isAbandoned_eq.trans hheld
  written := by
    rintro rfl
    cases hm

theorem isLeftAlone_of_isOwn (hmoves : ∀ m ∈ moves, m.IsOwn)
    (hheld : c.session.connection.isAbandoned = false) : c.IsLeftAlone x moves := by
  induction moves generalizing c with
  | nil => trivial
  | cons m rest ih =>
    have hm := leavesAlone_of_isOwn (x := x) (hmoves m List.mem_cons_self) hheld
    exact ⟨hm, ih (fun m' hm' => hmoves m' (List.mem_cons_of_mem _ hm')) hm.held⟩

theorem Serves.own_move (h : c.Serves info device start closed) (hno : SaysNoResponse c.heard)
    (hm : m.IsOwn) :
    (c.move x m).Serves info device start closed ∧ (c.move x m).heard = c.heard := by
  obtain ⟨now, heq⟩ | ⟨i, c', heq, hstep | hstep⟩ := move_own_cases x c hm <;> rw [heq]
  · exact ⟨⟨h.messages, h.stream⟩, rfl⟩
  · exact h.reader_step hno hstep
  · exact h.control_step (Connection.controls_of_step hstep)

theorem Serves.own_run (h : c.Serves info device start closed) (hno : SaysNoResponse c.heard)
    (hmoves : ∀ m ∈ moves, m.IsOwn) :
    (c.run x moves).Serves info device start closed ∧ (c.run x moves).heard = c.heard := by
  induction moves generalizing c with
  | nil => exact ⟨h, rfl⟩
  | cons m rest ih =>
    obtain ⟨hmove, hheard⟩ := h.own_move (x := x) hno (hmoves m List.mem_cons_self)
    obtain ⟨hrun, hheard'⟩ := ih hmove (hheard ▸ hno) fun m' hm' =>
      hmoves m' (List.mem_cons_of_mem _ hm')
    exact ⟨hrun, hheard'.trans hheard⟩

variable {messages : List Message} {left : Bytes} {r : Except ExchangeError Unit}

theorem Serves.exists_idle (h : c.Serves info device start closed) (hno : SaysNoResponse c.heard)
    (hp : Passes info device start c.heard messages left)
    (he : EndsAt info device (messages.foldl (Index.serve info device) start) closed left r) :
    ∃ n, (c.run x (List.replicate n (.party (.agent .reader)))).session.connection.reader = .idle := by
  -- Each step of the reader leaves it less to do, or is its last one.
  induction heffort : c.session.connection.reader.effort c.session.connection.unread.length
    using Nat.strong_induction_on generalizing c with
  | _ effort ih =>
    by_cases hne : c.session.connection.reader = .idle
    · exact ⟨0, hne⟩
    · obtain ⟨i, c', hstep⟩ := h.messages.exists_stepReader h.stream hp he hne
      have hmove := move_agent (x := x) (c := c) (a := .reader) hstep
      obtain ⟨hserves, hheard⟩ := h.own_move (x := x) hno .reader
      obtain hidle | hlt := h.messages.effort_lt (Connection.reads_of_step hstep) hne
      · refine ⟨1, ?_⟩
        exact (congrArg (·.session.connection.reader) hmove).trans hidle
      · obtain ⟨n, hn⟩ := ih _ (heffort ▸ hlt) hserves (hheard ▸ hno) (hheard ▸ hp)
          (by rw [hmove]; rfl)
        exact ⟨n + 1, hn⟩

theorem Serves.exists_verdict (h : c.Serves info device start closed) (hno : SaysNoResponse c.heard)
    (hidle : c.session.connection.reader = .idle) :
    ∃ n r, (c.run x (List.replicate n
      (.party (.agent .control)))).session.connection.control.verdict? = some r := by
  -- An end has been noticed, and what the control takes up before it gets less and less.
  induction hagenda : c.session.connection.agenda using Nat.strong_induction_on generalizing c with
  | _ agenda ih =>
    cases h.messages with
    | reading hs hr => rw [hr] at hidle; cases hidle
    | merging hs hr => rw [hr] at hidle; cases hidle
    | finished hr hp he hi habout =>
      obtain ⟨hc, hu, rest, hended⟩ | hv := habout
      · obtain ⟨t, c₁, ht⟩ := Connection.exists_topic hended
        have hstep : c.session.connection.stepControl x c.now c.index =
            some (c.index, c₁.treat x c.now info t) := by
          simp only [Connection.stepControl, hc, Connection.attend_eq, ht, Option.map_some]
        have hmove := move_control hstep
        obtain ⟨hserves, hheard⟩ := h.own_move (x := x) hno .control
        obtain ⟨-, ha, hlt⟩ | ⟨r', -, -, hconcludes⟩ := hu.attention (by rw [hc]; rfl)
          (Connection.takesUp_of_topic? ht) (Connection.treats x c.now info t c₁)
        · have hidle' : (c.move x (.party (.agent .control))).session.connection.reader = .idle := by
            rw [hmove]
            exact ha.reader.trans hr
          obtain ⟨n, r', hn⟩ := ih _ (hagenda ▸ hlt) hserves (hheard ▸ hno) hidle' (by rw [hmove]; rfl)
          exact ⟨n + 1, r', hn⟩
        · refine ⟨1, r', ?_⟩
          exact (congrArg (·.session.connection.control.verdict?) hmove).trans hconcludes.verdict
      · exact ⟨0, _, hv⟩

theorem Serves.exists_finished (h : c.Serves info device start closed) (hno : SaysNoResponse c.heard)
    (hp : Passes info device start c.heard messages left)
    (he : EndsAt info device (messages.foldl (Index.serve info device) start) closed left r) :
    ∃ more : List Move, (∀ m ∈ more, m.IsOwn) ∧
      (c.run x more).session.connection.control = .finished r ∧
      (c.run x more).index = messages.foldl (Index.serve info device) start := by
  have hreplicate : ∀ {m : Move} {n : Nat}, m.IsOwn → ∀ m' ∈ List.replicate n m, m'.IsOwn :=
    fun hm m' hm' => List.eq_of_mem_replicate hm' ▸ hm
  obtain ⟨n, hidle⟩ := h.exists_idle (x := x) hno hp he
  obtain ⟨hserves, hheard⟩ := h.own_run (x := x) hno (hreplicate (n := n) .reader)
  obtain ⟨k, r', hv⟩ := hserves.exists_verdict (x := x) (hheard ▸ hno) hidle
  obtain ⟨now, l, -, hfinished⟩ := Course.exists_finished (x := x) hv
  have hmore : ∀ m ∈ List.replicate n (Move.party (.agent .reader)) ++
      (List.replicate k (.party (.agent .control)) ++
        .time now :: List.replicate l (.party (.agent .control))), m.IsOwn := by
    intro m hm
    rcases List.mem_append.mp hm with hm | hm
    · exact hreplicate .reader m hm
    · rcases List.mem_append.mp hm with hm | hm
      · exact hreplicate .control m hm
      · rcases List.mem_cons.mp hm with rfl | hm
        · exact .time now
        · exact hreplicate .control m hm
  refine ⟨_, hmore, ?_⟩
  obtain ⟨hafter, hheard'⟩ := h.own_run (x := x) hno hmore
  rw [run_append, run_append] at hafter hheard' ⊢
  obtain ⟨messages', left', hp', he', hi'⟩ := hafter.finished hfinished
  rw [hheard'] at hp'
  obtain ⟨rfl, rfl⟩ := hp.unique he hp' he'
  exact ⟨hfinished, hi'⟩

theorem IsLeftAlone.held (hleft : c.IsLeftAlone x moves)
    (hheld : c.session.connection.isAbandoned = false) :
    (c.run x moves).session.connection.isAbandoned = false := by
  induction moves generalizing c with
  | nil => exact hheld
  | cons m rest ih => exact ih hleft.2 hleft.1.held

theorem serves_starting {s : Session} (hs : s.connection.IsServing info device)
    (hr : s.connection.reader = .serving info (.start Frame.messageFormat)) (start : Index)
    (now : Nat) :
    (starting s start now).Serves info device start s.connection.IsHungUp := by
  obtain ⟨stream, hstream⟩ := Option.isSome_iff_exists.mp hs.stream
  have hinbound : s.connection.inbound? = some stream.inbound := by
    rw [Connection.inbound?, hstream, Option.map_some]
  refine ⟨.reading hs hr (.nil _ _) (Incoming.isAmid_start _ _) rfl, stream.inbound, hinbound, ?_, ?_⟩
  · rintro ⟨p, hp, hclosed⟩
    cases hinbound.symm.trans hp
    exact hclosed
  · exact fun _ hclosed => ⟨_, hinbound, hclosed⟩

/-- Where nobody on our side ends a connection that is being served, and nobody else uses the index,
the peer's messages decide on everything. The connection ends with what the first of them decides on
that ends it, or with the first bytes that are no message, or with the end of the stream; by then the
index is what the messages before have come to. -/
theorem index_and_result_of_messages (x : Surroundings) {s : Session}
    (hs : s.connection.IsServing info device)
    (hr : s.connection.reader = .serving info (.start Frame.messageFormat))
    (hkeyed : start.store.IsWellKeyed) (now : Nat)
    (hleft : (starting s start now).IsLeftAlone x moves)
    (hno : SaysNoResponse ((starting s start now).run x moves).heard) :
    let c := (starting s start now).run x moves
    let closed := s.connection.IsHungUp ∨ ∃ m ∈ moves, m.HangsUp
    (∀ r, c.session.connection.control = .finished r → ∃ messages left,
      Passes info device start c.heard messages left ∧
        EndsAt info device (start.served info device messages) closed left r) ∧
    ∀ messages left r, Passes info device start c.heard messages left →
      EndsAt info device (start.served info device messages) closed left r →
      (∀ r', c.session.connection.control = .finished r' →
        r' = r ∧ c.index = start.served info device messages) ∧
      (∃ more, c.IsLeftAlone x more ∧ (c.run x more).heard = c.heard ∧
        (c.run x more).session.connection.control = .finished r ∧
        (c.run x more).index = start.served info device messages) ∧
      (r = .ok () ↔ ∃ reason rest, Frame.messageFormat.Opens (.close reason) left rest) ∧
      ((∃ v, r = .error (.violation v)) ↔ ∃ m rest, Frame.messageFormat.Opens m left rest ∧
        ((∃ folders, m = .clusterConfig folders) ∨ ∃ p, m = .downloadProgress p)) ∧
      (r = .ok () ∨ (∃ v, r = .error (.violation v)) ∨
        (∃ e, r = .error (.codec e) ∧ Frame.messageFormat.parse left = some (.error e)) ∨
        (r = .error .closed ∧ Frame.messageFormat.parse left = none) ∨
        ∃ cause, r = .error (.store cause) ∧ ∃ m rest p, Frame.messageFormat.Opens m left rest ∧
          info.part? m = some p) := by
  intro c closed
  have hserves : c.Serves info device start closed := (serves_starting hs hr start now).run hleft hno
  have hheld : c.session.connection.isAbandoned = false := hleft.held hs.undisturbed.held
  simp only [← Index.foldl_serve hkeyed]
  constructor
  · intro r hfinished
    obtain ⟨messages, left, hp, he, -⟩ := hserves.finished hfinished
    exact ⟨messages, left, hp, he⟩
  · intro messages left r hp he
    refine ⟨?_, ?_, he.eq_ok_iff, he.exists_violation_iff, he.result_cases⟩
    · intro r' hfinished
      obtain ⟨messages', left', hp', he', hi⟩ := hserves.finished hfinished
      obtain ⟨rfl, rfl⟩ := hp.unique he hp' he'
      exact ⟨rfl, hi⟩
    · obtain ⟨more, hmore, hfinished, hi⟩ := hserves.exists_finished (x := x) hno hp he
      obtain ⟨-, hheard⟩ := hserves.own_run (x := x) hno hmore
      exact ⟨more, isLeftAlone_of_isOwn hmore hheld, hheard, hfinished, hi⟩

theorem index_and_result_of_messages_photos :
    let peer : DeviceId := .ofCertificate [1, 2]
    let x : Surroundings := {
      configuration := ⟨.ofCertificate [3], "here", [⟨"photos", "photos", [peer]⟩]⟩
      settings := {}
      serve _ r := { id := r.id } }
    let info : ClusterInfo := ⟨["photos"], [], ⟨"there", "client", "1"⟩⟩
    let part (folder name : String) : IndexPart :=
      ⟨folder, [{ name, fileType := 1, versions := [⟨1, 1⟩], sequence := 1 }]⟩
    let messages : List Message := [.index (part "music" "a"), .index (part "photos" "a"), .ping,
      .close "bye", .index (part "photos" "b")]
    let said := messages.flatMap fun m => (Frame.encode m).toOption.getD []
    let s : Session := { connection := {
      device := peer, address := "there"
      stream := some { certificate := [1, 2], inbound := { bytes := said } }
      control := .serving info, reader := .serving info (.start Frame.messageFormat)
      keepAlive := .start x.settings.keepAlive.toMillis x.horizon 0 } }
    let known : Query := .putMarker (.fresh "photos" peer 7)
    let i : Index := { store := ((Store.memory (.fresh 5)).answer known).2 }
    let moves := List.replicate 20 (Move.party (.agent .reader)) ++
      List.replicate 9 (.party (.agent .control))
    let start := starting s i 0
    s.connection.IsServing info peer ∧
      s.connection.reader = .serving info (.start Frame.messageFormat) ∧ i.store.IsWellKeyed ∧
      start.IsLeftAlone x moves ∧ SaysNoResponse (start.run x moves).heard ∧
      (start.run x moves).session.connection.control = .finished (.ok ()) ∧
      (∃ messages left reason rest, Passes info peer i (start.run x moves).heard messages left ∧
        Frame.messageFormat.Opens (.close reason) left rest ∧
        (start.run x moves).index = i.served info peer messages) ∧
      ((start.run x moves).index.store.answer (.file "photos" "a")).1 ≠
        (i.store.answer (.file "photos" "a")).1 ∧
      ((start.run x moves).index.store.answer (.file "photos" "b")).1 =
        (i.store.answer (.file "photos" "b")).1 := by
  intro peer x info part messages said s known i moves start
  have htimer : s.connection.keepAlive ≠ .refused :=
    KeepAlive.start_ne_refused (by decide) (by decide)
  have hs : s.connection.IsServing info peer := ⟨rfl, rfl, rfl, rfl, nofun, rfl, rfl, htimer⟩
  have hfresh : (Store.memory (.fresh 5)).IsWellKeyed := Memory.isWellKeyed_fresh 5
  have hkeyed : i.store.IsWellKeyed := hfresh.answer known
  have hmoves : ∀ m ∈ moves, m.IsOwn := by
    intro m hm
    rcases List.mem_append.mp hm with hm | hm
    · exact List.eq_of_mem_replicate hm ▸ .reader
    · exact List.eq_of_mem_replicate hm ▸ .control
  have hheard : (messages.mapM Frame.encode).map List.flatten = .ok (start.run x moves).heard := by
    decide +kernel
  have hresult : (start.run x moves).session.connection.control.result? = some (.ok ()) := by
    decide +kernel
  have hchanged : ((start.run x moves).index.store.answer (.file "photos" "a")).1 ≠
      (i.store.answer (.file "photos" "a")).1 := by
    decide +kernel
  have hsame : ((start.run x moves).index.store.answer (.file "photos" "b")).1 =
      (i.store.answer (.file "photos" "b")).1 := by
    decide +kernel
  have hfinished : (start.run x moves).session.connection.control = .finished (.ok ()) := by
    generalize (start.run x moves).session.connection.control = control at hresult
    cases control <;> cases hresult
    rfl
  have hno : SaysNoResponse (start.run x moves).heard := by
    have hshort : ∀ m ∈ messages, (Wire.message.toCbor m).length ≤ Frame.maxLength := by
      decide +kernel
    obtain ⟨frames, hframes, -⟩ := Frame.exists_mapM_encode hshort
    rw [hframes] at hheard
    rw [← Except.ok.inj hheard]
    exact .of_encode (by decide +kernel) hframes (by simp [messages])
  have hstart : start = starting s i 0 := rfl
  rw [hstart] at hno hfinished hchanged hsame ⊢
  have hleft : (starting s i 0).IsLeftAlone x moves := isLeftAlone_of_isOwn hmoves rfl
  have hrun := index_and_result_of_messages x hs rfl hkeyed 0 hleft hno
  obtain ⟨served, left, hp, he⟩ := hrun.1 _ hfinished
  obtain ⟨hindex, -, hclose, -⟩ := hrun.2 served left _ hp he
  obtain ⟨reason, rest, hopens⟩ := hclose.mp rfl
  exact ⟨hs, rfl, hkeyed, hleft, hno, hfinished, ⟨served, left, reason, rest, hp, hopens,
    (hindex _ hfinished).2⟩, hchanged, hsame⟩

end Course

end BlockExchange
