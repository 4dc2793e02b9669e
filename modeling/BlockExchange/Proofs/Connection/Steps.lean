import BlockExchange.Proofs.Connection.Handshake
/-!
What the steps of the control and of the reader come to. The control goes through the handshake, and
once the connection is active it takes up one topic after the other (`Connection.topic?`,
`Connection.controls_of_step`); the reader goes from frame to frame (`Connection.reads_of_step`).
-/

namespace BlockExchange

theorem Sending.inbound_abandon (s : Sending) (a : Agent) (stream : Stream) :
    (s.abandon a stream).inbound = stream.inbound := by
  cases s <;> rfl

inductive Control.Continues : Control → Control → Prop
  | greeting (m m' : Option Sending) : Continues (.greeting m) (.greeting m')
  | clustering (h : Hello) (m m' : Option Sending) : Continues (.clustering h m) (.clustering h m')
  | announcing (info : ClusterInfo) (rest rest' : List String) (m m' : Option Sending) :
    Continues (.announcing info rest m) (.announcing info rest' m')
  | parting (r : Except ExchangeError Unit) (deadline : Nat) (s s' : Sending) :
    Continues (.parting r s deadline) (.parting r s' deadline)

inductive Topic where
  | submission (s : Submission)
  | report (r : Report)
  | exit (e : Exit)

def Topic.settling? : Topic → Option (Int32 × Except ExchangeError BlockResponse)
  | report (.response r) => some (r.id, .ok r)
  | report (.unsent id cause) => some (id, .error cause)
  | _ => none

def Reader.info? : Reader → Option ClusterInfo
  | serving info _ | merging info _ _ => some info
  | _ => none

namespace Connection

variable {c c' : Connection} {x : Surroundings} {now : Nat} {i i' : Index}

def topic? (c : Connection) : Option (Topic × Connection) :=
  match c.deferred, c.reports, c.inbox.take? with
  | s :: rest, _, _ => some (.submission s, { c with deferred := rest })
  | [], r :: rest, _ => some (.report r, { c with reports := rest })
  | [], [], some (s, inbox) => some (.submission s, { c with inbox })
  | [], [], none =>
    if c.isAbandoned then some (.exit (.local "connection dropped"), c)
    else match c.ended with
      | .ok () :: rest => some (.exit .peerClosed, { c with ended := rest })
      | .error e :: rest => some (.exit (.failed e), { c with ended := rest })
      | [] => none

def treat (x : Surroundings) (now : Nat) (info : ClusterInfo) : Topic → Connection → Connection
  | .submission s, c => c.accept x now info s
  | .report r, c => c.hear x now r
  | .exit e, c => c.leave x now e

theorem attend_eq (x : Surroundings) (now : Nat) (info : ClusterInfo) (c : Connection) :
    c.attend x now info = c.topic?.map fun (t, c) => c.treat x now info t := by
  unfold attend topic?
  rcases c.deferred with _ | ⟨s, rest⟩
  · rcases c.reports with _ | ⟨r, rest⟩
    · rcases c.inbox.take? with _ | ⟨s, inbox⟩
      · dsimp only
        split_ifs
        · rfl
        · rcases c.ended with _ | ⟨_ | _, rest⟩ <;> rfl
      · rfl
    · rfl
  · rfl

inductive TakesUp (c : Connection) : Topic → Connection → Prop
  | deferred {s : Submission} {rest : List Submission} (hd : c.deferred = s :: rest) :
    TakesUp c (.submission s) { c with deferred := rest }
  | report {r : Report} {rest : List Report} (hd : c.deferred = []) (hr : c.reports = r :: rest) :
    TakesUp c (.report r) { c with reports := rest }
  | inbox {s : Submission} {inbox : Inbox} (hd : c.deferred = []) (hr : c.reports = [])
    (hi : c.inbox.take? = some (s, inbox)) : TakesUp c (.submission s) { c with inbox }
  | abandonment (ha : c.isAbandoned) : TakesUp c (.exit (.local "connection dropped")) c
  | peerClosed {rest : List (Except ExchangeError Unit)} (he : c.ended = .ok () :: rest) :
    TakesUp c (.exit .peerClosed) { c with ended := rest }
  | failed {e : ExchangeError} {rest : List (Except ExchangeError Unit)}
    (he : c.ended = .error e :: rest) : TakesUp c (.exit (.failed e)) { c with ended := rest }

theorem takesUp_of_topic? {t : Topic} (h : c.topic? = some (t, c')) : c.TakesUp t c' := by
  unfold topic? at h
  split at h
  · cases h
    exact .deferred ‹_›
  · cases h
    exact .report ‹_› ‹_›
  · cases h
    exact .inbox ‹_› ‹_› ‹_›
  · split_ifs at h with ha
    · cases h
      exact .abandonment ha
    · split at h <;> cases h
      · exact .peerClosed ‹_›
      · exact .failed ‹_›

theorem exists_abandon (a : Agent) (s : Sending) (c : Connection) :
    ∃ stream, stream.map (·.inbound) = c.inbound? ∧ c.abandon a s = { c with stream } := by
  refine ⟨c.stream.map (s.abandon a), ?_, rfl⟩
  rw [Option.map_map, inbound?]
  congr 1
  funext stream
  exact s.inbound_abandon a stream

theorem exists_stop (r : Except ExchangeError Unit) (c : Connection) :
    ∃ stream, stream.map (·.inbound) = c.inbound? ∧ c.stop r =
      { c with stream, reader := .idle, keepAlive := .off, control := .stopping r } := by
  unfold stop
  split
  · obtain ⟨stream, hs, heq⟩ := c.exists_abandon .keepAlive _
    exact ⟨stream, hs, by rw [heq]⟩
  · exact ⟨c.stream, rfl, rfl⟩

theorem exists_giveUp (mine : Option Sending) (e : ExchangeError) (c : Connection) :
    ∃ stream, stream.map (·.inbound) = c.inbound? ∧ c.giveUp mine e =
      { c with stream, reader := .idle, keepAlive := .off, control := .stopping (.error e) } := by
  cases mine with
  | none => exact c.exists_stop _
  | some s =>
    obtain ⟨stream, hs, heq⟩ := c.exists_abandon .control s
    obtain ⟨stream', hs', heq'⟩ := ({ c with stream }).exists_stop (.error e)
    refine ⟨stream', hs'.trans hs, ?_⟩
    have hgive : c.giveUp (some s) e = (c.abandon .control s).stop (.error e) := rfl
    rw [hgive, heq, heq']

theorem inbound_disconnect (c : Connection) : c.disconnect.inbound? = c.inbound? := by
  rw [inbound?, inbound?, disconnect, Option.map_map]
  rfl

theorem leave_cases (x : Surroundings) (now : Nat) (e : Exit) (c : Connection) :
    ∃ stream, stream.map (·.inbound) = c.inbound? ∧
      ((∃ s deadline, c.leave x now e =
          { c with stream, control := .parting e.result s deadline }) ∨
        c.leave x now e =
          { c with stream, reader := .idle, keepAlive := .off, control := .stopping e.result }) := by
  have hall : ∀ c₀ : Connection, c₀.inbound? = c.inbound? → (∃ stream, c₀ = { c with stream }) →
      ∃ stream, stream.map (·.inbound) = c.inbound? ∧
        ((∃ s deadline, (if c₀.isConnected then { c₀ with
            control := .parting e.result (.ofMessage (.close e.reason))
              (now + x.settings.closeTimeout.toMillis) } else c₀.stop e.result) =
            { c with stream, control := .parting e.result s deadline }) ∨
          (if c₀.isConnected then { c₀ with
            control := .parting e.result (.ofMessage (.close e.reason))
              (now + x.settings.closeTimeout.toMillis) } else c₀.stop e.result) =
            { c with stream, reader := .idle, keepAlive := .off, control := .stopping e.result }) := by
    rintro c₀ hin ⟨stream, rfl⟩
    split_ifs
    · exact ⟨stream, hin, .inl ⟨_, _, rfl⟩⟩
    · obtain ⟨stream', hs', heq⟩ := ({ c with stream }).exists_stop e.result
      exact ⟨stream', hs'.trans hin, .inr heq⟩
  unfold leave
  dsimp only
  split
  · exact hall _ c.inbound_disconnect ⟨_, rfl⟩
  · exact hall _ rfl ⟨c.stream, rfl⟩

inductive Treats (x : Surroundings) (now : Nat) (c : Connection) : Topic → Connection → Prop
  | request (call : Nat) (r : BlockRequest) :
    Treats x now c (.submission ⟨call, .request r⟩)
      (dispatch (.request c.nextId) (.request { r with id := c.nextId })
        { c with nextId := c.nextId + 1, pending := c.pending ++ [(c.nextId, call)] })
  | update (call : Nat) (p : IndexPart) :
    Treats x now c (.submission ⟨call, .update p⟩) (c.dispatch (.update call) (.indexUpdate p))
  | confirm (call : Nat) (r : Except ExchangeError ClusterInfo) :
    Treats x now c (.submission ⟨call, .confirm⟩) (c.reply call (.confirmed r))
  | close (call : Nat) (reason : String) :
    Treats x now c (.submission ⟨call, .close reason⟩) (c.leave x now (.local reason))
  | settling {t : Topic} {id : Int32} {r : Except ExchangeError BlockResponse} {call : Nat}
    (ht : t.settling? = some (id, r)) (hp : c.pending.find? (·.1 = id) = some (id, call)) :
    Treats x now c t
      (reply call (.response r) { c with pending := c.pending.eraseP (·.1 = id) })
  | unknown {r : BlockResponse} (hp : c.pending.find? (·.1 = r.id) = none) :
    Treats x now c (.report (.response r))
      (c.leave x now (.failed (.violation (.unknownResponse r.id))))
  | stale {id : Int32} (cause : ExchangeError) (hp : c.pending.find? (·.1 = id) = none) :
    Treats x now c (.report (.unsent id cause)) c
  | serving (r : BlockRequest) (answer : BlockResponse) :
    Treats x now c (.report (.request r)) (c.dispatch .response (.response answer))
  | exit (e : Exit) : Treats x now c (.exit e) (c.leave x now e)

theorem settle_cases (id : Int32) (r : Except ExchangeError BlockResponse) (c : Connection) :
    (∃ call, c.pending.find? (·.1 = id) = some (id, call) ∧ c.settle id r =
        some (reply call (.response r) { c with pending := c.pending.eraseP (·.1 = id) })) ∨
      c.pending.find? (·.1 = id) = none ∧ c.settle id r = none := by
  unfold settle
  cases hp : c.pending.find? (·.1 = id) with
  | none => exact .inr ⟨rfl, rfl⟩
  | some p =>
    obtain ⟨id', call⟩ := p
    obtain rfl : id' = id := by simpa using List.find?_some hp
    exact .inl ⟨call, rfl, rfl⟩

theorem treats (x : Surroundings) (now : Nat) (info : ClusterInfo) (t : Topic) (c : Connection) :
    Treats x now c t (c.treat x now info t) := by
  cases t with
  | submission s =>
    obtain ⟨call, action⟩ := s
    cases action with
    | request r => exact .request call r
    | update p => exact .update call p
    | confirm => exact .confirm call _
    | close reason => exact .close call reason
  | report r =>
    cases r with
    | response r =>
      obtain ⟨call, hp, hs⟩ | ⟨hp, hs⟩ := c.settle_cases r.id (.ok r) <;>
        simp only [treat, hear, hs, Option.getD_some, Option.getD_none]
      · exact .settling rfl hp
      · exact .unknown hp
    | request r => exact .serving r _
    | unsent id cause =>
      obtain ⟨call, hp, hs⟩ | ⟨hp, hs⟩ := c.settle_cases id (.error cause) <;>
        simp only [treat, hear, hs, Option.getD_some, Option.getD_none]
      · exact .settling rfl hp
      · exact .stale cause hp
  | exit e => exact .exit e

inductive Controls (x : Surroundings) (now : Nat) (i : Index) (c : Connection) :
    Index → Connection → Prop
  | opening (mine : Option Sending) (hc : c.control = .dialing) :
    Controls x now i c i
      { c with control := .greeting mine, reader := .hello (.start Frame.helloFormat) }
  | deferral {s : Submission} {inbox : Inbox} (hc : c.phase.rank < Phase.active.rank)
    (hi : c.inbox.take? = some (s, inbox)) :
    Controls x now i c i { c with inbox, deferred := c.deferred ++ [s] }
  | writing {stream : Option Stream} {control : Control}
    (hs : stream.map (·.inbound) = c.inbound?) (hc : c.control.Continues control) :
    Controls x now i c i { c with stream, control }
  | surrender {stream : Option Stream} (e : ExchangeError) (hs : stream.map (·.inbound) = c.inbound?)
    (hc : c.phase.rank < Phase.active.rank) :
    Controls x now i c i
      { c with stream, reader := .idle, keepAlive := .off, control := .stopping (.error e) }
  | introduction {hello : Hello} (folders : Except ExchangeError (List OfferedFolder))
    (hc : c.control = .greeting none) (hr : c.reader.hello? = some (.ok hello)) :
    Controls x now i c i { c with control := .building hello folders, reader := .idle }
  | offer {hello : Hello} {folders : Except ExchangeError (List OfferedFolder)}
    (mine : Option Sending) (hc : c.control = .building hello folders) :
    Controls x now i c i
      { c with control := .clustering hello mine, reader := .first (.start Frame.messageFormat) }
  | notice {hello : Hello} {folders : List OfferedFolder} {info : Except ExchangeError ClusterInfo}
    {i' : Index} (hc : c.control = .clustering hello none)
    (hr : c.reader.first? = some (.ok (.clusterConfig folders)))
    (hi : Cluster.receive x.configuration c.device folders hello i = (info, i')) :
    Controls x now i c i' { c with control := .agreeing info, reader := .idle }
  | agreement {info : ClusterInfo} (hc : c.control = .agreeing (.ok info)) :
    Controls x now i c i
      { c with
        control := .announcing info info.shared none
        reader := .serving info (.start Frame.messageFormat)
        keepAlive := .start x.settings.keepAlive.toMillis x.horizon now }
  | failure {info : ClusterInfo} {rest : List String} {mine : Option Sending}
    {stream : Option Stream} (e : ExchangeError) (hs : stream.map (·.inbound) = c.inbound?)
    (hc : c.control = .announcing info rest mine) :
    Controls x now i c i (leave x now (.failed e) { c with stream })
  | announced {info : ClusterInfo} (hc : c.control = .announcing info [] none) :
    Controls x now i c i { c with control := .serving info }
  | attention {info : ClusterInfo} {t : Topic} {c₁ : Connection} (hc : c.control = .serving info)
    (ht : c.topic? = some (t, c₁)) : Controls x now i c i (c₁.treat x now info t)
  | parted {r : Except ExchangeError Unit} {s : Sending} {deadline : Nat} {stream : Option Stream}
    (hs : stream.map (·.inbound) = c.inbound?) (hc : c.control = .parting r s deadline) :
    Controls x now i c i
      { c with stream, reader := .idle, keepAlive := .off, control := .stopping r }
  | finish {r : Except ExchangeError Unit} (hc : c.control = .stopping r) :
    Controls x now i c i (c.finish r)

theorem Controls.giveUp {c₁ : Connection} {stream : Option Stream} (mine : Option Sending)
    (e : ExchangeError) (hs : stream.map (·.inbound) = c.inbound?) (hc₁ : c₁ = { c with stream })
    (hc : c.phase.rank < Phase.active.rank) : Controls x now i c i (c₁.giveUp mine e) := by
  obtain ⟨stream', hs', heq⟩ := c₁.exists_giveUp mine e
  subst hc₁
  rw [heq]
  exact .surrender e (hs'.trans hs) hc

theorem controls_of_exchanges {α : Type} {mine : Option Sending}
    {theirs : Option (Except ExchangeError α)} {keep : Option Sending → Control}
    {proceed : α → Connection → Index × Connection}
    (h : Exchanges mine theirs keep proceed i c i' c') (hc : c.phase.rank < Phase.active.rank)
    (hkeep : ∀ mine', c.control.Continues (keep mine'))
    (hproceed : ∀ a, mine = none → theirs = some (.ok a) →
      Controls x now i c (proceed a c).1 (proceed a c).2) : Controls x now i c i' c' := by
  cases h with
  | surrender e => exact .giveUp mine e rfl rfl hc
  | going hm hw =>
    obtain ⟨stream, hs, rfl⟩ := write_inbound hw
    exact .writing hs (hkeep _)
  | written hm hw =>
    obtain ⟨stream, hs, rfl⟩ := write_inbound hw
    exact .writing hs (hkeep _)
  | failure hm hw =>
    obtain ⟨stream, hs, heq⟩ := write_inbound hw
    exact .giveUp none _ hs heq hc
  | both hm ht => exact hproceed _ hm ht

theorem controls_greet {hello : Hello} (hc : c.control = .greeting none)
    (hr : c.reader.hello? = some (.ok hello)) :
    Controls x now i c (c.greet x i hello).1 (c.greet x i hello).2 := by
  have hrank := rank_of_handshake? (congrArg Control.handshake? hc)
  have hbuild := Cluster.index_build x.configuration c.device hello.deviceName i
  unfold greet
  split
  · exact .giveUp none _ rfl rfl hrank
  · dsimp only
    rw [hbuild]
    exact .introduction _ hc hr

theorem controls_agree {hello : Hello} {m : Message} (hc : c.control = .clustering hello none)
    (hr : c.reader.first? = some (.ok m)) :
    Controls x now i c (c.agree x i hello m).1 (c.agree x i hello m).2 := by
  have hrank := rank_of_handshake? (congrArg Control.handshake? hc)
  obtain ⟨e, heq⟩ | ⟨folders, rfl, heq⟩ := c.agree_eq x i hello m <;> rw [heq]
  · exact .giveUp none e rfl rfl hrank
  · exact .notice hc hr rfl

theorem controls_announce {info : ClusterInfo} {rest : List String} {mine : Option Sending}
    (hc : c.control = .announcing info rest mine) (h : c.announce x now info rest mine = some c') :
    Controls x now i c i c' := by
  unfold announce at h
  split at h
  · obtain ⟨⟨p, c₁⟩, hw, h⟩ := Option.map_eq_some_iff.mp h
    obtain ⟨stream, hs, rfl⟩ := write_inbound hw
    rcases p with s | (e | ⟨⟩) <;> cases h
    · exact .writing hs (hc ▸ .announcing ..)
    · exact .failure e hs hc
    · exact .writing hs (hc ▸ .announcing ..)
  · cases h
    have hstream : c.stream.map (·.inbound) = c.inbound? := rfl
    exact .writing hstream (hc ▸ .announcing ..)
  · cases h
    exact .announced hc

theorem controls_part {r : Except ExchangeError Unit} {s : Sending} {deadline : Nat}
    (hc : c.control = .parting r s deadline) (h : c.part now r s deadline = some c') :
    Controls x now i c i c' := by
  have hstop : ∀ {c₁ : Connection} {stream : Option Stream}, stream.map (·.inbound) = c.inbound? →
      c₁ = { c with stream } → Controls x now i c i (c₁.disconnect.stop r) := by
    intro c₁ stream hs hc₁
    obtain ⟨stream', hs', heq⟩ := c₁.disconnect.exists_stop r
    rw [inbound_disconnect] at hs'
    subst hc₁
    rw [heq]
    exact .parted (hs'.trans hs) hc
  unfold part at h
  split at h
  · rename_i hw
    cases h
    obtain ⟨stream, hs, rfl⟩ := write_inbound hw
    exact .writing hs (hc ▸ .parting ..)
  · rename_i hw
    cases h
    obtain ⟨stream, hs, heq⟩ := write_inbound hw
    exact hstop hs heq
  · split_ifs at h
    cases h
    obtain ⟨stream, hs, heq⟩ := c.exists_abandon .control s
    exact hstop hs heq

theorem controls_of_step (h : c.stepControl x now i = some (i', c')) : Controls x now i c i' c' := by
  cases hc : c.control with
  | dialing =>
    have hrank := rank_of_handshake? (congrArg Control.handshake? hc)
    simp only [stepControl, hc] at h
    split_ifs at h <;> cases h
    · exact .giveUp none _ rfl rfl hrank
    · exact .opening _ hc
  | greeting mine =>
    have hrank := rank_of_handshake? (congrArg Control.handshake? hc)
    rw [stepControl_greeting hc] at h
    apply controls_of_exchanges (exchange_eq_some h) hrank
    · exact fun _ => hc ▸ .greeting ..
    · rintro hello rfl hr
      exact controls_greet hc hr
  | building hello folders =>
    have hrank := rank_of_handshake? (congrArg Control.handshake? hc)
    simp only [stepControl, hc] at h
    cases h
    cases folders with
    | error e => exact .giveUp none e rfl rfl hrank
    | ok folders => exact .offer _ hc
  | agreeing info =>
    have hrank := rank_of_handshake? (congrArg Control.handshake? hc)
    simp only [stepControl, hc] at h
    cases h
    cases info with
    | error e => exact .giveUp none e rfl rfl hrank
    | ok info => exact .agreement hc
  | clustering hello mine =>
    have hrank := rank_of_handshake? (congrArg Control.handshake? hc)
    rw [stepControl_clustering hc] at h
    apply controls_of_exchanges (exchange_eq_some h) hrank
    · exact fun _ => hc ▸ .clustering ..
    · rintro m rfl hr
      exact controls_agree hc hr
  | announcing info rest mine =>
    simp only [stepControl, hc] at h
    obtain ⟨_, hstep, ⟨⟩⟩ := Option.map_eq_some_iff.mp h
    exact controls_announce hc hstep
  | serving info =>
    simp only [stepControl, hc, attend_eq] at h
    obtain ⟨_, hstep, ⟨⟩⟩ := Option.map_eq_some_iff.mp h
    obtain ⟨⟨t, c₁⟩, ht, rfl⟩ := Option.map_eq_some_iff.mp hstep
    exact .attention hc ht
  | parting r s deadline =>
    simp only [stepControl, hc] at h
    obtain ⟨_, hstep, ⟨⟩⟩ := Option.map_eq_some_iff.mp h
    exact controls_part hc hstep
  | stopping r =>
    simp only [stepControl, hc] at h
    cases h
    exact .finish hc
  | finished r =>
    simp only [stepControl, hc] at h
    cases h

theorem controls_of_deferral (h : c.stepDeferral = some c') : Controls x now i c i c' := by
  cases defers_of_step h with
  | submission hc hi => exact .deferral (rank_of_handshake? hc) hi
  | surrender hc => exact .giveUp _ _ rfl rfl (rank_of_handshake? hc)

inductive Reads (i : Index) (c : Connection) : Index → Connection → Prop
  | handshake {stream : Option Stream} {reader : Reader} (hc : c.reader.info? = none)
    (hr : reader.info? = none) : Reads i c i { c with stream, reader }
  | going {info : ClusterInfo} {r r' : Incoming} {c₁ : Connection}
    (hr : c.reader = .serving info r)
    (hread : c.read Frame.messageFormat r = some (.going r', c₁)) :
    Reads i c i { c₁ with reader := .serving info r' }
  | message {info : ClusterInfo} {r : Incoming} {m : Message} {c₁ : Connection}
    (hr : c.reader = .serving info r)
    (hread : c.read Frame.messageFormat r = some (.done (.ok m), c₁)) :
    Reads i c (c₁.take info m i).1 (c₁.take info m i).2
  | failure {info : ClusterInfo} {r : Incoming} {e : ExchangeError} {c₁ : Connection}
    (hr : c.reader = .serving info r)
    (hread : c.read Frame.messageFormat r = some (.done (.error e), c₁)) :
    Reads i c i (c₁.endReader (.error e))
  | merged {info : ClusterInfo} {folder : String} {r : Except ExchangeError Index.Received}
    (hr : c.reader = .merging info folder r) :
    Reads i c (c.merged info folder r i).1 (c.merged info folder r i).2

theorem reads_of_step (h : c.stepReader i = some (i', c')) : Reads i c i' c' := by
  have hone : ∀ {α : Type} {f : Frame.Format α} {reading : Incoming → Reader}
      {done : Except ExchangeError α → Reader} {r : Incoming}, Reader.ReadsOne f reading done →
      c.reader = reading r → (∀ r, (reading r).info? = none) → (∀ a, (done a).info? = none) →
      Reads i c i' c' := by
    intro α f reading done r hone hr hreading hdone
    rw [hone.reads hr] at h
    obtain ⟨⟨p, c₁⟩, hread, ⟨⟩⟩ := Option.map_eq_some_iff.mp h
    have hc : c.reader.info? = none := by rw [hr, hreading]
    have hafter : (Reader.after reading done p).info? = none := by
      cases p with
      | going r' => exact hreading r'
      | done a => exact hdone a
    obtain ⟨_, _, _, _, rfl | rfl⟩ := read_eq_some hread <;> exact .handshake hc hafter
  cases hr : c.reader with
  | hello r => exact hone Reader.readsOne_hello hr (fun _ => rfl) fun _ => rfl
  | first r => exact hone Reader.readsOne_first hr (fun _ => rfl) fun _ => rfl
  | idle | greeted | opened =>
    simp only [stepReader, hr] at h
    cases h
  | serving info r =>
    simp only [stepReader, hr] at h
    obtain ⟨⟨p, c₁⟩, hread, h⟩ := Option.map_eq_some_iff.mp h
    rcases p with r' | (e | m)
    · cases h
      exact .going hr hread
    · cases h
      exact .failure hr hread
    · have hmessage := Reads.message (i := i) hr hread
      rw [show c₁.take info m i = (i', c') from h] at hmessage
      exact hmessage
  | merging info folder r =>
    simp only [stepReader, hr] at h
    have hmerged := Reads.merged (i := i) hr
    rw [Option.some.inj h] at hmerged
    exact hmerged

theorem Reads.of_merging {info : ClusterInfo} {folder : String}
    {r : Except ExchangeError Index.Received} (h : Reads i c i' c')
    (hr : c.reader = .merging info folder r) :
    i' = (c.merged info folder r i).1 ∧ c' = (c.merged info folder r i).2 := by
  cases h with
  | handshake hc => rw [hr] at hc; cases hc
  | going hr' | message hr' | failure hr' => cases hr.symm.trans hr'
  | merged hr' =>
    cases hr.symm.trans hr'
    exact ⟨rfl, rfl⟩

end Connection

end BlockExchange
