import BlockExchange.Proofs.Connection.Agents
namespace BlockExchange

namespace Phase

def rank : Phase → Nat
  | connecting => 0
  | authenticating => 1
  | exchangingClusterConfig => 2
  | active => 3
  | closing => 4
  | closed => 5

theorem rank_injective {p q : Phase} (h : p.rank = q.rank) : p = q := by
  cases p <;> cases q <;> first | rfl | cases h

def Leads (p q : Phase) : Prop :=
  q = p ∨ q.rank = p.rank + 1 ∨ q = closing ∧ p.rank < q.rank

theorem Leads.refl (p : Phase) : p.Leads p := .inl rfl

theorem Leads.rank_le {p q : Phase} (h : p.Leads q) : p.rank ≤ q.rank := by
  rcases h with rfl | h | ⟨-, h⟩ <;> omega

theorem leads_closing {p : Phase} (h : p ≠ closed) : p.Leads closing := by
  cases p with
  | closed => exact absurd rfl h
  | closing => exact .refl closing
  | _ => exact .inr (.inr ⟨rfl, by decide⟩)

theorem Leads.orClosing {p q r : Phase} (h : p.Leads q) (hp : p ≠ closed) (hr : r = q ∨ r = closing) :
    p.Leads r := by
  rcases hr with rfl | rfl
  · exact h
  · exact leads_closing hp

theorem rank_lt_of_leads {p q : Phase} (h : p.Leads q) (hne : q ≠ p) : p.rank < q.rank := by
  rcases h with h | h | ⟨-, h⟩
  · exact absurd h hne
  · omega
  · exact h

structure IsHistory (phases : List Phase) (present : Phase) : Prop where
  last : phases.getLast? = some present
  ascending : phases.Pairwise fun p q => p.rank < q.rank
  closed : present = closed → [closing, closed] <:+ phases

variable {phases : List Phase} {p q : Phase}

theorem isHistory_singleton (h : p ≠ closed) : IsHistory [p] p :=
  ⟨rfl, List.pairwise_singleton _ _, fun heq => absurd heq h⟩

theorem IsHistory.eq_append (h : IsHistory phases p) : ∃ earlier, phases = earlier ++ [p] :=
  List.getLast?_eq_some_iff.mp h.last

theorem IsHistory.mem (h : IsHistory phases p) : p ∈ phases := List.mem_of_getLast? h.last

theorem IsHistory.rank_le (h : IsHistory phases p) {r : Phase} (hr : r ∈ phases) :
    r.rank ≤ p.rank := by
  obtain ⟨earlier, rfl⟩ := h.eq_append
  rcases List.mem_append.mp hr with hr | hr
  · exact Nat.le_of_lt ((List.pairwise_append.mp h.ascending).2.2 r hr p (by simp))
  · exact Nat.le_of_eq (congrArg rank (List.mem_singleton.mp hr))

theorem IsHistory.publish (h : IsHistory phases p) (hlead : p.Leads q) :
    IsHistory (Course.publish q phases) q := by
  unfold Course.publish
  split_ifs with heq
  · rw [h.last, Option.some.injEq] at heq
    exact heq ▸ h
  · have hne : q ≠ p := fun hqp => heq (by rw [h.last, hqp])
    refine ⟨List.getLast?_concat, ?_, ?_⟩
    · apply List.pairwise_append.mpr ⟨h.ascending, List.pairwise_singleton _ _, ?_⟩
      intro r hr q' hq'
      rw [List.mem_singleton.mp hq']
      exact Nat.lt_of_le_of_lt (h.rank_le hr) (rank_lt_of_leads hlead hne)
    · -- Only what is closing can be closed next.
      rintro rfl
      have hp : p = closing := by
        rcases hlead with rfl | hnext | ⟨⟨⟩, -⟩
        · exact absurd rfl hne
        · cases p <;> cases hnext
          rfl
      obtain ⟨earlier, rfl⟩ := h.eq_append
      exact ⟨earlier, by simp [hp]⟩

theorem mem_publish {r : Phase} : r ∈ Course.publish q phases ↔ r ∈ phases ∨ r = q := by
  unfold Course.publish
  split_ifs with h
  · constructor
    · exact .inl
    · rintro (hr | rfl)
      · exact hr
      · exact List.mem_of_getLast? h
  · rw [List.mem_append, List.mem_singleton]

end Phase

namespace Connection

variable {c c' : Connection} {x : Surroundings} {now : Nat} {i i' : Index}

theorem phase_accept (info : ClusterInfo) (s : Submission) (c : Connection) :
    (c.accept x now info s).phase = c.phase ∨ (c.accept x now info s).phase = .closing := by
  unfold accept
  cases s.action with
  | close reason => exact .inr (phase_leave _ _ _ _)
  | _ => exact .inl rfl

theorem phase_settle {id : Int32} {r : Except ExchangeError BlockResponse}
    (h : c.settle id r = some c') : c'.phase = c.phase := by
  obtain ⟨_, -, rfl⟩ := Option.map_eq_some_iff.mp h
  rfl

theorem phase_hear (r : Report) (c : Connection) :
    (c.hear x now r).phase = c.phase ∨ (c.hear x now r).phase = .closing := by
  cases r with
  | response r =>
    rw [hear]
    cases hs : c.settle r.id (.ok r) with
    | none =>
      rw [Option.getD_none]
      exact .inr (c.phase_leave x now _)
    | some c' => exact .inl (phase_settle hs)
  | request r => exact .inl rfl
  | unsent id cause =>
    rw [hear]
    cases hs : c.settle id (.error cause) with
    | none => exact .inl rfl
    | some c' => exact .inl (phase_settle hs)

theorem phase_attend {info : ClusterInfo} (h : c.attend x now info = some c') :
    c'.phase = c.phase ∨ c'.phase = .closing := by
  unfold attend at h
  split at h
  · cases h
    exact phase_accept info _ _
  · cases h
    exact phase_hear _ _
  · cases h
    exact phase_accept info _ _
  · split_ifs at h
    · cases h
      exact .inr (phase_leave _ _ _ _)
    · split at h <;> cases h <;> exact .inr (phase_leave _ _ _ _)

theorem phase_announce {info : ClusterInfo} {rest : List String} {mine : Option Sending}
    (h : c.announce x now info rest mine = some c') :
    c'.phase = .active ∨ c'.phase = .closing := by
  unfold announce at h
  split at h
  · obtain ⟨⟨p, c₁⟩, -, h⟩ := Option.map_eq_some_iff.mp h
    rcases p with s | (e | ⟨⟩) <;> cases h
    · exact .inl rfl
    · exact .inr (phase_leave _ _ _ _)
    · exact .inl rfl
  · cases h
    exact .inl rfl
  · cases h
    exact .inl rfl

theorem phase_part {result : Except ExchangeError Unit} {s : Sending} {deadline : Nat}
    (h : c.part now result s deadline = some c') : c'.phase = .closing := by
  unfold part at h
  split at h
  · cases h
    rfl
  · cases h
    rfl
  · split_ifs at h
    cases h
    rfl

theorem phase_greet (c : Connection) (x : Surroundings) (i : Index) (h : Hello) :
    (c.greet x i h).2.phase = .exchangingClusterConfig ∨ (c.greet x i h).2.phase = .closing := by
  unfold greet
  split
  · exact .inr rfl
  · exact .inl rfl

theorem phase_offer (c : Connection) (h : Hello) (folders : Except ExchangeError (List OfferedFolder)) :
    (c.offer h folders).phase = .exchangingClusterConfig ∨ (c.offer h folders).phase = .closing := by
  cases folders with
  | error e => exact .inr rfl
  | ok folders => exact .inl rfl

theorem phase_agree (c : Connection) (x : Surroundings) (i : Index) (h : Hello) (m : Message) :
    (c.agree x i h m).2.phase = .exchangingClusterConfig ∨ (c.agree x i h m).2.phase = .closing := by
  unfold agree
  split
  · exact .inl rfl
  · exact .inr rfl

theorem phase_activate (c : Connection) (x : Surroundings) (now : Nat)
    (info : Except ExchangeError ClusterInfo) :
    (c.activate x now info).phase = .active ∨ (c.activate x now info).phase = .closing := by
  cases info with
  | error e => exact .inr rfl
  | ok info => exact .inl rfl

theorem Exchanges.phase {α : Type} {mine : Option Sending} {theirs : Option (Except ExchangeError α)}
    {keep : Option Sending → Control} {proceed : α → Connection → Index × Connection}
    (h : Exchanges mine theirs keep proceed i c i' c') (hkeep : ∀ s, (keep s).phase = c.phase) :
    c'.phase = c.phase ∨ c'.phase = .closing ∨
      ∃ a, c'.phase = (proceed a c).2.phase := by
  cases h with
  | surrender e => exact .inr (.inl rfl)
  | going => exact .inl (hkeep _)
  | written => exact .inl (hkeep _)
  | failure => exact .inr (.inl rfl)
  | @both a => exact .inr (.inr ⟨a, rfl⟩)

theorem leads_stepControl (h : c.stepControl x now i = some (i', c')) : c.phase.Leads c'.phase := by
  cases hc : c.control with
  | dialing =>
    have hp : c.phase = .connecting := congrArg Control.phase hc
    simp only [stepControl, hc] at h
    split_ifs at h <;> cases h <;> rw [hp]
    · exact Phase.leads_closing nofun
    · exact .inr (.inl rfl)
  | greeting mine =>
    have hp : c.phase = .authenticating := congrArg Control.phase hc
    rw [stepControl_greeting hc] at h
    obtain heq | heq | ⟨a, heq⟩ := (exchange_eq_some h).phase fun _ => hp.symm <;> rw [heq]
    · exact .refl _
    · exact hp ▸ Phase.leads_closing nofun
    · rw [hp]
      exact Phase.Leads.orClosing (.inr (.inl rfl)) nofun (c.phase_greet x i a)
  | building hello folders =>
    have hp : c.phase = .exchangingClusterConfig := congrArg Control.phase hc
    simp only [stepControl, hc] at h
    cases h
    rw [hp]
    exact (Phase.Leads.refl _).orClosing nofun (c.phase_offer hello folders)
  | clustering hello mine =>
    have hp : c.phase = .exchangingClusterConfig := congrArg Control.phase hc
    rw [stepControl_clustering hc] at h
    obtain heq | heq | ⟨a, heq⟩ := (exchange_eq_some h).phase fun _ => hp.symm <;> rw [heq]
    · exact .refl _
    · exact hp ▸ Phase.leads_closing nofun
    · rw [hp]
      exact (Phase.Leads.refl _).orClosing nofun (c.phase_agree x i hello a)
  | agreeing info =>
    have hp : c.phase = .exchangingClusterConfig := congrArg Control.phase hc
    simp only [stepControl, hc] at h
    cases h
    rw [hp]
    exact Phase.Leads.orClosing (.inr (.inl rfl)) nofun (c.phase_activate x now info)
  | announcing info rest mine =>
    have hp : c.phase = .active := congrArg Control.phase hc
    simp only [stepControl, hc] at h
    obtain ⟨_, hstep, ⟨⟩⟩ := Option.map_eq_some_iff.mp h
    rw [hp]
    exact (Phase.Leads.refl _).orClosing nofun (phase_announce hstep)
  | serving info =>
    have hp : c.phase = .active := congrArg Control.phase hc
    simp only [stepControl, hc] at h
    obtain ⟨_, hstep, ⟨⟩⟩ := Option.map_eq_some_iff.mp h
    exact (Phase.Leads.refl _).orClosing (by rw [hp]; nofun) (phase_attend hstep)
  | parting result s deadline =>
    have hp : c.phase = .closing := congrArg Control.phase hc
    simp only [stepControl, hc] at h
    obtain ⟨_, hstep, ⟨⟩⟩ := Option.map_eq_some_iff.mp h
    rw [hp, phase_part hstep]
    exact .refl _
  | stopping result =>
    have hp : c.phase = .closing := congrArg Control.phase hc
    simp only [stepControl, hc] at h
    cases h
    rw [hp]
    exact .inr (.inl rfl)
  | finished result =>
    simp only [stepControl, hc] at h
    cases h

theorem rank_of_handshake? {mine : Option Sending} (h : c.control.handshake? = some mine) :
    c.phase.rank < Phase.active.rank := by
  rw [phase]
  cases hc : c.control with rw [hc] at h
  | dialing | greeting | building | clustering | agreeing => simp [Control.phase, Phase.rank]
  | _ => cases h

theorem leads_stepDeferral (h : c.stepDeferral = some c') : c.phase.Leads c'.phase := by
  cases defers_of_step h with
  | submission => exact .refl _
  | surrender hc =>
    have hrank := rank_of_handshake? hc
    refine Phase.leads_closing fun hclosed => ?_
    rw [hclosed] at hrank
    exact absurd hrank (by decide)

theorem leads_step {a : Agent} (h : c.step x now a i = some (i', c')) : c.phase.Leads c'.phase := by
  have hsame (ha : a ≠ .control) (hd : a ≠ .deferral) : c.phase.Leads c'.phase :=
    .inl (congrArg Control.phase (control_step ha hd h))
  cases acts_of_step h with
  | control hstep => exact leads_stepControl hstep
  | deferral hstep => exact leads_stepDeferral hstep
  | _ => exact hsame nofun nofun

end Connection

namespace Session

variable {s s' : Session}

theorem stepPeer_eq_some {move : Peer → Stream → Option (Stream × Peer)}
    (h : s.stepPeer move = some s') :
    ∃ stream after peer, s.connection.stream = some stream ∧
      move s.peer stream = some (after, peer) ∧
      s' = ⟨{ s.connection with stream := some after }, peer⟩ := by
  obtain ⟨stream, hstream, h⟩ := Option.bind_eq_some_iff.mp h
  obtain ⟨⟨after, peer⟩, hmove, rfl⟩ := Option.map_eq_some_iff.mp h
  exact ⟨stream, after, peer, hstream, hmove, rfl⟩

theorem phase_dialed (device : DeviceId) (address : String) (found : Option (Stream × Peer)) :
    (dialed device address found).phase = .connecting := rfl

def PeerMoves (s s' : Session) : Prop :=
  s.stepPeer Peer.stepReading = some s' ∨ s.stepPeer Peer.stepWriting = some s'

theorem PeerMoves.rest (h : s.PeerMoves s') :
    ∃ stream peer, s' = ⟨{ s.connection with stream }, peer⟩ := by
  obtain h | h := h
  · obtain ⟨_, _, _, _, _, rfl⟩ := stepPeer_eq_some h
    exact ⟨_, _, rfl⟩
  · obtain ⟨_, _, _, _, _, rfl⟩ := stepPeer_eq_some h
    exact ⟨_, _, rfl⟩

end Session

namespace Course

variable {c : Course}

inductive TakesTurn (x : Surroundings) (c : Course) : Party → Course → Prop
  | waiting {p : Party} (h : c.session.step x c.now p c.index = none) : TakesTurn x c p c
  | agent {a : Agent} {i : Index} {connection : Connection}
    (h : c.session.connection.step x c.now a c.index = some (i, connection)) :
    TakesTurn x c (.agent a) (c.proceed i { c.session with connection })
  | peer {p : Party} {s : Session} (hp : ∀ a, p ≠ .agent a) (h : c.session.PeerMoves s) :
    TakesTurn x c p (c.proceed c.index s)

theorem takesTurn_move (x : Surroundings) (p : Party) (c : Course) :
    c.TakesTurn x p (c.move x (.party p)) := by
  rw [move]
  cases hstep : c.session.step x c.now p c.index with
  | none => exact .waiting hstep
  | some next =>
    cases p with
    | agent a =>
      obtain ⟨_, hagent, rfl⟩ := Option.map_eq_some_iff.mp hstep
      exact .agent hagent
    | peerReading =>
      obtain ⟨s, hpeer, rfl⟩ := Option.map_eq_some_iff.mp hstep
      exact .peer (fun _ => nofun) (.inl hpeer)
    | peerWriting =>
      obtain ⟨s, hpeer, rfl⟩ := Option.map_eq_some_iff.mp hstep
      exact .peer (fun _ => nofun) (.inr hpeer)

theorem isHistory_starting {s : Session} (h : s.phase ≠ .closed) (i : Index) (now : Nat) :
    Phase.IsHistory (starting s i now).phases (starting s i now).session.phase :=
  Phase.isHistory_singleton h

end Course

end BlockExchange
