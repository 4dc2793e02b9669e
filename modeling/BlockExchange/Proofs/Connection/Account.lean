import BlockExchange.Proofs.Connection.Closing
import Mathlib.Data.List.Nodup
import Mathlib.Data.List.Perm.Basic

namespace BlockExchange

namespace Inbox

variable {b b' : Inbox} {s : Submission}

def submissions (b : Inbox) : List Submission := b.accepted ++ b.refused

theorem submissions_enter (s : Submission) (b : Inbox) :
    (b.enter s).submissions = b.submissions ++ [s] := by
  cases b <;> rfl

theorem submissions_of_take? (h : b.take? = some (s, b')) : b.submissions = s :: b'.submissions := by
  cases b with
  | held t waiting => cases waiting <;> cases h <;> rfl
  | _ => cases h

theorem submissions_of_occupy? (h : b.occupy? = some b') : b'.submissions = b.submissions := by
  cases b with
  | admitted t waiting =>
    cases h
    rfl
  | _ => cases h

end Inbox

namespace Submission

def request? (s : Submission) : Option Nat :=
  match s.action with
  | .request _ => some s.call
  | _ => none

def requests (submissions : List Submission) : List Nat := submissions.filterMap request?

@[simp] theorem requests_nil : requests [] = [] := rfl

@[simp] theorem requests_cons (s : Submission) (l : List Submission) :
    requests (s :: l) = s.request?.toList ++ requests l := by
  unfold requests
  rw [List.filterMap_cons]
  cases s.request? <;> rfl

@[simp] theorem requests_append (l l' : List Submission) :
    requests (l ++ l') = requests l ++ requests l' := List.filterMap_append

theorem requests_concat (l : List Submission) (s : Submission) :
    requests (l ++ [s]) = requests l ++ s.request?.toList := by
  rw [requests_append, requests_cons, requests_nil, List.append_nil]

end Submission

def Topic.request? : Topic → Option Nat
  | submission s => s.request?
  | _ => none

def Outcome.responses (outcomes : List (Nat × Outcome)) :
    List (Nat × Except ExchangeError BlockResponse) :=
  outcomes.filterMap fun
    | (call, .response r) => some (call, r)
    | _ => none

namespace Outcome

@[simp] theorem responses_append (l l' : List (Nat × Outcome)) :
    responses (l ++ l') = responses l ++ responses l' := List.filterMap_append

end Outcome

namespace Connection

open Submission Outcome

variable {c c' : Connection} {x : Surroundings} {now : Nat} {i i' : Index}

def outcomes (c : Connection) : List (Nat × Outcome) := c.answers ++ c.replies

def underWay (c : Connection) : List Nat :=
  c.pending.map (·.2) ++ requests c.deferred ++ requests c.inbox.submissions

def requests (c : Connection) : List Nat := (responses c.outcomes).map (·.1) ++ c.underWay

structure SameRequests (c c' : Connection) : Prop where
  pending : c'.pending = c.pending
  nextId : c'.nextId = c.nextId
  deferred : c'.deferred = c.deferred
  inbox : c'.inbox.submissions = c.inbox.submissions
  responses : responses c'.outcomes = responses c.outcomes

theorem SameRequests.refl (c : Connection) : c.SameRequests c := ⟨rfl, rfl, rfl, rfl, rfl⟩

theorem SameRequests.requests_eq (h : c.SameRequests c') : c'.requests = c.requests := by
  rw [requests, requests, underWay, underWay, h.responses, h.pending, h.deferred, h.inbox]

theorem sameRequests_leave (x : Surroundings) (now : Nat) (e : Exit) (c : Connection) :
    c.SameRequests (c.leave x now e) := by
  obtain ⟨stream, -, ⟨s, deadline, heq⟩ | heq⟩ := c.leave_cases x now e <;> rw [heq] <;>
    exact ⟨rfl, rfl, rfl, rfl, rfl⟩

theorem responses_reply (c : Connection) (call : Nat) (o : Outcome) :
    Outcome.responses (c.reply call o).outcomes =
      Outcome.responses c.outcomes ++ Outcome.responses [(call, o)] := by
  rw [← responses_append, outcomes, outcomes, reply, List.append_assoc]

theorem Works.sameRequests (h : c.Works c') : c.SameRequests c' := by
  cases h with
  | going hs => exact ⟨rfl, rfl, rfl, rfl, rfl⟩
  | @done stream w workers hs r =>
    cases hw : w.errand with
    | request id => cases r <;> exact ⟨rfl, rfl, rfl, rfl, rfl⟩
    | response => cases r <;> exact ⟨rfl, rfl, rfl, rfl, rfl⟩
    | update call =>
      refine ⟨rfl, rfl, rfl, rfl, ?_⟩
      exact (responses_reply _ call (.updated r)).trans (List.append_nil _)

theorem KeepsAlive.sameRequests (h : c.KeepsAlive c') : c.SameRequests c' := by
  cases h <;> exact ⟨rfl, rfl, rfl, rfl, rfl⟩

theorem Calls.sameRequests (h : c.Calls c') : c.SameRequests c' := by
  cases h with
  | submission hi => exact ⟨rfl, rfl, rfl, Inbox.submissions_of_occupy? hi, rfl⟩
  | answers =>
    refine ⟨rfl, rfl, rfl, rfl, ?_⟩
    rw [outcomes, outcomes, List.append_nil]

theorem sameRequests_stepReader (h : c.stepReader i = some (i', c')) : c.SameRequests c' := by
  obtain ⟨_, _, _, _, rfl⟩ := stepReader_rest h
  exact ⟨rfl, rfl, rfl, rfl, rfl⟩

theorem responses_lost (e : ExchangeError) (submissions : List Submission) :
    Outcome.responses (submissions.filterMap (Submission.lost e)) =
      (Submission.requests submissions).map fun call => (call, .error e) := by
  induction submissions with
  | nil => rfl
  | cons s rest ih =>
    obtain ⟨call, action⟩ := s
    cases action with
    | request r => exact congrArg _ ih
    | _ => exact ih

theorem responses_leftovers (c : Connection) :
    Outcome.responses c.leftovers =
      (c.pending.map (·.2) ++ Submission.requests c.deferred ++
          Submission.requests c.inbox.accepted).map (fun call => (call, .error .cancelled)) ++
        (Submission.requests c.inbox.refused).map fun call => (call, .error .closed) := by
  have hworkers : Outcome.responses (c.workers.filterMap Worker.lost) = [] := by
    rw [Outcome.responses, List.filterMap_filterMap]
    apply List.filterMap_eq_nil_iff.mpr
    intro w _
    unfold Worker.lost
    cases w.errand <;> rfl
  have hpending : ∀ f : Int32 × Nat → Nat × Outcome,
      (∀ p, f p = (p.2, .response (.error .cancelled))) → Outcome.responses (c.pending.map f) =
        (c.pending.map (·.2)).map fun call => (call, .error .cancelled) := by
    intro f hf
    rw [funext hf, Outcome.responses, List.filterMap_map, List.map_map]
    exact congrFun List.filterMap_eq_map' c.pending
  have hclosers : Outcome.responses (c.closers.map fun call => (call, .closed)) = [] := by
    rw [Outcome.responses, List.filterMap_map]
    exact List.filterMap_eq_nil_iff.mpr fun _ _ => rfl
  simp only [leftovers, responses_append, hworkers, hclosers, responses_lost, List.map_append,
    List.nil_append, List.append_nil]
  rw [hpending]
  exact fun _ => rfl

theorem responses_finish (r : Except ExchangeError Unit) (c : Connection) :
    Outcome.responses (c.finish r).outcomes =
      Outcome.responses c.outcomes ++ Outcome.responses c.leftovers := by
  rw [← responses_append, outcomes, outcomes, finish, List.append_assoc]

theorem perm_requests_finish (r : Except ExchangeError Unit) (c : Connection) :
    (c.finish r).requests.Perm c.requests := by
  have hinbox : Submission.requests c.inbox.accepted ++ Submission.requests c.inbox.refused =
      Submission.requests c.inbox.submissions := (requests_append _ _).symm
  have hempty : (c.finish r).underWay = [] := rfl
  have hmap : ∀ (e : ExchangeError) (calls : List Nat), (calls.map fun call =>
      (call, (.error e : Except ExchangeError BlockResponse))).map (·.1) = calls := by
    intro e calls
    rw [List.map_map]
    exact List.map_id _
  rw [requests, hempty, List.append_nil, responses_finish, responses_leftovers, List.map_append,
    List.map_append, hmap, hmap, requests, underWay, ← hinbox]
  simp only [List.append_assoc]
  exact .refl _

theorem perm_cons_eraseP {α : Type} {p : α → Bool} {l : List α} {a : α} (h : l.find? p = some a) :
    l.Perm (a :: l.eraseP p) := by
  obtain ⟨ha, front, rest, rfl, hfront⟩ := List.find?_eq_some_iff_append.mp h
  have herase : (front ++ a :: rest).eraseP p = front ++ rest := by
    rw [List.eraseP_append_right _ fun b hb => by simpa using hfront b hb,
      List.eraseP_cons_of_pos ha]
  rw [herase]
  exact List.perm_middle

theorem count_requests (c : Connection) (n : Nat) :
    c.requests.count n = ((Outcome.responses c.outcomes).map (·.1)).count n +
      (c.pending.map (·.2)).count n + (Submission.requests c.deferred).count n +
        (Submission.requests c.inbox.submissions).count n := by
  simp only [requests, underWay, List.count_append, Nat.add_assoc]

theorem TakesUp.perm_requests {t : Topic} (h : c.TakesUp t c') :
    (c'.requests ++ t.request?.toList).Perm c.requests := by
  have hsame : ∀ {c' : Connection}, t.request? = none → c'.requests = c.requests →
      (c'.requests ++ t.request?.toList).Perm c.requests := by
    intro c' ht heq
    rw [ht, heq, Option.toList_none, List.append_nil]
  cases h with
  | deferred hd =>
    apply List.perm_iff_count.mpr
    intro n
    simp only [List.count_append, count_requests, hd, requests_cons, outcomes, Topic.request?]
    omega
  | inbox hd hr hi =>
    apply List.perm_iff_count.mpr
    intro n
    simp only [List.count_append, count_requests, Inbox.submissions_of_take? hi, requests_cons,
      outcomes, Topic.request?]
    omega
  | report hd hr => exact hsame rfl rfl
  | abandonment ha => exact hsame rfl rfl
  | peerClosed he => exact hsame rfl rfl
  | failed he => exact hsame rfl rfl

theorem Topic.request?_of_settling? {t : Topic} {p : Int32 × Except ExchangeError BlockResponse}
    (h : t.settling? = some p) : t.request? = none := by
  cases t with
  | report r => rfl
  | _ => cases h

theorem Treats.perm_requests {t : Topic} (h : Treats x now c t c') :
    c'.requests.Perm (c.requests ++ t.request?.toList) := by
  have hsame : ∀ {c' : Connection}, t.request? = none → c.SameRequests c' →
      c'.requests.Perm (c.requests ++ t.request?.toList) := by
    intro c' ht hsame
    rw [ht, hsame.requests_eq, Option.toList_none, List.append_nil]
  cases h with
  | request call r =>
    apply List.perm_iff_count.mpr
    intro n
    simp only [List.count_append, count_requests, dispatch, outcomes, Topic.request?,
      Submission.request?, List.map_append, List.map_singleton, Option.toList_some]
    omega
  | update call p => exact hsame rfl ⟨rfl, rfl, rfl, rfl, rfl⟩
  | confirm call r =>
    exact hsame rfl ⟨rfl, rfl, rfl, rfl, (responses_reply _ _ _).trans (List.append_nil _)⟩
  | close call reason => exact hsame rfl (c.sameRequests_leave x now _)
  | @settling t id r call ht hp =>
    have hcount := fun n => ((perm_cons_eraseP hp).map (·.2)).count_eq n
    apply List.perm_iff_count.mpr
    intro n
    have hcall := hcount n
    rw [List.map_cons, ← List.singleton_append, List.count_append] at hcall
    rw [Topic.request?_of_settling? ht, Option.toList_none, List.append_nil, count_requests,
      count_requests, responses_reply, List.map_append, List.count_append, hcall]
    simp only [outcomes, Outcome.responses, reply, List.filterMap_cons, List.filterMap_nil,
      List.map_cons, List.map_nil]
    omega
  | unknown hp => exact hsame rfl (c.sameRequests_leave x now _)
  | stale cause hp => exact hsame rfl (.refl c)
  | serving r answer => exact hsame rfl ⟨rfl, rfl, rfl, rfl, rfl⟩
  | exit e => exact hsame rfl (c.sameRequests_leave x now _)

theorem verdict_leave (x : Surroundings) (now : Nat) (e : Exit) (c : Connection) :
    (c.leave x now e).control.verdict? = some e.result ∧
      (c.leave x now e).control.result? = none := by
  obtain ⟨stream, -, ⟨s, deadline, heq⟩ | heq⟩ := c.leave_cases x now e <;> rw [heq] <;>
    exact ⟨rfl, rfl⟩

theorem TakesUp.frame {t : Topic} (h : c.TakesUp t c') : c'.pending = c.pending ∧
    c'.nextId = c.nextId ∧ c'.control = c.control ∧ c'.outcomes = c.outcomes := by
  cases h <;> exact ⟨rfl, rfl, rfl, rfl⟩

theorem TakesUp.queue {t : Topic} (h : c.TakesUp t c') :
    Submission.requests c.deferred ++ Submission.requests c.inbox.submissions =
      t.request?.toList ++
        (Submission.requests c'.deferred ++ Submission.requests c'.inbox.submissions) := by
  cases h with
  | deferred hd => rw [hd, requests_cons, List.append_assoc]; rfl
  | inbox hd hr hi => rw [hd, Inbox.submissions_of_take? hi, requests_nil, requests_cons]; rfl
  | report hd hr => rfl
  | abandonment ha => rfl
  | peerClosed he => rfl
  | failed he => rfl

theorem Treats.queue {t : Topic} (h : Treats x now c t c') :
    c'.deferred = c.deferred ∧ c'.inbox.submissions = c.inbox.submissions := by
  cases h with
  | close | unknown | exit =>
    exact ⟨(c.sameRequests_leave x now _).deferred, (c.sameRequests_leave x now _).inbox⟩
  | _ => exact ⟨rfl, rfl⟩

theorem Treats.nextId_eq {t : Topic} (h : Treats x now c t c') :
    c'.nextId = c.nextId + Int32.ofNat t.request?.toList.length := by
  have hsame : ∀ {c' : Connection}, t.request? = none → c'.nextId = c.nextId →
      c'.nextId = c.nextId + Int32.ofNat t.request?.toList.length := by
    intro c' ht heq
    rw [ht, heq]
    exact (Int32.add_zero _).symm
  cases h with
  | request call r => rfl
  | update call p => exact hsame rfl rfl
  | confirm call r => exact hsame rfl rfl
  | settling ht hp => exact hsame (Topic.request?_of_settling? ht) rfl
  | close call reason => exact hsame rfl (c.sameRequests_leave x now _).nextId
  | unknown hp => exact hsame rfl (c.sameRequests_leave x now _).nextId
  | stale cause hp => exact hsame rfl rfl
  | serving r answer => exact hsame rfl rfl
  | exit e => exact hsame rfl (c.sameRequests_leave x now _).nextId

theorem not_mem_pending {id : Int32} (h : c.pending.find? (·.1 = id) = none) (call : Nat) :
    (id, call) ∉ c.pending := by
  intro hmem
  exact absurd (List.find?_eq_none.mp h _ hmem) (by simp)

theorem mem_eraseP_pending (hd : (c.pending.map (·.1)).Nodup) (id id' : Int32) (call : Nat) :
    (id', call) ∈ c.pending.eraseP (·.1 = id) ↔ (id', call) ∈ c.pending ∧ id ≠ id' := by
  generalize c.pending = pending at hd
  induction pending with
  | nil => simp
  | cons p rest ih =>
    rw [List.map_cons, List.nodup_cons] at hd
    by_cases hp : p.1 = id
    · rw [List.eraseP_cons_of_pos (by simpa using hp), List.mem_cons]
      constructor
      · intro hmem
        refine ⟨.inr hmem, ?_⟩
        rintro rfl
        exact hd.1 (hp ▸ List.mem_map.mpr ⟨_, hmem, rfl⟩)
      · rintro ⟨rfl | hmem, hne⟩
        · exact absurd hp.symm hne
        · exact hmem
    · rw [List.eraseP_cons_of_neg (by simpa using hp), List.mem_cons, List.mem_cons, ih hd.2]
      constructor
      · rintro (rfl | ⟨hmem, hne⟩)
        · exact ⟨.inl rfl, fun heq => hp heq.symm⟩
        · exact ⟨.inr hmem, hne⟩
      · rintro ⟨rfl | hmem, hne⟩
        · exact .inl rfl
        · exact .inr ⟨hmem, hne⟩

theorem Treats.mem_pending {t : Topic} (h : Treats x now c t c')
    (hd : (c.pending.map (·.1)).Nodup) (id : Int32) (call : Nat) :
    (id, call) ∈ c'.pending ↔ ((id, call) ∈ c.pending ∧ ∀ r, t.settling? ≠ some (id, r)) ∨
      t.request? = some call ∧ id = c.nextId := by
  have hsame : ∀ {c' : Connection}, t.request? = none →
      ((id, call) ∈ c.pending → ∀ r, t.settling? ≠ some (id, r)) → c'.pending = c.pending →
      ((id, call) ∈ c'.pending ↔ ((id, call) ∈ c.pending ∧ ∀ r, t.settling? ≠ some (id, r)) ∨
        t.request? = some call ∧ id = c.nextId) := by
    intro c' hrequest hsettling heq
    rw [heq, hrequest]
    constructor
    · exact fun hmem => .inl ⟨hmem, hsettling hmem⟩
    · rintro (⟨hmem, -⟩ | ⟨⟨⟩, -⟩)
      exact hmem
  cases h with
  | request call' r =>
    constructor
    · intro hmem
      rcases List.mem_append.mp hmem with hmem | hmem
      · exact .inl ⟨hmem, nofun⟩
      · cases List.mem_singleton.mp hmem
        exact .inr ⟨rfl, rfl⟩
    · rintro (⟨hmem, -⟩ | ⟨⟨⟩, rfl⟩)
      · exact List.mem_append_left _ hmem
      · exact List.mem_append_right _ (List.mem_singleton_self _)
  | @settling t id' r call' ht hp =>
    refine (mem_eraseP_pending hd id' id call).trans ?_
    rw [Topic.request?_of_settling? ht, ht]
    constructor
    · rintro ⟨hmem, hne⟩
      refine .inl ⟨hmem, ?_⟩
      rintro r' ⟨⟩
      exact hne rfl
    · rintro (⟨hmem, hne⟩ | ⟨⟨⟩, -⟩)
      refine ⟨hmem, ?_⟩
      rintro rfl
      exact hne r rfl
  | update call p => exact hsame rfl (fun _ => nofun) rfl
  | confirm call r => exact hsame rfl (fun _ => nofun) rfl
  | close call reason => exact hsame rfl (fun _ => nofun) (c.sameRequests_leave x now _).pending
  | @unknown r hp =>
    refine hsame rfl ?_ (c.sameRequests_leave x now _).pending
    rintro hmem r' ⟨⟩
    exact not_mem_pending hp call hmem
  | stale cause hp =>
    refine hsame rfl ?_ rfl
    rintro hmem r' ⟨⟩
    exact not_mem_pending hp call hmem
  | serving r answer => exact hsame rfl (fun _ => nofun) rfl
  | exit e => exact hsame rfl (fun _ => nofun) (c.sameRequests_leave x now _).pending

theorem Treats.mem_responses {t : Topic} (h : Treats x now c t c')
    (hd : (c.pending.map (·.1)).Nodup) (call : Nat) (r : Except ExchangeError BlockResponse) :
    (call, r) ∈ Outcome.responses c'.outcomes ↔ (call, r) ∈ Outcome.responses c.outcomes ∨
      ∃ id, t.settling? = some (id, r) ∧ (id, call) ∈ c.pending := by
  have hsame : ∀ {c' : Connection}, (∀ id, t.settling? = some (id, r) → (id, call) ∉ c.pending) →
      Outcome.responses c'.outcomes = Outcome.responses c.outcomes →
      ((call, r) ∈ Outcome.responses c'.outcomes ↔ (call, r) ∈ Outcome.responses c.outcomes ∨
        ∃ id, t.settling? = some (id, r) ∧ (id, call) ∈ c.pending) := by
    intro c' hnot heq
    rw [heq]
    constructor
    · exact .inl
    · rintro (hmem | ⟨id, ht, hmem⟩)
      · exact hmem
      · exact absurd hmem (hnot id ht)
  cases h with
  | @settling t id r' call' ht hp =>
    rw [responses_reply]
    constructor
    · intro hmem
      rcases List.mem_append.mp hmem with hmem | hmem
      · exact .inl hmem
      · cases List.mem_singleton.mp hmem
        exact .inr ⟨id, ht, List.mem_of_find?_eq_some hp⟩
    · rintro (hmem | ⟨id', ht', hmem⟩)
      · exact List.mem_append_left _ hmem
      · cases ht.symm.trans ht'
        have hcall : call' = call := by
          have hpair := List.inj_on_of_nodup_map hd (List.mem_of_find?_eq_some hp) hmem rfl
          exact congrArg Prod.snd hpair
        rw [hcall]
        exact List.mem_append_right _ (List.mem_singleton_self _)
  | request call' r' => exact hsame (fun _ => nofun) rfl
  | update call' p => exact hsame (fun _ => nofun) rfl
  | confirm call' r' =>
    exact hsame (fun _ => nofun) ((responses_reply _ _ _).trans (List.append_nil _))
  | close call' reason =>
    exact hsame (fun _ => nofun) (c.sameRequests_leave x now _).responses
  | @unknown r' hp =>
    refine hsame ?_ (c.sameRequests_leave x now _).responses
    rintro id ⟨⟩
    exact not_mem_pending hp call
  | stale cause hp =>
    refine hsame ?_ rfl
    rintro id ⟨⟩
    exact not_mem_pending hp call
  | serving r' answer => exact hsame (fun _ => nofun) rfl
  | exit e => exact hsame (fun _ => nofun) (c.sameRequests_leave x now _).responses

theorem Treats.nodup_pending {t : Topic} (h : Treats x now c t c')
    (hd : (c.pending.map (·.1)).Nodup) (hnext : ∀ call, (c.nextId, call) ∉ c.pending) :
    (c'.pending.map (·.1)).Nodup := by
  cases h with
  | request call r =>
    have heq : (c.pending ++ [(c.nextId, call)]).map (·.1) = c.pending.map (·.1) ++ [c.nextId] :=
      List.map_append
    change ((c.pending ++ [(c.nextId, call)]).map (·.1)).Nodup
    rw [heq, ← List.concat_eq_append]
    refine List.Nodup.concat ?_ hd
    intro hmem
    obtain ⟨⟨id, call'⟩, hpair, rfl⟩ := List.mem_map.mp hmem
    exact hnext call' hpair
  | settling ht hp => exact hd.sublist (List.eraseP_sublist.map _)
  | close | unknown | exit =>
    rw [(c.sameRequests_leave x now _).pending]
    exact hd
  | _ => exact hd

theorem Treats.result?_eq_none {t : Topic} (h : Treats x now c t c')
    (hc : c.control.result? = none) : c'.control.result? = none := by
  cases h with
  | close | unknown | exit => exact (c.verdict_leave x now _).2
  | _ => exact hc

theorem Treats.verdict_unknown {r : BlockResponse} (h : Treats x now c (.report (.response r)) c')
    (hp : ∀ call, (r.id, call) ∉ c.pending) :
    c'.control.verdict? = some (.error (.violation (.unknownResponse r.id))) := by
  cases h with
  | settling ht hfind =>
    cases ht
    exact absurd (List.mem_of_find?_eq_some hfind) (hp _)
  | unknown hnone => exact (c.verdict_leave x now _).1

def takenUp? (c : Connection) : Option Topic :=
  match c.control with
  | .serving _ => c.topic?.map (·.1)
  | _ => none

theorem takenUp?_eq_none (h : ∀ info, c.control ≠ .serving info) : c.takenUp? = none := by
  unfold takenUp?
  split
  · rename_i hc
    exact absurd hc (h _)
  · rfl

theorem takenUp?_eq_some {info : ClusterInfo} {t : Topic} (hc : c.control = .serving info)
    (ht : c.topic? = some (t, c')) : c.takenUp? = some t := by
  simp only [takenUp?, hc, ht, Option.map_some]

theorem takenUp?_of_deferral (h : c.stepDeferral = some c') : c.takenUp? = none := by
  apply takenUp?_eq_none
  intro info hc
  have hnone : c.control.handshake? = none := congrArg Control.handshake? hc
  cases defers_of_step h with
  | submission hsome | surrender hsome => cases hnone.symm.trans hsome

theorem takenUp?_of_waiting (h : c.stepControl x now i = none) : c.takenUp? = none := by
  unfold takenUp?
  split
  · rename_i info hc
    simp only [stepControl, hc, attend_eq, Option.map_eq_none_iff] at h
    rw [h]
    rfl
  · rfl

inductive Disposes (x : Surroundings) (now : Nat) (c : Connection) :
    Option Topic → Connection → Prop
  | same {c' : Connection} (h : c.SameRequests c') (hc : c.control.result? = none)
    (hc' : c'.control.result? = none)
    (hv : ∀ r, c.control.verdict? = some r → c'.control.verdict? = some r) :
    Disposes x now c none c'
  | deferral {s : Submission} {inbox : Inbox} (hc : c.phase.rank < Phase.active.rank)
    (hi : c.inbox.take? = some (s, inbox)) :
    Disposes x now c none { c with inbox, deferred := c.deferred ++ [s] }
  | attention {info : ClusterInfo} {t : Topic} {c₁ : Connection} (hc : c.control = .serving info)
    (ht : c.TakesUp t c₁) : Disposes x now c (some t) (c₁.treat x now info t)
  | finish {r : Except ExchangeError Unit} (hc : c.control = .stopping r) :
    Disposes x now c none (c.finish r)

theorem Controls.disposes (h : Controls x now i c i' c') : c.Disposes x now c.takenUp? c' := by
  have hsame : ∀ {c' : Connection}, (∀ info, c.control ≠ .serving info) → c.SameRequests c' →
      c.control.result? = none → c'.control.result? = none →
      (∀ r, c.control.verdict? = some r → c'.control.verdict? = some r) →
      c.Disposes x now c.takenUp? c' :=
    fun hne hs hc hc' hv => takenUp?_eq_none hne ▸ .same hs hc hc' hv
  -- Before a connection is active nothing has been decided on.
  have hearly : c.phase.rank < Phase.active.rank → (∀ info, c.control ≠ .serving info) ∧
      c.control.result? = none ∧ c.control.verdict? = none := by
    intro hrank
    rw [phase] at hrank
    cases hc : c.control with rw [hc] at hrank
    | dialing | greeting | building | clustering | agreeing =>
      exact ⟨fun _ hserving => (by cases hserving), rfl, rfl⟩
    | _ => simp [Control.phase, Phase.rank] at hrank
  have hundecided : ∀ {before : Control} {c' : Connection}, c.control = before →
      (∀ info, before ≠ .serving info) → before.result? = none → before.verdict? = none →
      c.SameRequests c' → c'.control.result? = none → c.Disposes x now c.takenUp? c' := by
    rintro before c' rfl hne hresult hverdict hs hc'
    exact hsame hne hs hresult hc' (by simp [hverdict])
  cases h with
  | opening mine hc =>
    exact hundecided hc (by simp) rfl rfl ⟨rfl, rfl, rfl, rfl, rfl⟩ rfl
  | deferral hrank hi =>
    rw [takenUp?_eq_none (hearly hrank).1]
    exact .deferral hrank hi
  | @writing stream control hs hc =>
    generalize hcontrol : c.control = before at hc
    cases hc <;>
      exact hsame (by simp [hcontrol]) ⟨rfl, rfl, rfl, rfl, rfl⟩ (by rw [hcontrol]; rfl) rfl
        (by simp [hcontrol, Control.verdict?])
  | surrender e hs hrank =>
    obtain ⟨hne, hresult, hverdict⟩ := hearly hrank
    exact hundecided rfl hne hresult hverdict ⟨rfl, rfl, rfl, rfl, rfl⟩ rfl
  | introduction folders hc hr =>
    exact hundecided hc (by simp) rfl rfl ⟨rfl, rfl, rfl, rfl, rfl⟩ rfl
  | offer mine hc =>
    exact hundecided hc (by simp) rfl rfl ⟨rfl, rfl, rfl, rfl, rfl⟩ rfl
  | notice hc hr hi =>
    exact hundecided hc (by simp) rfl rfl ⟨rfl, rfl, rfl, rfl, rfl⟩ rfl
  | agreement hc =>
    exact hundecided hc (by simp) rfl rfl ⟨rfl, rfl, rfl, rfl, rfl⟩ rfl
  | @failure info rest mine stream e hs hc =>
    have hleave := sameRequests_leave x now (.failed e) { c with stream }
    exact hundecided hc (by simp) rfl rfl ⟨hleave.pending, hleave.nextId, hleave.deferred, hleave.inbox,
      hleave.responses⟩ (verdict_leave x now (.failed e) { c with stream }).2
  | announced hc =>
    exact hundecided hc (by simp) rfl rfl ⟨rfl, rfl, rfl, rfl, rfl⟩ rfl
  | @attention info t c₁ hc ht =>
    rw [takenUp?_eq_some hc ht]
    exact .attention hc (takesUp_of_topic? ht)
  | parted hs hc =>
    exact hsame (by simp [hc]) ⟨rfl, rfl, rfl, rfl, rfl⟩ (by rw [hc]; rfl) rfl (by simp [hc, Control.verdict?])
  | finish hc =>
    rw [takenUp?_eq_none (by simp [hc])]
    exact .finish hc

end Connection

theorem Connection.submit_cases (call : Nat) (action : Action) (c : Connection) :
    (∃ r, c.control = .finished r) ∧ c.submit call action =
        reply call (action.failed .closed) { c with calls := c.calls ++ [call] } ∨
      c.control.result? = none ∧ ∃ closers, c.submit call action =
        { c with calls := c.calls ++ [call], inbox := c.inbox.enter ⟨call, action⟩, closers } := by
  unfold submit
  cases hc : c.control with
  | finished r => exact .inl ⟨⟨r, rfl⟩, rfl⟩
  | _ =>
    refine .inr ⟨rfl, ?_⟩
    cases action <;> exact ⟨_, rfl⟩

/-- What has happened in a run that concerns the callers. -/
structure Account where
  submitted : List Submission := []
  topics : List Topic := []
  told : List (Nat × Outcome) := []

namespace Account

def note (c : Connection) (a : Account) : Move → Account
  | .incident (.submit call action) => { a with submitted := a.submitted ++ [⟨call, action⟩] }
  | .party (.agent .control) => { a with topics := a.topics ++ c.takenUp?.toList }
  | .telling => { a with told := a.told ++ c.answers }
  | _ => a

theorem note_party {p : Party} (hp : p ≠ .agent .control) (c : Connection) (a : Account) :
    a.note c (.party p) = a := by
  cases p with
  | agent agent =>
    cases agent with
    | control => exact absurd rfl hp
    | _ => rfl
  | _ => rfl

end Account

def Course.account (x : Surroundings) : List Move → Course → Account → Account
  | [], _, a => a
  | m :: rest, c, a => account x rest (c.move x m) (a.note c.session.connection m)

end BlockExchange
