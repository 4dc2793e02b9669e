import BlockExchange.Proofs.Exchange.Shared
import BlockExchange.Proofs.Index.Epoch

namespace BlockExchange

open Index

namespace Index

def Operation.FitsWord : Operation → Prop
  | announcement _ _ _ maxSequence => (Int64.ofInt maxSequence).toInt = maxSequence
  | _ => True

instance (operation : Operation) : Decidable operation.FitsWord :=
  match operation with
  | .message .. => isTrue trivial
  | .announcement _ _ _ maxSequence =>
    inferInstanceAs (Decidable ((Int64.ofInt maxSequence).toInt = maxSequence))
  | .clearing _ => isTrue trivial

/-- The numbers that a peer has announced in an epoch which began with the first of them. Where nothing
was known of the peer, a marker that has seen nothing stands before them. -/
def goals (k : InFolder DeviceId) (before : List Operation) (goal : Int) (since : List Operation) :
    List Int :=
  (if announcements k before = [] then [-1] else []) ++ goal :: (announcements k since).map (·.2)

variable {k : InFolder DeviceId} {before since operations : List Operation} {indexId : UInt64}
  {goal : Int}

theorem max?_goals (k : InFolder DeviceId) (before : List Operation) (indexId : UInt64) (goal : Int)
    (since : List Operation) :
    (goals k before goal since).max? = some (markerOf k before indexId goal since).maxSequence := by
  rw [goals, markerOf]
  split_ifs
  · rw [List.singleton_append, List.max?_cons', List.foldl_cons]
  · rw [List.nil_append, List.max?_cons']

theorem mem_of_mem_history {operation : Operation} {i : Index}
    (h : operation ∈ history operations i) : operation ∈ operations := by
  induction operations generalizing i with
  | nil => exact h
  | cons first rest ih =>
    rw [history] at h
    split_ifs at h
    · rcases List.mem_cons.mp h with rfl | h
      · exact List.mem_cons_self
      · exact List.mem_cons_of_mem _ (ih h)
    · exact List.mem_cons_of_mem _ (ih h)

theorem mem_of_mem_announcements {a : UInt64 × Int} (h : a ∈ announcements k operations) :
    .announcement k.folder k.item a.1 a.2 ∈ operations := by
  induction operations using List.reverseRecOn with
  | nil => cases h
  | append_singleton operations operation ih =>
    rw [announcements_append_singleton] at h
    cases operation with
    | message folder peer files => exact List.mem_append_left _ (ih h)
    | announcement folder peer indexId maxSequence =>
      rw [Operation.announce] at h
      split_ifs at h with hk
      · rcases List.mem_append.mp h with h | h
        · exact List.mem_append_left _ (ih h)
        · obtain rfl := List.mem_singleton.mp h
          obtain rfl := hk
          exact List.mem_append_right _ List.mem_cons_self
      · exact List.mem_append_left _ (ih h)
    | clearing draw => cases h

theorem toInt_ofInt_of_mem_goals {n : Int} (hgoal : (Int64.ofInt goal).toInt = goal)
    (hsince : ∀ operation ∈ since, operation.FitsWord) (h : n ∈ goals k before goal since) :
    (Int64.ofInt n).toInt = n := by
  rw [goals, List.mem_append, List.mem_cons, List.mem_map] at h
  rcases h with h | rfl | ⟨a, ha, rfl⟩
  · split_ifs at h
    · rw [List.mem_singleton.mp h]
      decide
    · cases h
  · exact hgoal
  · exact hsince _ (mem_of_mem_announcements ha)

end Index

namespace Cluster

theorem devices_offer (c : Configuration) (peer : DeviceId) (peerName : String)
    (state : UInt64 × Int) (f : SharedFolder) (known : Option Marker) :
    ∃ ours entry, (offer c peer peerName state f known).devices = [ours, entry] ∧
      ours.id = c.device ∧ entry.id = peer ∧
      ∀ found ∈ known, entry.indexId = found.indexId ∧
        entry.maxSequence = .ofInt found.maxSequence := by
  refine ⟨_, _, rfl, rfl, rfl, ?_⟩
  rintro found hfound
  obtain rfl := Option.mem_def.mp hfound
  exact ⟨rfl, rfl⟩

/-- Whatever has happened to an index, an offer to a peer tells the epoch of the peer's index, and the
greatest number that the peer has announced in this epoch. It covers what the peer's messages have
brought since exactly if each of their numbers is covered by an announcement. -/
theorem build_tells_greatest_announced {backend : Backend} {draw : UInt64} {store : Store}
    (hs : Store.create backend draw = .ok store) {operations : List Operation}
    (hb : ∀ operation ∈ operations, operation.Bounded)
    (hw : ∀ operation ∈ operations, operation.FitsWord)
    (c : Configuration) (peer : DeviceId) (peerName : String) :
    let i := run { store } operations
    ∃ offers, (build c peer peerName i).1 = .ok offers ∧
      (c.foldersSharedWith peer).Forall₂ (fun f offered => offered.id = f.id ∧
        ∃ ours entry, offered.devices = [ours, entry] ∧ ours.id = c.device ∧ entry.id = peer ∧
          ∀ found, (i.store.answer (.marker f.id peer)).1 = .ok (some found) →
            entry.indexId = found.indexId ∧
            ∃ before goal since,
              history operations { store } =
                  before ++ .announcement f.id peer found.indexId goal :: since ∧
                IsEpoch ⟨f.id, peer⟩ before found.indexId since ∧
                (goals ⟨f.id, peer⟩ before goal since).max? = some entry.maxSequence.toInt ∧
                ((∀ n ∈ since.flatMap (·.numbers ⟨f.id, peer⟩), n ≤ entry.maxSequence.toInt) ↔
                  ∀ n ∈ since.flatMap (·.numbers ⟨f.id, peer⟩),
                    ∃ announced ∈ goals ⟨f.id, peer⟩ before goal since, n ≤ announced)) offers := by
  intro i
  have hfresh : ({ store } : Index).store.Holds (.fresh draw) := Store.holds_of_create hs
  have hholds : i.store.Holds ((Memory.fresh draw).run operations) := holds_run hfresh hb
  obtain ⟨state, hbuild⟩ := exists_build hholds c peer peerName
  refine ⟨_, congrArg Prod.fst hbuild, ?_⟩
  rw [List.forall₂_map_right_iff, List.forall₂_same]
  intro f _
  obtain ⟨ours, entry, hdevices, hours, hpeer, hentry⟩ := devices_offer c peer peerName state f
    (((Memory.fresh draw).run operations).markers.get? ⟨f.id, peer⟩)
  refine ⟨rfl, ours, entry, hdevices, hours, hpeer, ?_⟩
  intro found hfound
  have hknown := Except.ok.inj ((hholds.marker_eq f.id peer).symm.trans hfound)
  obtain ⟨hindexId, hmax⟩ := hentry found hknown
  rw [get?_markers_history hfresh hb] at hknown
  obtain ⟨before, goal, since, hhistory, hepoch, heq⟩ :=
    (leadsTo_foldl ⟨f.id, peer⟩ (history operations { store })).exists_epoch found hknown
  refine ⟨hindexId, before, goal, since, hhistory, hepoch, ?_⟩
  have hfits : ∀ operation ∈ before ++ .announcement f.id peer found.indexId goal :: since,
      operation.FitsWord := fun operation hmem =>
    hw operation (mem_of_mem_history (hhistory ▸ hmem))
  have hgoals : (goals ⟨f.id, peer⟩ before goal since).max? = some found.maxSequence := by
    rw [max?_goals _ _ found.indexId, ← heq]
  obtain ⟨hmem, hupper⟩ := List.max?_eq_some_iff.mp hgoals
  have hgoal : (Int64.ofInt goal).toInt = goal :=
    hfits (.announcement f.id peer found.indexId goal) (by simp)
  have hword : entry.maxSequence.toInt = found.maxSequence := by
    rw [hmax]
    exact toInt_ofInt_of_mem_goals hgoal (fun o ho => hfits o (by simp [ho])) hmem
  rw [hword]
  refine ⟨hgoals, ?_⟩
  constructor
  · exact fun hcovered n hn => ⟨found.maxSequence, hmem, hcovered n hn⟩
  · rintro hcovered n hn
    obtain ⟨announced, hannounced, hle⟩ := hcovered n hn
    exact hle.trans (hupper announced hannounced)

theorem build_tells_greatest_announced_photos :
    let one : DeviceId := ⟨List.replicate 32 1, rfl⟩
    let c : Configuration := ⟨.zero, "mine", [⟨"photos", "photos", [one]⟩]⟩
    let operations : List Operation :=
      [.announcement "photos" one 9 2, .message "photos" one [.directory "summer" 10 1]]
    let i := run { store := .memory (.fresh 5) } operations
    ∃ offered ours entry, (build c one "theirs" i).1 = .ok [offered] ∧
      offered.devices = [ours, entry] ∧ entry.id = one ∧ entry.indexId = 9 ∧
      ∃ before goal since,
        history operations { store := .memory (.fresh 5) } =
            before ++ .announcement "photos" one 9 goal :: since ∧
          (goals ⟨"photos", one⟩ before goal since).max? = some entry.maxSequence.toInt := by
  intro one c operations i
  have hs : Store.create .memory 5 = .ok (.memory (.fresh 5)) := rfl
  have hb : ∀ operation ∈ operations, operation.Bounded := by decide
  have hw : ∀ operation ∈ operations, operation.FitsWord := by decide
  obtain ⟨offers, hbuild, hoffers⟩ := build_tells_greatest_announced hs hb hw c one "theirs"
  have hshared : c.foldersSharedWith one = [⟨"photos", "photos", [one]⟩] := by decide
  rw [hshared] at hoffers
  have hfound : (i.store.answer (.marker "photos" one)).1 = .ok (some ⟨"photos", one, 9, 1, 2⟩) := by
    decide +kernel
  obtain @⟨-, -⟩ | @⟨_, offered, _, _, ⟨-, ours, entry, hdevices, -, hpeer, hentry⟩, @⟨-, -⟩⟩ := hoffers
  obtain ⟨hindexId, before, goal, since, hhistory, -, hmax, -⟩ := hentry _ hfound
  exact ⟨offered, ours, entry, hbuild, hdevices, hpeer, hindexId, before, goal, since, hhistory, hmax⟩

theorem build_behind_message :
    let one : DeviceId := ⟨List.replicate 32 1, rfl⟩
    let c : Configuration := ⟨.zero, "mine", [⟨"photos", "photos", [one]⟩]⟩
    let files : List FileEntry := [.directory "winter" 11 5]
    let announced := run { store := .memory (.fresh 5) } [.announcement "photos" one 9 2]
    (announced.receiveMessage "photos" one files).1.isOk ∧
      ∃ offered ours entry,
        (build c one "theirs" (announced.perform (.message "photos" one files))).1 = .ok [offered] ∧
        offered.devices = [ours, entry] ∧ entry.id = one ∧ entry.indexId = 9 ∧
        entry.maxSequence = 2 ∧ ∃ f ∈ files, entry.maxSequence < f.sequence := by
  intro one c files announced
  refine ⟨by decide +kernel, offer c one "theirs" (5, 1) ⟨"photos", "photos", [one]⟩
    (some ⟨"photos", one, 9, 5, 2⟩), _, _, ?_, rfl, rfl, rfl, rfl, by decide⟩
  decide +kernel

end Cluster

end BlockExchange
