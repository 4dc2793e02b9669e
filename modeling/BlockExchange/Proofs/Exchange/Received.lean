import BlockExchange.Proofs.Exchange.Shared
import BlockExchange.Proofs.Index.Epoch
import BlockExchange.Proofs.Index.Frame

namespace BlockExchange

open Index

namespace Index

variable {i : Index} {m : Memory} {announced : List Operation}

def Operation.IsAnnouncement : Operation → Prop
  | announcement .. => True
  | _ => False

theorem Operation.IsAnnouncement.bounded {operation : Operation} (h : operation.IsAnnouncement) :
    operation.Bounded := by
  cases operation with
  | announcement => trivial
  | _ => exact h.elim

theorem remarked_announcements (i : Index) (h : ∀ operation ∈ announced, operation.IsAnnouncement) :
    i.store.Remarked (i.run announced).store ∧ (i.run announced).feed = i.feed := by
  induction announced generalizing i with
  | nil => exact ⟨.refl _, rfl⟩
  | cons operation rest ih =>
    have hfirst := h operation List.mem_cons_self
    cases operation with
    | announcement folder peer indexId maxSequence =>
      obtain ⟨hstore, hfeed⟩ := ih (i.receiveAnnouncement folder peer indexId maxSequence).2
        fun o ho => h o (List.mem_cons_of_mem _ ho)
      exact ⟨(i.remarked_receiveAnnouncement ..).trans hstore, hfeed⟩
    | _ => exact hfirst.elim

theorem get?_markers_announcements (h : i.store.Holds m)
    (hann : ∀ operation ∈ announced, operation.IsAnnouncement) (k : InFolder DeviceId) :
    (m.run announced).markers.get? k = announced.foldl (Operation.track k) (m.markers.get? k) := by
  induction announced generalizing i m with
  | nil => rfl
  | cons operation rest ih =>
    have hfirst := hann operation List.mem_cons_self
    have htake : m.TakesIn operation := by
      cases operation with
      | announcement => trivial
      | _ => exact hfirst.elim
    have hstep := ih (holds_perform h hfirst.bounded) fun o ho => hann o (List.mem_cons_of_mem _ ho)
    rw [List.foldl_cons, ← Memory.get?_markers_track h.keyed htake]
    exact hstep

end Index

namespace Configuration

instance (c : Configuration) (folder : String) (device : DeviceId) :
    Decidable (c.Accepts folder device) :=
  decidable_of_iff ((c.folder? folder).any (·.isSharedWith device) = true) (by
    rw [Option.any_eq_true]
    rfl)

end Configuration

instance (f : OfferedFolder) (device : DeviceId) : Decidable (f.Lists device) :=
  inferInstanceAs (Decidable (∃ d ∈ f.devices, d.id = device))

namespace Cluster

variable {c : Configuration} {peer : DeviceId} {f : OfferedFolder} {folders : List OfferedFolder}
  {i : Index} {m : Memory}

instance (c : Configuration) (peer : DeviceId) (f : OfferedFolder) : Decidable (Shares c peer f) :=
  inferInstanceAs (Decidable (_ ∧ _))

/-- What an offer tells of the peer's index, if the folder is shared going by this offer alone. Of
several entries for the peer the first one counts. -/
def announcement? (c : Configuration) (peer : DeviceId) (f : OfferedFolder) : Option Operation :=
  if Shares c peer f then
    (f.devices.find? (·.id = peer)).map fun entry =>
      .announcement f.id peer entry.indexId entry.maxSequence.toInt
  else none

theorem isAnnouncement_of_announcement? {operation : Operation}
    (h : announcement? c peer f = some operation) : operation.IsAnnouncement := by
  unfold announcement? at h
  split_ifs at h
  obtain ⟨entry, -, rfl⟩ := Option.map_eq_some_iff.mp h
  trivial

theorem receiveFolders_of_new (h : c.folder? f.id = none) (rest : List OfferedFolder)
    (info : ClusterInfo) (i : Index) :
    receiveFolders c peer (f :: rest) info i =
      receiveFolders c peer rest { info with new := info.new ++ [f.id] } i := by
  have hjudge : judge c peer f = .new := by rw [judge, h]
  rw [receiveFolders, hjudge]

theorem receiveFolders_of_refused (h : ¬Shares c peer f) (hknown : c.folder? f.id ≠ none)
    (rest : List OfferedFolder) (info : ClusterInfo) (i : Index) :
    receiveFolders c peer (f :: rest) info i = receiveFolders c peer rest info i := by
  have hjudge : judge c peer f = .refused := by
    cases hj : judge c peer f with
    | refused => rfl
    | shared entry => exact absurd (shares_of_judge hj) h
    | new =>
      rw [judge] at hj
      split at hj
      · contradiction
      · split_ifs at hj
  rw [receiveFolders, hjudge]

theorem receiveFolders_outcome (h : i.store.Holds m) (c : Configuration) (peer : DeviceId)
    (folders : List OfferedFolder) (info : ClusterInfo) :
    ∃ info', receiveFolders c peer folders info i =
        (.ok info', i.run (folders.filterMap (announcement? c peer))) ∧
      info'.hello = info.hello ∧
      info'.new = info.new ++ (folders.filter fun f => c.folder? f.id = none).map (·.id) := by
  -- A shared offer is one announcement, and the rest is taken in behind it.
  induction folders generalizing info i m with
  | nil => exact ⟨info, rfl, rfl, (List.append_nil _).symm⟩
  | cons f rest ih =>
    rw [List.filterMap_cons, List.filter_cons]
    by_cases hshares : Shares c peer f
    · obtain ⟨mine, hmine, -⟩ := hshares.1
      have hnote : note peer f.id i (f.devices.find? (·.id = peer)) =
          (.ok (), i.run (announcement? c peer f).toList) := by
        refine Prod.ext (holds_note h peer f.id _).1 ?_
        rw [announcement?, if_pos hshares]
        cases f.devices.find? (·.id = peer) <;> rfl
      have hholds : (i.run (announcement? c peer f).toList).store.Holds
          (m.run (announcement? c peer f).toList) := holds_run h fun o ho =>
        (isAnnouncement_of_announcement? (Option.mem_toList.mp ho)).bounded
      obtain ⟨info', hrest, hhello, hnew⟩ := ih hholds { info with shared := insertId f.id info.shared }
      rw [receiveFolders_of_shares hshares, hnote, hmine]
      refine ⟨info', hrest.trans ?_, hhello, hnew⟩
      cases announcement? c peer f <;> rfl
    · rw [announcement?, if_neg hshares]
      by_cases hknown : c.folder? f.id = none
      · obtain ⟨info', hrest, hhello, hnew⟩ := ih h { info with new := info.new ++ [f.id] }
        rw [receiveFolders_of_new hknown, decide_eq_true hknown, if_pos rfl, List.map_cons]
        exact ⟨info', hrest, hhello, hnew.trans (List.append_assoc _ _ _)⟩
      · rw [receiveFolders_of_refused hshares hknown, decide_eq_false hknown]
        exact ih h info

/-- The offers of a peer come to this. A folder is shared if its first entry here lists the peer and one
of its offers lists us, and new if there is no entry for it; new ones are listed as often as they are
offered. The markers are those behind the announcements that the offers which share their folder by
themselves make, in order. Nothing else in the store changes, and the subscribers hear nothing. -/
theorem receive_outcome (c : Configuration) (peer : DeviceId) (folders : List OfferedFolder)
    (hello : Hello) {i : Index} (hi : i.store.Reachable) :
    let announced := folders.filterMap (announcement? c peer)
    ∃ info after, receive c peer folders hello i = (.ok info, after) ∧ info.hello = hello ∧
      IsAscending info.shared ∧
      (∀ id, id ∈ info.shared ↔
        c.Accepts id peer ∧ ∃ f ∈ folders, f.id = id ∧ f.Lists c.device) ∧
      info.new = (folders.filter fun f => c.folder? f.id = none).map (·.id) ∧
      after = i.run announced ∧
      (∀ folder device, ∃ before, (i.store.answer (.marker folder device)).1 = .ok before ∧
        (after.store.answer (.marker folder device)).1 =
          .ok (announced.foldl (Operation.track ⟨folder, device⟩) before)) ∧
      i.store.Remarked after.store ∧ after.feed = i.feed := by
  intro announced
  obtain ⟨m, hm⟩ := hi.exists_holds
  obtain ⟨info, heq, hhello, hnew⟩ := receiveFolders_outcome hm c peer folders ⟨[], [], hello⟩
  have hok := congrArg Prod.fst heq
  have hann : ∀ operation ∈ announced, operation.IsAnnouncement := by
    intro operation hmem
    obtain ⟨f, -, hf⟩ := List.mem_filterMap.mp hmem
    exact isAnnouncement_of_announcement? hf
  have hafter : (i.run announced).store.Holds (m.run announced) :=
    holds_run hm fun o ho => (hann o ho).bounded
  obtain ⟨hstore, hfeed⟩ := i.remarked_announcements hann
  refine ⟨info, i.run announced, heq, hhello, isAscending_receiveFolders hok .nil, ?_, hnew, rfl, ?_,
    hstore, hfeed⟩
  · intro id
    rw [mem_shared_receiveFolders hok]
    constructor
    · rintro (hnone | ⟨f, hf, ⟨haccepts, hlists⟩, rfl⟩)
      · cases hnone
      · exact ⟨haccepts, f, hf, rfl, hlists⟩
    · rintro ⟨haccepts, f, hf, rfl, hlists⟩
      exact .inr ⟨f, hf, ⟨haccepts, hlists⟩, rfl⟩
  · intro folder device
    refine ⟨_, hm.marker_eq folder device, ?_⟩
    rw [hafter.marker_eq, get?_markers_announcements hm hann]

theorem receive_outcome_repeated :
    let one : DeviceId := ⟨List.replicate 32 1, rfl⟩
    let c : Configuration :=
      ⟨.zero, "mine", [⟨"photos", "photos", [one]⟩, ⟨"music", "music", []⟩]⟩
    let entry (id : DeviceId) (indexId : UInt64) (maxSequence : Int64) : OfferedDevice :=
      { id, name := "", indexId, maxSequence }
    let folders : List OfferedFolder :=
      [{ id := "films" },
       { id := "photos", devices := [entry one 7 3, entry .zero 0 0] },
       { id := "photos", devices := [entry one 8 9] },
       { id := "films" },
       { id := "music", devices := [entry .zero 0 0, entry one 7 1] },
       { id := "photos", devices := [entry .zero 0 0, entry one 9 1, entry one 5 4] }]
    let i : Index := { store := .memory (.fresh 5) }
    i.store.Reachable ∧ ∃ info after,
      receive c one folders ⟨"device", "client", "1"⟩ i = (.ok info, after) ∧
      "photos" ∈ info.shared ∧ "music" ∉ info.shared ∧ info.new = ["films", "films"] ∧
      after = i.run [.announcement "photos" one 7 3, .announcement "photos" one 9 1] := by
  intro one c entry folders i
  have hcreate : Store.create .memory 5 = .ok i.store := rfl
  have hi : i.store.Reachable := .created hcreate
  obtain ⟨info, after, heq, -, -, hshared, hnew, hafter, -⟩ :=
    receive_outcome c one folders ⟨"device", "client", "1"⟩ hi
  exact ⟨hi, info, after, heq, (hshared "photos").mpr (by decide),
    fun h => absurd ((hshared "music").mp h) (by decide), hnew, hafter⟩

end Cluster

end BlockExchange
