import BlockExchange.Proofs.Database.Listing
import BlockExchange.Proofs.Exchange.Announced

namespace BlockExchange

theorem Store.Holds.allMarkers_eq {s : Store} {m : Memory} (h : s.Holds m) :
    (s.answer .allMarkers).1 = .ok m.markers.values := by
  cases s with
  | memory m' =>
    obtain ⟨rfl, -⟩ := h
    rfl
  | database versions tables durable =>
    exact congrArg (Except.mapError StoreError.database) (Database.Tables.Represents.allMarkers_eq h)

namespace Index

variable (k : InFolder DeviceId) (before : List Operation) (indexId : UInt64) (goal : Int)
  (since : List Operation)

theorem localSequence_markerOf_nonneg :
    0 ≤ (markerOf k before indexId goal since).localSequence := by
  have hmax : (0 :: since.flatMap (·.numbers k)).max? =
      some (markerOf k before indexId goal since).localSequence := List.max?_cons'
  exact (List.max?_eq_some_iff.mp hmax).2 0 List.mem_cons_self

theorem baseline_le_maxSequence_iff :
    -1 ≤ (markerOf k before indexId goal since).maxSequence ↔
      announcements k before = [] ∨
        ∃ n ∈ goal :: (announcements k since).map (·.2), -1 ≤ n := by
  obtain ⟨hmem, hupper⟩ := List.max?_eq_some_iff.mp (max?_goals k before indexId goal since)
  constructor
  · intro hle
    rcases List.mem_append.mp hmem with hfresh | hannounced
    · split_ifs at hfresh with hfirst
      · exact .inl hfirst
      · cases hfresh
    · exact .inr ⟨_, hannounced, hle⟩
  · rintro (hfirst | ⟨n, hn, hle⟩)
    · exact hupper (-1) (by simp [goals, hfirst])
    · exact hle.trans (hupper n (List.mem_append_right _ hn))

/-- After any run, no marker counts below zero what has been taken in. Its goal is at least the -1 of a
fresh marker exactly if its epoch is the first that is known of the peer, or if one of the numbers
announced in this epoch is. -/
theorem markers_above_baseline_iff {backend : Backend} {draw : UInt64} {store : Store}
    (hs : Store.create backend draw = .ok store) {operations : List Operation}
    (hb : ∀ operation ∈ operations, operation.Bounded) :
    ∃ markers, ((run { store } operations).store.answer .allMarkers).1 = .ok markers ∧
      ∀ found ∈ markers, 0 ≤ found.localSequence ∧
        ∃ before goal since,
          history operations { store } =
              before ++ .announcement found.folder found.device found.indexId goal :: since ∧
            IsEpoch found.key before found.indexId since ∧
            (-1 ≤ found.maxSequence ↔ announcements found.key before = [] ∨
              ∃ n ∈ goal :: (announcements found.key since).map (·.2), -1 ≤ n) := by
  have hfresh : ({ store } : Index).store.Holds (.fresh draw) := Store.holds_of_create hs
  have hholds := holds_run hfresh hb
  refine ⟨_, hholds.allMarkers_eq, ?_⟩
  intro found hfound
  have hknown := hholds.keyed.markers.mem_values.mp hfound
  rw [get?_markers_history hfresh hb] at hknown
  obtain ⟨before, goal, since, hhistory, hepoch, heq⟩ :=
    (leadsTo_foldl found.key (history operations { store })).exists_epoch found hknown
  constructor
  · rw [heq]
    exact localSequence_markerOf_nonneg _ _ _ _ _
  · refine ⟨before, goal, since, hhistory, hepoch, ?_⟩
    have hgoal := baseline_le_maxSequence_iff found.key before found.indexId goal since
    rwa [← heq] at hgoal

theorem markers_above_baseline_iff_returning :
    let operations : List Operation :=
      [.announcement "music" .zero 7 2,
       .announcement "music" .zero 9 (-8),
       .message "music" .zero [.directory "spring" 10 (-4)],
       .announcement "music" .zero 9 (-1)]
    let i := run { store := .memory (.fresh 5) } operations
    ∃ found : Marker, (i.store.answer .allMarkers).1 = .ok [found] ∧ 0 ≤ found.localSequence ∧
      -1 ≤ found.maxSequence ∧ ∃ before goal since,
        history operations { store := .memory (.fresh 5) } =
            before ++ .announcement "music" .zero 9 goal :: since ∧
          (announcements ⟨"music", .zero⟩ before = [] ∨
            ∃ n ∈ goal :: (announcements ⟨"music", .zero⟩ since).map (·.2), -1 ≤ n) := by
  intro operations i
  have hs : Store.create .memory 5 = .ok (.memory (.fresh 5)) := rfl
  have hb : ∀ operation ∈ operations, operation.Bounded := by decide
  obtain ⟨markers, hmarkers, hall⟩ := markers_above_baseline_iff hs hb
  have hlist : (i.store.answer .allMarkers).1 = .ok [⟨"music", .zero, 9, 0, -1⟩] := by
    unfold i operations
    decide +kernel
  obtain rfl := Except.ok.inj (hmarkers.symm.trans hlist)
  obtain ⟨hlocal, before, goal, since, hhistory, -, hgoal⟩ := hall _ List.mem_cons_self
  exact ⟨_, hlist, hlocal, by decide, before, goal, since, hhistory, hgoal.mp (by decide)⟩

theorem baseline_behind_epoch :
    let i := run { store := .memory (.fresh 5) }
      [.announcement "photos" .zero 7 2, .announcement "photos" .zero 9 (-5)]
    ∃ marker, (i.store.answer (.marker "photos" .zero)).1 = .ok (some marker) ∧
      marker.maxSequence < -1 := by
  intro i
  exact ⟨⟨"photos", .zero, 9, 0, -5⟩, by decide +kernel, by decide⟩

end Index

end BlockExchange
