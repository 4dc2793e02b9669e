import BlockExchange.Proofs.Index.Delivery
import Mathlib.Data.List.Induction
/-!
Progress markers over a run. The marker of a peer in a folder is there from its first announcement
on, until the index is forgotten, and it tells what has been announced and taken in since the epoch
of its index began (`Index.marker_eq_epoch_maxima`).
-/

namespace BlockExchange

open Index

namespace Index

def takesIn (i : Index) : Operation → Bool
  | .message folder peer files => (i.receiveMessage folder peer files).1.isOk
  | _ => true

def history : List Operation → Index → List Operation
  | [], _ => []
  | operation :: rest, i =>
    if i.takesIn operation then operation :: history rest (i.perform operation)
    else history rest (i.perform operation)

def Operation.announce (k : InFolder DeviceId) (known : List (UInt64 × Int)) :
    Operation → List (UInt64 × Int)
  | message .. => known
  | announcement folder peer indexId maxSequence =>
    if k = ⟨folder, peer⟩ then known ++ [(indexId, maxSequence)] else known
  | clearing _ => []

def announcements (k : InFolder DeviceId) (operations : List Operation) : List (UInt64 × Int) :=
  operations.foldl (Operation.announce k) []

def Operation.numbers (k : InFolder DeviceId) : Operation → List Int
  | message folder peer files =>
    if k = ⟨folder, peer⟩ then files.map (·.sequence.toInt) else []
  | _ => []

def Operation.Concerns (k : InFolder DeviceId) : Operation → Prop
  | message folder peer _ => k = ⟨folder, peer⟩
  | announcement folder peer _ _ => k = ⟨folder, peer⟩
  | clearing _ => True

/-- An epoch of a peer's index begins behind some operations: before them either nothing was known of
the peer or another epoch. It lasts through what follows. -/
structure IsEpoch (k : InFolder DeviceId) (before : List Operation) (indexId : UInt64)
    (since : List Operation) : Prop where
  begins : ∀ a ∈ (announcements k before).getLast?, a.1 ≠ indexId
  lasts : ∀ a ∈ announcements k since, a.1 = indexId
  remembered : ∀ operation ∈ since, ¬operation.isClearing

/-- The marker of a peer whose epoch began behind some operations, with this goal, and has lasted since.
A marker that was not there before does not begin below the goal of a fresh one. -/
def markerOf (k : InFolder DeviceId) (before : List Operation) (indexId : UInt64) (goal : Int)
    (since : List Operation) : Marker where
  folder := k.folder
  device := k.item
  indexId := indexId
  localSequence := (since.flatMap (·.numbers k)).foldl max 0
  maxSequence := ((announcements k since).map (·.2)).foldl max
    (if announcements k before = [] then max (-1) goal else goal)

def Operation.track (k : InFolder DeviceId) (known : Option Marker) : Operation → Option Marker
  | message folder peer files =>
    known.map fun m => { m with
      localSequence := ((message folder peer files).numbers k).foldl max m.localSequence }
  | announcement folder peer indexId maxSequence =>
    if k = ⟨folder, peer⟩ then some (announced folder peer indexId maxSequence known) else known
  | clearing _ => none

variable {k : InFolder DeviceId}

theorem announcements_append_singleton (k : InFolder DeviceId) (operations : List Operation)
    (operation : Operation) :
    announcements k (operations ++ [operation]) =
      operation.announce k (announcements k operations) := by
  rw [announcements, List.foldl_append]
  rfl

theorem announcements_append (k : InFolder DeviceId) (before : List Operation)
    {since : List Operation} (h : ∀ operation ∈ since, ¬operation.isClearing) :
    announcements k (before ++ since) = announcements k before ++ announcements k since := by
  induction since using List.reverseRecOn with
  | nil => simp [announcements]
  | append_singleton since operation ih =>
    have hsince := ih fun o ho => h o (List.mem_append_left _ ho)
    rw [← List.append_assoc, announcements_append_singleton, hsince, announcements_append_singleton]
    cases operation with
    | message folder peer files => rfl
    | announcement folder peer indexId maxSequence =>
      simp only [Operation.announce]
      split_ifs
      · rw [List.append_assoc]
      · rfl
    | clearing draw => exact absurd rfl (h (.clearing draw) (by simp))

theorem announcements_history (k : InFolder DeviceId) (operations : List Operation) (i : Index) :
    announcements k (history operations i) = announcements k operations := by
  unfold announcements
  generalize ([] : List (UInt64 × Int)) = known
  induction operations generalizing i known with
  | nil => rfl
  | cons operation rest ih =>
    rw [history, List.foldl_cons]
    split_ifs with htake
    · exact ih _ _
    · cases operation with
      | message folder peer files => exact ih _ _
      | announcement folder peer indexId maxSequence => exact absurd rfl htake
      | clearing draw => exact absurd rfl htake

theorem IsEpoch.announcements {before since : List Operation} {indexId : UInt64}
    (h : IsEpoch k before indexId since) (goal : Int) :
    announcements k (before ++ .announcement k.folder k.item indexId goal :: since) =
      announcements k before ++ (indexId, goal) :: announcements k since := by
  have hclear : ∀ operation ∈ [.announcement k.folder k.item indexId goal] ++ since,
      ¬operation.isClearing := by
    intro operation hmem
    rcases List.mem_append.mp hmem with hmem | hmem
    · rw [List.mem_singleton.mp hmem]
      exact Bool.false_ne_true
    · exact h.remembered operation hmem
  have hfirst : Index.announcements k [.announcement k.folder k.item indexId goal] =
      [(indexId, goal)] := by
    simp [Index.announcements, Operation.announce]
  rw [← List.singleton_append, announcements_append k before hclear,
    announcements_append k _ h.remembered, hfirst, List.singleton_append]

theorem IsEpoch.getLast? {before since : List Operation} {indexId : UInt64}
    (h : IsEpoch k before indexId since) (goal : Int) :
    ((Index.announcements k
      (before ++ .announcement k.folder k.item indexId goal :: since)).getLast?).map (·.1) =
        some indexId := by
  rw [h.announcements, List.getLast?_append_cons, List.getLast?_cons, Option.map_some]
  cases hlast : (Index.announcements k since).getLast? with
  | none => rfl
  | some a => exact congrArg some (h.lasts a (List.mem_of_getLast? hlast))

theorem IsEpoch.append {before since : List Operation} {indexId : UInt64} {operation : Operation}
    (h : IsEpoch k before indexId since) (hclear : ¬operation.isClearing)
    (hsame : ∀ a ∈ operation.announce k [], a.1 = indexId) :
    IsEpoch k before indexId (since ++ [operation]) where
  begins := h.begins
  lasts := by
    have hone : ∀ o ∈ [operation], ¬o.isClearing := fun o ho => List.mem_singleton.mp ho ▸ hclear
    have hsplit := announcements_append k since hone
    intro a ha
    rw [hsplit] at ha
    rcases List.mem_append.mp ha with ha | ha
    · exact h.lasts a ha
    · exact hsame a ha
  remembered := by
    intro o ho
    rcases List.mem_append.mp ho with ho | ho
    · exact h.remembered o ho
    · exact List.mem_singleton.mp ho ▸ hclear

theorem markerOf_message (before : List Operation) (indexId : UInt64) (goal : Int)
    (since : List Operation) (folder : String) (peer : DeviceId) (files : List FileEntry) :
    markerOf k before indexId goal (since ++ [.message folder peer files]) =
      { markerOf k before indexId goal since with
        localSequence := ((Operation.message folder peer files).numbers k).foldl max
          (markerOf k before indexId goal since).localSequence } := by
  simp only [markerOf, announcements_append_singleton, Operation.announce, List.flatMap_append,
    List.flatMap_singleton, List.foldl_append]

theorem markerOf_announcement_same (before : List Operation) (indexId : UInt64) (goal : Int)
    (since : List Operation) (maxSequence : Int) :
    markerOf k before indexId goal (since ++ [.announcement k.folder k.item indexId maxSequence]) =
      { markerOf k before indexId goal since with
        maxSequence := max (markerOf k before indexId goal since).maxSequence maxSequence } := by
  simp only [markerOf, announcements_append_singleton, Operation.announce, if_true,
    List.flatMap_append, List.flatMap_singleton, Operation.numbers, List.append_nil, List.map_append,
    List.map_cons, List.map_nil, List.foldl_append, List.foldl_cons, List.foldl_nil]

theorem markerOf_announcement_other (before : List Operation) (indexId : UInt64) (goal : Int)
    (since : List Operation) {folder : String} {peer : DeviceId} (h : k ≠ ⟨folder, peer⟩)
    (other : UInt64) (maxSequence : Int) :
    markerOf k before indexId goal (since ++ [.announcement folder peer other maxSequence]) =
      markerOf k before indexId goal since := by
  simp only [markerOf, announcements_append_singleton, Operation.announce, if_neg h,
    List.flatMap_append, List.flatMap_singleton, Operation.numbers, List.append_nil]

inductive LeadsTo (k : InFolder DeviceId) : List Operation → Option Marker → Prop
  | unknown {happened : List Operation} (h : announcements k happened = []) : LeadsTo k happened none
  | epoch {before since : List Operation} {indexId : UInt64} (goal : Int)
      (h : IsEpoch k before indexId since) :
      LeadsTo k (before ++ .announcement k.folder k.item indexId goal :: since)
        (some (markerOf k before indexId goal since))

variable {happened : List Operation} {known : Option Marker}

theorem leadsTo_beginning {indexId : UInt64} (maxSequence : Int)
    (h : ∀ a ∈ (announcements k happened).getLast?, a.1 ≠ indexId) :
    LeadsTo k (happened ++ [.announcement k.folder k.item indexId maxSequence])
      (some (markerOf k happened indexId maxSequence [])) :=
  .epoch maxSequence ⟨h, nofun, nofun⟩

theorem LeadsTo.message (h : LeadsTo k happened known) (folder : String) (peer : DeviceId)
    (files : List FileEntry) :
    LeadsTo k (happened ++ [.message folder peer files])
      ((Operation.message folder peer files).track k known) := by
  cases h with
  | unknown hann =>
    apply LeadsTo.unknown
    rw [announcements_append_singleton]
    exact hann
  | @epoch before since indexId goal hepoch =>
    have hclear : ¬(Operation.message folder peer files).isClearing := Bool.false_ne_true
    rw [Operation.track, Option.map_some, ← markerOf_message, List.append_assoc, List.cons_append]
    exact .epoch goal (hepoch.append hclear nofun)

theorem LeadsTo.announcement (h : LeadsTo k happened known) (indexId : UInt64) (maxSequence : Int) :
    LeadsTo k (happened ++ [.announcement k.folder k.item indexId maxSequence])
      (some (announced k.folder k.item indexId maxSequence known)) := by
  cases h with
  | unknown hann =>
    have hmarker : announced k.folder k.item indexId maxSequence none =
        markerOf k happened indexId maxSequence [] := by
      rw [markerOf, if_pos hann]
      rfl
    rw [hmarker]
    apply leadsTo_beginning
    rw [hann]
    exact nofun
  | @epoch before since current goal hepoch =>
    by_cases hid : current = indexId
    · have hmarker : announced k.folder k.item indexId maxSequence
          (some (markerOf k before current goal since)) = _ := if_pos hid
      have hclear : ¬(Operation.announcement k.folder k.item current maxSequence).isClearing :=
        Bool.false_ne_true
      rw [hmarker, ← markerOf_announcement_same, List.append_assoc, List.cons_append, ← hid]
      apply LeadsTo.epoch goal (hepoch.append hclear _)
      simp [Operation.announce]
    · -- Another epoch than the one before begins.
      have hlast := hepoch.getLast? goal
      have hne : announcements k
          (before ++ .announcement k.folder k.item current goal :: since) ≠ [] := by
        intro hnil
        rw [hnil] at hlast
        cases hlast
      have hmarker : announced k.folder k.item indexId maxSequence
            (some (markerOf k before current goal since)) =
          markerOf k (before ++ .announcement k.folder k.item current goal :: since) indexId
            maxSequence [] := by
        have hfresh : announced k.folder k.item indexId maxSequence
            (some (markerOf k before current goal since)) = _ := if_neg hid
        have hgoal : (if announcements k
            (before ++ .announcement k.folder k.item current goal :: since) = [] then
              max (-1) maxSequence else maxSequence) = maxSequence := if_neg hne
        rw [hfresh]
        simp only [markerOf, hgoal]
        rfl
      rw [hmarker]
      apply leadsTo_beginning
      intro a ha heq
      rw [Option.mem_def.mp ha] at hlast
      exact hid ((Option.some.inj hlast).symm.trans heq)

theorem LeadsTo.other (h : LeadsTo k happened known) {folder : String} {peer : DeviceId}
    (hk : k ≠ ⟨folder, peer⟩) (indexId : UInt64) (maxSequence : Int) :
    LeadsTo k (happened ++ [.announcement folder peer indexId maxSequence]) known := by
  cases h with
  | unknown hann =>
    apply LeadsTo.unknown
    rw [announcements_append_singleton, Operation.announce, if_neg hk, hann]
  | @epoch before since current goal hepoch =>
    rw [← markerOf_announcement_other _ _ _ _ hk indexId maxSequence, List.append_assoc,
      List.cons_append]
    have hclear : ¬(Operation.announcement folder peer indexId maxSequence).isClearing :=
      Bool.false_ne_true
    apply LeadsTo.epoch goal (hepoch.append hclear _)
    simp [Operation.announce, hk]

theorem LeadsTo.track (h : LeadsTo k happened known) (operation : Operation) :
    LeadsTo k (happened ++ [operation]) (operation.track k known) := by
  cases operation with
  | message folder peer files => exact h.message folder peer files
  | announcement folder peer indexId maxSequence =>
    rw [Operation.track]
    split_ifs with hk
    · obtain rfl := hk
      exact h.announcement indexId maxSequence
    · exact h.other hk indexId maxSequence
  | clearing draw =>
    apply LeadsTo.unknown
    rw [announcements_append_singleton]
    rfl

theorem LeadsTo.isSome_iff (h : LeadsTo k happened known) :
    known.isSome ↔ announcements k happened ≠ [] := by
  cases h with
  | unknown hann => simp [hann]
  | epoch goal hepoch => simp [hepoch.announcements]

theorem LeadsTo.indexId_eq (h : LeadsTo k happened known) :
    known.map (·.indexId) = (announcements k happened).getLast?.map (·.1) := by
  cases h with
  | unknown hann =>
    rw [hann]
    rfl
  | epoch goal hepoch => exact (hepoch.getLast? goal).symm

theorem LeadsTo.exists_epoch (h : LeadsTo k happened known) :
    ∀ found ∈ known, ∃ before goal since,
      happened = before ++ .announcement k.folder k.item found.indexId goal :: since ∧
        IsEpoch k before found.indexId since ∧
        found = markerOf k before found.indexId goal since := by
  rintro found hfound
  cases h with
  | unknown => cases hfound
  | @epoch before since indexId goal hepoch =>
    obtain rfl := Option.some.inj hfound
    exact ⟨before, goal, since, rfl, hepoch, rfl⟩

theorem leadsTo_foldl (k : InFolder DeviceId) (happened : List Operation) :
    LeadsTo k happened (happened.foldl (Operation.track k) none) := by
  induction happened using List.reverseRecOn with
  | nil => exact .unknown rfl
  | append_singleton happened operation ih =>
    rw [List.foldl_append]
    exact ih.track operation

end Index

namespace Memory

variable {m : Memory} {k : InFolder DeviceId}

theorem elim_max?_upTo (marker : Marker) (numbers : List Int) :
    numbers.max?.elim marker marker.upTo =
      { marker with localSequence := numbers.foldl max marker.localSequence } := by
  cases numbers with
  | nil => rfl
  | cons n rest => rw [List.max?_cons', Option.elim_some, Marker.upTo, List.foldl_cons, List.foldl_assoc]

theorem get?_markers_track (hk : m.IsWellKeyed) {operation : Operation} (h : m.TakesIn operation)
    (k : InFolder DeviceId) :
    (m.perform operation).markers.get? k = operation.track k (m.markers.get? k) := by
  cases operation with
  | message folder peer files =>
    rw [get?_markers_perform hk h, Operation.track]
    congr 1
    funext marker
    rw [← elim_max?_upTo, Operation.seen?, Operation.numbers]
    split_ifs <;> rfl
  | announcement folder peer indexId maxSequence =>
    have hget : (m.announcing folder peer indexId maxSequence).markers.get? k = _ :=
      Table.get?_insert _ _ _ _
    rw [perform, hget, Operation.track]
    by_cases hkey : k = ⟨folder, peer⟩
    · rw [if_pos hkey, if_pos hkey, hkey]
    · rw [if_neg hkey, if_neg hkey]
  | clearing draw => rfl

theorem perform_of_not_takesIn {operation : Operation} (h : ¬m.TakesIn operation) :
    m.perform operation = m := by
  cases operation with
  | message folder peer files =>
    rcases m.perform_message_cases folder peer files with heq | ⟨marker, hk, hadm, -⟩
    · exact heq
    · exact absurd ⟨Option.isSome_of_eq_some hk, hadm⟩ h
  | announcement folder peer indexId maxSequence => exact absurd trivial h
  | clearing draw => exact absurd trivial h

end Memory

namespace Index

theorem takesIn_iff {i : Index} {m : Memory} (h : i.store.Holds m) {operation : Operation}
    (hb : operation.Bounded) : i.takesIn operation = true ↔ m.TakesIn operation := by
  cases operation with
  | message folder peer files => exact receiveMessage_isOk_iff h hb
  | announcement folder peer indexId maxSequence => exact iff_of_true rfl trivial
  | clearing draw => exact iff_of_true rfl trivial

theorem get?_markers_history {i : Index} {m : Memory} (h : i.store.Holds m)
    {operations : List Operation} (hb : ∀ operation ∈ operations, operation.Bounded)
    (k : InFolder DeviceId) :
    (m.run operations).markers.get? k =
      (history operations i).foldl (Operation.track k) (m.markers.get? k) := by
  induction operations generalizing i m with
  | nil => rfl
  | cons operation rest ih =>
    have hfirst := hb operation List.mem_cons_self
    have hrest := ih (holds_perform h hfirst) fun o ho => hb o (List.mem_cons_of_mem _ ho)
    have hstep : m.run (operation :: rest) = (m.perform operation).run rest := rfl
    rw [hstep, hrest, history]
    split_ifs with htake
    · rw [List.foldl_cons, Memory.get?_markers_track h.keyed ((takesIn_iff h hfirst).mp htake)]
    · rw [Memory.perform_of_not_takesIn (mt (takesIn_iff h hfirst).mpr htake)]

theorem track_of_not_concerns {k : InFolder DeviceId} {operation : Operation}
    (h : ¬operation.Concerns k) (known : Option Marker) : operation.track k known = known := by
  cases operation with
  | message folder peer files =>
    have hnumbers : (Operation.message folder peer files).numbers k = [] := if_neg h
    rw [Operation.track, hnumbers]
    exact Option.map_id'
  | announcement folder peer indexId maxSequence => exact if_neg h
  | clearing draw => exact absurd trivial h

/-- After any run, there is a marker for a peer in a folder if and only if the peer has announced its
index of the folder since our index was last forgotten. The marker is that of the epoch announced
last, and goes by the announcements of this epoch and the messages that were taken in during it.
What concerns other peers or folders leaves it alone. -/
theorem marker_eq_epoch_maxima {backend : Backend} {draw : UInt64} {store : Store}
    (hs : Store.create backend draw = .ok store) {operations : List Operation}
    (hb : ∀ operation ∈ operations, operation.Bounded) (folder : String) (peer : DeviceId) :
    let i := run { store } operations
    ∃ marker, (i.store.answer (.marker folder peer)).1 = .ok marker ∧
      (marker.isSome ↔ announcements ⟨folder, peer⟩ operations ≠ []) ∧
      marker.map (·.indexId) = (announcements ⟨folder, peer⟩ operations).getLast?.map (·.1) ∧
      (∀ found ∈ marker, ∃ before goal since,
        history operations { store } =
            before ++ .announcement folder peer found.indexId goal :: since ∧
          IsEpoch ⟨folder, peer⟩ before found.indexId since ∧
          found = markerOf ⟨folder, peer⟩ before found.indexId goal since) ∧
      ∀ operation, operation.Bounded → ¬operation.Concerns ⟨folder, peer⟩ →
        ((i.perform operation).store.answer (.marker folder peer)).1 = .ok marker := by
  intro i
  have hfresh : ({ store } : Index).store.Holds (.fresh draw) := Store.holds_of_create hs
  have hholds : i.store.Holds ((Memory.fresh draw).run operations) := holds_run hfresh hb
  have hmarkers := get?_markers_history hfresh hb ⟨folder, peer⟩
  have hleads := leadsTo_foldl ⟨folder, peer⟩ (history operations { store })
  rw [← announcements_history _ operations { store }]
  refine ⟨_, hholds.marker_eq folder peer, ?_⟩
  rw [hmarkers]
  refine ⟨hleads.isSome_iff, hleads.indexId_eq, hleads.exists_epoch, ?_⟩
  intro operation ho hother
  rw [(holds_perform hholds ho).marker_eq, ← hmarkers]
  by_cases htake : ((Memory.fresh draw).run operations).TakesIn operation
  · rw [Memory.get?_markers_track hholds.keyed htake, track_of_not_concerns hother]
  · rw [Memory.perform_of_not_takesIn htake]

theorem marker_eq_epoch_maxima_returning :
    let operations : List Operation :=
      [.announcement "photos" .zero 7 2,
       .message "photos" .zero [.directory "summer" 10 4],
       .announcement "photos" .zero 9 1,
       .announcement "photos" .zero 7 3,
       .message "photos" .zero [.directory "winter" 11 2],
       .message "music" .zero [.directory "spring" 12 8]]
    let i := run { store := .memory (.fresh 5) } operations
    ∃ marker, (i.store.answer (.marker "photos" .zero)).1 = .ok (some marker) ∧
      marker.indexId = 7 ∧ marker.localSequence = 2 ∧ marker.maxSequence = 3 ∧
      ((i.perform (.announcement "music" .zero 7 1)).store.answer (.marker "photos" .zero)).1 =
        .ok (some marker) := by
  intro operations i
  have hs : Store.create .memory 5 = .ok (.memory (.fresh 5)) := rfl
  have hb : ∀ operation ∈ operations, operation.Bounded := by decide
  obtain ⟨marker, hmarker, hsome, hid, -, hother⟩ := marker_eq_epoch_maxima hs hb "photos" .zero
  have hannounced : announcements ⟨"photos", .zero⟩ operations = [(7, 2), (9, 1), (7, 3)] := by
    decide
  rw [hannounced] at hsome hid
  obtain ⟨found, rfl⟩ := Option.isSome_iff_exists.mp (hsome.mpr (by decide))
  have hnumbers : (i.store.answer (.marker "photos" .zero)).1.map
      (·.map fun m => (m.localSequence, m.maxSequence)) = .ok (some (2, 3)) := by
    unfold i operations
    decide +kernel
  rw [hmarker] at hnumbers
  obtain ⟨hlocal, hmax⟩ := Prod.mk.inj (Option.some.inj (Except.ok.inj hnumbers))
  exact ⟨found, hmarker, Option.some.inj hid, hlocal, hmax,
    hother (.announcement "music" .zero 7 1) trivial
      (by simp [Operation.Concerns])⟩

end Index

end BlockExchange
