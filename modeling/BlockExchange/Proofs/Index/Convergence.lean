import BlockExchange.Proofs.Index.Delivery
/-!
Convergence: messages that are delivered in any order and any number of times leave the same
contents, since what they do to a path commutes (`Slot.settle_comm`) and does nothing the second
time (`Slot.settle_self`).
-/

namespace BlockExchange

open Index

section Fold

variable {α β : Type} {f : β → α → β} {l l' : List α}

theorem foldl_push {x : α} (hcomm : ∀ y ∈ l, ∀ s, f (f s x) y = f (f s y) x) (s : β) :
    f (l.foldl f s) x = l.foldl f (f s x) := by
  induction l generalizing s with
  | nil => rfl
  | cons y rest ih =>
    rw [List.foldl_cons, List.foldl_cons, ih (fun z hz => hcomm z (List.mem_cons_of_mem _ hz)),
      hcomm y List.mem_cons_self]

theorem foldl_absorb (hcomm : ∀ x ∈ l, ∀ y ∈ l, ∀ s, f (f s x) y = f (f s y) x)
    (hidem : ∀ x ∈ l, ∀ s, f (f s x) x = f s x) {x : α} (hx : x ∈ l) (s : β) :
    f (l.foldl f s) x = l.foldl f s := by
  induction l generalizing s with
  | nil => cases hx
  | cons y rest ih =>
    rcases List.mem_cons.mp hx with rfl | hx
    · rw [List.foldl_cons,
        foldl_push fun z hz => hcomm x List.mem_cons_self z (List.mem_cons_of_mem _ hz),
        hidem x List.mem_cons_self]
    · exact ih (fun a ha b hb => hcomm a (List.mem_cons_of_mem _ ha) b (List.mem_cons_of_mem _ hb))
        (fun a ha => hidem a (List.mem_cons_of_mem _ ha)) hx _

theorem foldl_append_absorb (hcomm : ∀ x ∈ l, ∀ y ∈ l, ∀ s, f (f s x) y = f (f s y) x)
    (hidem : ∀ x ∈ l, ∀ s, f (f s x) x = f s x) (hsub : ∀ x ∈ l', x ∈ l) (s : β) :
    (l ++ l').foldl f s = l.foldl f s := by
  rw [List.foldl_append]
  induction l' with
  | nil => rfl
  | cons x rest ih =>
    rw [List.foldl_cons, foldl_absorb hcomm hidem (hsub x List.mem_cons_self)]
    apply ih
    intro y hy
    exact hsub y (List.mem_cons_of_mem _ hy)

theorem foldl_eq_of_mem_iff (hmem : ∀ x, x ∈ l ↔ x ∈ l')
    (hcomm : ∀ x ∈ l, ∀ y ∈ l, ∀ s, f (f s x) y = f (f s y) x)
    (hidem : ∀ x ∈ l, ∀ s, f (f s x) x = f s x) (s : β) : l.foldl f s = l'.foldl f s := by
  have hcomm' : ∀ x ∈ l', ∀ y ∈ l', ∀ s, f (f s x) y = f (f s y) x :=
    fun x hx y hy => hcomm x ((hmem x).mpr hx) y ((hmem y).mpr hy)
  have hboth : ∀ x ∈ l ++ l', x ∈ l := fun x hx =>
    (List.mem_append.mp hx).elim id (hmem x).mpr
  -- Each list absorbs the other one behind it, and the two of them may change places.
  calc l.foldl f s = (l ++ l').foldl f s :=
        (foldl_append_absorb hcomm hidem (fun x hx => (hmem x).mpr hx) s).symm
    _ = (l' ++ l).foldl f s :=
        List.perm_append_comm.foldl_eq' (fun x hx y hy => hcomm x (hboth x hx) y (hboth y hy)) s
    _ = l'.foldl f s :=
        foldl_append_absorb hcomm' (fun x hx => hidem x ((hmem x).mpr hx))
          (fun x hx => (hmem x).mp hx) s

end Fold

namespace Slot

theorem supersedes_settle (s : Slot) (p : FileRecord × Option BlockList) :
    p.1.supersedes (s.settle p).1 = p.1.supersedes s.1 := by
  by_cases hp : p.1.supersedes s.1
  · have hself : p.1.supersedes (some p.1) = true :=
      (FileRecord.supersedes_some _ _).mpr (Timestamp.le_refl _)
    simp only [settle, hp, hself, if_true]
  · rw [settle, if_neg hp]

theorem settle_self (s : Slot) (p : FileRecord × Option BlockList) :
    (s.settle p).settle p = s.settle p := by
  rw [settle, supersedes_settle, settle]
  split_ifs <;> rfl

theorem not_le_of_supersedes {s : Option FileRecord} {new old : FileRecord}
    (hnew : new.supersedes s = true) (hold : ¬old.supersedes s = true) :
    ¬new.lastModified ≤ old.lastModified := by
  intro hle
  cases s with
  | none => exact hold rfl
  | some r =>
    rw [FileRecord.supersedes_some] at hnew hold
    exact hold (Timestamp.le_trans hnew hle)

theorem settle_comm {p q : FileRecord × Option BlockList}
    (h : p.1.lastModified = q.1.lastModified → p = q) (s : Slot) :
    (s.settle p).settle q = (s.settle q).settle p := by
  by_cases hp : p.1.supersedes s.1 <;> by_cases hq : q.1.supersedes s.1
  · by_cases hpq : p.1.lastModified ≤ q.1.lastModified
    · by_cases hqp : q.1.lastModified ≤ p.1.lastModified
      · rw [h (Timestamp.le_antisymm hpq hqp)]
      · simp [settle, hp, hq, FileRecord.supersedes_some, hpq, hqp]
    · have hqp := Timestamp.le_of_not_le hpq
      simp [settle, hp, hq, FileRecord.supersedes_some, hpq, hqp]
  · simp [settle, hp, hq, FileRecord.supersedes_some, not_le_of_supersedes hp hq]
  · simp [settle, hp, hq, FileRecord.supersedes_some, not_le_of_supersedes hq hp]
  · simp [settle, hp, hq]

end Slot

namespace Memory

theorem total_recordsOf_congr {m m' : Memory} (h : ∀ k, (m.slot k).1 = (m'.slot k).1)
    (folder : String) : Weight.total (m.recordsOf folder) = Weight.total (m'.recordsOf folder) := by
  have hfiles : m.files.map (·.withSequence 0) = m'.files.map (·.withSequence 0) :=
    Table.ext_get? fun k => by rw [Table.get?_map, Table.get?_map]; exact h k
  have hvalues : m.files.values.map (·.withSequence 0) = m'.files.values.map (·.withSequence 0) := by
    rw [← Table.values_map, hfiles, Table.values_map]
  have hweigh : ∀ records : List FileRecord,
      Weight.total (records.filter fun r => r.folder = folder) =
        ((records.map (·.withSequence 0)).map fun r =>
          if r.folder = folder then Weight.ofRecord r else 0).sum := by
    intro records
    rw [Weight.total_filter, List.map_map]
    simp only [decide_eq_true_eq]
    rfl
  rw [recordsOf, recordsOf, hweigh, hweigh, hvalues]

end Memory

/-- Two stores with the same contents, apart from local sequence numbers, the times of statistics
and the epoch. -/
structure Store.Agrees (s s' : Store) : Prop where
  file : ∀ folder path, ∃ r r', (s.answer (.file folder path)).1 = .ok r ∧
    (s'.answer (.file folder path)).1 = .ok r' ∧
    r.map (·.withSequence 0) = r'.map (·.withSequence 0)
  blocks : ∀ folder path, ∃ b, (s.answer (.blocks folder path)).1 = .ok b ∧
    (s'.answer (.blocks folder path)).1 = .ok b
  marker : ∀ folder device, ∃ k, (s.answer (.marker folder device)).1 = .ok k ∧
    (s'.answer (.marker folder device)).1 = .ok k
  stats : ∀ folder, ∃ c c', (s.answer (.stats folder)).1 = .ok c ∧
    (s'.answer (.stats folder)).1 = .ok c' ∧
    (c.getD { folder }).weight = (c'.getD { folder }).weight

section

variable {s s' : Store} {m m' : Memory} (h : s.Holds m) (h' : s'.Holds m')

include h h'

theorem Store.agrees_of_weight (hslot : ∀ k, m.slot k = m'.slot k)
    (hmarker : ∀ k, m.markers.get? k = m'.markers.get? k)
    (hweight : ∀ folder, (m.statsOf folder).weight = (m'.statsOf folder).weight) : s.Agrees s' where
  file folder path :=
    ⟨_, _, h.file_eq folder path, h'.file_eq folder path, congrArg Prod.fst (hslot _)⟩
  blocks folder path := by
    have hblocks : m.blocks.get? ⟨folder, path⟩ = m'.blocks.get? ⟨folder, path⟩ :=
      congrArg Prod.snd (hslot _)
    exact ⟨_, h.blocks_eq folder path, hblocks ▸ h'.blocks_eq folder path⟩
  marker folder device :=
    ⟨_, h.marker_eq folder device, hmarker ⟨folder, device⟩ ▸ h'.marker_eq folder device⟩
  stats folder := ⟨_, _, h.stats_eq folder, h'.stats_eq folder, hweight folder⟩

theorem Store.agrees_of_holds (hbal : m.Balanced) (hbal' : m'.Balanced)
    (hslot : ∀ k, m.slot k = m'.slot k) (hmarker : ∀ k, m.markers.get? k = m'.markers.get? k) :
    s.Agrees s' := by
  apply agrees_of_weight h h' hslot hmarker
  intro folder
  have htotal := Memory.total_recordsOf_congr (fun k => congrArg Prod.fst (hslot k)) folder
  rw [hbal.recount, hbal'.recount, htotal]

end

namespace Memory

variable {m : Memory}

theorem slot_run_eq_of_mem_iff {operations operations' : List Operation}
    (hclear : ∀ operation ∈ operations, ¬operation.isClearing) (htake : TakesInAll operations m)
    (htake' : TakesInAll operations' m)
    (hmem : ∀ operation, operation ∈ operations ↔ operation ∈ operations') {k : InFolder String}
    (hties : ∀ p ∈ operations.filterMap (·.offer? k), ∀ q ∈ operations.filterMap (·.offer? k),
      p.1.lastModified = q.1.lastModified → p = q) :
    (m.run operations).slot k = (m.run operations').slot k := by
  rw [slot_run hclear htake,
    slot_run (fun operation ho => hclear operation ((hmem operation).mpr ho)) htake']
  apply foldl_eq_of_mem_iff
  · intro p
    simp only [List.mem_filterMap, hmem]
  · exact fun p hp q hq s => Slot.settle_comm (hties p hp q hq) s
  · exact fun p _ s => s.settle_self p

theorem get?_markers_run_eq_of_mem_iff {i : Index} (h : i.store.Holds m) {folder : String}
    {messages messages' : List (DeviceId × List FileEntry)}
    (hb : ∀ operation ∈ deliveries folder messages, operation.Bounded)
    (htake : TakesInAll (deliveries folder messages) m)
    (htake' : TakesInAll (deliveries folder messages') m)
    (hmem : ∀ operation, operation ∈ deliveries folder messages ↔
      operation ∈ deliveries folder messages') (k : InFolder DeviceId) :
    (m.run (deliveries folder messages)).markers.get? k =
      (m.run (deliveries folder messages')).markers.get? k := by
  rw [get?_markers_run h hb htake,
    get?_markers_run h (fun operation ho => hb operation ((hmem operation).mpr ho)) htake']
  congr 1
  funext marker
  apply foldl_eq_of_mem_iff
  · intro n
    simp only [List.mem_filterMap, hmem]
  · intro a _ b _ s
    rw [s.upTo_upTo, s.upTo_upTo, max_comm]
  · intro a _ s
    rw [s.upTo_upTo, max_self]

end Memory

namespace Index

theorem offers_eq_of_ties {folder : String} {messages : List (DeviceId × List FileEntry)}
    (hties : ∀ x ∈ messages, ∀ y ∈ messages, ∀ f ∈ latestByPath x.2, ∀ g ∈ latestByPath y.2,
      f.name = g.name → f.lastModified = g.lastModified →
        ∀ p q, f.prepare? folder 0 = some p → g.prepare? folder 0 = some q → p = q)
    {operations : List Operation}
    (hmem : ∀ operation, operation ∈ operations ↔ operation ∈ deliveries folder messages)
    {k : InFolder String} {p q : FileRecord × Option BlockList}
    (hp : p ∈ operations.filterMap (·.offer? k)) (hq : q ∈ operations.filterMap (·.offer? k))
    (htime : p.1.lastModified = q.1.lastModified) : p = q := by
  have hentry : ∀ p, p ∈ operations.filterMap (·.offer? k) → ∃ x ∈ messages, ∃ f ∈ latestByPath x.2,
      f.name = k.item ∧ f.prepare? folder 0 = some p := by
    intro p hp
    obtain ⟨operation, ho, hoffer⟩ := List.mem_filterMap.mp hp
    obtain ⟨x, hx, rfl⟩ := mem_deliveries.mp ((hmem operation).mp ho)
    by_cases hk : folder = k.folder
    · obtain ⟨f, hnew, hprep⟩ := offered?_eq_some_iff.mp ((if_pos hk).symm.trans hoffer)
      have hname := name_of_newest? hnew
      exact ⟨x, hx, f, mem_latestByPath.mpr (hname ▸ hnew), hname, hprep⟩
    · exact absurd ((if_neg hk).symm.trans hoffer) (by simp)
  obtain ⟨x, hx, f, hf, hfname, hfp⟩ := hentry p hp
  obtain ⟨y, hy, g, hg, hgname, hgq⟩ := hentry q hq
  rw [FileEntry.prepare?_lastModified hfp, FileEntry.prepare?_lastModified hgq] at htime
  exact hties x hx y hy f hf g hg (hfname.trans hgname.symm) htime p q hfp hgq

/-- The same messages, in any two orders and with any repetitions, all go in and lead to the same
contents, if no two of them have different things to say about a path at the same time. -/
theorem deliveries_converge {backend : Backend} {draw : UInt64} {store : Store}
    (hs : Store.create backend draw = .ok store) {operations : List Operation}
    (hb : ∀ operation ∈ operations, operation.Bounded)
    (hn : ∀ operation ∈ operations, operation.SizesNonneg) {folder : String}
    {messages : List (DeviceId × List FileEntry)}
    (hbm : ∀ operation ∈ deliveries folder messages, operation.Bounded)
    (hnm : ∀ operation ∈ deliveries folder messages, operation.SizesNonneg)
    (hknown : ∀ x ∈ messages, ∃ marker,
      ((run { store } operations).store.answer (.marker folder x.1)).1 = .ok (some marker))
    (hties : ∀ x ∈ messages, ∀ y ∈ messages, ∀ f ∈ latestByPath x.2, ∀ g ∈ latestByPath y.2,
      f.name = g.name → f.lastModified = g.lastModified →
        ∀ p q, f.prepare? folder 0 = some p → g.prepare? folder 0 = some q → p = q)
    {first second : List (DeviceId × List FileEntry)} (hfirst : ∀ x, x ∈ first ↔ x ∈ messages)
    (hsecond : ∀ x, x ∈ second ↔ x ∈ messages) :
    Succeeds (deliveries folder first) (run { store } operations) ∧
      Succeeds (deliveries folder second) (run { store } operations) ∧
      ((run { store } operations).run (deliveries folder first)).store.Agrees
        ((run { store } operations).run (deliveries folder second)).store := by
  let m := (Memory.fresh draw).run operations
  have hfresh : ({ store } : Index).store.Holds (.fresh draw) := Store.holds_of_create hs
  have hholds : (run { store } operations).store.Holds m := holds_run hfresh hb
  have hbal : m.Balanced := balanced_run hfresh (Memory.balanced_fresh draw) hb
  have hsizes : m.SizesNonneg := (Memory.sizesNonneg_fresh draw).run hn
  have hmarkers : ∀ x ∈ messages, (m.markers.get? ⟨folder, x.1⟩).isSome := by
    intro x hx
    obtain ⟨marker, hmarker⟩ := hknown x hx
    rw [hholds.marker_eq] at hmarker
    rw [Except.ok.inj hmarker]
    rfl
  have hmem : ∀ l, (∀ x, x ∈ l ↔ x ∈ messages) → ∀ operation,
      operation ∈ deliveries folder l ↔ operation ∈ deliveries folder messages := by
    intro l hl operation
    simp only [mem_deliveries, hl]
  have hbounded : ∀ l, (∀ x, x ∈ l ↔ x ∈ messages) →
      ∀ operation ∈ deliveries folder l, operation.Bounded :=
    fun l hl operation ho => hbm operation ((hmem l hl operation).mp ho)
  have htake : ∀ l, (∀ x, x ∈ l ↔ x ∈ messages) → Memory.TakesInAll (deliveries folder l) m :=
    fun l hl => Memory.takesInAll_deliveries hholds hbal hsizes (hbounded l hl)
      (fun operation ho => hnm operation ((hmem l hl operation).mp ho))
      fun x hx => hmarkers x ((hl x).mp hx)
  have hclear : ∀ operation ∈ deliveries folder first, ¬operation.isClearing := by
    intro operation ho
    obtain ⟨x, -, rfl⟩ := mem_deliveries.mp ho
    exact Bool.false_ne_true
  have hsame : ∀ operation, operation ∈ deliveries folder first ↔
      operation ∈ deliveries folder second :=
    fun operation => (hmem first hfirst operation).trans (hmem second hsecond operation).symm
  have hslot := fun k => Memory.slot_run_eq_of_mem_iff hclear (htake first hfirst)
    (htake second hsecond) hsame (k := k)
    fun p hp q hq => offers_eq_of_ties hties (hmem first hfirst) hp hq
  have hmarker := Memory.get?_markers_run_eq_of_mem_iff hholds (hbounded first hfirst)
    (htake first hfirst) (htake second hsecond) hsame
  refine ⟨(succeeds_iff hholds (hbounded first hfirst)).mpr (htake first hfirst),
    (succeeds_iff hholds (hbounded second hsecond)).mpr (htake second hsecond), ?_⟩
  apply Store.agrees_of_holds _ _ _ _ hslot hmarker
  · exact holds_run hholds (hbounded first hfirst)
  · exact holds_run hholds (hbounded second hsecond)
  · exact balanced_run hholds hbal (hbounded first hfirst)
  · exact balanced_run hholds hbal (hbounded second hsecond)

theorem deliveries_converge_directory :
    let i := run { store := .memory (.fresh 5) } [.announcement "photos" .zero 7 2]
    let older := (DeviceId.zero, [FileEntry.directory "summer" 10 1])
    let newer := (DeviceId.zero, [FileEntry.directory "summer" 12 2])
    let after := i.run (deliveries "photos" [older, newer])
    (i.store.answer (.file "photos" "summer")).1 = .ok none ∧
      (i.statsOf "photos").1.map (·.dirs) = .ok 0 ∧
      (after.store.answer (.file "photos" "summer")).1.map (·.map (·.lastModified)) =
        .ok (some ⟨12, 0⟩) ∧
      (after.statsOf "photos").1.map (·.dirs) = .ok 1 ∧
      after.store.Agrees (i.run (deliveries "photos" [newer, older, newer])).store := by
  intro i older newer after
  have hs : Store.create .memory 5 = .ok (.memory (.fresh 5)) := rfl
  have hb : ∀ operation ∈ ([.announcement "photos" .zero 7 2] : List Operation),
      operation.Bounded := by decide
  have hknown : ∀ x ∈ [older, newer], ∃ marker,
      (i.store.answer (.marker "photos" x.1)).1 = .ok (some marker) := by
    intro x hx
    have hpeer : x.1 = .zero := by
      revert x
      decide
    rw [hpeer]
    exact ⟨_, rfl⟩
  have hentry : ∀ x ∈ [older, newer], ∀ y ∈ [older, newer], ∀ f ∈ latestByPath x.2,
      ∀ g ∈ latestByPath y.2, f.lastModified = g.lastModified → f = g := by
    decide +kernel
  have hstored : (after.store.answer (.file "photos" "summer")).1.map (·.map (·.lastModified)) =
      .ok (some ⟨12, 0⟩) := by
    decide +kernel
  have hmoved : (after.statsOf "photos").1.map (·.dirs) = .ok 1 := by decide +kernel
  refine ⟨by decide +kernel, by decide +kernel, hstored, hmoved, ?_⟩
  refine (deliveries_converge hs hb (by decide) (by decide) (by decide) hknown ?_
    (fun x => Iff.rfl) fun x => by simp [or_comm, or_left_comm]).2.2
  intro x hx y hy f hf g hg _ htime p q hp hq
  rw [hentry x hx y hy f hf g hg htime, hq] at hp
  exact (Option.some.inj hp).symm

end Index

end BlockExchange
