import BlockExchange.Proofs.Database.Listing
import BlockExchange.Proofs.Store.Reading
import Mathlib.Data.List.Induction

namespace BlockExchange

def FolderStats.raised (s : FolderStats) : FolderStats :=
  { s with lastUpdate := max 0 s.lastUpdate }

theorem FolderStats.raised_ne_iff (s : FolderStats) : s.raised ≠ s ↔ s.lastUpdate < 0 := by
  rw [ne_eq, raised, ← not_le, not_iff_not]
  constructor
  · intro h
    exact max_eq_right_iff.mp (congrArg lastUpdate h)
  · intro h
    rw [max_eq_right h]

def FolderStats.IsInRange (s : FolderStats) : Prop :=
  ∀ n ∈ [s.files, s.dirs, s.size], -2 ^ 63 ≤ n ∧ n < 2 ^ 63

instance : DecidablePred FolderStats.IsInRange := fun s =>
  inferInstanceAs (Decidable (∀ n ∈ [s.files, s.dirs, s.size], -2 ^ 63 ≤ n ∧ n < 2 ^ 63))

inductive StatsCall where
  | add (folder : String) (change : Weight)
  | touch (folder : String) (millis : Int)
  deriving DecidableEq

namespace StatsCall

def folder : StatsCall → String
  | add folder _ => folder
  | touch folder _ => folder

@[simp] theorem folder_add (f : String) (change : Weight) : (add f change).folder = f := rfl

@[simp] theorem folder_touch (f : String) (millis : Int) : (touch f millis).folder = f := rfl

def body : StatsCall → Transaction StoreError Unit
  | add folder change => (Query.addStats folder change).ask
  | touch folder millis => (Query.touchStats folder millis).ask

def write (first : Int → Int) (row : Option FolderStats) :
    StatsCall → Except StoreError FolderStats
  | add folder change =>
    let s := (row.getD { folder }).shift change
    (Store.checkStats s).map fun _ => s
  | touch folder millis =>
    .ok (row.elim { folder, lastUpdate := first millis } fun s =>
      { s with lastUpdate := max s.lastUpdate millis })

def sum? (row : Option FolderStats) : StatsCall → Option FolderStats
  | add folder change => some ((row.getD { folder }).shift change)
  | touch .. => none

def rowAfter (first : Int → Int) (folder : String) (row : Option FolderStats) (call : StatsCall) :
    Option FolderStats :=
  if call.folder = folder then (call.write first row).toOption.or row else row

section

variable {first : Int → Int} {folder : String} {row : Option FolderStats} {s : FolderStats}
  {call : StatsCall} {calls : List StatsCall}

theorem rowAfter_of_folder_ne (h : call.folder ≠ folder) : call.rowAfter first folder row = row :=
  if_neg h

theorem rowAfter_touch (millis : Int) :
    (touch folder millis).rowAfter first folder row =
      row.elim (some { folder, lastUpdate := first millis }) fun s =>
        some { s with lastUpdate := max s.lastUpdate millis } := by
  rw [rowAfter, folder_touch, if_pos rfl]
  cases row <;> rfl

theorem rowAfter_add (change : Weight) :
    (add folder change).rowAfter first folder row =
      if ((row.getD { folder }).shift change).isNonNegative then
        some ((row.getD { folder }).shift change)
      else row := by
  rw [rowAfter, folder_add, if_pos rfl, write, Store.checkStats]
  split_ifs <;> rfl

theorem exists_rowAfter (h : row = some s) (call : StatsCall) :
    ∃ s', call.rowAfter first folder row = some s' ∧ s.lastUpdate ≤ s'.lastUpdate := by
  subst h
  by_cases hf : call.folder = folder
  · subst hf
    cases call with
    | touch f millis => exact ⟨_, rowAfter_touch millis, le_max_left _ _⟩
    | add f change =>
      simp only [folder_add, rowAfter_add, Option.getD_some]
      split_ifs
      · exact ⟨_, rfl, le_rfl⟩
      · exact ⟨_, rfl, le_rfl⟩
  · exact ⟨s, rowAfter_of_folder_ne hf, le_rfl⟩

theorem exists_foldl_rowAfter (first : Int → Int) (h : row = some s) (calls : List StatsCall) :
    ∃ s', calls.foldl (rowAfter first folder) row = some s' ∧ s.lastUpdate ≤ s'.lastUpdate := by
  induction calls generalizing row s with
  | nil => exact ⟨s, h, le_rfl⟩
  | cons call rest ih =>
    obtain ⟨next, hnext, hle⟩ := exists_rowAfter h call
    obtain ⟨last, hlast, hle'⟩ := ih hnext
    exact ⟨last, hlast, hle.trans hle'⟩

theorem forall_mem_rowAfter {p : FolderStats → Prop} (h : ∀ s ∈ row, p s)
    (hfresh : ∀ time, p { folder, lastUpdate := time })
    (htime : ∀ s time, p s → p { s with lastUpdate := time })
    (hsum : ∀ s ∈ call.sum? row, call.folder = folder → s.isNonNegative → p s) :
    ∀ s ∈ call.rowAfter first folder row, p s := by
  by_cases hf : call.folder = folder
  · subst hf
    intro s hs
    cases call with
    | touch f millis =>
      rw [folder_touch, rowAfter_touch] at hs
      cases row with
      | none =>
        cases hs
        exact hfresh _
      | some old =>
        cases hs
        exact htime old _ (h old rfl)
    | add f change =>
      rw [folder_add, rowAfter_add] at hs
      split_ifs at hs with hcheck
      · cases hs
        exact hsum _ rfl rfl hcheck
      · exact h s hs
  · rwa [rowAfter_of_folder_ne hf]

theorem isNonNegative_rowAfter (h : ∀ s ∈ row, s.isNonNegative) :
    ∀ s ∈ call.rowAfter first folder row, s.isNonNegative :=
  forall_mem_rowAfter h (fun _ => rfl) (fun _ _ h => h) fun _ _ _ hcheck => hcheck

theorem isInRange_rowAfter (h : ∀ s ∈ row, s.IsInRange)
    (hsum : call.folder = folder → ∀ s ∈ call.sum? row, s.IsInRange) :
    ∀ s ∈ call.rowAfter first folder row, s.IsInRange := by
  have hfresh : ∀ time, FolderStats.IsInRange { folder, lastUpdate := time } := by
    intro time
    simp [FolderStats.IsInRange]
  exact forall_mem_rowAfter h hfresh (fun _ _ h => h) fun s hs hf _ => hsum hf s hs

theorem isNonNegative_foldl_rowAfter (calls : List StatsCall) (h : ∀ s ∈ row, s.isNonNegative) :
    ∀ s ∈ calls.foldl (rowAfter first folder) row, s.isNonNegative := by
  induction calls generalizing row with
  | nil => exact h
  | cons call rest ih => exact ih (isNonNegative_rowAfter h)

theorem write_raised (call : StatsCall) (row : Option FolderStats) :
    (∃ s, call.write id row = .ok s ∧
        call.write (max 0) (row.map FolderStats.raised) = .ok s.raised) ∨
      ∃ e e', call.write id row = .error e ∧
        call.write (max 0) (row.map FolderStats.raised) = .error e' ∧ e'.message = e.message := by
  cases call with
  | touch folder millis =>
    left
    cases row with
    | none => exact ⟨_, rfl, rfl⟩
    | some s =>
      refine ⟨_, rfl, ?_⟩
      simp only [write, Option.map_some, Option.elim_some, FolderStats.raised, max_assoc]
  | add folder change =>
    have hrow : (row.map FolderStats.raised).getD { folder } = (row.getD { folder }).raised := by
      cases row <;> rfl
    have hcheck : ((row.getD { folder }).raised.shift change).isNonNegative =
        ((row.getD { folder }).shift change).isNonNegative := rfl
    simp only [write, hrow, Store.checkStats, hcheck]
    split_ifs
    · exact .inl ⟨_, rfl, rfl⟩
    · exact .inr ⟨_, _, rfl, rfl, rfl⟩

theorem rowAfter_raised (call : StatsCall) (row : Option FolderStats) :
    call.rowAfter (max 0) folder (row.map FolderStats.raised) =
      (call.rowAfter id folder row).map FolderStats.raised := by
  by_cases hf : call.folder = folder
  · rw [rowAfter, rowAfter, if_pos hf, if_pos hf]
    rcases call.write_raised row with ⟨s, hs, hs'⟩ | ⟨e, e', he, he', -⟩
    · rw [hs, hs']
      rfl
    · rw [he, he']
      rfl
  · rw [rowAfter_of_folder_ne hf, rowAfter_of_folder_ne hf]

theorem foldl_rowAfter_raised (calls : List StatsCall) (row : Option FolderStats) :
    calls.foldl (rowAfter (max 0) folder) (row.map FolderStats.raised) =
      (calls.foldl (rowAfter id folder) row).map FolderStats.raised := by
  induction calls generalizing row with
  | nil => rfl
  | cons call rest ih => rw [List.foldl_cons, rowAfter_raised, ih, List.foldl_cons]

theorem touch_notMem_of_foldl_eq_none (h : calls.foldl (rowAfter first folder) row = none)
    (millis : Int) : touch folder millis ∉ calls := by
  intro hmem
  obtain ⟨before, since, rfl⟩ := List.append_of_mem hmem
  obtain ⟨s, hs⟩ : ∃ s, (touch folder millis).rowAfter first folder
      (before.foldl (rowAfter first folder) row) = some s := by
    rw [rowAfter_touch]
    cases before.foldl (rowAfter first folder) row <;> exact ⟨_, rfl⟩
  obtain ⟨last, hlast, -⟩ := exists_foldl_rowAfter first hs since
  rw [List.foldl_append, List.foldl_cons, hlast] at h
  cases h

def IsMadeByTouch (folder : String) (calls : List StatsCall) : Prop :=
  ∃ before millis since, calls = before ++ touch folder millis :: since ∧
    before.foldl (rowAfter id folder) none = none

theorem isMadeByTouch_append_singleton :
    IsMadeByTouch folder (calls ++ [call]) ↔ IsMadeByTouch folder calls ∨
      (∃ millis, call = touch folder millis) ∧ calls.foldl (rowAfter id folder) none = none := by
  constructor
  · rintro ⟨before, millis, since, heq, hnone⟩
    rcases List.eq_nil_or_concat since with rfl | ⟨since, last, rfl⟩
    · obtain ⟨rfl, hcall⟩ := List.append_inj' heq rfl
      exact .inr ⟨⟨millis, List.singleton_inj.mp hcall⟩, hnone⟩
    · rw [List.concat_eq_append, ← List.cons_append, ← List.append_assoc] at heq
      exact .inl ⟨before, millis, since, (List.append_inj' heq rfl).1, hnone⟩
  · rintro (⟨before, millis, since, rfl, hnone⟩ | ⟨⟨millis, rfl⟩, hnone⟩)
    · exact ⟨before, millis, since ++ [call], by simp, hnone⟩
    · exact ⟨calls, millis, [], rfl, hnone⟩

theorem elim_lastUpdate_rowAfter (h : ∀ millis, touch folder millis ≠ call) :
    (call.rowAfter first folder row).elim 0 (·.lastUpdate) = row.elim 0 (·.lastUpdate) := by
  by_cases hf : call.folder = folder
  · subst hf
    cases call with
    | touch f millis => exact absurd rfl (h millis)
    | add f change =>
      rw [folder_add, rowAfter_add]
      split_ifs
      · cases row <;> rfl
      · rfl
  · rw [rowAfter_of_folder_ne hf]

theorem elim_lastUpdate_neg_iff (folder : String) (calls : List StatsCall) :
    (calls.foldl (rowAfter id folder) none).elim 0 (·.lastUpdate) < 0 ↔
      IsMadeByTouch folder calls ∧ ∀ millis, touch folder millis ∈ calls → millis < 0 := by
  -- From the end: what a touch does depends on whether the calls before it have left a row.
  induction calls using List.reverseRecOn with
  | nil =>
    apply iff_of_false
    · exact lt_irrefl 0
    · rintro ⟨⟨before, millis, since, heq, -⟩, -⟩
      simp at heq
  | append_singleton calls call ih =>
    rw [isMadeByTouch_append_singleton, List.foldl_append, List.foldl_cons, List.foldl_nil]
    by_cases hcall : ∃ millis, call = touch folder millis
    · obtain ⟨millis, rfl⟩ := hcall
      rw [rowAfter_touch]
      cases hrow : calls.foldl (rowAfter id folder) none with
      | none =>
        have hnot := touch_notMem_of_foldl_eq_none hrow
        simp [hnot]
      | some s =>
        rw [hrow, Option.elim_some] at ih
        simp [ih, and_assoc, forall_and, or_imp]
    · have hnot : ∀ millis, touch folder millis ≠ call := fun millis h => hcall ⟨millis, h.symm⟩
      rw [elim_lastUpdate_rowAfter hnot, ih]
      simp [hcall, hnot]

end

end StatsCall

namespace Memory

def called (first : Int → Int) (m : Memory) (call : StatsCall) : Memory :=
  match call.write first (m.stats.get? call.folder) with
  | .ok s => { m with stats := m.stats.insert call.folder s }
  | .error _ => m

theorem get?_stats_called (first : Int → Int) (m : Memory) (call : StatsCall) (folder : String) :
    (m.called first call).stats.get? folder = call.rowAfter first folder (m.stats.get? folder) := by
  rw [called, StatsCall.rowAfter]
  split_ifs with hf
  · subst hf
    cases call.write first (m.stats.get? call.folder) with
    | ok s => exact (Table.get?_insert _ _ _ _).trans (if_pos rfl)
    | error e => rfl
  · cases call.write first (m.stats.get? call.folder) with
    | ok s => exact (Table.get?_insert _ _ _ _).trans (if_neg (Ne.symm hf))
    | error e => rfl

theorem get?_stats_foldl_called (first : Int → Int) (m : Memory) (calls : List StatsCall)
    (folder : String) :
    (calls.foldl (called first) m).stats.get? folder =
      calls.foldl (StatsCall.rowAfter first folder) (m.stats.get? folder) := by
  induction calls generalizing m with
  | nil => rfl
  | cons call rest ih => rw [List.foldl_cons, ih, get?_stats_called, List.foldl_cons]

theorem stats_foldl_called_raised (draw draw' : UInt64) (calls : List StatsCall) :
    (calls.foldl (called (max 0)) (.fresh draw)).stats =
      (calls.foldl (called id) (.fresh draw')).stats.map FolderStats.raised := by
  apply Table.ext_get?
  intro folder
  rw [Table.get?_map, get?_stats_foldl_called, get?_stats_foldl_called]
  exact StatsCall.foldl_rowAfter_raised calls none

end Memory

namespace Store

def firstTime : Store → Int → Int
  | .memory _ => max 0
  | .database .. => id

variable {s : Store} {m : Memory}

theorem firstTime_transact {ε α : Type} (s : Store) (t : Transaction ε α) :
    (s.transact t).2.firstTime = s.firstTime := by
  have hanswer : ∀ (s : Store) (q : Query), (s.answer q).2.firstTime = s.firstTime := by
    intro s q
    cases s <;> rfl
  have hrun : (t.run answer s).2.firstTime = s.firstTime := by
    induction t generalizing s with
    | done a => rfl
    | fail e => rfl
    | ask q next ih => exact (ih _ _).trans (hanswer s q)
  exact Transaction.commit_snd (p := fun s' : Store => s'.firstTime = s.firstTime) rfl hrun

theorem transact_ask_of_ok {q : Query} {r : q.Reply} {s' : Store} (h : s.answer q = (.ok r, s')) :
    s.transact q.ask = (.ok r, s') :=
  Transaction.commit_of_run_ok ((Transaction.run_ask q s).trans h)

theorem transact_ask_of_error {q : Query} {e : StoreError} {s' : Store}
    (h : s.answer q = (.error e, s')) : s.transact q.ask = (.error e, s) :=
  Transaction.commit_of_run_error ((Transaction.run_ask q s).trans h)

theorem Holds.transact_add (h : s.Holds m) (folder : String) (change : Weight) :
    (s.transact (Query.addStats folder change).ask).1 =
        checkStats ((m.statsOf folder).shift change) ∧
      (s.transact (Query.addStats folder change).ask).2.Holds
        (m.called s.firstTime (.add folder change)) := by
  obtain ⟨hreply, hnext⟩ := h.answer (q := .addStats folder change) trivial
  have hwrite : StatsCall.write s.firstTime (m.stats.get? folder) (.add folder change) =
      (checkStats ((m.statsOf folder).shift change)).map
        fun _ => (m.statsOf folder).shift change := rfl
  simp only [Memory.answer] at hreply hnext
  rw [Memory.called, StatsCall.folder_add, hwrite]
  cases hcheck : checkStats ((m.statsOf folder).shift change) with
  | error e =>
    rw [hcheck] at hreply
    rw [transact_ask_of_error (Prod.ext hreply rfl)]
    exact ⟨rfl, h⟩
  | ok _ =>
    rw [hcheck] at hreply hnext
    rw [transact_ask_of_ok (Prod.ext hreply rfl)]
    exact ⟨rfl, hnext⟩

theorem Holds.transact_touch (h : s.Holds m) (folder : String) (millis : Int) :
    (s.transact (Query.touchStats folder millis).ask).1 = .ok () ∧
      (s.transact (Query.touchStats folder millis).ask).2.Holds
        (m.called s.firstTime (.touch folder millis)) := by
  cases s with
  | memory m' =>
    obtain ⟨rfl, hkeyed⟩ := h
    have hnext := hkeyed.answer (.touchStats folder millis)
    have hcalled : (m'.answer (.touchStats folder millis)).2 =
        m'.called (max 0) (.touch folder millis) := by
      simp only [Memory.answer, Memory.called, Memory.statsOf, StatsCall.write, StatsCall.folder_touch]
      cases m'.stats.get? folder <;> rfl
    rw [hcalled] at hnext
    rw [transact_ask_of_ok rfl]
    exact ⟨rfl, hcalled, hnext⟩
  | database versions tables durable =>
    have hrow := Database.Tables.Represents.statsOf_eq h folder
    have hput := Database.Tables.Represents.putStats h
    simp only [Memory.called, StatsCall.write, StatsCall.folder_touch]
    cases hg : m.stats.get? folder with
    | none =>
      have hanswer : (database versions tables durable).answer (.touchStats folder millis) =
          (.ok (), .database versions (tables.putStats { folder, lastUpdate := millis }) durable) := by
        simp only [Store.answer, Database.answer, hrow, hg]
      rw [transact_ask_of_ok hanswer]
      exact ⟨rfl, hput _⟩
    | some row =>
      obtain rfl : row.folder = folder := h.keyed.stats.key_of_get? hg
      have hanswer : (database versions tables durable).answer (.touchStats row.folder millis) =
          (.ok (), .database versions
            (tables.putStats { row with lastUpdate := max row.lastUpdate millis }) durable) := by
        simp only [Store.answer, Database.answer, hrow, hg]
      rw [transact_ask_of_ok hanswer]
      exact ⟨rfl, hput _⟩

theorem Holds.transact_call (h : s.Holds m) (call : StatsCall) :
    (s.transact call.body).1 =
        (call.write s.firstTime (m.stats.get? call.folder)).map (fun _ => ()) ∧
      (s.transact call.body).2.Holds (m.called s.firstTime call) := by
  cases call with
  | touch folder millis => exact h.transact_touch folder millis
  | add folder change =>
    obtain ⟨hreply, hnext⟩ := h.transact_add folder change
    refine ⟨hreply.trans ?_, hnext⟩
    change _ = ((checkStats ((m.statsOf folder).shift change)).map _).map _
    cases checkStats ((m.statsOf folder).shift change) <;> rfl

def tallied (s : Store) (calls : List StatsCall) : Store :=
  calls.foldl (fun s call => (s.transact call.body).2) s

def replies : Store → List StatsCall → List (Except StoreError Unit)
  | _, [] => []
  | s, call :: rest => (s.transact call.body).1 :: (s.transact call.body).2.replies rest

/-- What the calls count up one after the other, before that is checked. -/
def sums : Store → List StatsCall → List FolderStats
  | _, [] => []
  | s, call :: rest =>
    (call.sum? (s.answer (.stats call.folder)).1.toOption.join).toList ++
      (s.transact call.body).2.sums rest

theorem Holds.tallied (h : s.Holds m) (calls : List StatsCall) :
    (s.tallied calls).Holds (calls.foldl (Memory.called s.firstTime) m) := by
  induction calls generalizing s m with
  | nil => exact h
  | cons call rest ih =>
    have hrest := ih (h.transact_call call).2
    rwa [firstTime_transact] at hrest

theorem Holds.statsRow_tallied (h : s.Holds m) (calls : List StatsCall) (folder : String) :
    ((s.tallied calls).answer (.stats folder)).1 =
      .ok (calls.foldl (StatsCall.rowAfter s.firstTime folder) (m.stats.get? folder)) := by
  rw [(h.tallied calls).stats_eq, Memory.get?_stats_foldl_called]

theorem Holds.isInRange_tallied (h : s.Holds m) {calls : List StatsCall}
    (hm : ∀ folder, ∀ row ∈ m.stats.get? folder, row.IsInRange)
    (hsums : ∀ sum ∈ s.sums calls, sum.IsInRange) (folder : String) :
    ∀ row ∈ calls.foldl (StatsCall.rowAfter s.firstTime folder) (m.stats.get? folder),
      row.IsInRange := by
  induction calls generalizing s m with
  | nil => exact hm folder
  | cons call rest ih =>
    rw [sums, h.stats_eq, List.forall_mem_append] at hsums
    obtain ⟨hsum, hrest⟩ := hsums
    have hnext := (h.transact_call call).2
    have hrows : ∀ folder, ∀ row ∈ (m.called s.firstTime call).stats.get? folder, row.IsInRange := by
      intro folder
      rw [Memory.get?_stats_called]
      apply StatsCall.isInRange_rowAfter (hm folder)
      rintro rfl sum hsum'
      exact hsum sum (Option.mem_toList.mpr hsum')
    have hlater := ih hnext hrows hrest
    rw [firstTime_transact, Memory.get?_stats_called] at hlater
    exact hlater

theorem Holds.allStats_eq (h : s.Holds m) : (s.answer .allStats).1 = .ok m.stats.values := by
  cases s with
  | memory m' =>
    obtain ⟨rfl, -⟩ := h
    rfl
  | database versions tables durable =>
    exact congrArg Except.ok (Database.Tables.Represents.allStats_eq h)

theorem Holds.replies_alike {s' : Store} {m' : Memory} (h : s.Holds m) (h' : s'.Holds m')
    (hs : s.firstTime = max 0) (hs' : s'.firstTime = id)
    (hrows : ∀ folder, m.stats.get? folder = (m'.stats.get? folder).map FolderStats.raised)
    (calls : List StatsCall) :
    (s.replies calls).map (·.mapError (·.message)) =
      (s'.replies calls).map (·.mapError (·.message)) := by
  induction calls generalizing s s' m m' with
  | nil => rfl
  | cons call rest ih =>
    obtain ⟨hreply, hnext⟩ := h.transact_call call
    obtain ⟨hreply', hnext'⟩ := h'.transact_call call
    rw [replies, replies, List.map_cons, List.map_cons]
    congr 1
    · rw [hreply, hreply', hs, hs', hrows]
      rcases call.write_raised (m'.stats.get? call.folder) with
        ⟨s, hok, hok'⟩ | ⟨e, e', herror, herror', hmessage⟩
      · rw [hok, hok']
        rfl
      · rw [herror, herror']
        exact congrArg Except.error hmessage
    · apply ih hnext hnext' ((firstTime_transact s _).trans hs) ((firstTime_transact s' _).trans hs')
      intro folder
      rw [Memory.get?_stats_called, Memory.get?_stats_called, hs, hs', hrows,
        StatsCall.rowAfter_raised]

theorem Holds.exists_later (h : s.Holds m) {calls : List StatsCall} {folder : String}
    {row : FolderStats} (hrow : ((s.tallied calls).answer (.stats folder)).1 = .ok (some row))
    (more : List StatsCall) :
    ∃ later, ((s.tallied (calls ++ more)).answer (.stats folder)).1 = .ok (some later) ∧
      row.lastUpdate ≤ later.lastUpdate := by
  rw [h.statsRow_tallied, Except.ok.injEq] at hrow
  rw [h.statsRow_tallied, List.foldl_append]
  obtain ⟨later, hlater, hle⟩ := StatsCall.exists_foldl_rowAfter s.firstTime hrow more
  exact ⟨later, congrArg Except.ok hlater, hle⟩

/-- As long as 64-bit numbers are enough, new stores of both kinds refuse the same calls on statistics,
with the same message, and keep the same counts, none of them negative. Their times are the same except
where a database keeps one below zero, for which memory has zero: a touch has made the row, and none has
moved the time to zero or beyond. In each of the stores a row stays, and its time never moves back. -/
theorem tallied_alike {backend : Backend} {draw draw' : UInt64} {memory database : Store}
    (hm : create .memory draw = .ok memory) (hb : backend ≠ .memory)
    (hd : create backend draw' = .ok database) (calls : List StatsCall)
    (hrange : ∀ sum ∈ database.sums calls, sum.IsInRange) :
    (memory.replies calls).map (·.mapError (·.message)) =
        (database.replies calls).map (·.mapError (·.message)) ∧
      (∃ rows, ((database.tallied calls).answer .allStats).1 = .ok rows ∧
        ((memory.tallied calls).answer .allStats).1 = .ok (rows.map FolderStats.raised) ∧
        (∀ folder, ((database.tallied calls).answer (.stats folder)).1 =
            .ok (rows.find? (·.folder = folder)) ∧
          ((memory.tallied calls).answer (.stats folder)).1 =
            .ok ((rows.find? (·.folder = folder)).map FolderStats.raised)) ∧
        ∀ row ∈ rows, row.isNonNegative ∧ row.IsInRange ∧
          (row.raised ≠ row ↔
            (∃ before millis since, calls = before ++ .touch row.folder millis :: since ∧
              ((database.tallied before).answer (.stats row.folder)).1 = .ok none) ∧
            ∀ millis, .touch row.folder millis ∈ calls → millis < 0)) ∧
      ∀ s ∈ [memory, database], ∀ more folder row,
        ((s.tallied calls).answer (.stats folder)).1 = .ok (some row) →
        ∃ later, ((s.tallied (calls ++ more)).answer (.stats folder)).1 = .ok (some later) ∧
          row.lastUpdate ≤ later.lastUpdate := by
  have hfresh := holds_of_create hm
  have hfresh' := holds_of_create hd
  have htime : memory.firstTime = max 0 := by
    cases hm
    rfl
  have htime' : database.firstTime = id := by
    cases backend <;> cases hd
    · exact absurd rfl hb
    · rfl
    · rfl
  have hholds := hfresh.tallied calls
  have hholds' := hfresh'.tallied calls
  rw [htime] at hholds
  rw [htime'] at hholds'
  have hrow := hfresh'.statsRow_tallied
  rw [htime'] at hrow
  have hraised := Memory.stats_foldl_called_raised draw draw' calls
  have hkeyed := hholds'.keyed.stats
  refine ⟨hfresh.replies_alike hfresh' htime htime' (fun _ => rfl) calls,
    ⟨_, hholds'.allStats_eq, ?_, fun folder => ?_, fun row hmem => ?_⟩, ?_⟩
  · rw [hholds.allStats_eq, hraised, Table.values_map]
  · rw [hkeyed.find?_eq_get? (.refl _), hholds.stats_eq, hholds'.stats_eq, hraised, Table.get?_map]
    exact ⟨rfl, rfl⟩
  · have hget := hkeyed.mem_values.mp hmem
    have hnone : (Memory.fresh draw').stats.get? row.folder = none := rfl
    rw [Memory.get?_stats_foldl_called, hnone] at hget
    have hneg := StatsCall.elim_lastUpdate_neg_iff row.folder calls
    refine ⟨?_, ?_, ?_⟩
    · have hstart : ∀ s ∈ (none : Option FolderStats), s.isNonNegative := nofun
      exact StatsCall.isNonNegative_foldl_rowAfter calls hstart row hget
    · have hinrange := hfresh'.isInRange_tallied nofun hrange row.folder
      rw [htime'] at hinrange
      exact hinrange row hget
    · rw [hget, Option.elim_some] at hneg
      rw [row.raised_ne_iff, hneg]
      simp only [hrow, Except.ok.injEq, hnone]
      rfl
  · intro s hs more folder row
    simp only [List.mem_cons, List.not_mem_nil, or_false] at hs
    rcases hs with rfl | rfl
    · exact fun h => hfresh.exists_later h more
    · exact fun h => hfresh'.exists_later h more

theorem tallied_alike_photos :
    let calls : List StatsCall :=
      [.touch "photos" (-5), .add "photos" { files := -1 }, .add "photos" { files := 2, size := 9 },
        .touch "music" (-7), .touch "music" 3]
    ∃ memory database, create .memory 5 = .ok memory ∧ create .database 6 = .ok database ∧
      (∀ sum ∈ database.sums calls, sum.IsInRange) ∧
      (memory.replies calls).map (·.mapError (·.message)) =
        (database.replies calls).map (·.mapError (·.message)) ∧
      ∃ rows, ((database.tallied calls).answer .allStats).1 = .ok rows ∧
        rows.map FolderStats.raised =
          [{ folder := "music", lastUpdate := 3 }, { folder := "photos", files := 2, size := 9 }] ∧
        rows.find? (·.folder = "photos") =
          some { folder := "photos", files := 2, size := 9, lastUpdate := -5 } := by
  intro calls
  have hm : create .memory 5 = .ok (.memory (.fresh 5)) := rfl
  have hb : Backend.database ≠ .memory := nofun
  have hd : create .database 6 = .ok (.database [1] (.fresh 6) false) := rfl
  have hrange : ∀ sum ∈ (database [1] (.fresh 6) false).sums calls, sum.IsInRange := by
    unfold calls
    decide +kernel
  obtain ⟨hreplies, ⟨rows, hall, hall', hstats, -⟩, -⟩ := tallied_alike hm hb hd calls hrange
  have hmemory : (((memory (.fresh 5)).tallied calls).answer .allStats).1 =
      .ok [{ folder := "music", lastUpdate := 3 }, { folder := "photos", files := 2, size := 9 }] := by
    unfold calls
    decide +kernel
  have hphotos : (((database [1] (.fresh 6) false).tallied calls).answer (.stats "photos")).1 =
      .ok (some { folder := "photos", files := 2, size := 9, lastUpdate := -5 }) := by
    unfold calls
    decide +kernel
  refine ⟨_, _, hm, hd, hrange, hreplies, rows, hall, ?_, ?_⟩
  · exact Except.ok.inj (hall'.symm.trans hmemory)
  · exact Except.ok.inj ((hstats "photos").1.symm.trans hphotos)

theorem tallied_of_touched :
    ∃ memory database, create .memory 5 = .ok memory ∧ create .database 6 = .ok database ∧
      ((memory.tallied [.touch "photos" (-5)]).answer (.stats "photos")).1 =
        .ok (some { folder := "photos", lastUpdate := 0 }) ∧
      ((database.tallied [.touch "photos" (-5)]).answer (.stats "photos")).1 =
        .ok (some { folder := "photos", lastUpdate := -5 }) :=
  ⟨_, _, rfl, rfl, rfl, rfl⟩

end Store

end BlockExchange
