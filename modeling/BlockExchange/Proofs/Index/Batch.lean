import BlockExchange.Index.Merge
import BlockExchange.Proofs.Table
import Mathlib.Tactic.SplitIfs

namespace BlockExchange.Index

def newest? (path : String) : List FileEntry → Option FileEntry
  | [] => none
  | f :: rest =>
    match newest? path rest with
    | some g => if f.name = path ∧ g.sequence < f.sequence then some f else some g
    | none => if f.name = path then some f else none

structure IsNewest (path : String) (before : List FileEntry) (f : FileEntry)
    (after : List FileEntry) : Prop where
  name : f.name = path
  notBelow : ∀ g ∈ before, g.name = path → g.sequence ≤ f.sequence
  above : ∀ g ∈ after, g.name = path → g.sequence < f.sequence

theorem newest?_eq_none_iff {path : String} {files : List FileEntry} :
    newest? path files = none ↔ ∀ f ∈ files, f.name ≠ path := by
  induction files with
  | nil => simp [newest?]
  | cons f rest ih =>
    rw [List.forall_mem_cons, ← ih, newest?]
    cases hg : newest? path rest with
    | some g => by_cases hf : f.name = path ∧ g.sequence < f.sequence <;> simp [hf]
    | none => by_cases hf : f.name = path <;> simp [hf]

theorem isNewest_of_newest? {path : String} {files : List FileEntry} {f : FileEntry}
    (h : newest? path files = some f) :
    ∃ before after, files = before ++ f :: after ∧ IsNewest path before f after := by
  induction files generalizing f with
  | nil => simp [newest?] at h
  | cons e rest ih =>
    rw [newest?] at h
    cases hg : newest? path rest with
    | none =>
      rw [hg] at h
      have hnone := newest?_eq_none_iff.mp hg
      by_cases he : e.name = path
      · obtain rfl : e = f := by simpa [he] using h
        exact ⟨[], rest, rfl, he, by simp, fun g hmem hname => absurd hname (hnone g hmem)⟩
      · simp [he] at h
    | some g =>
      rw [hg] at h
      obtain ⟨before, after, rfl, hnew⟩ := ih hg
      by_cases he : e.name = path ∧ g.sequence < e.sequence
      · obtain rfl : e = f := by simpa [he] using h
        have habove : ∀ x ∈ before ++ g :: after, x.name = path → x.sequence < e.sequence := by
          intro x hmem hname
          rcases List.mem_append.mp hmem with hx | hx
          · exact Int64.lt_of_le_of_lt (hnew.notBelow x hx hname) he.2
          · rcases List.mem_cons.mp hx with rfl | hx
            · exact he.2
            · exact Int64.lt_trans (hnew.above x hx hname) he.2
        exact ⟨[], _, rfl, he.1, by simp, habove⟩
      · obtain rfl : g = f := by simpa [he] using h
        have hbelow : ∀ x ∈ e :: before, x.name = path → x.sequence ≤ g.sequence := by
          intro x hmem hname
          rcases List.mem_cons.mp hmem with rfl | hx
          · apply Int64.not_lt.mp
            intro hlt
            exact he ⟨hname, hlt⟩
          · exact hnew.notBelow x hx hname
        exact ⟨e :: before, after, rfl, hnew.name, hbelow, hnew.above⟩

theorem name_of_newest? {path : String} {files : List FileEntry} {f : FileEntry}
    (h : newest? path files = some f) : f.name = path := by
  obtain ⟨_, _, _, hnew⟩ := isNewest_of_newest? h
  exact hnew.name

theorem mem_of_newest? {path : String} {files : List FileEntry} {f : FileEntry}
    (h : newest? path files = some f) : f ∈ files := by
  obtain ⟨_, _, rfl, _⟩ := isNewest_of_newest? h
  simp

theorem mem_keepLast_name {path : String} {files : List FileEntry} :
    (∃ f ∈ keepLast files, f.name = path) ↔ ∃ f ∈ files, f.name = path := by
  induction files with
  | nil => simp [keepLast]
  | cons f rest ih =>
    rw [keepLast]
    split_ifs with hany
    · rw [ih, List.exists_mem_cons_iff]
      constructor
      · exact .inr
      · rintro (rfl | h)
        · simpa using hany
        · exact h
    · rw [List.exists_mem_cons_iff, List.exists_mem_cons_iff, ih]

theorem keepLast_sublist (files : List FileEntry) : (keepLast files).Sublist files := by
  induction files with
  | nil => exact .slnil
  | cons f rest ih =>
    rw [keepLast]
    split_ifs
    · exact ih.cons f
    · exact ih.cons_cons f

theorem nodup_keepLast (files : List FileEntry) : ((keepLast files).map (·.name)).Nodup := by
  induction files with
  | nil => exact .nil
  | cons f rest ih =>
    rw [keepLast]
    split_ifs with hany
    · exact ih
    · rw [List.map_cons, List.nodup_cons]
      constructor
      · intro hmem
        obtain ⟨g, hg, hname⟩ := List.mem_map.mp hmem
        apply hany
        exact List.any_eq_true.mpr ⟨g, (keepLast_sublist rest).subset hg, by simpa using hname⟩
      · exact ih

theorem find?_keepLast (path : String) (files : List FileEntry) :
    (keepLast files).find? (·.name = path) = files.reverse.find? (·.name = path) := by
  induction files with
  | nil => rfl
  | cons f rest ih =>
    rw [List.reverse_cons, List.find?_append, ← ih, keepLast]
    by_cases hf : f.name = path
    · by_cases hany : rest.any (·.name = f.name) = true
      · obtain ⟨g, hg, hname⟩ := List.any_eq_true.mp hany
        have hsome : ((keepLast rest).find? (·.name = path)).isSome := by
          obtain ⟨g', hg', hname'⟩ := mem_keepLast_name.mpr ⟨g, hg, of_decide_eq_true hname⟩
          exact List.find?_isSome.mpr ⟨g', hg', by simp [hname', hf]⟩
        obtain ⟨g', hg'⟩ := Option.isSome_iff_exists.mp hsome
        rw [if_pos hany, hg', Option.some_or]
      · have hnone : (keepLast rest).find? (·.name = path) = none := by
          apply List.find?_eq_none.mpr
          intro g hg hname
          apply hany
          refine List.any_eq_true.mpr ⟨g, (keepLast_sublist rest).subset hg, ?_⟩
          simpa [hf] using hname
        rw [if_neg hany, hnone]
        simp [hf]
    · split_ifs <;> simp [hf]

theorem sequence_le_trans (a b c : FileEntry) (hab : decide (a.sequence ≤ b.sequence))
    (hbc : decide (b.sequence ≤ c.sequence)) : decide (a.sequence ≤ c.sequence) :=
  decide_eq_true (Int64.le_trans (of_decide_eq_true hab) (of_decide_eq_true hbc))

theorem sequence_le_total (a b : FileEntry) :
    decide (a.sequence ≤ b.sequence) || decide (b.sequence ≤ a.sequence) := by
  simpa using Int64.le_total a.sequence b.sequence

theorem find?_reverse_mergeSort (path : String) (files : List FileEntry) :
    (files.mergeSort fun a b => a.sequence ≤ b.sequence).reverse.find? (·.name = path) =
      newest? path files := by
  induction files with
  | nil => simp [newest?]
  | cons f rest ih =>
    obtain ⟨low, high, hsort, hrest, hlow⟩ := List.mergeSort_cons sequence_le_trans sequence_le_total f rest
    rw [hrest, List.reverse_append, List.find?_append] at ih
    rw [hsort, List.reverse_append, List.reverse_cons, List.append_assoc, List.find?_append,
      List.singleton_append, List.find?_cons, newest?, ← ih]
    have hsorted := List.pairwise_mergeSort sequence_le_trans sequence_le_total (f :: rest)
    rw [hsort] at hsorted
    -- The sort is stable: what it puts before `f` is strictly below it.
    have hhigh : ∀ g ∈ high, f.sequence ≤ g.sequence := fun g hg =>
      of_decide_eq_true ((List.pairwise_cons.mp (List.pairwise_append.mp hsorted).2.1).1 g hg)
    cases hh : high.reverse.find? (·.name = path) with
    | some g =>
      have hle := hhigh g (List.mem_reverse.mp (List.mem_of_find?_eq_some hh))
      simp [Int64.not_lt.mpr hle]
    | none =>
      rw [Option.none_or, Option.none_or]
      by_cases hf : f.name = path
      · cases hl : low.reverse.find? (·.name = path) with
        | none => simp [hf]
        | some g =>
          have hlt : g.sequence < f.sequence := by
            have hg := hlow g (List.mem_reverse.mp (List.mem_of_find?_eq_some hl))
            simpa using hg
          simp [hf, hlt]
      · cases hl : low.reverse.find? (·.name = path) <;> simp [hf]

theorem find?_latestByPath (path : String) (files : List FileEntry) :
    (latestByPath files).find? (·.name = path) = newest? path files := by
  rw [latestByPath, find?_keepLast, find?_reverse_mergeSort]

theorem nodup_latestByPath (files : List FileEntry) : ((latestByPath files).map (·.name)).Nodup :=
  nodup_keepLast _

theorem mem_latestByPath {files : List FileEntry} {f : FileEntry} :
    f ∈ latestByPath files ↔ newest? f.name files = some f := by
  rw [← find?_latestByPath]
  constructor
  · exact find?_eq_some_of_nodup (nodup_latestByPath files)
  · exact List.mem_of_find?_eq_some

section

variable {files files' : List FileEntry} {p : FileEntry → Bool}

theorem mergeSort_perm (h : files.Perm files') (hd : (files.map (·.sequence)).Nodup) :
    (files.mergeSort fun a b => a.sequence ≤ b.sequence) =
      files'.mergeSort fun a b => a.sequence ≤ b.sequence := by
  have hsorted := List.pairwise_mergeSort sequence_le_trans sequence_le_total files
  have hsorted' := List.pairwise_mergeSort sequence_le_trans sequence_le_total files'
  have hperm := (List.mergeSort_perm files fun a b => a.sequence ≤ b.sequence).trans
    (h.trans (List.mergeSort_perm files' fun a b => a.sequence ≤ b.sequence).symm)
  refine List.Perm.eq_of_pairwise ?_ hsorted hsorted' hperm
  intro a b ha hb hab hba
  have hmem : a ∈ files := List.mem_mergeSort.mp ha
  have hmem' : b ∈ files := h.mem_iff.mpr (List.mem_mergeSort.mp hb)
  apply List.inj_on_of_nodup_map hd hmem hmem'
  exact Int64.le_antisymm (of_decide_eq_true hab) (of_decide_eq_true hba)

theorem latestByPath_perm (h : files.Perm files') (hd : (files.map (·.sequence)).Nodup) :
    latestByPath files = latestByPath files' := by
  rw [latestByPath, mergeSort_perm h hd, latestByPath]

theorem mergeSort_cons_eq (f : FileEntry) (rest : List FileEntry) :
    ((f :: rest).mergeSort fun a b => a.sequence ≤ b.sequence) =
      (rest.mergeSort fun a b => a.sequence ≤ b.sequence).filter
          (fun g => !(f.sequence ≤ g.sequence)) ++
        f :: (rest.mergeSort fun a b => a.sequence ≤ b.sequence).filter
          (f.sequence ≤ ·.sequence) := by
  obtain ⟨low, high, hsort, hrest, hlow⟩ :=
    List.mergeSort_cons sequence_le_trans sequence_le_total f rest
  have hsorted := List.pairwise_mergeSort sequence_le_trans sequence_le_total (f :: rest)
  rw [hsort] at hsorted
  have hhigh : ∀ g ∈ high, decide (f.sequence ≤ g.sequence) = true :=
    (List.pairwise_cons.mp (List.pairwise_append.mp hsorted).2.1).1
  have hlow' : ∀ g ∈ low, ¬decide (f.sequence ≤ g.sequence) = true := by
    intro g hg
    simpa using hlow g hg
  rw [hsort, hrest, List.filter_append, List.filter_append, List.filter_eq_self.mpr hlow,
    List.filter_eq_self.mpr hhigh, List.filter_eq_nil_iff.mpr hlow', List.nil_append,
    List.filter_eq_nil_iff.mpr (by simpa using hhigh), List.append_nil]

theorem filter_mergeSort (p : FileEntry → Bool) (files : List FileEntry) :
    (files.mergeSort fun a b => a.sequence ≤ b.sequence).filter p =
      (files.filter p).mergeSort fun a b => a.sequence ≤ b.sequence := by
  induction files with
  | nil => simp
  | cons f rest ih =>
    obtain ⟨low, high, hsort, hrest, -⟩ :=
      List.mergeSort_cons sequence_le_trans sequence_le_total f rest
    cases hf : p f with
    | true =>
      rw [List.filter_cons_of_pos hf, mergeSort_cons_eq, mergeSort_cons_eq, ← ih,
        List.filter_append, List.filter_cons_of_pos hf, List.filter_comm, List.filter_comm p]
    | false =>
      rw [List.filter_cons_of_neg (by simp [hf]), ← ih, hsort, hrest, List.filter_append,
        List.filter_cons_of_neg (by simp [hf]), List.filter_append]

theorem keepLast_filter (h : ∀ f ∈ files, ∀ g ∈ files, f.name = g.name → p f = p g) :
    keepLast (files.filter p) = (keepLast files).filter p := by
  induction files with
  | nil => rfl
  | cons f rest ih =>
    have hrest := ih fun a ha b hb => h a (List.mem_cons_of_mem _ ha) b (List.mem_cons_of_mem _ hb)
    cases hf : p f with
    | false =>
      rw [List.filter_cons_of_neg (by simp [hf]), hrest, keepLast]
      split_ifs
      · rfl
      · rw [List.filter_cons_of_neg (by simp [hf])]
    | true =>
      have hany : (rest.filter p).any (·.name = f.name) = rest.any (·.name = f.name) := by
        rw [Bool.eq_iff_iff, List.any_eq_true, List.any_eq_true]
        constructor
        · rintro ⟨g, hg, hname⟩
          exact ⟨g, (List.mem_filter.mp hg).1, hname⟩
        · rintro ⟨g, hg, hname⟩
          have hsame : p f = p g := h f List.mem_cons_self g (List.mem_cons_of_mem _ hg)
            (of_decide_eq_true hname).symm
          exact ⟨g, List.mem_filter.mpr ⟨hg, hsame ▸ hf⟩, hname⟩
      rw [List.filter_cons_of_pos hf, keepLast, keepLast, hany]
      split_ifs
      · exact hrest
      · rw [List.filter_cons_of_pos hf, hrest]

theorem latestByPath_filter (h : ∀ f ∈ files, ∀ g ∈ files, f.name = g.name → p f = p g) :
    latestByPath (files.filter p) = (latestByPath files).filter p := by
  rw [latestByPath, ← filter_mergeSort, keepLast_filter, latestByPath]
  intro f hf g hg
  exact h f (List.mem_mergeSort.mp hf) g (List.mem_mergeSort.mp hg)

end

end BlockExchange.Index
