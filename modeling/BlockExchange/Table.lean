namespace BlockExchange

structure Table (κ ν : Type) [Ord κ] where
  entries : List (κ × ν)
  sorted : entries.Pairwise fun a b => compare a.1 b.1 = .lt

namespace Table

variable {κ ν : Type} [Ord κ] [DecidableEq κ]

instance [DecidableEq ν] : DecidableEq (Table κ ν) := fun s t =>
  if h : s.entries = t.entries then
    isTrue (by cases s; cases t; simp_all)
  else isFalse fun e => h (e ▸ rfl)

instance : EmptyCollection (Table κ ν) := ⟨[], .nil⟩

def lookup (k : κ) : List (κ × ν) → Option ν
  | [] => none
  | (k', v) :: rest => if k = k' then some v else lookup k rest

def get? (t : Table κ ν) (k : κ) : Option ν :=
  lookup k t.entries

def place (k : κ) (v : ν) : List (κ × ν) → List (κ × ν)
  | [] => [(k, v)]
  | (k', v') :: rest =>
    match compare k k' with
    | .lt => (k, v) :: (k', v') :: rest
    | .eq => (k, v) :: rest
    | .gt => (k', v') :: place k v rest

def values (t : Table κ ν) : List ν :=
  t.entries.map (·.2)

omit [DecidableEq κ] in
theorem mem_place {k : κ} {v : ν} {e : κ × ν} {entries : List (κ × ν)}
    (h : e ∈ place k v entries) : e = (k, v) ∨ e ∈ entries := by
  induction entries with
  | nil => simpa [place] using h
  | cons head rest ih =>
    obtain ⟨k', v'⟩ := head
    simp only [place] at h
    split at h
    · simpa using h
    · rcases List.mem_cons.1 h with rfl | h
      · exact .inl rfl
      · exact .inr (List.mem_cons_of_mem _ h)
    · rcases List.mem_cons.1 h with rfl | h
      · exact .inr List.mem_cons_self
      · exact (ih h).imp id (List.mem_cons_of_mem _)

def erase (t : Table κ ν) (k : κ) : Table κ ν :=
  ⟨t.entries.filter fun e => k ≠ e.1, t.sorted.sublist List.filter_sublist⟩

omit [Ord κ] in
theorem lookup_filter (k k' : κ) (entries : List (κ × ν)) :
    lookup k' (entries.filter fun e => k ≠ e.1) = if k' = k then none else lookup k' entries := by
  induction entries with
  | nil => simp [lookup]
  | cons head rest ih =>
    obtain ⟨k₀, v₀⟩ := head
    simp only [ne_eq, decide_not] at ih
    by_cases h : k = k₀
    · subst h
      by_cases h' : k' = k
      · subst h'
        simpa using ih
      · simp [lookup, h', ih]
    · by_cases h' : k' = k₀
      · have : k' ≠ k := fun e => h (e ▸ h')
        simp [lookup, h', h, Ne.symm h]
      · simp [lookup, h, h', ih]

theorem get?_erase (t : Table κ ν) (k k' : κ) :
    (t.erase k).get? k' = if k' = k then none else t.get? k' :=
  lookup_filter k k' t.entries

omit [Ord κ] in
theorem mem_of_lookup {k : κ} {v : ν} {entries : List (κ × ν)}
    (h : lookup k entries = some v) : (k, v) ∈ entries := by
  induction entries with
  | nil => simp [lookup] at h
  | cons head rest ih =>
    simp only [lookup] at h
    split at h
    next eq =>
      cases h
      exact eq ▸ List.mem_cons_self
    next => exact List.mem_cons_of_mem _ (ih h)

variable [Std.TransOrd κ] [Std.LawfulEqOrd κ]

omit [DecidableEq κ] in
theorem sorted_place (k : κ) (v : ν) {entries : List (κ × ν)}
    (h : entries.Pairwise fun a b => compare a.1 b.1 = .lt) :
    (place k v entries).Pairwise fun a b => compare a.1 b.1 = .lt := by
  induction entries with
  | nil => simp [place]
  | cons head rest ih =>
    obtain ⟨k', v'⟩ := head
    have ⟨above, tail⟩ := List.pairwise_cons.1 h
    simp only [place]
    split
    next lt =>
      refine List.pairwise_cons.2 ⟨fun e he => ?_, h⟩
      rcases List.mem_cons.1 he with rfl | he
      · exact lt
      · exact Std.TransCmp.lt_trans lt (above e he)
    next eq =>
      have : k = k' := Std.LawfulEqOrd.eq_of_compare eq
      exact List.pairwise_cons.2 ⟨fun e he => this ▸ above e he, tail⟩
    next gt =>
      refine List.pairwise_cons.2 ⟨fun e he => ?_, ih tail⟩
      rcases mem_place he with rfl | he
      · exact Std.OrientedCmp.gt_iff_lt.1 gt
      · exact above e he

def insert (t : Table κ ν) (k : κ) (v : ν) : Table κ ν :=
  ⟨place k v t.entries, sorted_place k v t.sorted⟩

omit [Std.TransOrd κ] in
theorem lookup_place (k k' : κ) (v : ν) (entries : List (κ × ν)) :
    lookup k' (place k v entries) = if k' = k then some v else lookup k' entries := by
  induction entries with
  | nil => simp [place, lookup]
  | cons head rest ih =>
    obtain ⟨k₀, v₀⟩ := head
    simp only [place]
    split
    · simp only [lookup]
    next eq =>
      have : k = k₀ := Std.LawfulEqOrd.eq_of_compare eq
      subst this
      by_cases h : k' = k <;> simp [lookup, h]
    next gt =>
      have ne : k ≠ k₀ := by
        rintro rfl
        simp [Std.ReflCmp.compare_self] at gt
      simp only [lookup, ih]
      by_cases h : k' = k₀
      · simp [h, ne.symm]
      · simp [h]

theorem get?_insert (t : Table κ ν) (k k' : κ) (v : ν) :
    (t.insert k v).get? k' = if k' = k then some v else t.get? k' :=
  lookup_place k k' v t.entries

omit [Std.TransOrd κ] in
theorem lookup_of_mem {k : κ} {v : ν} {entries : List (κ × ν)}
    (sorted : entries.Pairwise fun a b => compare a.1 b.1 = .lt) (h : (k, v) ∈ entries) :
    lookup k entries = some v := by
  induction entries with
  | nil => simp at h
  | cons head rest ih =>
    have ⟨above, tail⟩ := List.pairwise_cons.1 sorted
    rcases List.mem_cons.1 h with rfl | h
    · simp [lookup]
    · have : k ≠ head.1 := by
        rintro rfl
        simpa [Std.ReflCmp.compare_self] using above _ h
      simp [lookup, this, ih tail h]

omit [Std.TransOrd κ] in
theorem get?_eq_some_iff {t : Table κ ν} {k : κ} {v : ν} :
    t.get? k = some v ↔ (k, v) ∈ t.entries :=
  ⟨mem_of_lookup, lookup_of_mem t.sorted⟩

end Table

end BlockExchange
