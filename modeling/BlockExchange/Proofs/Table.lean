import BlockExchange.Table
import Mathlib.Data.List.Nodup
import Mathlib.Data.List.Perm.Basic
import Mathlib.Algebra.BigOperators.Group.List.Basic

namespace BlockExchange

theorem exists_find?_eq_some {α : Type} {P : α → Prop} [DecidablePred P] {values : List α} {v : α}
    (hv : v ∈ values) (h : P v) :
    ∃ w ∈ values, values.find? (fun v => P v) = some w ∧ P w := by
  obtain ⟨w, hw⟩ := Option.isSome_iff_exists.mp
    (List.find?_isSome (p := fun v => decide (P v)) |>.mpr ⟨v, hv, decide_eq_true h⟩)
  exact ⟨w, List.mem_of_find?_eq_some hw, hw, of_decide_eq_true (List.find?_some hw :)⟩

theorem find?_eq_some_of_nodup {α κ : Type} [DecidableEq κ] {key : α → κ} {values : List α} {v : α}
    (hd : (values.map key).Nodup) (hv : v ∈ values) :
    values.find? (fun w => key w = key v) = some v := by
  obtain ⟨w, hmem, hw, hkey⟩ := exists_find?_eq_some (P := fun w => key w = key v) hv rfl
  rw [hw, List.inj_on_of_nodup_map hd hmem hv hkey]

namespace Table

variable {κ ν : Type} [Ord κ] [DecidableEq κ] [Std.TransOrd κ] [Std.LawfulEqOrd κ]

omit [DecidableEq κ] [Std.TransOrd κ] in
theorem pairwise_fst_ne (t : Table κ ν) : t.entries.Pairwise fun a b => a.1 ≠ b.1 :=
  t.sorted.imp fun {a b} h e => by simp [e, Std.ReflCmp.compare_self] at h

omit [DecidableEq κ] [Std.TransOrd κ] in
theorem nodup_entries (t : Table κ ν) : t.entries.Nodup :=
  t.pairwise_fst_ne.imp fun h e => h (congrArg Prod.fst e)

omit [Std.TransOrd κ] in
theorem get?_eq_none_iff {t : Table κ ν} {k : κ} : t.get? k = none ↔ ∀ e ∈ t.entries, e.1 ≠ k := by
  constructor
  · rintro h ⟨k', v⟩ he rfl
    rw [get?_eq_some_iff.mpr he] at h
    simp at h
  · intro h
    by_contra hne
    obtain ⟨v, hv⟩ := Option.ne_none_iff_exists'.mp hne
    exact h (k, v) (get?_eq_some_iff.mp hv) rfl

theorem ext_get? {s t : Table κ ν} (h : ∀ k, s.get? k = t.get? k) : s = t := by
  have hp : s.entries.Perm t.entries := by
    apply (List.perm_ext_iff_of_nodup s.nodup_entries t.nodup_entries).mpr
    rintro ⟨k, v⟩
    rw [← get?_eq_some_iff, ← get?_eq_some_iff, h]
  have he : s.entries = t.entries := by
    apply hp.eq_of_pairwise _ s.sorted t.sorted
    intro a b _ _ hab hba
    rw [Std.OrientedOrd.eq_swap, hba] at hab
    simp at hab
  cases s
  cases t
  simp_all

omit [Std.TransOrd κ] [Std.LawfulEqOrd κ] in
@[simp] theorem get?_empty (k : κ) : (∅ : Table κ ν).get? k = none := rfl

theorem insert_insert (t : Table κ ν) (k : κ) (v w : ν) :
    (t.insert k v).insert k w = t.insert k w := by
  apply ext_get?
  intro k'
  rw [get?_insert, get?_insert, get?_insert]
  split_ifs <;> rfl

omit [Std.TransOrd κ] in
theorem entries_perm_cons_erase {t u : Table κ ν} {k : κ} {v : ν}
    (h : ∀ k', u.get? k' = if k' = k then some v else t.get? k') :
    u.entries.Perm ((k, v) :: (t.erase k).entries) := by
  have hnot : (k, v) ∉ (t.erase k).entries := by simp [erase]
  have hnodup : ((k, v) :: (t.erase k).entries).Nodup :=
    List.nodup_cons.mpr ⟨hnot, nodup_entries _⟩
  apply (List.perm_ext_iff_of_nodup (nodup_entries _) hnodup).mpr
  rintro ⟨k', v'⟩
  rw [List.mem_cons, ← get?_eq_some_iff, ← get?_eq_some_iff, h, get?_erase]
  by_cases hk : k' = k
  · simp [hk, eq_comm]
  · simp [hk]

theorem entries_insert (t : Table κ ν) (k : κ) (v : ν) :
    (t.insert k v).entries.Perm ((k, v) :: (t.erase k).entries) :=
  entries_perm_cons_erase fun k' => get?_insert t k k' v

omit [Std.TransOrd κ] in
theorem entries_of_get?_eq_some {t : Table κ ν} {k : κ} {v : ν} (h : t.get? k = some v) :
    t.entries.Perm ((k, v) :: (t.erase k).entries) := by
  apply entries_perm_cons_erase
  intro k'
  split_ifs with hk
  · rw [hk, h]
  · rfl

omit [Std.TransOrd κ] in
theorem erase_of_get?_eq_none {t : Table κ ν} {k : κ} (h : t.get? k = none) :
    (t.erase k).entries = t.entries := by
  apply List.filter_eq_self.mpr
  intro e he
  simpa using (get?_eq_none_iff.mp h e he).symm

theorem values_insert (t : Table κ ν) (k : κ) (v : ν) :
    (t.insert k v).values.Perm (v :: (t.erase k).values) :=
  (t.entries_insert k v).map Prod.snd

omit [Std.TransOrd κ] in
theorem values_of_get?_eq_some {t : Table κ ν} {k : κ} {v : ν} (h : t.get? k = some v) :
    t.values.Perm (v :: (t.erase k).values) :=
  (entries_of_get?_eq_some h).map Prod.snd

omit [Std.TransOrd κ] [Std.LawfulEqOrd κ] in
theorem mem_values_of_erase {t : Table κ ν} {k : κ} {v : ν} (h : v ∈ (t.erase k).values) :
    v ∈ t.values := by
  obtain ⟨e, he, rfl⟩ := List.mem_map.mp h
  exact List.mem_map_of_mem (List.mem_filter.mp he).1

theorem mem_values_of_insert {t : Table κ ν} {k : κ} {v v' : ν} (h : v' ∈ (t.insert k v).values) :
    v' = v ∨ v' ∈ t.values := by
  rcases List.mem_cons.mp ((t.values_insert k v).mem_iff.mp h) with h | h
  · exact .inl h
  · exact .inr (mem_values_of_erase h)

theorem sum_values_insert {γ : Type} [AddCommGroup γ] (weight : ν → γ) (t : Table κ ν) (k : κ)
    (v : ν) :
    ((t.insert k v).values.map weight).sum =
      (t.values.map weight).sum - ((t.get? k).elim 0 weight) + weight v := by
  have hi := ((t.values_insert k v).map weight).sum_eq
  cases h : t.get? k with
  | none =>
    rw [hi, values, erase_of_get?_eq_none h, ← values, List.map_cons, List.sum_cons]
    simp [add_comm]
  | some old =>
    have ho := ((values_of_get?_eq_some h).map weight).sum_eq
    rw [hi, ho]
    simp [add_comm]

theorem get?_foldl_insert (key : ν → κ) (values : List ν) (t : Table κ ν) (k : κ) :
    (values.foldl (fun t v => t.insert (key v) v) t).get? k =
      (values.reverse.find? fun v => key v = k).or (t.get? k) := by
  induction values generalizing t with
  | nil => rfl
  | cons v rest ih =>
    rw [List.foldl_cons, ih, get?_insert, List.reverse_cons, List.find?_append, Option.or_assoc]
    congr 1
    by_cases hk : k = key v
    · simp [hk]
    · simp [hk, Ne.symm hk]

def map {μ : Type} (g : ν → μ) (t : Table κ ν) : Table κ μ where
  entries := t.entries.map fun e => (e.1, g e.2)
  sorted := List.pairwise_map.mpr t.sorted

omit [DecidableEq κ] [Std.TransOrd κ] [Std.LawfulEqOrd κ] in
theorem values_map {μ : Type} (g : ν → μ) (t : Table κ ν) : (t.map g).values = t.values.map g := by
  simp [values, map]

omit [Std.TransOrd κ] [Std.LawfulEqOrd κ] in
theorem get?_map {μ : Type} (g : ν → μ) (t : Table κ ν) (k : κ) :
    (t.map g).get? k = (t.get? k).map g := by
  have hlookup : ∀ entries : List (κ × ν),
      lookup k (entries.map fun e => (e.1, g e.2)) = (lookup k entries).map g := by
    intro entries
    induction entries with
    | nil => rfl
    | cons e rest ih =>
      simp only [List.map_cons, lookup, ih]
      split_ifs <;> rfl
  exact hlookup t.entries

omit [Std.TransOrd κ] in
theorem exists_get?_of_mem_values {t : Table κ ν} {v : ν} (h : v ∈ t.values) :
    ∃ k, t.get? k = some v := by
  obtain ⟨⟨k, v⟩, he, rfl⟩ := List.mem_map.mp h
  exact ⟨k, get?_eq_some_iff.mpr he⟩

def IsKeyedBy (t : Table κ ν) (key : ν → κ) : Prop :=
  ∀ e ∈ t.entries, e.1 = key e.2

variable {t : Table κ ν} {key : ν → κ} {k : κ} {v : ν}

omit [DecidableEq κ] [Std.TransOrd κ] [Std.LawfulEqOrd κ] in
theorem isKeyedBy_empty (key : ν → κ) : (∅ : Table κ ν).IsKeyedBy key := fun _ h => nomatch h

theorem IsKeyedBy.insert (h : t.IsKeyedBy key) (v : ν) : (t.insert (key v) v).IsKeyedBy key := by
  intro e he
  rcases List.mem_cons.mp ((t.entries_insert _ _).mem_iff.mp he) with rfl | he
  · rfl
  · exact h e (List.mem_filter.mp he).1

omit [Std.TransOrd κ] [Std.LawfulEqOrd κ] in
theorem IsKeyedBy.erase (h : t.IsKeyedBy key) (k : κ) : (t.erase k).IsKeyedBy key :=
  fun e he => h e (List.mem_filter.mp he).1

omit [Std.TransOrd κ] in
theorem IsKeyedBy.key_of_get? (h : t.IsKeyedBy key) (hv : t.get? k = some v) : key v = k :=
  (h _ (get?_eq_some_iff.mp hv)).symm

omit [Std.TransOrd κ] in
theorem IsKeyedBy.mem_values (h : t.IsKeyedBy key) : v ∈ t.values ↔ t.get? (key v) = some v := by
  rw [get?_eq_some_iff, values, List.mem_map]
  constructor
  · rintro ⟨e, he, rfl⟩
    rw [← h e he]
    exact he
  · exact fun he => ⟨_, he, rfl⟩

omit [Std.TransOrd κ] [Std.LawfulEqOrd κ] in
theorem IsKeyedBy.values_erase (h : t.IsKeyedBy key) (k : κ) :
    (t.erase k).values = t.values.filter fun v => k ≠ key v := by
  simp only [values, Table.erase, List.filter_map]
  congr 1
  apply List.filter_congr
  intro e he
  simp [h e he]

omit [Std.TransOrd κ] in
theorem IsKeyedBy.find?_eq_get? (h : t.IsKeyedBy key) {values : List ν} (hp : values.Perm t.values)
    (k : κ) : (values.find? fun v => key v = k) = t.get? k := by
  cases hg : t.get? k with
  | none =>
    apply List.find?_eq_none.mpr
    intro v hv hk
    rw [hp.mem_iff, h.mem_values, of_decide_eq_true hk, hg] at hv
    simp at hv
  | some v =>
    have hk : key v = k := h.key_of_get? hg
    have hv : v ∈ values := hp.mem_iff.mpr (h.mem_values.mpr (hk ▸ hg))
    obtain ⟨w, hmem, hw, hkw⟩ := exists_find?_eq_some (P := fun v => key v = k) hv hk
    have hget := h.mem_values.mp (hp.mem_iff.mp hmem)
    rw [hkw, hg] at hget
    rw [hw, ← hget]

omit [DecidableEq κ] [Std.LawfulEqOrd κ] in
theorem pairwise_mergeSort (key : ν → κ) (values : List ν) :
    (values.mergeSort fun a b => (compare (key a) (key b)).isLE).Pairwise fun a b =>
      (compare (key a) (key b)).isLE := by
  apply List.pairwise_mergeSort
  · exact fun _ _ _ => Std.TransOrd.isLE_trans
  · intro a b
    rw [Std.OrientedOrd.eq_swap (a := key b)]
    cases compare (key a) (key b) <;> rfl

omit [DecidableEq κ] [Std.TransOrd κ] [Std.LawfulEqOrd κ] in
theorem IsKeyedBy.pairwise_values (h : t.IsKeyedBy key) :
    t.values.Pairwise fun a b => compare (key a) (key b) = .lt := by
  apply List.pairwise_map.mpr
  apply t.sorted.imp_of_mem
  intro a b ha hb hab
  rw [← h a ha, ← h b hb, hab]

omit [DecidableEq κ] [Std.TransOrd κ] in
theorem IsKeyedBy.nodup_values (h : t.IsKeyedBy key) : t.values.Nodup :=
  h.pairwise_values.imp fun hlt heq => by simp [heq, Std.ReflCmp.compare_self] at hlt

theorem IsKeyedBy.mergeSort_eq_values (h : t.IsKeyedBy key) {values : List ν}
    (hp : values.Perm t.values) :
    values.mergeSort (fun a b => (compare (key a) (key b)).isLE) = t.values := by
  have hperm := (List.mergeSort_perm values fun a b => (compare (key a) (key b)).isLE).trans hp
  apply hperm.eq_of_pairwise _ (pairwise_mergeSort key values)
  · exact h.pairwise_values.imp fun hab => by rw [hab, Ordering.isLE_lt]
  · intro a b ha hb hab hba
    have hkey : key a = key b :=
      Std.LawfulEqOrd.eq_of_compare (Std.OrientedCmp.isLE_antisymm hab hba)
    have hga := h.mem_values.mp (hperm.mem_iff.mp ha)
    rw [hkey, h.mem_values.mp hb] at hga
    exact (Option.some.inj hga).symm

theorem IsKeyedBy.filter_values_congr {u : Table κ ν} (h : t.IsKeyedBy key) (hu : u.IsKeyedBy key)
    {p : ν → Bool} (hget : ∀ v, p v → t.get? (key v) = u.get? (key v)) :
    t.values.filter p = u.values.filter p := by
  have hperm : (t.values.filter p).Perm (u.values.filter p) := by
    apply (List.perm_ext_iff_of_nodup (h.nodup_values.filter p) (hu.nodup_values.filter p)).mpr
    intro v
    rw [List.mem_filter, List.mem_filter, h.mem_values, hu.mem_values]
    exact and_congr_left fun hv => by rw [hget v hv]
  apply hperm.eq_of_pairwise _ (h.pairwise_values.filter _) (hu.pairwise_values.filter _)
  intro a b _ _ hab hba
  rw [Std.OrientedOrd.eq_swap, hba] at hab
  cases hab

end Table

end BlockExchange
