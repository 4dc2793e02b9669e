import Mathlib.Data.List.Forall2
import Mathlib.Data.List.Induction

namespace BlockExchange

theorem exists_split_cons {α : Type} {l : List α} {a : α} {p : List α → α → List α → Prop} :
    (∃ before b after, a :: l = before ++ b :: after ∧ p before b after) ↔
      p [] a l ∨ ∃ before b after, l = before ++ b :: after ∧ p (a :: before) b after := by
  constructor
  · rintro ⟨before, b, after, heq, hp⟩
    rcases List.cons_eq_append_iff.mp heq with ⟨rfl, hcons⟩ | ⟨rest, rfl, rfl⟩
    · cases hcons
      exact .inl hp
    · exact .inr ⟨rest, b, after, rfl, hp⟩
  · rintro (hp | ⟨before, b, after, rfl, hp⟩)
    · exact ⟨[], a, l, rfl, hp⟩
    · exact ⟨a :: before, b, after, rfl, hp⟩

theorem exists_split_concat {α : Type} {l : List α} {a : α} {p : List α → α → List α → Prop} :
    (∃ before b after, l ++ [a] = before ++ b :: after ∧ p before b after) ↔
      (∃ before b after, l = before ++ b :: after ∧ p before b (after ++ [a])) ∨ p l a [] := by
  constructor
  · rintro ⟨before, b, after, heq, hp⟩
    rcases List.eq_nil_or_concat after with rfl | ⟨front, last, rfl⟩
    · obtain ⟨rfl, hlast⟩ := List.append_inj' heq rfl
      cases hlast
      exact .inr hp
    · rw [List.concat_eq_append] at heq hp
      rw [← List.cons_append, ← List.append_assoc] at heq
      obtain ⟨hfront, hlast⟩ := List.append_inj' heq rfl
      cases hlast
      exact .inl ⟨before, b, front, hfront, hp⟩
  · rintro (⟨before, b, after, rfl, hp⟩ | hp)
    · exact ⟨before, b, after ++ [a], by simp, hp⟩
    · exact ⟨l, a, [], rfl, hp⟩

theorem exists_last_iff {α : Type} {P : α → Prop} {l : List α} :
    (∃ before a after, l = before ++ a :: after ∧ P a ∧ ∀ x ∈ after, ¬P x) ↔ ∃ a ∈ l, P a := by
  induction l using List.reverseRecOn with
  | nil => simp
  | append_singleton l a ih =>
    rw [exists_split_concat]
    by_cases ha : P a
    · simp [ha]
    · simp [ha, ← ih, or_imp, forall_and]

theorem exists_of_mem_forall₂ {α β : Type} {R : α → β → Prop} {l : List α} {r : List β} {b : β}
    (h : l.Forall₂ R r) (hb : b ∈ r) : ∃ a ∈ l, R a b := by
  induction h with
  | nil => simp at hb
  | cons hab _ ih =>
    rcases List.mem_cons.mp hb with rfl | hb
    · exact ⟨_, List.mem_cons_self, hab⟩
    · obtain ⟨a, ha, hR⟩ := ih hb
      exact ⟨a, List.mem_cons_of_mem _ ha, hR⟩

section First

variable {α β γ : Type} {R : α → β → Prop} {l l' : List α} {b : β}

def IsFirst (R : α → β → Prop) (l : List α) (b : β) : Prop :=
  ∃ before a after, l = before ++ a :: after ∧ (∀ x ∈ before, ∀ y, ¬R x y) ∧ R a b

theorem not_isFirst_nil : ¬IsFirst R [] b := by
  rintro ⟨before, a, after, h, -⟩
  simp at h

theorem isFirst_cons {a : α} :
    IsFirst R (a :: l) b ↔ R a b ∨ (∀ y, ¬R a y) ∧ IsFirst R l b := by
  rw [IsFirst, exists_split_cons]
  simp only [List.forall_mem_cons, List.not_mem_nil, false_implies, implies_true, true_and, IsFirst,
    and_assoc, and_left_comm (b := ∀ y, ¬R a y), exists_and_left]

theorem isFirst_append :
    IsFirst R (l ++ l') b ↔ IsFirst R l b ∨ (∀ x ∈ l, ∀ y, ¬R x y) ∧ IsFirst R l' b := by
  induction l with
  | nil => simp [not_isFirst_nil]
  | cons a l ih =>
    rw [List.cons_append, isFirst_cons, isFirst_cons, ih, List.forall_mem_cons]
    tauto

theorem isFirst_map {g : γ → α} {l : List γ} :
    IsFirst R (l.map g) b ↔ IsFirst (fun x => R (g x)) l b := by
  induction l with
  | nil => simp [not_isFirst_nil]
  | cons a l ih => rw [List.map_cons, isFirst_cons, isFirst_cons, ih]

theorem exists_isFirst_iff : (∃ b, IsFirst R l b) ↔ ∃ a ∈ l, ∃ b, R a b := by
  induction l with
  | nil => simp [not_isFirst_nil]
  | cons a l ih =>
    simp only [isFirst_cons, exists_or, exists_and_left, ih]
    by_cases ha : ∃ b, R a b
    · simp [ha]
    · simp [not_exists.mp ha]

theorem forall_not_isFirst_iff : (∀ b, ¬IsFirst R l b) ↔ ∀ a ∈ l, ∀ b, ¬R a b := by
  rw [← not_exists, exists_isFirst_iff]
  simp only [not_exists, not_and]

theorem isFirst_flatMap {g : γ → List α} {l : List γ} :
    IsFirst R (l.flatMap g) b ↔ IsFirst (fun x => IsFirst R (g x)) l b := by
  induction l with
  | nil => simp [not_isFirst_nil]
  | cons a l ih =>
    rw [List.flatMap_cons, isFirst_append, isFirst_cons, ih, forall_not_isFirst_iff]

end First

section Failing

variable {ε α β : Type} {x : Except ε α} {f : α → Except ε β}

theorem bind_eq_ok_iff {b : β} : (x >>= f) = .ok b ↔ ∃ a, x = .ok a ∧ f a = .ok b := by
  cases x <;> simp [bind, Except.bind]

theorem bind_eq_error_iff {e : ε} :
    (x >>= f) = .error e ↔ x = .error e ∨ ∃ a, x = .ok a ∧ f a = .error e := by
  cases x <;> simp [bind, Except.bind]

theorem bind_eq_error_iff_or {e : ε} {P : Prop} (h : ∀ a, x = .ok a → (f a = .error e ↔ P)) :
    (x >>= f) = .error e ↔ x = .error e ∨ (∀ e', x ≠ .error e') ∧ P := by
  cases x with
  | error e' => simp [bind, Except.bind]
  | ok a => simp [bind, Except.bind, h a rfl]

theorem exists_eq_ok_iff : (∃ a, x = .ok a) ↔ ∀ e, x ≠ .error e := by
  cases x <;> simp

theorem mapError_eq_ok_iff {ε' : Type} {g : ε → ε'} {a : α} : x.mapError g = .ok a ↔ x = .ok a := by
  cases x <;> simp [Except.mapError]

theorem mapError_eq_error_iff {ε' : Type} {g : ε → ε'} {e' : ε'} :
    x.mapError g = .error e' ↔ ∃ e, x = .error e ∧ g e = e' := by
  cases x <;> simp [Except.mapError]

theorem mapM_eq_ok_iff {l : List α} {r : List β} :
    l.mapM f = .ok r ↔ l.Forall₂ (fun a b => f a = .ok b) r := by
  induction l generalizing r with
  | nil => cases r <;> simp [pure, Except.pure]
  | cons a l ih =>
    simp only [List.mapM_cons, bind_eq_ok_iff, ih]
    cases r with
    | nil => simp [pure, Except.pure]
    | cons b r => simp [pure, Except.pure]

theorem mapM_eq_error_iff {l : List α} {e : ε} :
    l.mapM f = .error e ↔ IsFirst (fun a e => f a = .error e) l e := by
  induction l with
  | nil => simp [not_isFirst_nil, pure, Except.pure]
  | cons a l ih =>
    simp only [List.mapM_cons, bind_eq_error_iff, ih, isFirst_cons]
    cases f a <;> simp [pure, Except.pure]

theorem foldlM_eq_error_iff {g : β → α → Except ε β} {R : α → ε → Prop}
    (h : ∀ b a e, g b a = .error e ↔ R a e) {l : List α} {b : β} {e : ε} :
    l.foldlM g b = .error e ↔ IsFirst R l e := by
  induction l generalizing b with
  | nil => simp [not_isFirst_nil, pure, Except.pure]
  | cons a l ih =>
    simp only [List.foldlM_cons, bind_eq_error_iff, ih, exists_and_right, exists_eq_ok_iff, ne_eq, h,
      isFirst_cons]

end Failing

end BlockExchange
