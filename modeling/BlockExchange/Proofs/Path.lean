import BlockExchange.Model.Path
import Mathlib.Data.List.TakeWhile

namespace BlockExchange.Path

def below (parent name : String) : String :=
  parent ++ String.singleton separator ++ name

variable {p q n : String}

theorem toList_below (q n : String) : (below q n).toList = q.toList ++ separator :: n.toList := by
  simp [below]

theorem separator_mem_below (q n : String) : separator ∈ (below q n).toList := by
  simp [toList_below]

theorem below_left_inj (n : String) : below p n = below q n ↔ p = q := by
  rw [← String.toList_inj, toList_below, toList_below, List.append_left_inj, String.toList_inj]

theorem ne_below_root (p : String) : p ≠ below root p := by
  intro h
  have hlength := congrArg (·.toList.length) h
  simp [toList_below, root] at hlength

theorem below_root_below (q n : String) : below root (below q n) = below (below root q) n := by
  simp only [below, String.append_assoc]

theorem join_root (n : String) : join root n = n := rfl

theorem join_of_ne_root (h : q ≠ root) (n : String) : join q n = below q n := by
  simp [join, isRoot, h, below]

theorem exists_below (p : String) :
    separator ∉ p.toList ∨ ∃ q n, separator ∉ n.toList ∧ p = below q n := by
  by_cases h : separator ∈ p.toList
  · obtain ⟨front, back, hsplit, hfront⟩ := List.eq_append_cons_of_mem (List.mem_reverse.mpr h)
    refine .inr ⟨.ofList back.reverse, .ofList front.reverse, by simpa using hfront, ?_⟩
    rw [← String.toList_inj, toList_below, String.toList_ofList, String.toList_ofList,
      ← List.reverse_reverse p.toList, hsplit, List.reverse_append, List.reverse_cons,
      List.append_assoc, List.singleton_append]
  · exact .inl h

section

variable (h : separator ∉ n.toList)

include h

theorem ne_separator_of_mem_reverse : ∀ c ∈ n.toList.reverse, (c != separator) = true :=
  fun _ hc => bne_iff_ne.mpr fun heq => h (heq ▸ List.mem_reverse.mp hc)

theorem fileName_of_notMem : fileName n = n := by
  rw [fileName, List.takeWhile_eq_self_iff.mpr (ne_separator_of_mem_reverse h),
    List.reverse_reverse, String.ofList_toList]

theorem parent_of_notMem : parent n = root := by
  rw [parent, List.dropWhile_eq_nil_iff.mpr (ne_separator_of_mem_reverse h)]
  rfl

theorem fileName_below (q : String) : fileName (below q n) = n := by
  rw [fileName, toList_below, List.reverse_append, List.reverse_cons, List.append_assoc,
    List.takeWhile_append_of_pos (ne_separator_of_mem_reverse h)]
  simp

theorem parent_below (q : String) : parent (below q n) = q := by
  rw [parent, toList_below, List.reverse_append, List.reverse_cons, List.append_assoc,
    List.dropWhile_append_of_pos (ne_separator_of_mem_reverse h)]
  simp

theorem fileName_join (q : String) : fileName (join q n) = n := by
  by_cases hq : q = root
  · rw [hq, join_root, fileName_of_notMem h]
  · rw [join_of_ne_root hq, fileName_below h]

theorem parent_join (q : String) : parent (join q n) = q := by
  by_cases hq : q = root
  · rw [hq, join_root, parent_of_notMem h]
  · rw [join_of_ne_root hq, parent_below h]

theorem parent_below_root : parent (below root n) = parent n := by
  rw [parent_below h, parent_of_notMem h]

end

theorem separator_notMem_fileName (p : String) : separator ∉ (fileName p).toList := by
  rcases exists_below p with h | ⟨q, n, h, rfl⟩
  · rwa [fileName_of_notMem h]
  · rwa [fileName_below h q]

theorem fileName_below_root (p : String) : fileName (below root p) = fileName p := by
  rcases exists_below p with h | ⟨q, n, h, rfl⟩
  · rw [fileName_below h root, fileName_of_notMem h]
  · rw [below_root_below, fileName_below h _, fileName_below h q]

theorem parent_eq_of_eq_below (h : p = below q (fileName p)) : parent p = q :=
  (congrArg parent h).trans (parent_below (separator_notMem_fileName p) q)

theorem join_parent_fileName_eq_iff (p : String) :
    join (parent p) (fileName p) = p ↔ p ≠ below root (fileName p) := by
  rcases exists_below p with h | ⟨q, n, h, rfl⟩
  · rw [fileName_of_notMem h, parent_of_notMem h]
    exact iff_of_true (join_root p) (ne_below_root p)
  · rw [fileName_below h q, parent_below h q, ne_eq, below_left_inj]
    by_cases hq : q = root
    · have hne : n ≠ below root n := fun heq => h (heq ▸ separator_mem_below root n)
      rw [hq, join_root]
      exact iff_of_false hne (not_not_intro rfl)
    · exact iff_of_true (join_of_ne_root hq n) hq

theorem fileName_eq_empty_iff (p : String) :
    fileName p = "" ↔ p = root ∨ p = below (parent p) "" := by
  rcases exists_below p with h | ⟨q, n, h, rfl⟩
  · rw [fileName_of_notMem h]
    have hne : p ≠ below (parent p) "" := fun heq => h (heq ▸ separator_mem_below _ _)
    exact (or_iff_left hne).symm
  · rw [fileName_below h q, parent_below h q]
    have hne : below q n ≠ root := fun heq => by
      have hmem := separator_mem_below q n
      rw [heq] at hmem
      simp [root] at hmem
    rw [or_iff_right hne, ← String.toList_inj, ← String.toList_inj, toList_below, toList_below]
    simp

def IsLastSeparator (path : String) (i : Nat) : Prop :=
  path.toList[i]? = some separator ∧ separator ∉ path.toList.drop (i + 1)

instance (path : String) (i : Nat) : Decidable (IsLastSeparator path i) :=
  inferInstanceAs (Decidable (_ ∧ _))

theorem isLastSeparator_below_root : IsLastSeparator (below root p) 0 ↔ separator ∉ p.toList := by
  simp [IsLastSeparator, toList_below, root]

theorem isLastSeparator_iff {i : Nat} :
    IsLastSeparator p i ↔ p = below (parent p) (fileName p) ∧ (parent p).toList.length = i := by
  constructor
  · rintro ⟨hat, hbehind⟩
    obtain ⟨hi, hget⟩ := List.getElem?_eq_some_iff.mp hat
    let q := String.ofList (p.toList.take i)
    let n := String.ofList (p.toList.drop (i + 1))
    have hp : p = below q n := by
      rw [← String.toList_inj, toList_below, String.toList_ofList, String.toList_ofList, ← hget,
        ← List.drop_eq_getElem_cons hi, List.take_append_drop]
    have hname : separator ∉ n.toList := by simpa [n] using hbehind
    have hparent : parent p = q := (congrArg parent hp).trans (parent_below hname q)
    have hfile : fileName p = n := (congrArg fileName hp).trans (fileName_below hname q)
    rw [hparent, hfile]
    exact ⟨hp, by simp [q, hi.le]⟩
  · rintro ⟨hp, rfl⟩
    have hlist : p.toList = (parent p).toList ++ separator :: (fileName p).toList :=
      (congrArg String.toList hp).trans (toList_below _ _)
    rw [IsLastSeparator, hlist]
    constructor
    · simp
    · simpa using separator_notMem_fileName p

theorem isLastSeparator_zero_iff : IsLastSeparator p 0 ↔ p = below root (fileName p) := by
  rw [isLastSeparator_iff]
  constructor
  · rintro ⟨hp, hlength⟩
    have hroot : parent p = root := by simpa [root] using hlength
    rwa [hroot] at hp
  · intro hp
    have hroot : parent p = root := parent_eq_of_eq_below hp
    rw [hroot]
    exact ⟨hp, rfl⟩

theorem rejoined_eq_iff (p : String) :
    join (parent p) (fileName p) = p ↔ ¬IsLastSeparator p 0 := by
  rw [join_parent_fileName_eq_iff, isLastSeparator_zero_iff]

theorem below_root_rejoined_eq_iff (p : String) :
    below root (join (parent p) (fileName p)) = p ↔ IsLastSeparator p 0 := by
  constructor
  · intro h
    by_contra hp
    rw [(rejoined_eq_iff p).mpr hp] at h
    exact ne_below_root p h.symm
  · intro h
    have hp := isLastSeparator_zero_iff.mp h
    rw [parent_eq_of_eq_below hp, join_root]
    exact hp.symm

theorem eq_rejoined_or_eq_below_root (p : String) :
    p = join (parent p) (fileName p) ∨
      IsLastSeparator p 0 ∧ p = below root (join (parent p) (fileName p)) := by
  by_cases h : IsLastSeparator p 0
  · exact .inr ⟨h, ((below_root_rejoined_eq_iff p).mpr h).symm⟩
  · exact .inl ((rejoined_eq_iff p).mpr h).symm

theorem parent_eq_and_fileName_eq_iff :
    parent p = parent q ∧ fileName p = fileName q ↔
      p = q ∨ IsLastSeparator p 0 ∧ p = below root q ∨ IsLastSeparator q 0 ∧ q = below root p := by
  constructor
  · rintro ⟨hparent, hname⟩
    -- Both are rejoined to the same path, and so only the separator in front can tell them apart.
    have hp := eq_rejoined_or_eq_below_root p
    rw [hparent, hname] at hp
    rcases hp with hp | ⟨hfirst, hp⟩ <;>
      rcases eq_rejoined_or_eq_below_root q with hq | ⟨hfirst', hq⟩
    · exact .inl (hp.trans hq.symm)
    · exact .inr (.inr ⟨hfirst', hq.trans (congrArg (below root) hp.symm)⟩)
    · exact .inr (.inl ⟨hfirst, hp.trans (congrArg (below root) hq.symm)⟩)
    · exact .inl (hp.trans hq.symm)
  · rintro (rfl | ⟨h, rfl⟩ | ⟨h, rfl⟩)
    · exact ⟨rfl, rfl⟩
    · exact ⟨parent_below_root (isLastSeparator_below_root.mp h), fileName_below_root q⟩
    · exact ⟨(parent_below_root (isLastSeparator_below_root.mp h)).symm, (fileName_below_root p).symm⟩

/-- Splitting a path at its last separator and joining the parts are inverse to each other, except that a
path whose last separator is its first character comes back without it. No other two paths than these two
have their parent and file name in common. What is found again behind every parent, the root included,
are the names without a separator. -/
theorem split_join_inverse :
    (∀ p, separator ∉ (fileName p).toList ∧
      (join (parent p) (fileName p) = p ↔ ¬IsLastSeparator p 0) ∧
      (below root (join (parent p) (fileName p)) = p ↔ IsLastSeparator p 0)) ∧
    (∀ p q, parent p = parent q ∧ fileName p = fileName q ↔
      p = q ∨ IsLastSeparator p 0 ∧ p = below root q ∨ IsLastSeparator q 0 ∧ q = below root p) ∧
    ∀ q n, parent (join q n) = q ∧ fileName (join q n) = n ↔ separator ∉ n.toList := by
  refine ⟨fun p => ?_, fun p q => parent_eq_and_fileName_eq_iff, fun q n => ?_⟩
  · exact ⟨separator_notMem_fileName p, rejoined_eq_iff p, below_root_rejoined_eq_iff p⟩
  · constructor
    · rintro ⟨-, hname⟩
      rw [← hname]
      exact separator_notMem_fileName (join q n)
    · intro h
      exact ⟨parent_join h q, fileName_join h q⟩

example : IsLastSeparator "/summer" 0 ∧ join (parent "/summer") (fileName "/summer") = "summer" := by
  decide

end BlockExchange.Path
