import BlockExchange.Proofs.Index.Slot
import Mathlib.Data.List.Induction

namespace BlockExchange

open Index

structure IsLastWriter (before : List (FileRecord × Option BlockList))
    (p : FileRecord × Option BlockList) (after : List (FileRecord × Option BlockList)) : Prop where
  notBelow : ∀ q ∈ before, q.1.lastModified ≤ p.1.lastModified
  above : ∀ q ∈ after, ¬p.1.lastModified ≤ q.1.lastModified

theorem IsLastWriter.le {before after : List (FileRecord × Option BlockList)}
    {p : FileRecord × Option BlockList} (h : IsLastWriter before p after) :
    ∀ q ∈ before ++ p :: after, q.1.lastModified ≤ p.1.lastModified := by
  intro q hq
  rcases List.mem_append.mp hq with hq | hq
  · exact h.notBelow q hq
  · rcases List.mem_cons.mp hq with rfl | hq
    · exact Timestamp.le_refl _
    · exact Timestamp.le_of_not_le (h.above q hq)

theorem Slot.foldl_settle_cases (offers : List (FileRecord × Option BlockList)) (s : Slot) :
    (offers.foldl settle s = s ∧ ∀ p ∈ offers, ¬p.1.supersedes s.1) ∨
      ∃ before p after, offers = before ++ p :: after ∧ IsLastWriter before p after ∧
        p.1.supersedes s.1 ∧ offers.foldl settle s = (some p.1, p.2) := by
  induction offers using List.reverseRecOn with
  | nil => exact .inl ⟨rfl, by simp⟩
  | append_singleton offers q ih =>
    rw [List.foldl_append, List.foldl_cons, List.foldl_nil]
    rcases ih with ⟨heq, hnone⟩ | ⟨before, p, after, rfl, hlast, hsup, heq⟩
    · rw [heq]
      by_cases hq : q.1.supersedes s.1
      · -- The others are older than `s`, hence older than `q`.
        have hbelow : ∀ p ∈ offers, p.1.lastModified ≤ q.1.lastModified := by
          intro p hp
          cases hs : s.1 with
          | none => exact absurd (by simp [hs, FileRecord.supersedes]) (hnone p hp)
          | some old =>
            have hp' := hnone p hp
            rw [hs, FileRecord.supersedes_some] at hp' hq
            exact Timestamp.le_trans (Timestamp.le_of_not_le hp') hq
        exact .inr ⟨offers, q, [], rfl, ⟨hbelow, by simp⟩, hq, if_pos hq⟩
      · left
        constructor
        · exact if_neg hq
        intro p hp
        rcases List.mem_append.mp hp with hp | hp
        · exact hnone p hp
        · rw [List.mem_singleton.mp hp]
          exact hq
    · rw [heq]
      by_cases hq : p.1.lastModified ≤ q.1.lastModified
      · -- `q` is the new last writer, also on a tie with `p`.
        have hbelow : ∀ x ∈ before ++ p :: after, x.1.lastModified ≤ q.1.lastModified := by
          intro x hx
          exact Timestamp.le_trans (hlast.le x hx) hq
        have hqs : q.1.supersedes s.1 := by
          cases hs : s.1 with
          | none => simp [FileRecord.supersedes]
          | some old =>
            rw [hs, FileRecord.supersedes_some] at hsup
            exact (FileRecord.supersedes_some _ _).mpr (Timestamp.le_trans hsup hq)
        exact .inr ⟨before ++ p :: after, q, [], rfl, ⟨hbelow, by simp⟩, hqs,
          if_pos ((FileRecord.supersedes_some _ _).mpr hq)⟩
      · have habove : ∀ x ∈ after ++ [q], ¬p.1.lastModified ≤ x.1.lastModified := by
          intro x hx
          rcases List.mem_append.mp hx with hx | hx
          · exact hlast.above x hx
          · rw [List.mem_singleton.mp hx]
            exact hq
        exact .inr ⟨before, p, after ++ [q], by simp, ⟨hlast.notBelow, habove⟩, hsup,
          if_neg (mt (FileRecord.supersedes_some _ _).mp hq)⟩

theorem Slot.lastModified_foldl_settle (offers : List (FileRecord × Option BlockList)) (s : Slot) :
    ∀ r ∈ s.1, ∃ r' ∈ (offers.foldl settle s).1, r.lastModified ≤ r'.lastModified := by
  intro r hr
  rcases foldl_settle_cases offers s with ⟨heq, -⟩ | ⟨before, p, after, -, -, hsup, heq⟩
  · rw [heq]
    exact ⟨r, hr, Timestamp.le_refl _⟩
  · rw [heq]
    rw [Option.mem_def.mp hr, FileRecord.supersedes_some] at hsup
    exact ⟨p.1, rfl, hsup⟩

namespace Memory

variable {m : Memory}

theorem exists_slot_iff {k : InFolder String} {r : FileRecord} :
    r ∈ (m.slot k).1 ↔ ∃ r' ∈ m.files.get? k, r'.withSequence 0 = r := by
  rw [slot, Option.mem_map]

theorem takesInAll_append {first rest : List Operation} (h : TakesInAll (first ++ rest) m) :
    TakesInAll first m ∧ TakesInAll rest (m.run first) := by
  induction first generalizing m with
  | nil => exact ⟨trivial, h⟩
  | cons operation first ih =>
    obtain ⟨hfirst, hrest⟩ := ih h.2
    exact ⟨⟨h.1, hfirst⟩, hrest⟩

theorem run_append (m : Memory) (first rest : List Operation) :
    m.run (first ++ rest) = (m.run first).run rest :=
  List.foldl_append

end Memory

namespace Index

/-- What is stored at a path after a run of announcements and messages that were taken in: nothing
if no message had anything to say about it, and otherwise the last writer of what they said. Up to
then a record is never lost, and it never gets older. -/
theorem file_eq_lastWriter {backend : Backend} {draw : UInt64} {store : Store}
    (hs : Store.create backend draw = .ok store) {operations : List Operation}
    (hb : ∀ operation ∈ operations, operation.Bounded)
    (hclear : ∀ operation ∈ operations, ¬operation.isClearing)
    (hsucc : Succeeds operations { store }) (folder path : String) :
    ∃ stored,
      ((run { store } operations).store.answer (.file folder path)).1 = .ok stored ∧
      (operations.filterMap (·.offer? ⟨folder, path⟩) = [] → stored = none) ∧
      (operations.filterMap (·.offer? ⟨folder, path⟩) ≠ [] →
        ∃ r before p after, stored = some r ∧ r.withSequence 0 = p.1 ∧
          operations.filterMap (·.offer? ⟨folder, path⟩) = before ++ p :: after ∧
          IsLastWriter before p after) ∧
      ∀ first rest, operations = first ++ rest →
        ∃ earlier,
          ((run { store } first).store.answer (.file folder path)).1 = .ok earlier ∧
          (∀ r ∈ earlier, ∃ r' ∈ stored, r.lastModified ≤ r'.lastModified) ∧
          ((∀ operation ∈ rest, ¬operation.Names ⟨folder, path⟩) → stored = earlier) := by
  have hfresh : ({ store } : Index).store.Holds (.fresh draw) := Store.holds_of_create hs
  have htake := (succeeds_iff hfresh hb).mp hsucc
  have hslot := Memory.slot_run hclear htake ⟨folder, path⟩
  refine ⟨_, (holds_run hfresh hb).file_eq folder path, ?_, ?_, ?_⟩
  · intro hnil
    rw [hnil] at hslot
    exact Option.map_eq_none_iff.mp (congrArg Prod.fst hslot)
  · intro hne
    rcases Slot.foldl_settle_cases (operations.filterMap (·.offer? ⟨folder, path⟩))
      ((Memory.fresh draw).slot ⟨folder, path⟩) with
      ⟨-, hnone⟩ | ⟨before, p, after, hsplit, hlast, -, heq⟩
    · -- In a new store there is nothing that a record could fail to supersede.
      obtain ⟨p, hp⟩ := List.exists_mem_of_ne_nil _ hne
      exact absurd rfl (hnone p hp)
    · rw [heq] at hslot
      obtain ⟨r, hr, hrp⟩ := Option.map_eq_some_iff.mp (congrArg Prod.fst hslot)
      exact ⟨r, before, p, after, hr, hrp, hsplit, hlast⟩
  · rintro first rest rfl
    have hbfirst : ∀ o ∈ first, o.Bounded := fun o ho => hb o (List.mem_append_left _ ho)
    have hcrest : ∀ o ∈ rest, ¬o.isClearing := fun o ho => hclear o (List.mem_append_right _ ho)
    refine ⟨_, (holds_run hfresh hbfirst).file_eq folder path, ?_, ?_⟩
    · intro r hr
      have hrest := Memory.slot_run hcrest (Memory.takesInAll_append htake).2 ⟨folder, path⟩
      rw [← Memory.run_append] at hrest
      obtain ⟨r', hr', hle⟩ := Slot.lastModified_foldl_settle _ _ _
        (Memory.exists_slot_iff.mpr ⟨r, hr, rfl⟩)
      rw [← hrest] at hr'
      obtain ⟨r'', hr'', rfl⟩ := Memory.exists_slot_iff.mp hr'
      exact ⟨r'', hr'', hle⟩
    · intro hname
      rw [Memory.run_append]
      exact Memory.get?_files_run hcrest hname

theorem file_eq_lastWriter_directory :
    let operations : List Operation :=
      [.announcement "photos" .zero 7 2,
       .message "photos" .zero [.directory "summer" 12 1],
       .message "photos" .zero [.directory "summer" 10 2]]
    ∃ r, ((run { store := .memory (.fresh 5) } operations).store.answer
        (.file "photos" "summer")).1 = .ok (some r) ∧ r.lastModified = ⟨12, 0⟩ := by
  intro operations
  have hs : Store.create .memory 5 = .ok (.memory (.fresh 5)) := rfl
  have hsucc : Succeeds operations { store := .memory (.fresh 5) } := by decide +kernel
  have htimes : (operations.filterMap (·.offer? ⟨"photos", "summer"⟩)).map (·.1.lastModified) =
      [⟨12, 0⟩, ⟨10, 0⟩] := by decide +kernel
  obtain ⟨stored, hfile, -, hlast, -⟩ :=
    file_eq_lastWriter hs (by decide) (by decide) hsucc "photos" "summer"
  have hne : operations.filterMap (·.offer? ⟨"photos", "summer"⟩) ≠ [] := by
    intro hnil
    rw [hnil] at htimes
    cases htimes
  obtain ⟨r, before, p, after, rfl, hr, hsplit, hwins⟩ := hlast hne
  have hp : p.1.lastModified ∈ [⟨12, 0⟩, (⟨10, 0⟩ : Timestamp)] := by
    rw [← htimes, hsplit]
    exact List.mem_map_of_mem (by simp)
  have hle : ⟨12, 0⟩ ≤ p.1.lastModified := by
    have hmem : ⟨12, 0⟩ ∈ (before ++ p :: after).map (·.1.lastModified) := by
      rw [← hsplit, htimes]
      exact List.mem_cons_self
    obtain ⟨q, hq, htime⟩ := List.mem_map.mp hmem
    exact htime ▸ hwins.le q hq
  have htime : r.lastModified = p.1.lastModified := by rw [← hr]; rfl
  refine ⟨r, hfile, htime.trans ?_⟩
  rcases List.mem_cons.mp hp with h | h
  · exact h
  · rw [List.mem_singleton.mp h] at hle
    exact absurd hle (by decide)

end Index

end BlockExchange
