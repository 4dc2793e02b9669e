import BlockExchange.Proofs.Index.Batch
import Mathlib.Data.List.Sigma

namespace BlockExchange.Index

def Precedes (p q : FileEntry × Nat) : Prop :=
  p.1.sequence < q.1.sequence ∨ p.1.sequence = q.1.sequence ∧ p.2 < q.2

def IsLatest (files : List FileEntry) (p : FileEntry × Nat) : Prop :=
  p ∈ files.zipIdx ∧ ∀ q ∈ files.zipIdx, q.1.name = p.1.name → q = p ∨ Precedes q p

theorem Precedes.asymm {p q : FileEntry × Nat} (h : Precedes p q) : ¬Precedes q p := by
  intro h'
  rcases h with h | ⟨heq, h⟩ <;> rcases h' with h' | ⟨heq', h'⟩
  · exact Int64.lt_irrefl (Int64.lt_trans h h')
  · exact Int64.lt_irrefl (heq' ▸ h)
  · exact Int64.lt_irrefl (heq ▸ h')
  · exact Nat.lt_asymm h h'

theorem precedes_of_zipIdxLE {p q : FileEntry × Nat}
    (h : List.zipIdxLE (fun a b : FileEntry => decide (a.sequence ≤ b.sequence)) p q = true)
    (hne : p.2 ≠ q.2) : Precedes p q := by
  unfold List.zipIdxLE at h
  split_ifs at h with hle hge
  · have heq := Int64.le_antisymm (of_decide_eq_true hle) (of_decide_eq_true hge)
    exact .inr ⟨heq, Nat.lt_of_le_of_ne (of_decide_eq_true h) hne⟩
  · exact .inl (Int64.not_le.mp fun hle' => hge (decide_eq_true hle'))

def sortedPlaces (files : List FileEntry) : List (FileEntry × Nat) :=
  files.zipIdx.mergeSort (List.zipIdxLE fun a b => decide (a.sequence ≤ b.sequence))

theorem mem_sortedPlaces {files : List FileEntry} {p : FileEntry × Nat} :
    p ∈ sortedPlaces files ↔ p ∈ files.zipIdx :=
  List.mem_mergeSort

theorem pairwise_sortedPlaces (files : List FileEntry) : (sortedPlaces files).Pairwise Precedes := by
  have hsorted := List.pairwise_mergeSort (List.zipIdxLE_trans sequence_le_trans)
    (List.zipIdxLE_total sequence_le_total) files.zipIdx
  have hplaces : (sortedPlaces files).Pairwise fun p q => p.2 ≠ q.2 := by
    apply List.pairwise_map.mp
    exact ((List.mergeSort_perm _ _).map _).nodup_iff.mpr (List.nodup_zipIdx_map_snd files)
  exact hsorted.imp₂ (fun _ _ => precedes_of_zipIdxLE) hplaces

theorem exists_keepLast {places : List (FileEntry × Nat)} (h : places.Pairwise Precedes) :
    ∃ kept : List (FileEntry × Nat), kept.Sublist places ∧
      keepLast (places.map (·.1)) = kept.map (·.1) ∧
      ∀ p, p ∈ kept ↔ p ∈ places ∧ ∀ q ∈ places, q.1.name = p.1.name → q = p ∨ Precedes q p := by
  induction places with
  | nil => exact ⟨[], .slnil, rfl, by simp⟩
  | cons first rest ih =>
    obtain ⟨hfirst, hrest⟩ := List.pairwise_cons.mp h
    obtain ⟨kept, hsub, hkept, hmem⟩ := ih hrest
    -- The first entry precedes all the others: it counts for its own name only.
    have hlater : ∀ p ∈ rest, ((∀ q ∈ first :: rest, q.1.name = p.1.name → q = p ∨ Precedes q p) ↔
        ∀ q ∈ rest, q.1.name = p.1.name → q = p ∨ Precedes q p) := by
      intro p hp
      rw [List.forall_mem_cons]
      exact and_iff_right fun _ => .inr (hfirst p hp)
    rw [List.map_cons, keepLast]
    split_ifs with hany
    · obtain ⟨f, hf, hname⟩ := List.any_eq_true.mp hany
      obtain ⟨q, hq, rfl⟩ := List.mem_map.mp hf
      refine ⟨kept, hsub.cons first, hkept, fun p => ?_⟩
      rw [hmem]
      constructor
      · rintro ⟨hp, hlast⟩
        exact ⟨List.mem_cons_of_mem _ hp, (hlater p hp).mpr hlast⟩
      · rintro ⟨hp, hlast⟩
        rcases List.mem_cons.mp hp with rfl | hp
        · rcases hlast q (List.mem_cons_of_mem _ hq) (of_decide_eq_true hname) with rfl | hprec
          · exact absurd (hfirst q hq) fun hself => hself.asymm hself
          · exact absurd hprec (hfirst q hq).asymm
        · exact ⟨hp, (hlater p hp).mp hlast⟩
    · have hother : ∀ q ∈ rest, q.1.name ≠ first.1.name := by
        intro q hq hname
        exact hany (List.any_eq_true.mpr ⟨q.1, List.mem_map_of_mem hq, decide_eq_true hname⟩)
      refine ⟨first :: kept, hsub.cons_cons first, ?_, fun p => ?_⟩
      · rw [hkept, List.map_cons]
      · rw [List.mem_cons, hmem]
        constructor
        · rintro (rfl | ⟨hp, hlast⟩)
          · refine ⟨List.mem_cons_self, List.forall_mem_cons.mpr ⟨fun _ => .inl rfl, ?_⟩⟩
            exact fun q hq hname => absurd hname (hother q hq)
          · exact ⟨List.mem_cons_of_mem _ hp, (hlater p hp).mpr hlast⟩
        · rintro ⟨hp, hlast⟩
          rcases List.mem_cons.mp hp with rfl | hp
          · exact .inl rfl
          · exact .inr ⟨hp, (hlater p hp).mp hlast⟩

theorem latestByPath_places (files : List FileEntry) :
    ((latestByPath files).map (·.name)).Nodup ∧
      (∀ name, name ∈ (latestByPath files).map (·.name) ↔ name ∈ files.map (·.name)) ∧
      ∃ places : List (FileEntry × Nat), latestByPath files = places.map (·.1) ∧
        places.Pairwise Precedes ∧ ∀ p, p ∈ places ↔ IsLatest files p := by
  obtain ⟨kept, hsub, hkept, hmem⟩ := exists_keepLast (pairwise_sortedPlaces files)
  refine ⟨nodup_latestByPath files, fun name => ?_, kept, ?_, ?_, fun p => ?_⟩
  · simp only [latestByPath, List.mem_map, mem_keepLast_name, List.mem_mergeSort]
  · rw [latestByPath, ← List.mergeSort_zipIdx]
    exact hkept
  · exact (pairwise_sortedPlaces files).sublist hsub
  · simp only [hmem, mem_sortedPlaces, IsLatest]

end BlockExchange.Index
