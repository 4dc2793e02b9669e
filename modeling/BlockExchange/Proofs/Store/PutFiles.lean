import BlockExchange.Proofs.Store.Agreement
import Mathlib.Data.List.Nodup

namespace BlockExchange

open Transaction

namespace Memory

def putAll (m : Memory) (pairs : List (FileRecord × Option BlockList)) : Memory :=
  pairs.foldl (fun m p => m.putFile p.1 p.2) m

variable {m : Memory} {pairs : List (FileRecord × Option BlockList)}

theorem putAll_rest (m : Memory) (pairs : List (FileRecord × Option BlockList)) :
    m.putAll pairs =
      { m with files := (m.putAll pairs).files, blocks := (m.putAll pairs).blocks } := by
  induction pairs generalizing m with
  | nil => rfl
  | cons p rest ih => exact ih (m.putFile p.1 p.2)

theorem get?_files_putFile (m : Memory) (r : FileRecord) (blocks : Option BlockList)
    (k : InFolder String) :
    (m.putFile r blocks).files.get? k = if k = r.key then some r else m.files.get? k :=
  Table.get?_insert _ _ _ _

theorem get?_blocks_putFile (m : Memory) (r : FileRecord) (blocks : Option BlockList)
    (k : InFolder String) :
    (m.putFile r blocks).blocks.get? k = if k = r.key then blocks else m.blocks.get? k := by
  cases blocks with
  | none => exact Table.get?_erase _ _ _
  | some b => exact Table.get?_insert _ _ _ _

theorem read_putAll {β : Type} {k : InFolder String} (read : Memory → β)
    (written : FileRecord × Option BlockList → β)
    (hread : ∀ m p, read (putFile m p.1 p.2) = if k = p.1.key then written p else read m)
    (hdist : (pairs.map (·.1.key)).Nodup) :
    read (m.putAll pairs) = (pairs.find? (·.1.key = k)).elim (read m) written := by
  induction pairs generalizing m with
  | nil => rfl
  | cons p rest ih =>
    obtain ⟨hp, hrest⟩ := List.nodup_cons.mp hdist
    have hstep : (m.putAll (p :: rest)) = (m.putFile p.1 p.2).putAll rest := rfl
    rw [hstep, ih hrest, hread]
    by_cases hk : p.1.key = k
    · subst hk
      have hnone : rest.find? (·.1.key = p.1.key) = none := by
        apply List.find?_eq_none.mpr
        intro q hq hkey
        apply hp
        exact List.mem_map.mpr ⟨q, hq, by simpa using hkey⟩
      simp [hnone]
    · simp [hk, Ne.symm hk]

theorem get?_files_putAll (hdist : (pairs.map (·.1.key)).Nodup) (k : InFolder String) :
    (m.putAll pairs).files.get? k =
      ((pairs.find? (·.1.key = k)).map (·.1)).or (m.files.get? k) := by
  rw [read_putAll (·.files.get? k) (fun p => some p.1) (fun m p => get?_files_putFile m p.1 p.2 k) hdist]
  cases pairs.find? (·.1.key = k) <;> rfl

theorem get?_blocks_putAll (hdist : (pairs.map (·.1.key)).Nodup) (k : InFolder String) :
    (m.putAll pairs).blocks.get? k =
      (pairs.find? (·.1.key = k)).elim (m.blocks.get? k) (·.2) :=
  read_putAll (·.blocks.get? k) (·.2) (fun m p => get?_blocks_putFile m p.1 p.2 k) hdist

end Memory

namespace Store

variable {m : Memory} {pairs : List (FileRecord × Option BlockList)}

theorem plays_putFile {r : FileRecord} {blocks : Option BlockList}
    (hcheck : checkWrite r blocks = .ok ()) (hfit : r.Storable ∧ ∀ b ∈ blocks, b.Storable) :
    (Query.putFile r blocks).ask.Plays m (.ok ()) (m.putFile r blocks) := by
  have h := plays_ask (m := m) (q := .putFile r blocks) hfit
  simpa only [Memory.answer, hcheck] using h

theorem putEach_plays {lists : Table String BlockList} (hdist : (pairs.map (·.1.path)).Nodup)
    (hlists : ∀ p ∈ pairs, lists.get? p.1.path = p.2)
    (hcheck : ∀ p ∈ pairs, checkWrite p.1 p.2 = .ok ())
    (hfit : ∀ p ∈ pairs, p.1.Storable ∧ ∀ b ∈ p.2, b.Storable) :
    (putEach (pairs.map (·.1)) lists).Plays m (.ok ()) (m.putAll pairs) := by
  induction pairs generalizing m lists with
  | nil => exact plays_pure () m
  | cons p rest ih =>
    obtain ⟨hp, hrest⟩ := List.nodup_cons.mp hdist
    have hmem := List.mem_cons_self (a := p) (l := rest)
    rw [List.map_cons, putEach, hlists p hmem]
    apply (plays_putFile (hcheck p hmem) (hfit p hmem)).bind
    apply ih hrest
    · -- The block list of `p` is used up, and no later record has its path.
      intro q hq
      have hne : q.1.path ≠ p.1.path := fun he => hp (List.mem_map.mpr ⟨q, hq, he⟩)
      rw [Table.get?_erase, if_neg hne, hlists q (List.mem_cons_of_mem _ hq)]
    · intro q hq
      exact hcheck q (List.mem_cons_of_mem _ hq)
    · intro q hq
      exact hfit q (List.mem_cons_of_mem _ hq)

theorem path_eq_of_check {r : FileRecord} {b : BlockList}
    (h : checkWrite r (some b) = .ok ()) : b.path = r.path := by
  have hcheck := (checkWrite_eq_ok_iff r (some b)).mp h b rfl
  exact congrArg InFolder.item ((b.checkAgainst_eq_ok_iff r).mp hcheck).2

theorem get?_blocksByPath (hdist : (pairs.map (·.1.path)).Nodup)
    (hcheck : ∀ p ∈ pairs, checkWrite p.1 p.2 = .ok ()) {p : FileRecord × Option BlockList}
    (hp : p ∈ pairs) : (blocksByPath (pairs.filterMap (·.2))).get? p.1.path = p.2 := by
  have hown : ∀ b ∈ pairs.filterMap (·.2), b.path = p.1.path → p.2 = some b := by
    intro b hb hpath
    obtain ⟨q, hq, hqb⟩ := List.mem_filterMap.mp hb
    have hq' := hcheck q hq
    rw [hqb] at hq'
    have hqp : q = p :=
      List.inj_on_of_nodup_map hdist hq hp ((path_eq_of_check hq').symm.trans hpath)
    rw [← hqp, hqb]
  rw [blocksByPath, Table.get?_foldl_insert BlockList.path, Table.get?_empty, Option.or_none]
  cases hfind : (pairs.filterMap (·.2)).reverse.find? (·.path = p.1.path) with
  | some b =>
    have hb := List.mem_reverse.mp (List.mem_of_find?_eq_some hfind)
    exact (hown b hb (by simpa using List.find?_some hfind)).symm
  | none =>
    cases hb : p.2 with
    | none => rfl
    | some b =>
      have hmem : b ∈ pairs.filterMap (·.2) := List.mem_filterMap.mpr ⟨p, hp, hb⟩
      have hpath := hcheck p hp
      rw [hb] at hpath
      have hnot := List.find?_eq_none.mp hfind b (List.mem_reverse.mpr hmem)
      exact absurd (decide_eq_true (path_eq_of_check hpath)) hnot

theorem putFiles_plays (hdist : (pairs.map (·.1.path)).Nodup)
    (hcheck : ∀ p ∈ pairs, checkWrite p.1 p.2 = .ok ())
    (hfit : ∀ p ∈ pairs, p.1.Storable ∧ ∀ b ∈ p.2, b.Storable) :
    (putFiles (pairs.map (·.1)) (pairs.filterMap (·.2))).Plays m (.ok ()) (m.putAll pairs) := by
  have horphan : orphan? (pairs.map (·.1)) (pairs.filterMap (·.2)) = none := by
    apply List.find?_eq_none.mpr
    intro b hb hnot
    obtain ⟨p, hp, hpb⟩ := List.mem_filterMap.mp hb
    have hpath := hcheck p hp
    rw [hpb] at hpath
    have hany : (pairs.map (·.1)).any (·.path = b.path) = true :=
      List.any_eq_true.mpr ⟨p.1, List.mem_map_of_mem hp, by simp [path_eq_of_check hpath]⟩
    simp [hany] at hnot
  rw [putFiles, horphan]
  exact putEach_plays hdist (fun p hp => get?_blocksByPath hdist hcheck hp) hcheck hfit

end Store

end BlockExchange
