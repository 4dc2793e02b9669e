import BlockExchange.Proofs.Store.PutFiles
import Mathlib.Data.List.Count
/-!
Records that are written together with block lists, whatever they are and whatever the store holds. The
last list of a path goes to the first record of the path, and a record that is written again takes its
list away. So not every list that was given is found afterwards (`Store.putFiles_found`).
-/

namespace BlockExchange

namespace Database

def FileRow.key (row : FileRow) : InFolder String := ⟨row.folder, row.path⟩

def BlocksRow.key (row : BlocksRow) : InFolder String := ⟨row.folder, row.path⟩

theorem FileRow.key_ofRecord (r : FileRecord) : (ofRecord r).key = r.key := rfl

theorem BlocksRow.key_ofBlockList (b : BlockList) : (ofBlockList b).key = b.key := rfl

end Database

namespace Database.Tables

section

variable {ρ κ : Type} [DecidableEq κ] (key : ρ → κ) (k : κ) (rows : List ρ)

theorem find?_filter_key (k' : κ) :
    (rows.filter fun r => !decide (key r = k')).find? (fun r => decide (key r = k)) =
      if k = k' then none else rows.find? fun r => decide (key r = k) := by
  rw [List.find?_filter]
  split_ifs with hk
  · simp [hk]
  · congr 1
    funext r
    by_cases hr : key r = k <;> simp [hr, hk]

theorem find?_replace_key (row : ρ) :
    (replace (fun r => decide (key r = key row)) row rows).find? (fun r => decide (key r = k)) =
      if k = key row then some row else rows.find? fun r => decide (key r = k) := by
  rw [replace, List.find?_append, find?_filter_key, List.find?_singleton]
  by_cases hk : k = key row
  · simp [hk]
  · simp [hk, Ne.symm hk]

end

theorem isFileAt_eq (k : InFolder String) :
    isFileAt k.folder k.item = fun row => decide (row.key = k) := by
  funext row
  rw [Bool.eq_iff_iff]
  simp only [isFileAt, Bool.and_eq_true, beq_iff_eq, decide_eq_true_eq, ← InFolder.mk.injEq]
  rfl

theorem isBlocksAt_eq (k : InFolder String) :
    isBlocksAt k.folder k.item = fun row => decide (row.key = k) := by
  funext row
  rw [Bool.eq_iff_iff]
  simp only [isBlocksAt, Bool.and_eq_true, beq_iff_eq, decide_eq_true_eq, ← InFolder.mk.injEq]
  rfl

theorem file_putFile (t : Tables) {r : FileRecord} (hr : r.Storable) (blocks : Option BlockList)
    (k : InFolder String) :
    (t.putFile r blocks).file k.folder k.item =
      if k = r.key then .ok (some r) else t.file k.folder k.item := by
  have hfiles : (t.putFile r blocks).files =
      replace (isFileAt r.key.folder r.key.item) (.ofRecord r) t.files := rfl
  have hfind := find?_replace_key FileRow.key k t.files (.ofRecord r)
  rw [← isFileAt_eq k, ← isFileAt_eq, FileRow.key_ofRecord] at hfind
  rw [file, file, hfiles, hfind]
  split_ifs with hk
  · simp only [FileRow.toRecord_ofRecord hr, Except.map]
  · rfl

theorem blockList_putFile (t : Tables) (r : FileRecord) {blocks : Option BlockList}
    (hb : ∀ b ∈ blocks, b.Storable) (hkey : ∀ b ∈ blocks, b.key = r.key) (k : InFolder String) :
    (t.putFile r blocks).blockList k.folder k.item =
      if k = r.key then .ok blocks else t.blockList k.folder k.item := by
  cases blocks with
  | none =>
    have hblocks : (t.putFile r none).blocks =
        t.blocks.filter fun row => !isBlocksAt r.key.folder r.key.item row := rfl
    have hfind := find?_filter_key BlocksRow.key k t.blocks r.key
    rw [← isBlocksAt_eq k] at hfind
    rw [blockList, blockList, hblocks, isBlocksAt_eq r.key, hfind]
    split_ifs with hk <;> rfl
  | some b =>
    have hblocks : (t.putFile r (some b)).blocks =
        replace (isBlocksAt b.key.folder b.key.item) (.ofBlockList b) t.blocks := rfl
    have hfind := find?_replace_key BlocksRow.key k t.blocks (.ofBlockList b)
    rw [← isBlocksAt_eq k, ← isBlocksAt_eq, BlocksRow.key_ofBlockList] at hfind
    rw [blockList, blockList, hblocks, hfind, hkey b rfl]
    split_ifs with hk
    · simp only [BlocksRow.toBlockList_ofBlockList (hb b rfl), Except.map]
    · rfl

end Database.Tables

namespace Store

def fileAt (s : Store) (k : InFolder String) : Except StoreError (Option FileRecord) :=
  (s.answer (.file k.folder k.item)).1

def blocksAt (s : Store) (k : InFolder String) : Except StoreError (Option BlockList) :=
  (s.answer (.blocks k.folder k.item)).1

section

variable (s : Store) {r : FileRecord} {blocks : Option BlockList}

theorem reply_putFile (r : FileRecord) (blocks : Option BlockList) :
    (s.answer (.putFile r blocks)).1 = checkWrite r blocks := by
  cases s <;> simp only [answer, Memory.answer, Database.answer] <;> split <;> rename_i h <;> rw [h]

theorem fileAt_putFile (hcheck : checkWrite r blocks = .ok ()) (hr : r.Storable)
    (k : InFolder String) :
    (s.answer (.putFile r blocks)).2.fileAt k =
      if k = r.key then .ok (some r) else s.fileAt k := by
  cases s with
  | memory m =>
    simp only [fileAt, answer, Memory.answer, hcheck, Memory.get?_files_putFile]
    split_ifs <;> rfl
  | database versions tables durable =>
    simp only [fileAt, answer, Database.answer, hcheck, Database.reading,
      tables.file_putFile hr blocks]
    split_ifs <;> rfl

theorem blocksAt_putFile (hcheck : checkWrite r blocks = .ok ())
    (hb : ∀ b ∈ blocks, b.Storable) (k : InFolder String) :
    (s.answer (.putFile r blocks)).2.blocksAt k =
      if k = r.key then .ok blocks else s.blocksAt k := by
  cases s with
  | memory m =>
    simp only [blocksAt, answer, Memory.answer, hcheck, Memory.get?_blocks_putFile]
    split_ifs <;> rfl
  | database versions tables durable =>
    have hkey : ∀ b ∈ blocks, b.key = r.key := fun b hmem =>
      ((b.checkAgainst_eq_ok_iff r).mp ((checkWrite_eq_ok_iff r blocks).mp hcheck b hmem)).2
    simp only [blocksAt, answer, Database.answer, hcheck, tables.blockList_putFile r hb hkey]

end

/-- Records in order, each with the block list that it takes along: that of its path, unless a record
before it has taken it. -/
def dealt : List FileRecord → Table String BlockList → List (FileRecord × Option BlockList)
  | [], _ => []
  | r :: rest, lists => (r, lists.get? r.path) :: dealt rest (lists.erase r.path)

variable {records front back : List FileRecord} {lists : List BlockList}
  {table : Table String BlockList} {s : Store}

theorem map_fst_dealt (records : List FileRecord) (table : Table String BlockList) :
    (dealt records table).map (·.1) = records := by
  induction records generalizing table with
  | nil => rfl
  | cons r rest ih => rw [dealt, List.map_cons, ih]

theorem find?_dealt (records : List FileRecord) (table : Table String BlockList)
    (k : InFolder String) :
    ((dealt records table).reverse.find? (·.1.key = k)).map (·.1) =
      records.reverse.find? (·.key = k) := by
  conv_rhs => rw [← map_fst_dealt records table, ← List.map_reverse, List.find?_map]
  rfl

theorem mem_dealt_iff {r : FileRecord} {b : BlockList} :
    (r, some b) ∈ dealt records table ↔
      records.find? (·.path = r.path) = some r ∧ table.get? r.path = some b := by
  induction records generalizing table with
  | nil => simp [dealt]
  | cons first rest ih =>
    rw [dealt, List.mem_cons, ih, Prod.mk.injEq, Table.get?_erase, List.find?_cons]
    by_cases hpath : first.path = r.path
    · simp only [hpath, decide_true, if_true, reduceCtorEq, and_false, or_false, Option.some.injEq,
        eq_comm]
    · have hne : r ≠ first := fun heq => hpath (congrArg FileRecord.path heq.symm)
      simp [hpath, hne, Ne.symm hpath]

theorem dealt_append_cons (front back : List FileRecord) (r : FileRecord)
    (table : Table String BlockList) :
    ∃ rest, dealt (front ++ r :: back) table = dealt front table ++
        (r, if r.path ∈ front.map (·.path) then none else table.get? r.path) :: rest ∧
      rest.map (·.1) = back := by
  induction front generalizing table with
  | nil => exact ⟨_, rfl, map_fst_dealt _ _⟩
  | cons first front ih =>
    obtain ⟨rest, hdealt, hrest⟩ := ih (table.erase first.path)
    refine ⟨rest, ?_, hrest⟩
    rw [List.cons_append, dealt, hdealt, Table.get?_erase]
    by_cases hpath : r.path = first.path <;> simp [dealt, hpath]

theorem putEach_cons_of_ok {r : FileRecord} {rest : List FileRecord}
    (h : checkWrite r (table.get? r.path) = .ok ()) :
    (putEach (r :: rest) table).run answer s =
      (putEach rest (table.erase r.path)).run answer
        (s.answer (.putFile r (table.get? r.path))).2 := by
  have hask : (Query.putFile r (table.get? r.path)).ask.run answer s = (.ok (), _) :=
    (Transaction.run_ask _ s).trans (Prod.ext ((s.reply_putFile r _).trans h) rfl)
  rw [putEach, Transaction.run_bind_ok hask]

theorem putEach_cons_of_error {r : FileRecord} {rest : List FileRecord} {e : StoreError}
    (h : checkWrite r (table.get? r.path) = .error e) :
    ((putEach (r :: rest) table).run answer s).1 = .error e := by
  have hask : (Query.putFile r (table.get? r.path)).ask.run answer s = (.error e, _) :=
    (Transaction.run_ask _ s).trans (Prod.ext ((s.reply_putFile r _).trans h) rfl)
  rw [putEach, Transaction.run_bind_error hask]

theorem putEach_eq_ok_iff :
    ((putEach records table).run answer s).1 = .ok () ↔
      ∀ p ∈ dealt records table, checkWrite p.1 p.2 = .ok () := by
  induction records generalizing table s with
  | nil => exact iff_of_true rfl (List.forall_mem_nil _)
  | cons r rest ih =>
    rw [dealt, List.forall_mem_cons]
    cases hcheck : checkWrite r (table.get? r.path) with
    | error e => simp [putEach_cons_of_error hcheck]
    | ok _ => rw [putEach_cons_of_ok hcheck, ih, eq_self, true_and]

theorem putEach_found (hcheck : ∀ p ∈ dealt records table, checkWrite p.1 p.2 = .ok ())
    (hr : ∀ r ∈ records, r.Storable) (hb : ∀ path, ∀ b ∈ table.get? path, b.Storable)
    (k : InFolder String) :
    ((putEach records table).run answer s).2.fileAt k =
        ((dealt records table).reverse.find? (·.1.key = k)).elim (s.fileAt k) (.ok <| some ·.1) ∧
      ((putEach records table).run answer s).2.blocksAt k =
        ((dealt records table).reverse.find? (·.1.key = k)).elim (s.blocksAt k) (.ok ·.2) := by
  -- The first record of a path takes the path's list, so the others go on with a table without it.
  induction records generalizing table s with
  | nil => exact ⟨rfl, rfl⟩
  | cons r rest ih =>
    rw [dealt, List.forall_mem_cons] at hcheck
    have herase : ∀ path, ∀ b ∈ (table.erase r.path).get? path, b.Storable := by
      intro path b hmem
      rw [Table.get?_erase] at hmem
      split_ifs at hmem
      · cases hmem
      · exact hb path b hmem
    obtain ⟨hfile, hblocks⟩ := ih (s := (s.answer (.putFile r (table.get? r.path))).2) hcheck.2
      (fun r hmem => hr r (List.mem_cons_of_mem _ hmem)) herase
    rw [putEach_cons_of_ok hcheck.1, hfile, hblocks,
      s.fileAt_putFile hcheck.1 (hr r List.mem_cons_self), s.blocksAt_putFile hcheck.1 (hb r.path),
      dealt, List.reverse_cons, List.find?_append, List.find?_singleton]
    cases (dealt rest (table.erase r.path)).reverse.find? (·.1.key = k) with
    | some p => exact ⟨rfl, rfl⟩
    | none =>
      by_cases hk : r.key = k
      · simp [hk]
      · simp [hk, Ne.symm hk]

theorem get?_blocksByPath_eq (lists : List BlockList) (path : String) :
    (blocksByPath lists).get? path = lists.reverse.find? (·.path = path) := by
  rw [blocksByPath, Table.get?_foldl_insert BlockList.path, Table.get?_empty, Option.or_none]

theorem orphan?_eq_none_iff :
    orphan? records lists = none ↔ ∀ b ∈ lists, ∃ r ∈ records, r.path = b.path := by
  simp [orphan?, List.find?_eq_none]

theorem forall_dealt_iff (ho : orphan? records lists = none) :
    (∀ p ∈ dealt records (blocksByPath lists), checkWrite p.1 p.2 = .ok ()) ↔
      ∀ path, ∀ b ∈ lists.reverse.find? (·.path = path),
        ∃ r ∈ records.find? (·.path = path), b.checkAgainst r = .ok () := by
  constructor
  · intro hcheck path b hb
    have hmem : b ∈ lists := List.mem_reverse.mp (List.mem_of_find?_eq_some hb)
    obtain rfl : b.path = path := by simpa using List.find?_some hb
    obtain ⟨r, hr, hpath⟩ := orphan?_eq_none_iff.mp ho b hmem
    obtain ⟨first, -, hfirst, hown⟩ :=
      exists_find?_eq_some (P := fun r : FileRecord => r.path = b.path) hr hpath
    have hdealt : (first, some b) ∈ dealt records (blocksByPath lists) :=
      mem_dealt_iff.mpr ⟨hown ▸ hfirst, by rw [get?_blocksByPath_eq, hown]; exact hb⟩
    exact ⟨first, hfirst, (checkWrite_eq_ok_iff first (some b)).mp (hcheck _ hdealt) b rfl⟩
  · rintro hfit ⟨r, blocks⟩ hdealt
    rw [checkWrite_eq_ok_iff]
    rintro b hb
    obtain rfl := Option.mem_def.mp hb
    obtain ⟨hfirst, hlist⟩ := mem_dealt_iff.mp hdealt
    rw [get?_blocksByPath_eq] at hlist
    obtain ⟨first, hfirst', hcheck⟩ := hfit r.path b hlist
    obtain rfl : first = r := Option.some.inj (hfirst'.symm.trans hfirst)
    exact hcheck

theorem putFiles_eq_ok_iff :
    (s.transact (putFiles records lists)).1 = .ok () ↔
      ∀ path, ∀ b ∈ lists.reverse.find? (·.path = path),
        ∃ r ∈ records.find? (·.path = path), b.checkAgainst r = .ok () := by
  rw [transact, Transaction.commit_fst, putFiles]
  cases ho : orphan? records lists with
  | none => exact putEach_eq_ok_iff.trans (forall_dealt_iff ho)
  | some b =>
    simp only [Transaction.run_fail, reduceCtorEq, false_iff]
    intro hfit
    have hmem : b ∈ lists := List.mem_of_find?_eq_some ho
    have hnone := List.find?_some ho
    obtain ⟨last, -, hlast, -⟩ := exists_find?_eq_some
      (P := fun b' : BlockList => b'.path = b.path) (List.mem_reverse.mpr hmem) rfl
    obtain ⟨r, hr, -⟩ := hfit b.path last hlast
    have hpath := List.find?_some hr
    have hany : records.any (·.path = b.path) = true :=
      List.any_eq_true.mpr ⟨r, List.mem_of_find?_eq_some hr, hpath⟩
    rw [hany] at hnone
    cases hnone

theorem putFiles_run_of_ok (hok : (s.transact (putFiles records lists)).1 = .ok ()) :
    (∀ p ∈ dealt records (blocksByPath lists), checkWrite p.1 p.2 = .ok ()) ∧
      (s.transact (putFiles records lists)).2 =
        ((putEach records (blocksByPath lists)).run answer s).2 := by
  cases ho : orphan? records lists with
  | some b =>
    simp only [transact, putFiles, ho] at hok
    cases hok
  | none =>
    have hcheck := (forall_dealt_iff ho).mpr (putFiles_eq_ok_iff.mp hok)
    have hrun := putEach_eq_ok_iff (s := s).mpr hcheck
    simp only [transact, putFiles, ho]
    rw [Transaction.commit_of_run_ok (Prod.ext hrun rfl)]
    exact ⟨hcheck, rfl⟩

theorem exists_last_of_mem_keys {k : InFolder String} (h : k ∈ records.map (·.key)) :
    ∃ front r back, records = front ++ r :: back ∧ r.key = k ∧ k ∉ back.map (·.key) := by
  obtain ⟨front, r, back, heq, hkey, hback⟩ := exists_last_iff.mpr (List.mem_map.mp h)
  refine ⟨front, r, back, heq, hkey, fun hk => ?_⟩
  obtain ⟨x, hx, hxk⟩ := List.mem_map.mp hk
  exact hback x hx hxk

theorem blocksAt_eq_some_iff {k : InFolder String} {b : BlockList} (hkey : b.key = k)
    (hfit : ∀ path, ∀ b ∈ lists.reverse.find? (·.path = path),
      ∃ r ∈ records.find? (·.path = path), b.checkAgainst r = .ok ())
    (hk : k ∈ records.map (·.key)) :
    ((dealt records (blocksByPath lists)).reverse.find? (·.1.key = k)).bind (·.2) = some b ↔
      lists.reverse.find? (·.path = b.path) = some b ∧ (records.map (·.key)).count k = 1 := by
  obtain ⟨front, r, back, rfl, hr, hback⟩ := exists_last_of_mem_keys hk
  obtain ⟨rest, hdealt, hrest⟩ := dealt_append_cons front back r (blocksByPath lists)
  have hpath : r.path = b.path := congrArg InFolder.item (hr.trans hkey.symm)
  have hnone : rest.reverse.find? (·.1.key = k) = none := by
    apply List.find?_eq_none.mpr
    intro p hp hpk
    have hmem := List.mem_map_of_mem (f := (·.key))
      (List.mem_map_of_mem (f := Prod.fst) (List.mem_reverse.mp hp))
    rw [hrest, of_decide_eq_true hpk] at hmem
    exact hback hmem
  have hcount : ((front ++ r :: back).map (·.key)).count k = 1 ↔ k ∉ front.map (·.key) := by
    rw [List.map_append, List.map_cons, List.count_append, hr, List.count_cons_self,
      List.count_eq_zero.mpr hback, ← List.count_eq_zero]
    omega
  rw [hdealt, List.reverse_append, List.reverse_cons, List.append_assoc, List.find?_append, hnone,
    Option.none_or, List.singleton_append, List.find?_cons, hr, decide_eq_true rfl, hcount,
    Option.bind_some, hpath, get?_blocksByPath_eq]
  constructor
  · intro hlist
    split_ifs at hlist with hused
    refine ⟨hlist, fun hfront => hused ?_⟩
    obtain ⟨r', hr', hk'⟩ := List.mem_map.mp hfront
    exact List.mem_map.mpr ⟨r', hr', congrArg InFolder.item (hk'.trans hkey.symm)⟩
  · rintro ⟨hlist, hfront⟩
    rw [if_neg, hlist]
    intro hused
    obtain ⟨r', hr', hpath'⟩ := List.mem_map.mp hused
    -- The record that took the list would be one of the front, with the list's key.
    obtain ⟨first, hfirst, hcheck⟩ := hfit b.path b hlist
    obtain ⟨first', hmem, hfirst', -⟩ :=
      exists_find?_eq_some (P := fun r : FileRecord => r.path = b.path) hr' hpath'
    rw [Option.mem_def, List.find?_append, hfirst', Option.some_or] at hfirst
    obtain rfl := Option.some.inj hfirst
    have hown := ((b.checkAgainst_eq_ok_iff first').mp hcheck).2
    exact hfront (List.mem_map.mpr ⟨first', hmem, hown.symm.trans hkey⟩)

/-- Whatever a store holds, a batch of records and block lists goes in exactly if the last list of each
path fits the first record of the path. Then the last record of each key is found, and other keys are
left alone. A given list is found at the key of a record exactly if it is the last one of its path and
this key is written once. -/
theorem putFiles_found (s : Store) {records : List FileRecord} {lists : List BlockList}
    (hr : ∀ r ∈ records, r.Storable) (hb : ∀ b ∈ lists, b.Storable) :
    let batch := s.transact (putFiles records lists)
    (batch.1 = .ok () ↔ ∀ path, ∀ b ∈ lists.reverse.find? (·.path = path),
      ∃ r ∈ records.find? (·.path = path), b.checkAgainst r = .ok ()) ∧
    (batch.1 = .ok () →
      (∀ k ∉ records.map (·.key),
        batch.2.fileAt k = s.fileAt k ∧ batch.2.blocksAt k = s.blocksAt k) ∧
      (∀ k, ∀ r ∈ records.reverse.find? (·.key = k), batch.2.fileAt k = .ok (some r)) ∧
      ∀ b ∈ lists, b.key ∈ records.map (·.key) →
        (batch.2.blocksAt b.key = .ok (some b) ↔
          lists.reverse.find? (·.path = b.path) = some b ∧
            (records.map (·.key)).count b.key = 1)) := by
  intro batch
  refine ⟨putFiles_eq_ok_iff, fun hok => ?_⟩
  obtain ⟨hcheck, hafter⟩ := putFiles_run_of_ok hok
  have hstorable : ∀ path, ∀ b ∈ (blocksByPath lists).get? path, b.Storable := by
    intro path b hmem
    rw [get?_blocksByPath_eq] at hmem
    exact hb b (List.mem_reverse.mp (List.mem_of_find?_eq_some hmem))
  have hfound := putEach_found (s := s) hcheck hr hstorable
  rw [← hafter] at hfound
  have hlast := find?_dealt records (blocksByPath lists)
  refine ⟨fun k hk => ?_, fun k r hmem => ?_, fun b _ hk => ?_⟩
  · have hnone : records.reverse.find? (·.key = k) = none := by
      apply List.find?_eq_none.mpr
      intro r hr hkey
      exact hk (List.mem_map.mpr ⟨r, List.mem_reverse.mp hr, of_decide_eq_true hkey⟩)
    rw [← hlast, Option.map_eq_none_iff] at hnone
    rw [(hfound k).1, (hfound k).2, hnone]
    exact ⟨rfl, rfl⟩
  · rw [← hlast] at hmem
    obtain ⟨p, hp, rfl⟩ := Option.map_eq_some_iff.mp hmem
    rw [(hfound k).1, hp]
    rfl
  · rw [← blocksAt_eq_some_iff rfl (putFiles_eq_ok_iff.mp hok) hk, (hfound b.key).2]
    obtain ⟨r, hr, hkey⟩ := List.mem_map.mp hk
    obtain ⟨last, -, hfind, -⟩ := exists_find?_eq_some
      (P := fun r : FileRecord => r.key = b.key) (List.mem_reverse.mpr hr) hkey
    rw [← hlast] at hfind
    obtain ⟨p, hp, -⟩ := Option.map_eq_some_iff.mp hfind
    rw [hp, Option.elim_some, Option.bind_some, Except.ok.injEq]

theorem putFiles_found_summer :
    let b : BlockList :=
      { folder := "photos", path := "summer", blocks := []
        hash := Hex.encode (Sha256.digest []), size := 0, hash_eq := rfl, size_eq := rfl }
    let summer : FileRecord := { folder := "photos", path := "summer", kind := .file b.hash 0 false }
    let autumn : FileRecord := { folder := "photos", path := "autumn", kind := .directory }
    let batch := (memory (.fresh 5)).transact
      (putFiles [autumn, summer, autumn.withSequence 2] [b])
    batch.1 = .ok () ∧ batch.2.fileAt autumn.key = .ok (some (autumn.withSequence 2)) ∧
      batch.2.blocksAt b.key = .ok (some b) := by
  intro b summer autumn batch
  have hr : ∀ r ∈ [autumn, summer, autumn.withSequence 2], r.Storable := by
    intro r hmem
    simp only [List.mem_cons, List.not_mem_nil, or_false] at hmem
    rcases hmem with rfl | rfl | rfl <;> exact Nat.two_pow_pos 64
  have hb : ∀ b' ∈ [b], b'.Storable := by
    intro b' hmem
    obtain rfl := List.mem_singleton.mp hmem
    exact ⟨Nat.two_pow_pos 64, List.forall_mem_nil _⟩
  have hok : batch.1 = .ok () := by
    unfold batch summer autumn b
    decide +kernel
  obtain ⟨-, -, hlast, hlists⟩ := (putFiles_found (memory (.fresh 5)) hr hb).imp_right (· hok)
  refine ⟨hok, hlast autumn.key _ (by decide), ?_⟩
  exact (hlists b List.mem_cons_self (by decide)).mpr ⟨rfl, by decide⟩

theorem putFiles_of_repeated :
    let b : BlockList :=
      { folder := "photos", path := "summer", blocks := []
        hash := Hex.encode (Sha256.digest []), size := 0, hash_eq := rfl, size_eq := rfl }
    let summer : FileRecord := { folder := "photos", path := "summer", kind := .file b.hash 0 false }
    let batch := (memory (.fresh 5)).transact (putFiles [summer, summer.withSequence 2] [b])
    batch.1 = .ok () ∧ batch.2.fileAt b.key = .ok (some (summer.withSequence 2)) ∧
      batch.2.blocksAt b.key = .ok none := by
  decide +kernel

end Store

end BlockExchange
