import BlockExchange.Proofs.Index.Batch
import BlockExchange.Proofs.Index.Prepare

namespace BlockExchange

namespace Index

def offered? (folder path : String) (files : List FileEntry) :
    Option (FileRecord × Option BlockList) :=
  (newest? path files).bind fun f => f.prepare? folder 0

variable {folder path : String} {files files' : List FileEntry} {p : FileRecord × Option BlockList}

theorem offered?_eq_some_iff :
    offered? folder path files = some p ↔
      ∃ f, newest? path files = some f ∧ f.prepare? folder 0 = some p := by
  rw [offered?, Option.bind_eq_some_iff]

theorem offered?_key (h : offered? folder path files = some p) : p.1.key = ⟨folder, path⟩ := by
  obtain ⟨f, hf, hp⟩ := offered?_eq_some_iff.mp h
  rw [FileEntry.prepare?_key hp, name_of_newest? hf]

theorem offered?_sequence (h : offered? folder path files = some p) : p.1.sequence = 0 := by
  obtain ⟨f, -, hp⟩ := offered?_eq_some_iff.mp h
  exact FileEntry.prepare?_sequence hp

theorem offered?_check (h : offered? folder path files = some p) :
    Store.checkWrite p.1 p.2 = .ok () := by
  obtain ⟨f, -, hp⟩ := offered?_eq_some_iff.mp h
  exact FileEntry.prepare?_check hp

theorem offered?_storable (hb : ∀ f ∈ files, f.Bounded) (h : offered? folder path files = some p) :
    p.1.Storable ∧ ∀ b ∈ p.2, b.Storable := by
  obtain ⟨f, hf, hp⟩ := offered?_eq_some_iff.mp h
  exact (hb f (mem_of_newest? hf)).prepare? hp

theorem offered?_eq_none (folder : String) (h : path ∉ files.map (·.name)) :
    offered? folder path files = none := by
  have hnone : newest? path files = none := by
    apply newest?_eq_none_iff.mpr
    intro f hf hname
    apply h
    exact hname ▸ List.mem_map_of_mem hf
  rw [offered?, hnone, Option.bind_none]

theorem mem_accepted {old : Table String FileRecord} :
    p ∈ accepted folder old files ↔
      offered? folder p.1.path files = some p ∧ p.1.supersedes (old.get? p.1.path) := by
  unfold accepted
  rw [List.mem_filter, List.mem_filterMap, offered?_eq_some_iff]
  constructor
  · rintro ⟨⟨f, hf, hp⟩, hs⟩
    have hkey : p.1.path = f.name := congrArg InFolder.item (FileEntry.prepare?_key hp)
    exact ⟨⟨f, hkey ▸ mem_latestByPath.mp hf, hp⟩, hs⟩
  · rintro ⟨⟨f, hf, hp⟩, hs⟩
    refine ⟨⟨f, mem_latestByPath.mpr ?_, hp⟩, hs⟩
    rw [name_of_newest? hf, hf]

theorem nodup_accepted (folder : String) (old : Table String FileRecord)
    (files : List FileEntry) : ((accepted folder old files).map (·.1.path)).Nodup := by
  apply List.Nodup.sublist ((List.filter_sublist).map _)
  rw [List.Nodup, List.pairwise_map, List.pairwise_filterMap]
  apply (List.pairwise_map.mp (nodup_latestByPath files)).imp
  intro f g hne p hp q hq hpath
  have hf : p.1.path = f.name := congrArg InFolder.item (FileEntry.prepare?_key hp)
  have hg : q.1.path = g.name := congrArg InFolder.item (FileEntry.prepare?_key hq)
  exact hne (by rw [← hf, ← hg, hpath])

theorem map_stamp {γ : Type} (g : FileRecord × Option BlockList → γ)
    (hg : ∀ p n, g (p.1.withSequence n, p.2) = g p) (start : Int)
    (pairs : List (FileRecord × Option BlockList)) : (stamp start pairs).map g = pairs.map g := by
  induction pairs generalizing start with
  | nil => rfl
  | cons p rest ih => rw [stamp, List.map_cons, List.map_cons, ih, hg]

theorem exists_of_mem_stamp {start : Int} {pairs : List (FileRecord × Option BlockList)}
    (h : p ∈ stamp start pairs) :
    ∃ q ∈ pairs, ∃ n, p = (q.1.withSequence n, q.2) := by
  induction pairs generalizing start with
  | nil => simp [stamp] at h
  | cons q rest ih =>
    rw [stamp] at h
    rcases List.mem_cons.mp h with rfl | h
    · exact ⟨q, List.mem_cons_self, start, rfl⟩
    · obtain ⟨q', hq', n, rfl⟩ := ih h
      exact ⟨q', List.mem_cons_of_mem _ hq', n, rfl⟩

theorem exists_of_mem_accepted {old : Table String FileRecord}
    (h : p ∈ accepted folder old files) : ∃ f ∈ files, f.name = p.1.path := by
  obtain ⟨f, hf, hp⟩ := List.mem_filterMap.mp (List.mem_filter.mp h).1
  have hkey := FileEntry.prepare?_key hp
  exact ⟨f, mem_of_newest? (mem_latestByPath.mp hf), (congrArg InFolder.item hkey).symm⟩

theorem accepted_congr {old old' : Table String FileRecord}
    (h : ∀ f ∈ files, old.get? f.name = old'.get? f.name) :
    accepted folder old files = accepted folder old' files := by
  unfold accepted
  apply List.filter_congr
  intro q hq
  obtain ⟨f, hf, hprep⟩ := List.mem_filterMap.mp hq
  have hpath : q.1.path = f.name := congrArg InFolder.item (FileEntry.prepare?_key hprep)
  have hsame := h f (mem_of_newest? (mem_latestByPath.mp hf))
  rw [← hpath] at hsame
  exact congrArg q.1.supersedes hsame

theorem pushRecords_congr {folder : String} {old old' : Table String FileRecord}
    (haccepted : accepted folder old files = accepted folder old' files')
    (hold : ∀ p ∈ accepted folder old' files', old.get? p.1.path = old'.get? p.1.path)
    (delta : StatsDelta) :
    pushRecords folder files old delta = pushRecords folder files' old' delta := by
  have hfold : ∀ start, ((stamp start (accepted folder old' files')).map (·.1)).foldl
      (fun d r => d.fold (old.get? r.path) r) delta =
        ((stamp start (accepted folder old' files')).map (·.1)).foldl
          (fun d r => d.fold (old'.get? r.path) r) delta := by
    intro start
    apply List.foldl_ext
    intro d r hr
    obtain ⟨p, hp, rfl⟩ := List.mem_map.mp hr
    obtain ⟨q, hq, n, rfl⟩ := exists_of_mem_stamp hp
    exact congrArg (d.fold · _) (hold q hq)
  unfold pushRecords
  rw [haccepted]
  simp only [hfold]

end Index

namespace Memory

open Index

def taken (m : Memory) (folder : String) (files : List FileEntry) :
    List (FileRecord × Option BlockList) :=
  accepted folder (m.records folder (files.map (·.name))) files

def brought (m : Memory) (folder : String) (files : List FileEntry) :
    List (FileRecord × Option BlockList) :=
  stamp (m.sequence + 1) (m.taken folder files)

def taken? (m : Memory) (folder path : String) (files : List FileEntry) :
    Option (FileRecord × Option BlockList) :=
  (offered? folder path files).filter fun p => p.1.supersedes (m.files.get? ⟨folder, path⟩)

variable {m : Memory} {folder path : String} {files : List FileEntry}
  {p : FileRecord × Option BlockList}

theorem taken?_eq_some_iff :
    m.taken? folder path files = some p ↔
      offered? folder path files = some p ∧ p.1.supersedes (m.files.get? ⟨folder, path⟩) := by
  rw [taken?, Option.filter_eq_some_iff]

theorem mem_taken : p ∈ m.taken folder files ↔ m.taken? folder p.1.path files = some p := by
  rw [taken, mem_accepted, taken?_eq_some_iff]
  apply and_congr_right
  intro h
  have hmem : p.1.path ∈ files.map (·.name) := by
    by_contra hnot
    rw [offered?_eq_none folder hnot] at h
    cases h
  rw [get?_records, if_pos hmem]

theorem taken?_key (h : m.taken? folder path files = some p) : p.1.key = ⟨folder, path⟩ :=
  offered?_key (taken?_eq_some_iff.mp h).1

theorem find?_taken (m : Memory) (folder path : String) (files : List FileEntry) :
    (m.taken folder files).find? (·.1.key = ⟨folder, path⟩) = m.taken? folder path files := by
  cases ht : m.taken? folder path files with
  | none =>
    apply List.find?_eq_none.mpr
    intro p hp hkey
    have hpath : p.1.path = path := congrArg InFolder.item (of_decide_eq_true hkey)
    rw [mem_taken, hpath, ht] at hp
    cases hp
  | some p =>
    have hkey := taken?_key ht
    have hpath : p.1.path = path := congrArg InFolder.item hkey
    have hp : p ∈ m.taken folder files := mem_taken.mpr (hpath ▸ ht)
    obtain ⟨q, hmem, hq, hqkey⟩ := exists_find?_eq_some
      (P := fun q : FileRecord × Option BlockList => q.1.key = ⟨folder, path⟩) hp hkey
    have hqpath : q.1.path = path := congrArg InFolder.item hqkey
    have htq := mem_taken.mp hmem
    rw [hqpath, ht] at htq
    rw [hq, htq]

theorem nodup_brought (m : Memory) (folder : String) (files : List FileEntry) :
    ((m.brought folder files).map (·.1.path)).Nodup := by
  rw [brought, map_stamp _ fun _ _ => rfl]
  exact nodup_accepted _ _ _

theorem exists_of_mem_brought (h : p ∈ m.brought folder files) :
    ∃ path q n, m.taken? folder path files = some q ∧ p = (q.1.withSequence n, q.2) := by
  obtain ⟨q, hq, n, rfl⟩ := exists_of_mem_stamp h
  exact ⟨_, q, n, mem_taken.mp hq, rfl⟩

theorem brought_key (h : p ∈ m.brought folder files) : p.1.key = ⟨folder, p.1.path⟩ := by
  obtain ⟨path, q, n, hq, rfl⟩ := exists_of_mem_brought h
  have hkey : q.1.key = ⟨folder, path⟩ := taken?_key hq
  exact congrArg (InFolder.mk · q.1.path) (congrArg InFolder.folder hkey)

theorem brought_check (h : p ∈ m.brought folder files) : Store.checkWrite p.1 p.2 = .ok () := by
  obtain ⟨path, q, n, hq, rfl⟩ := exists_of_mem_brought h
  have hcheck := offered?_check (taken?_eq_some_iff.mp hq).1
  rw [Store.checkWrite_eq_ok_iff] at hcheck ⊢
  exact hcheck

theorem brought_storable (hb : ∀ f ∈ files, f.Bounded) (h : p ∈ m.brought folder files) :
    p.1.Storable ∧ ∀ b ∈ p.2, b.Storable := by
  obtain ⟨path, q, n, hq, rfl⟩ := exists_of_mem_brought h
  have hfit := offered?_storable hb (taken?_eq_some_iff.mp hq).1
  exact hfit

theorem find?_brought (m : Memory) (folder path : String) (files : List FileEntry) :
    ((m.brought folder files).find? (·.1.key = ⟨folder, path⟩)).map
        (fun p => (p.1.withSequence 0, p.2)) = m.taken? folder path files := by
  let plain := fun p : FileRecord × Option BlockList => (p.1.withSequence 0, p.2)
  have hkey : (fun p : FileRecord × Option BlockList => decide (p.1.key = ⟨folder, path⟩)) ∘ plain =
      fun p => decide (p.1.key = ⟨folder, path⟩) := rfl
  have hplain : (m.brought folder files).map plain = (m.taken folder files).map plain :=
    map_stamp plain (fun _ _ => rfl) _ _
  rw [← hkey, ← List.find?_map, hplain, List.find?_map, hkey, find?_taken]
  cases ht : m.taken? folder path files with
  | none => rfl
  | some p =>
    have hseq : p.1.sequence = 0 := offered?_sequence (taken?_eq_some_iff.mp ht).1
    obtain ⟨⟨⟩, b⟩ := p
    cases hseq
    rfl

end Memory

end BlockExchange
