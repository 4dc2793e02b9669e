import BlockExchange.Proofs.Store.Reachable

namespace BlockExchange

namespace Query

def IsWithin (folder : String) (device : DeviceId) : Query → Prop
  | putMarker m => m.key = ⟨folder, device⟩
  | putFile r _ => r.folder = folder
  | addStats f _ | touchStats f _ => f = folder
  | clear _ => False
  | _ => True

def IsApart (folder : String) (device : DeviceId) : Query → Prop
  | marker f d => f = folder → d ≠ device
  | file f _ | files f _ | blocks f _ | children f _ | stats f => f ≠ folder
  | epoch => True
  | _ => False

def IsAbout (folder : String) : Query → Prop
  | marker f _ | file f _ | files f _ | blocks f _ | children f _ | stats f => f = folder
  | _ => False

def ConcernsMarkers : Query → Prop
  | marker .. | allMarkers | putMarker _ => True
  | _ => False

theorem IsAbout.isApart {folder other : String} {q : Query} (h : q.IsAbout folder)
    (hne : folder ≠ other) (device : DeviceId) : q.IsApart other device := by
  cases q with
  | marker f d =>
    obtain rfl : f = folder := h
    exact fun heq => absurd heq hne
  | file f _ | files f _ | blocks f _ | children f _ | stats f =>
    obtain rfl : f = folder := h
    exact hne
  | _ => exact h.elim

end Query

variable {folder : String} {device : DeviceId} {q : Query}

namespace Memory

variable {m m' : Memory}

structure AgreesApart (folder : String) (device : DeviceId) (m m' : Memory) : Prop where
  epoch : m'.epoch = m.epoch
  markers : ∀ k, k ≠ ⟨folder, device⟩ → m'.markers.get? k = m.markers.get? k
  files : ∀ k, k.folder ≠ folder → m'.files.get? k = m.files.get? k
  blocks : ∀ k, k.folder ≠ folder → m'.blocks.get? k = m.blocks.get? k
  stats : ∀ f, f ≠ folder → m'.stats.get? f = m.stats.get? f

theorem AgreesApart.refl (folder : String) (device : DeviceId) (m : Memory) :
    m.AgreesApart folder device m :=
  ⟨rfl, fun _ _ => rfl, fun _ _ => rfl, fun _ _ => rfl, fun _ _ => rfl⟩

theorem agreesApart_putStats (m : Memory) (folder : String) (device : DeviceId) (s : FolderStats) :
    m.AgreesApart folder device { m with stats := m.stats.insert folder s } :=
  { AgreesApart.refl folder device m with
    stats := fun f hf => by rw [Table.get?_insert, if_neg hf] }

theorem agreesApart_putFile (m : Memory) (device : DeviceId) (r : FileRecord)
    (blocks : Option BlockList) : m.AgreesApart r.folder device (m.putFile r blocks) := by
  have hne : ∀ k : InFolder String, k.folder ≠ r.folder → k ≠ ⟨r.folder, r.path⟩ := by
    rintro _ hk rfl
    exact hk rfl
  refine { AgreesApart.refl r.folder device m with files := fun k hk => ?_, blocks := fun k hk => ?_ }
  · exact (Table.get?_insert _ _ _ _).trans (if_neg (hne k hk))
  · cases blocks with
    | none => exact (Table.get?_erase _ _ _).trans (if_neg (hne k hk))
    | some b => exact (Table.get?_insert _ _ _ _).trans (if_neg (hne k hk))

theorem agreesApart_answer (m : Memory) (hq : q.IsWithin folder device) :
    m.AgreesApart folder device (m.answer q).2 := by
  have hrefl := AgreesApart.refl folder device m
  cases q with
  | putMarker k =>
    have hkey : k.key = ⟨folder, device⟩ := hq
    refine { hrefl with markers := fun k' hk' => ?_ }
    exact (Table.get?_insert _ _ _ _).trans (if_neg fun h => hk' (h.trans hkey))
  | putFile r blocks =>
    obtain rfl : r.folder = folder := hq
    simp only [answer]
    split
    · exact hrefl
    · exact m.agreesApart_putFile device r blocks
  | addStats f change =>
    obtain rfl : f = folder := hq
    simp only [answer]
    split
    · exact hrefl
    · exact m.agreesApart_putStats f device _
  | touchStats f millis =>
    obtain rfl : f = folder := hq
    exact m.agreesApart_putStats f device _
  | clear draw => exact hq.elim
  | nextSequences count => exact { hrefl with }
  | _ => exact hrefl

theorem AgreesApart.records_eq (h : m.AgreesApart folder device m') {f : String} (hf : f ≠ folder)
    (paths : List String) : m'.records f paths = m.records f paths := by
  apply Table.ext_get?
  intro path
  rw [get?_records, get?_records, h.files ⟨f, path⟩ hf]

theorem AgreesApart.children_eq (h : m.AgreesApart folder device m') (hm : m.IsWellKeyed)
    (hm' : m'.IsWellKeyed) {f : String} (hf : f ≠ folder) (parent : String) :
    m'.children f parent = m.children f parent := by
  unfold children
  rw [hm'.files.filter_values_congr hm.files]
  intro r hr
  have hfolder : r.folder = f := by
    simp only [isChild, Bool.and_eq_true, beq_iff_eq] at hr
    exact hr.1.1.1
  exact h.files r.key fun h => hf (hfolder.symm.trans h)

theorem AgreesApart.answer_eq (h : m.AgreesApart folder device m') (hm : m.IsWellKeyed)
    (hm' : m'.IsWellKeyed) (hq : q.IsApart folder device) : (m'.answer q).1 = (m.answer q).1 := by
  cases q with
  | marker f d =>
    refine congrArg Except.ok (h.markers ⟨f, d⟩ fun hk => ?_)
    obtain ⟨hf, hd⟩ := InFolder.mk.inj hk
    exact hq hf hd
  | file f path => exact congrArg Except.ok (h.files ⟨f, path⟩ hq)
  | files f paths => exact congrArg Except.ok (h.records_eq hq paths)
  | blocks f path => exact congrArg Except.ok (h.blocks ⟨f, path⟩ hq)
  | children f parent => exact congrArg Except.ok (h.children_eq hm hm' hq parent)
  | stats f => exact congrArg Except.ok (h.stats f hq)
  | epoch => exact congrArg Except.ok h.epoch
  | _ => exact hq.elim

end Memory

namespace Database.Tables

variable {t t' : Tables}

structure AgreesApart (folder : String) (device : DeviceId) (t t' : Tables) : Prop where
  epoch : t'.sequence.epoch = t.sequence.epoch
  markers : ∀ f d, (f = folder → d ≠ device) →
    t'.markers.find? (isMarkerOf f d.toHex) = t.markers.find? (isMarkerOf f d.toHex)
  files : ∀ f, f ≠ folder →
    t'.files.filter (fun row => row.folder == f) = t.files.filter fun row => row.folder == f
  blocks : ∀ f, f ≠ folder →
    t'.blocks.filter (fun row => row.folder == f) = t.blocks.filter fun row => row.folder == f
  stats : ∀ f, f ≠ folder → t'.statsOf f = t.statsOf f

theorem AgreesApart.refl (folder : String) (device : DeviceId) (t : Tables) :
    t.AgreesApart folder device t :=
  ⟨rfl, fun _ _ _ => rfl, fun _ _ => rfl, fun _ _ => rfl, fun _ _ => rfl⟩

section

variable {ρ : Type} {p sameKey : ρ → Bool} {row : ρ}

theorem filter_not_of_disjoint (h : ∀ r, p r → sameKey r = false) (rows : List ρ) :
    (rows.filter fun r => !sameKey r).filter p = rows.filter p := by
  rw [List.filter_filter]
  apply List.filter_congr
  intro r _
  cases hp : p r with
  | false => rfl
  | true => rw [h r hp]; rfl

theorem filter_replace (h : ∀ r, p r → sameKey r = false) (hrow : p row = false) (rows : List ρ) :
    (replace sameKey row rows).filter p = rows.filter p := by
  rw [replace, List.filter_append, filter_not_of_disjoint h, List.filter_singleton, hrow, cond_false,
    List.append_nil]

theorem find?_eq_of_filter_eq {p' : ρ → Bool} {rows rows' : List ρ}
    (h : rows'.filter p = rows.filter p) (hp : ∀ r, p' r → p r) : rows'.find? p' = rows.find? p' := by
  have hfind : ∀ rows : List ρ, rows.find? p' = (rows.filter p).find? p' := by
    intro rows
    rw [List.find?_filter]
    congr 1
    funext r
    cases hr : p' r with
    | false => simp
    | true => simp [hp r hr]
  rw [hfind rows', h, ← hfind rows]

end

theorem statsOf_putStats (t : Tables) (s : FolderStats) {f : String} (hf : f ≠ s.folder) :
    (t.putStats s).statsOf f = t.statsOf f := by
  unfold putStats statsOf
  dsimp only
  split_ifs
  · rw [List.find?_map]
    have hp : (fun old : FolderStats => decide (old.folder = f)) ∘
        (fun old => if old.folder = s.folder then s else old) = fun old => decide (old.folder = f) := by
      funext old
      rw [Function.comp_apply]
      split_ifs with hold
      · rw [decide_eq_decide, hold]
      · rfl
    rw [hp]
    cases hfind : t.stats.find? (fun old => decide (old.folder = f)) with
    | none => rfl
    | some old =>
      have hold : old.folder = f := by simpa using List.find?_some hfind
      rw [Option.map_some, if_neg (hold ▸ hf)]
  · rw [List.find?_append, List.find?_singleton, if_neg (by simpa using hf.symm), Option.or_none]

theorem agreesApart_putStats (t : Tables) (device : DeviceId) (s : FolderStats) :
    t.AgreesApart s.folder device (t.putStats s) :=
  { AgreesApart.refl s.folder device t with stats := fun _ hf => t.statsOf_putStats s hf }

theorem agreesApart_putMarker (t : Tables) (k : Marker) :
    t.AgreesApart k.folder k.device (t.putMarker k) := by
  refine { AgreesApart.refl k.folder k.device t with markers := fun f d hne => ?_ }
  have hkey : k.key ≠ ⟨f, d⟩ := fun h => by
    obtain ⟨hf, hd⟩ := InFolder.mk.inj h
    exact hne hf.symm hd.symm
  apply find?_eq_of_filter_eq (p := isMarkerOf f d.toHex) _ fun _ h => h
  apply filter_replace
  · intro row hrow
    simp only [isMarkerOf, Bool.and_eq_true, beq_iff_eq] at hrow
    apply Bool.eq_false_of_not_eq_true
    intro hsame
    simp only [isMarkerOf, Bool.and_eq_true, beq_iff_eq] at hsame
    exact hne (hrow.1.symm.trans hsame.1)
      (DeviceId.toHex_injective (hrow.2.symm.trans hsame.2))
  · rw [isMarkerOf_ofMarker, decide_eq_false hkey]

theorem agreesApart_putFile (t : Tables) (device : DeviceId) {r : FileRecord}
    {blocks : Option BlockList} (hk : ∀ b ∈ blocks, b.key = r.key) :
    t.AgreesApart r.folder device (t.putFile r blocks) := by
  have hfile : ∀ {f path}, f ≠ r.folder → ∀ row : FileRow, (row.folder == f) →
      isFileAt r.folder path row = false := by
    intro f path hf row hrow
    have hfolder : row.folder = f := by simpa using hrow
    simp [isFileAt, hfolder, hf]
  have hblocks : ∀ {f path}, f ≠ r.folder → ∀ row : BlocksRow, (row.folder == f) →
      isBlocksAt r.folder path row = false := by
    intro f path hf row hrow
    have hfolder : row.folder = f := by simpa using hrow
    simp [isBlocksAt, hfolder, hf]
  refine { AgreesApart.refl r.folder device t with files := fun f hf => ?_, blocks := fun f hf => ?_ }
  · refine filter_replace (hfile hf) ?_ t.files
    simpa [FileRow.ofRecord] using hf.symm
  · cases blocks with
    | none => exact filter_not_of_disjoint (hblocks hf) t.blocks
    | some b =>
      have hfolder : b.folder = r.folder := congrArg InFolder.folder (hk b rfl)
      refine filter_replace (hfolder ▸ hblocks hf) ?_ t.blocks
      simpa [BlocksRow.ofBlockList, hfolder] using hf.symm

theorem folder_of_statsOf {t : Tables} {f : String} {s : FolderStats} (h : t.statsOf f = some s) :
    s.folder = f := by
  simpa using List.find?_some h

theorem folder_getD_statsOf (t : Tables) (f : String) : ((t.statsOf f).getD { folder := f }).folder = f := by
  cases h : t.statsOf f with
  | none => rfl
  | some s => exact folder_of_statsOf h

theorem AgreesApart.search_eq (h : t.AgreesApart folder device t') {f : String} (hf : f ≠ folder)
    (found : Table String FileRecord) (paths : List String) :
    t'.search f found paths = t.search f found paths := by
  have hfilter : ∀ t : Tables,
      (t.files.filter fun row => row.folder == f && paths.contains row.path) =
        (t.files.filter fun row => row.folder == f).filter fun row => paths.contains row.path := by
    intro t
    rw [List.filter_filter]
    simp only [Bool.and_comm]
  rw [search, search, hfilter t', h.files f hf, ← hfilter t]

theorem AgreesApart.records_eq (h : t.AgreesApart folder device t') {f : String} (hf : f ≠ folder)
    (paths : List String) : t'.records f paths = t.records f paths := by
  have hall : ∀ searches found paths,
      t'.searchAll f searches found paths = t.searchAll f searches found paths := by
    intro searches
    induction searches with
    | zero => exact fun _ _ => rfl
    | succ searches ih =>
      intro found paths
      simp only [searchAll, h.search_eq hf, ih]
  exact hall _ _ _

theorem AgreesApart.children_eq (h : t.AgreesApart folder device t') {f : String} (hf : f ≠ folder)
    (parent : String) : t'.children f parent = t.children f parent := by
  have hfilter : ∀ t : Tables, (t.files.filter fun row =>
      row.folder == f && row.parent == parent && !row.deleted && !Path.isRoot row.path) =
        (t.files.filter fun row => row.folder == f).filter fun row =>
          row.parent == parent && !row.deleted && !Path.isRoot row.path := by
    intro t
    rw [List.filter_filter]
    congr 1
    funext row
    simp only [Bool.and_assoc, Bool.and_comm (row.folder == f)]
  rw [children, children, hfilter t', h.files f hf, ← hfilter t]

end Database.Tables

namespace Database

variable {t t' : Tables}

theorem agreesApart_answer (t : Tables) (hq : q.IsWithin folder device) :
    t.AgreesApart folder device (answer q t).2 := by
  have hrefl := Tables.AgreesApart.refl folder device t
  have hput : ∀ s : FolderStats, s.folder = folder → t.AgreesApart folder device (t.putStats s) := by
    rintro s rfl
    exact t.agreesApart_putStats device s
  cases q with
  | putMarker k =>
    obtain ⟨rfl, rfl⟩ := InFolder.mk.inj hq
    exact t.agreesApart_putMarker k
  | putFile r blocks =>
    obtain rfl : r.folder = folder := hq
    simp only [answer]
    cases hc : Store.checkWrite r blocks with
    | error e => exact hrefl
    | ok _ =>
      apply t.agreesApart_putFile device
      intro b hb
      exact ((b.checkAgainst_eq_ok_iff r).mp ((Store.checkWrite_eq_ok_iff r blocks).mp hc b hb)).2
  | addStats f change =>
    obtain rfl : f = folder := hq
    simp only [answer]
    split
    · exact hrefl
    · exact hput _ (t.folder_getD_statsOf f)
  | touchStats f millis =>
    obtain rfl : f = folder := hq
    simp only [answer]
    split
    · rename_i s hs
      have hfolder : s.folder = f := Tables.folder_of_statsOf hs
      exact hput _ hfolder
    · exact hput _ rfl
  | clear draw => exact hq.elim
  | nextSequences count => exact { hrefl with }
  | _ => exact hrefl

theorem Tables.AgreesApart.answer_eq (h : t.AgreesApart folder device t')
    (hq : q.IsApart folder device) : (answer q t').1 = (answer q t).1 := by
  cases q with
  | marker f d => simp only [answer, reading, marker, h.markers f d hq]
  | file f path =>
    have hwithin : ∀ row, isFileAt f path row → row.folder = f := by
      intro row hrow
      simp only [isFileAt, Bool.and_eq_true, beq_iff_eq] at hrow
      exact hrow.1
    have hfind : t'.files.find? (isFileAt f path) = t.files.find? (isFileAt f path) :=
      find?_eq_of_filter_eq (h.files f hq) fun row hrow => by simp [hwithin row hrow]
    simp only [answer, reading, file, hfind]
  | files f paths => simp only [answer, reading, h.records_eq hq]
  | blocks f path =>
    have hwithin : ∀ row, isBlocksAt f path row → row.folder = f := by
      intro row hrow
      simp only [isBlocksAt, Bool.and_eq_true, beq_iff_eq] at hrow
      exact hrow.1
    have hfind : t'.blocks.find? (isBlocksAt f path) = t.blocks.find? (isBlocksAt f path) :=
      find?_eq_of_filter_eq (h.blocks f hq) fun row hrow => by simp [hwithin row hrow]
    simp only [answer, blockList, hfind]
  | children f parent => simp only [answer, reading, h.children_eq hq]
  | stats f => simp only [answer, h.stats f hq]
  | epoch => simp only [answer, h.epoch]
  | _ => exact hq.elim

end Database

namespace Store

def IsWellKeyed : Store → Prop
  | memory m => m.IsWellKeyed
  | database .. => True

def AgreesApart (folder : String) (device : DeviceId) (s s' : Store) : Prop :=
  ∀ q : Query, q.IsApart folder device → (s'.answer q).1 = (s.answer q).1

variable {s s' : Store}

theorem Reachable.isWellKeyed (h : s.Reachable) : s.IsWellKeyed := by
  obtain ⟨m, hm⟩ := h.exists_holds
  cases s with
  | memory m' =>
    obtain ⟨rfl, hkeyed⟩ := hm
    exact hkeyed
  | database versions tables durable => trivial

theorem IsWellKeyed.answer (h : s.IsWellKeyed) (q : Query) : (s.answer q).2.IsWellKeyed := by
  cases s with
  | memory m => exact Memory.IsWellKeyed.answer h q
  | database versions tables durable => trivial

theorem agreesApart_answer (h : s.IsWellKeyed) (hq : q.IsWithin folder device) :
    s.AgreesApart folder device (s.answer q).2 := by
  intro q' hq'
  cases s with
  | memory m => exact (m.agreesApart_answer hq).answer_eq h (Memory.IsWellKeyed.answer h q) hq'
  | database versions tables durable =>
    exact (Database.agreesApart_answer tables hq).answer_eq hq'

variable {ε α : Type} {t : Transaction ε α}

theorem agreesApart_run (h : s.IsWellKeyed) (ht : t.Asks (fun _ q => q.IsWithin folder device) s) :
    (t.run answer s).2.IsWellKeyed ∧ s.AgreesApart folder device (t.run answer s).2 := by
  induction t generalizing s with
  | done a => exact ⟨h, fun _ _ => rfl⟩
  | fail e => exact ⟨h, fun _ _ => rfl⟩
  | ask q next ih =>
    obtain ⟨hkeyed, hrest⟩ := ih _ (h.answer q) ht.2
    exact ⟨hkeyed, fun q' hq' => (hrest q' hq').trans (agreesApart_answer h ht.1 q' hq')⟩

theorem agreesApart_transact (h : s.IsWellKeyed)
    (ht : t.Asks (fun _ q => q.IsWithin folder device) s) :
    (s.transact t).2.IsWellKeyed ∧ s.AgreesApart folder device (s.transact t).2 :=
  Transaction.commit_snd (p := fun s' : Store => s'.IsWellKeyed ∧ s.AgreesApart folder device s')
    ⟨h, fun _ _ => rfl⟩ (agreesApart_run h ht)

inductive Remarked : Store → Store → Prop
  | memory (m : Memory) (markers : Table (InFolder DeviceId) Marker) :
      Remarked (.memory m) (.memory { m with markers })
  | database (versions : List Int) (tables : Database.Tables) (durable : Bool)
      (markers : List Database.MarkerRow) :
      Remarked (.database versions tables durable) (.database versions { tables with markers } durable)

namespace Remarked

variable {s s' s'' : Store}

theorem refl (s : Store) : s.Remarked s := by
  cases s with
  | memory m => exact .memory m m.markers
  | database versions tables durable => exact .database versions tables durable tables.markers

theorem trans (h : s.Remarked s') (h' : s'.Remarked s'') : s.Remarked s'' := by
  cases h with
  | memory m markers =>
    cases h' with
    | memory _ markers' => exact .memory m markers'
  | database versions tables durable markers =>
    cases h' with
    | database _ _ _ markers' => exact .database versions tables durable markers'

theorem symm (h : s.Remarked s') : s'.Remarked s := by
  cases h with
  | memory m markers => exact .memory { m with markers } m.markers
  | database versions tables durable markers =>
    exact .database versions { tables with markers } durable tables.markers

end Remarked

theorem remarked_answer (s : Store) {q : Query} (hq : q.ConcernsMarkers) :
    s.Remarked (s.answer q).2 := by
  cases s with
  | memory m =>
    cases q with
    | marker folder device => exact .refl _
    | allMarkers => exact .refl _
    | putMarker k => exact .memory m _
    | _ => exact hq.elim
  | database versions tables durable =>
    cases q with
    | marker folder device => exact .refl _
    | allMarkers => exact .refl _
    | putMarker k => exact .database versions tables durable _
    | _ => exact hq.elim

theorem remarked_run (ht : t.Asks (fun _ q => q.ConcernsMarkers) s) :
    s.Remarked (t.run answer s).2 := by
  induction t generalizing s with
  | done a => exact .refl s
  | fail e => exact .refl s
  | ask q next ih => exact (s.remarked_answer ht.1).trans (ih _ ht.2)

theorem remarked_transact (ht : t.Asks (fun _ q => q.ConcernsMarkers) s) :
    s.Remarked (s.transact t).2 :=
  Transaction.commit_snd (p := s.Remarked) (.refl s) (remarked_run ht)

end Store

end BlockExchange
