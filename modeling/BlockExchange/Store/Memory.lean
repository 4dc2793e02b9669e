import BlockExchange.Store.Transaction

namespace BlockExchange

structure InFolder (α : Type) where
  folder : String
  item : α
  deriving DecidableEq

namespace InFolder

variable {α : Type} [Ord α]

instance : Ord (InFolder α) where
  compare a b := (compare a.folder b.folder).then (compare a.item b.item)

instance [Std.TransOrd α] : Std.TransOrd (InFolder α) :=
  inferInstanceAs (Std.TransCmp (compareLex (compareOn InFolder.folder) (compareOn InFolder.item)))

instance [Std.LawfulEqOrd α] : Std.LawfulEqOrd (InFolder α) where
  compare_self := Ordering.then_eq_eq.2 ⟨Std.ReflOrd.compare_self, Std.ReflOrd.compare_self⟩
  eq_of_compare {a b} h := by
    have ⟨folder, item⟩ := Ordering.then_eq_eq.1 h
    cases a
    cases b
    cases Std.LawfulEqOrd.eq_of_compare folder
    cases Std.LawfulEqOrd.eq_of_compare item
    rfl

end InFolder

structure Memory where
  epoch : UInt64
  sequence : Int := 0
  markers : Table (InFolder DeviceId) Marker := {}
  files : Table (InFolder String) FileRecord := {}
  blocks : Table (InFolder String) BlockList := {}
  stats : Table String FolderStats := {}

namespace Memory

def fresh (draw : UInt64) : Memory :=
  { epoch := draw }

def records (m : Memory) (folder : String) (paths : List String) : Table String FileRecord :=
  paths.foldl
    (fun found path =>
      match m.files.get? ⟨folder, path⟩ with
      | some r => found.insert path r
      | none => found)
    {}

def isChild (folder parent : String) (r : FileRecord) : Bool :=
  r.folder == folder && r.parent == parent && !r.deleted && !Path.isRoot r.path

def children (m : Memory) (folder parent : String) : List FileRecord :=
  (m.files.values.filter (isChild folder parent)).mergeSort fun a b =>
    (compare a.fileName b.fileName).isLE

def putFile (m : Memory) (r : FileRecord) (blocks : Option BlockList) : Memory :=
  let key := ⟨r.folder, r.path⟩
  { m with
    files := m.files.insert key r
    blocks := match blocks with
      | some b => m.blocks.insert key b
      | none => m.blocks.erase key }

def statsOf (m : Memory) (folder : String) : FolderStats :=
  (m.stats.get? folder).getD { folder }

def answer : (q : Query) → Memory → Except StoreError q.Reply × Memory
  | .marker folder device, m => (.ok (m.markers.get? ⟨folder, device⟩), m)
  | .allMarkers, m => (.ok m.markers.values, m)
  | .putMarker k, m => (.ok (), { m with markers := m.markers.insert ⟨k.folder, k.device⟩ k })
  | .file folder path, m => (.ok (m.files.get? ⟨folder, path⟩), m)
  | .files folder paths, m => (.ok (m.records folder paths), m)
  | .blocks folder path, m => (.ok (m.blocks.get? ⟨folder, path⟩), m)
  | .children folder parent, m => (.ok (m.children folder parent), m)
  | .putFile r blocks, m =>
    match Store.checkWrite r blocks with
    | .error e => (.error e, m)
    | .ok () => (.ok (), m.putFile r blocks)
  | .stats folder, m => (.ok (m.stats.get? folder), m)
  | .allStats, m => (.ok m.stats.values, m)
  | .addStats folder change, m =>
    let s := (m.statsOf folder).shift change
    match Store.checkStats s with
    | .error e => (.error e, m)
    | .ok () => (.ok (), { m with stats := m.stats.insert folder s })
  | .touchStats folder millis, m =>
    let s := m.statsOf folder
    let touched := { s with lastUpdate := max s.lastUpdate millis }
    (.ok (), { m with stats := m.stats.insert folder touched })
  | .epoch, m => (.ok m.epoch, m)
  | .sequence, m => (.ok m.sequence, m)
  | .nextSequences count, m => (.ok (m.sequence + 1), { m with sequence := m.sequence + count })
  | .clear draw, _ => (.ok (), fresh draw)

end Memory

end BlockExchange
