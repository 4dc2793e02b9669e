import BlockExchange.Store.Database.Row
import BlockExchange.Store.Transaction

namespace BlockExchange.Database

structure SequenceRow where
  epoch : Int64
  current : Int
  deriving DecidableEq

structure Contents where
  markers : List MarkerRow := []
  files : List FileRow := []
  blocks : List BlocksRow := []
  stats : List FolderStats := []
  deriving DecidableEq

structure Tables extends Contents where
  sequence : SequenceRow
  deriving DecidableEq

def searchWidth : Nat := 500

/-- Epochs are stored signed, so the drawn number loses a bit. -/
def epochOf (draw : UInt64) : Int64 :=
  (draw >>> 1).toInt64

namespace Tables

def fresh (draw : UInt64) : Tables :=
  { sequence := ⟨epochOf draw, 0⟩ }

def isMarkerOf (folder device : String) (row : MarkerRow) : Bool :=
  row.folder == folder && row.device == device

def isFileAt (folder path : String) (row : FileRow) : Bool :=
  row.folder == folder && row.path == path

def isBlocksAt (folder path : String) (row : BlocksRow) : Bool :=
  row.folder == folder && row.path == path

def replace {ρ : Type} (sameKey : ρ → Bool) (row : ρ) (rows : List ρ) : List ρ :=
  rows.filter (fun r => !sameKey r) ++ [row]

def marker (t : Tables) (folder : String) (device : DeviceId) :
    Except DatabaseFault (Option Marker) :=
  match t.markers.find? (isMarkerOf folder device.toHex) with
  | some row => row.toMarker.map some
  | none => .ok none

def allMarkers (t : Tables) : Except DatabaseFault (List Marker) :=
  (t.markers.mergeSort fun a b =>
    ((compare a.folder b.folder).then (compare a.device b.device)).isLE).mapM MarkerRow.toMarker

def file (t : Tables) (folder path : String) : Except DatabaseFault (Option FileRecord) :=
  match t.files.find? (isFileAt folder path) with
  | some row => row.toRecord.map some
  | none => .ok none

def search (t : Tables) (folder : String) (found : Table String FileRecord) (paths : List String) :
    Except DatabaseFault (Table String FileRecord) :=
  (t.files.filter fun row => row.folder == folder && paths.contains row.path).foldlM
    (fun found row => do
      let r ← row.toRecord
      return found.insert r.path r)
    found

def searchAll (t : Tables) (folder : String) :
    (searches : Nat) → Table String FileRecord → List String →
      Except DatabaseFault (Table String FileRecord)
  | 0, found, _ => .ok found
  | searches + 1, found, paths => do
    let found ← t.search folder found (paths.take searchWidth)
    t.searchAll folder searches found (paths.drop searchWidth)

def records (t : Tables) (folder : String) (paths : List String) :
    Except DatabaseFault (Table String FileRecord) :=
  t.searchAll folder ((paths.length + (searchWidth - 1)) / searchWidth) {} paths

def blockList (t : Tables) (folder path : String) : Except StoreError (Option BlockList) :=
  match t.blocks.find? (isBlocksAt folder path) with
  | some row => row.toBlockList.map some
  | none => .ok none

def children (t : Tables) (folder parent : String) : Except DatabaseFault (List FileRecord) :=
  let rows := t.files.filter fun row =>
    row.folder == folder && row.parent == parent && !row.deleted && !Path.isRoot row.path
  (rows.mergeSort fun a b => (compare a.fileName b.fileName).isLE).mapM FileRow.toRecord

def putMarker (t : Tables) (m : Marker) : Tables :=
  { t with markers := replace (isMarkerOf m.folder m.device.toHex) (.ofMarker m) t.markers }

def putFile (t : Tables) (r : FileRecord) (blocks : Option BlockList) : Tables :=
  { t with
    files := replace (isFileAt r.folder r.path) (.ofRecord r) t.files
    blocks := match blocks with
      | some b => replace (isBlocksAt b.folder b.path) (.ofBlockList b) t.blocks
      | none => t.blocks.filter fun row => !isBlocksAt r.folder r.path row }

def statsOf (t : Tables) (folder : String) : Option FolderStats :=
  t.stats.find? (·.folder = folder)

def putStats (t : Tables) (s : FolderStats) : Tables :=
  { t with
    stats :=
      if (t.statsOf s.folder).isSome then
        t.stats.map fun old => if old.folder = s.folder then s else old
      else t.stats ++ [s] }

end Tables

def reading {α : Type} (read : Except DatabaseFault α) (t : Tables) :
    Except StoreError α × Tables :=
  (read.mapError .database, t)

def answer : (q : Query) → Tables → Except StoreError q.Reply × Tables
  | .marker folder device, t => reading (t.marker folder device) t
  | .allMarkers, t => reading t.allMarkers t
  | .putMarker m, t => (.ok (), t.putMarker m)
  | .file folder path, t => reading (t.file folder path) t
  | .files folder paths, t => reading (t.records folder paths) t
  | .blocks folder path, t => (t.blockList folder path, t)
  | .children folder parent, t => reading (t.children folder parent) t
  | .putFile r blocks, t =>
    match Store.checkWrite r blocks with
    | .error e => (.error e, t)
    | .ok () => (.ok (), t.putFile r blocks)
  | .stats folder, t => (.ok (t.statsOf folder), t)
  | .allStats, t =>
    (.ok (t.stats.mergeSort fun a b => (compare a.folder b.folder).isLE), t)
  | .addStats folder change, t =>
    let s := ((t.statsOf folder).getD { folder }).shift change
    match Store.checkStats s with
    | .error e => (.error e, t)
    | .ok () => (.ok (), t.putStats s)
  | .touchStats folder millis, t =>
    match t.statsOf folder with
    | some s => (.ok (), t.putStats { s with lastUpdate := max s.lastUpdate millis })
    | none => (.ok (), t.putStats { folder, lastUpdate := millis })
  | .epoch, t => (.ok t.sequence.epoch.toUInt64, t)
  | .sequence, t => (.ok t.sequence.current, t)
  | .nextSequences count, t =>
    (.ok (t.sequence.current + 1),
      { t with sequence := { t.sequence with current := t.sequence.current + count } })
  | .clear draw, _ => (.ok (), .fresh draw)

end BlockExchange.Database
