import BlockExchange.Exchange.Error
import BlockExchange.Index.Merge

namespace BlockExchange.Index

structure Received where
  marker : Marker
  updated : List FileRecord
  stats : FolderStats
  deriving DecidableEq

def advance (m : Marker) (sequence : Int) : Transaction StoreError Marker := do
  if sequence ≤ m.localSequence then return m
  let moved := { m with localSequence := sequence }
  (Query.putMarker moved).ask
  return moved

instance : MonadLift (Transaction StoreError) (Transaction ExchangeError) where
  monadLift t := t.mapError .store

def findMarker (folder : String) (peer : DeviceId) : Transaction ExchangeError Marker := do
  match ← (Query.marker folder peer).ask with
  | some m => return m
  | none => .fail (.noMarker peer folder)

def takeIn (marker : Marker) (folder : String) (files : List FileEntry) :
    Transaction StoreError Received := do
  let old ← (Query.files folder (files.map (·.name))).ask
  let (updated, delta) ← pushRecords folder files old { folder }
  let marker ← match (files.map (·.sequence.toInt)).max? with
    | none => pure marker
    | some newest => do
      flush delta
      advance marker newest
  let stats ← (Query.stats folder).ask
  return ⟨marker, updated, stats.getD { folder }⟩

def receive (folder : String) (peer : DeviceId) (files : List FileEntry) :
    Transaction ExchangeError Received := do
  let marker ← findMarker folder peer
  takeIn marker folder files

/-- The marker after an announcement. A new epoch starts over; within one the goal only grows. -/
def announced (folder : String) (peer : DeviceId) (indexId : UInt64) (maxSequence : Int) :
    Option Marker → Marker
  | some m =>
    if m.indexId = indexId then { m with maxSequence := max m.maxSequence maxSequence }
    else { Marker.fresh folder peer indexId with maxSequence }
  | none =>
    let m := Marker.fresh folder peer indexId
    { m with maxSequence := max m.maxSequence maxSequence }

def announce (folder : String) (peer : DeviceId) (indexId : UInt64) (maxSequence : Int) :
    Transaction ExchangeError Marker := do
  let known ← (Query.marker folder peer).ask
  let m := announced folder peer indexId maxSequence known
  (Query.putMarker m).ask
  return m

end BlockExchange.Index
