import BlockExchange.Model.DeviceId

namespace BlockExchange

structure Marker where
  folder : String
  device : DeviceId
  /-- The epoch of the peer's index. Another epoch makes the local sequence void. -/
  indexId : UInt64
  localSequence : Int := 0
  maxSequence : Int := -1
  deriving DecidableEq

namespace Marker

def fresh (folder : String) (device : DeviceId) (indexId : UInt64) : Marker :=
  { folder, device, indexId }

def isUpToDate (m : Marker) : Bool :=
  m.maxSequence ≤ m.localSequence

def completion (m : Marker) : Float :=
  if m.maxSequence ≤ 0 || m.isUpToDate then 1.0
  else Float.ofNat m.localSequence.toNat / Float.ofNat m.maxSequence.toNat

end Marker

end BlockExchange
