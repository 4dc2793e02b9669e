import BlockExchange.Hex
import BlockExchange.Sha256
import BlockExchange.Model.Error

namespace BlockExchange

structure DeviceId where
  bytes : Bytes
  length_eq : bytes.length = 32
  deriving DecidableEq

namespace DeviceId

def ofBytes? (bytes : Bytes) : Option DeviceId :=
  if h : bytes.length = 32 then some ⟨bytes, h⟩ else none

def ofCertificate (certificate : Bytes) : DeviceId :=
  ⟨Sha256.digest certificate, Sha256.length_digest certificate⟩

def toHex (id : DeviceId) : String :=
  Hex.encode id.bytes

def ofHex (text : String) : Except ModelError DeviceId :=
  match Hex.decode text with
  | .error e => .error (.deviceIdNotHex e)
  | .ok bytes =>
    match ofBytes? bytes with
    | some id => .ok id
    | none => .error (.deviceIdLength text)

def short (id : DeviceId) : UInt64 :=
  UInt64.ofNat (Bytes.toNat (id.bytes.take 8))

def display (id : DeviceId) : String :=
  Hex.encode (id.bytes.take 8)

instance : Ord DeviceId where
  compare a b := compare a.bytes b.bytes

instance : Std.TransOrd DeviceId where
  eq_swap {a b} := Std.OrientedOrd.eq_swap (a := a.bytes) (b := b.bytes)
  isLE_trans {a b c} := Std.TransOrd.isLE_trans (a := a.bytes) (b := b.bytes) (c := c.bytes)

instance : Std.LawfulEqOrd DeviceId where
  compare_self {a} := Std.ReflOrd.compare_self (a := a.bytes)
  eq_of_compare {a b} h := by
    cases a
    cases b
    cases Std.LawfulEqOrd.eq_of_compare (α := Bytes) h
    rfl

instance : ToString DeviceId := ⟨display⟩

end DeviceId

end BlockExchange
