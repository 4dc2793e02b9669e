import BlockExchange.Cbor.Head
import BlockExchange.Shape

namespace BlockExchange

namespace Cbor

def writeInt (n : Int) : Bytes :=
  if 0 ≤ n then head 0 n.toNat else head 1 (-1 - n).toNat

def writeText (text : String) : Bytes :=
  let bytes := Bytes.ofText text
  head 3 bytes.length ++ bytes

end Cbor

open Cbor

mutual

def Shape.toCbor {α : Type} : Shape α → α → Bytes
  | .bool, b => [if b then 0xf5 else 0xf4]
  | .number range, a => writeInt (range.toInt a)
  | .text, text => writeText text
  | .octets, bytes => head 2 bytes.length ++ bytes
  | .optional _, none => [0xf6]
  | .optional s, some a => s.toCbor a
  | .sequence s, items => head 4 items.length ++ items.flatMap s.toCbor
  | .tuple n s, items => head 4 n ++ items.1.flatMap s.toCbor
  | .record fields, a => head 5 fields.length ++ fields.toCbor a
  | .closed fields, a => head 5 fields.length ++ fields.toCbor a
  | .choice cases, a => cases.toCbor a
  | .convert _ write s, a => s.toCbor (write a)

def Fields.toCbor {α σ : Type} : Fields α σ → α → Bytes
  | .nil, () => []
  | .cons name _ s rest, (a, others) => writeText name ++ (s.toCbor a ++ rest.toCbor others)

def Cases.toCbor {α : Type} : Cases α → α → Bytes
  | .nil, e => nomatch e
  | .bare name _, .inl () => writeText name
  | .bare _ rest, .inr b => rest.toCbor b
  | .content name s _, .inl a => head 5 1 ++ (writeText name ++ s.toCbor a)
  | .content _ _ rest, .inr b => rest.toCbor b

end

end BlockExchange
