import BlockExchange.Bytes
/-!
Shapes: how a value is laid out in a self-describing notation, whatever the notation. A shape is
written and read by `BlockExchange.Cbor` and `BlockExchange.Json`.
-/

namespace BlockExchange

structure Range (α : Type) where
  toInt : α → Int
  ofInt? : Int → Option α

namespace Range

def within {α : Type} (low high : Int) (ofInt : Int → α) (n : Int) : Option α :=
  if low ≤ n ∧ n ≤ high then some (ofInt n) else none

def uint8 : Range UInt8 := ⟨fun n => n.toNat, within 0 0xff fun n => UInt8.ofNat n.toNat⟩
def uint32 : Range UInt32 := ⟨fun n => n.toNat, within 0 0xffffffff fun n => UInt32.ofNat n.toNat⟩
def uint64 : Range UInt64 := ⟨fun n => n.toNat, within 0 0xffffffffffffffff fun n => UInt64.ofNat n.toNat⟩
def int32 : Range Int32 := ⟨Int32.toInt, within (-0x80000000) 0x7fffffff Int32.ofInt⟩
def int64 : Range Int64 := ⟨Int64.toInt, within (-0x8000000000000000) 0x7fffffffffffffff Int64.ofInt⟩
def count : Range Int := ⟨id, within (-0x8000000000000000) 0x7fffffffffffffff id⟩
def smallCount : Range Int := ⟨id, within (-0x80000000) 0x7fffffff id⟩

end Range

mutual

inductive Shape : Type → Type 1 where
  | bool : Shape Bool
  | number {α : Type} (range : Range α) : Shape α
  | text : Shape String
  | octets : Shape Bytes
  | optional {α : Type} (s : Shape α) : Shape (Option α)
  | sequence {α : Type} (s : Shape α) : Shape (List α)
  | tuple {α : Type} (n : Nat) (s : Shape α) : Shape { l : List α // l.length = n }
  | record {α σ : Type} (fields : Fields α σ) : Shape α
  | closed {α σ : Type} (fields : Fields α σ) : Shape α
  | choice {α : Type} (cases : Cases α) : Shape α
  | convert {α β : Type} (read : β → Option α) (write : α → β) (s : Shape β) : Shape α

/-- Named fields of type `α`; while they are read, `σ` holds those that were met. -/
inductive Fields : Type → Type → Type 1 where
  | nil : Fields Unit Unit
  | cons {α β σ : Type} (name : String) (missing : Option α) (s : Shape α) (rest : Fields β σ) :
      Fields (α × β) (Option α × σ)

inductive Cases : Type → Type 1 where
  | nil : Cases Empty
  | bare {β : Type} (name : String) (rest : Cases β) : Cases (Unit ⊕ β)
  | content {α β : Type} (name : String) (s : Shape α) (rest : Cases β) : Cases (α ⊕ β)

end

namespace Shape

def iso {α β : Type} (read : β → α) (write : α → β) (s : Shape β) : Shape α :=
  .convert (fun b => some (read b)) write s

def uint8 : Shape UInt8 := .number .uint8
def uint32 : Shape UInt32 := .number .uint32
def uint64 : Shape UInt64 := .number .uint64
def int32 : Shape Int32 := .number .int32
def int64 : Shape Int64 := .number .int64
def count : Shape Int := .number .count
def smallCount : Shape Int := .number .smallCount

def ofByte? {α : Type} : Shape α → UInt8 → Option α
  | .number range, b => range.ofInt? b.toNat
  | .convert read _ s, b => (s.ofByte? b).bind read
  | _, _ => none

end Shape

namespace Fields

def vacant {α σ : Type} : Fields α σ → σ
  | .nil => ()
  | .cons _ _ _ rest => (none, rest.vacant)

def length {α σ : Type} : Fields α σ → Nat
  | .nil => 0
  | .cons _ _ _ rest => rest.length + 1

def required {α β σ : Type} (name : String) (s : Shape α) (rest : Fields β σ) :
    Fields (α × β) (Option α × σ) :=
  .cons name none s rest

def complete {α σ : Type} : Fields α σ → σ → Except String α
  | .nil, () => .ok ()
  | .cons name missing _ rest, (met, others) =>
    match met <|> missing with
    | some a => (rest.complete others).map (a, ·)
    | none => .error name

end Fields

end BlockExchange
