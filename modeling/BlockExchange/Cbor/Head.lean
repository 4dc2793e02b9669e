import BlockExchange.Bytes

namespace BlockExchange.Cbor

inductive Error where
  | truncated
  | badHead
  | unexpected (wanted : String)
  | outOfRange
  | badText
  | tooDeep
  | missing (field : String)
  | duplicate (field : String)
  | unknownCase
  deriving DecidableEq, Repr

def Error.message : Error → String
  | truncated => "unexpected end of input"
  | badHead => "no such item head"
  | unexpected wanted => "expected " ++ wanted
  | outOfRange => "number out of range"
  | badText => "text is not UTF-8"
  | tooDeep => "nested too deeply"
  | missing field => "missing field " ++ field
  | duplicate field => "duplicate field " ++ field
  | unknownCase => "no such alternative"

abbrev Reader (α : Type) := Bytes → Except Error (α × Bytes)

inductive Head where
  | positive (n : Nat)
  | negative (n : Nat)
  | bytes (length : Option Nat)
  | text (length : Option Nat)
  | array (length : Option Nat)
  | map (length : Option Nat)
  | tag (n : Nat)
  | simple (n : Nat)
  | float
  | stop
  deriving DecidableEq, Repr

def head (major n : Nat) : Bytes :=
  if n < 24 then [UInt8.ofNat (major * 32 + n)]
  else if n < 0x100 then UInt8.ofNat (major * 32 + 24) :: Bytes.bigEndian 1 n
  else if n < 0x10000 then UInt8.ofNat (major * 32 + 25) :: Bytes.bigEndian 2 n
  else if n < 0x100000000 then UInt8.ofNat (major * 32 + 26) :: Bytes.bigEndian 4 n
  else UInt8.ofNat (major * 32 + 27) :: Bytes.bigEndian 8 n

def readArgument (low : Nat) : Reader (Option Nat) := fun bytes =>
  let wide (width : Nat) : Except Error (Option Nat × Bytes) :=
    match Bytes.split? width bytes with
    | some (front, rest) => .ok (some (Bytes.toNat front), rest)
    | none => .error .truncated
  if low < 24 then .ok (some low, bytes)
  else if low = 24 then wide 1
  else if low = 25 then wide 2
  else if low = 26 then wide 4
  else if low = 27 then wide 8
  else if low = 31 then .ok (none, bytes)
  else .error .badHead

def Head.ofParts (major low : Nat) (argument : Option Nat) : Except Error Head :=
  match major, argument with
  | 0, some n => .ok (.positive n)
  | 1, some n => .ok (.negative n)
  | 2, length => .ok (.bytes length)
  | 3, length => .ok (.text length)
  | 4, length => .ok (.array length)
  | 5, length => .ok (.map length)
  | 6, some n => .ok (.tag n)
  | 7, some n => .ok (if 25 ≤ low then .float else .simple n)
  | 7, none => .ok .stop
  | _, _ => .error .badHead

def readHead : Reader Head
  | [] => .error .truncated
  | first :: bytes => do
    let (argument, rest) ← readArgument (first.toNat % 32) bytes
    let head ← Head.ofParts (first.toNat / 32) (first.toNat % 32) argument
    return (head, rest)

end BlockExchange.Cbor
