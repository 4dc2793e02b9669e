import BlockExchange.Bytes

namespace BlockExchange

/-- Why a text is not hexadecimal. Positions count bytes of its UTF-8 form. -/
inductive HexError where
  | oddLength
  | invalidDigit (byte : UInt8) (position : Nat)
  deriving DecidableEq, Repr

namespace Hex

def digit (n : Nat) : Char :=
  if n < 10 then Char.ofNat (48 + n) else Char.ofNat (87 + n)

def value? (b : UInt8) : Option UInt8 :=
  if 48 ≤ b ∧ b ≤ 57 then some (b - 48)
  else if 97 ≤ b ∧ b ≤ 102 then some (b - 87)
  else if 65 ≤ b ∧ b ≤ 70 then some (b - 55)
  else none

def encode (bytes : Bytes) : String :=
  String.ofList (bytes.flatMap fun b => [digit (b.toNat / 16), digit (b.toNat % 16)])

def digitAt (position : Nat) (b : UInt8) : Except HexError UInt8 :=
  match value? b with
  | some v => .ok v
  | none => .error (.invalidDigit b position)

def decodePairs (position : Nat) (acc : Bytes) : Bytes → Except HexError Bytes
  | [] => .ok acc.reverse
  | [_] => .error .oddLength
  | high :: low :: rest => do
    let h ← digitAt position high
    let l ← digitAt (position + 1) low
    decodePairs (position + 2) ((h * 16 + l) :: acc) rest

def decode (text : String) : Except HexError Bytes :=
  let bytes := Bytes.ofText text
  if bytes.length % 2 = 1 then .error .oddLength else decodePairs 0 [] bytes

def quote (b : UInt8) : String :=
  let shown : String :=
    if b = 0 then "\\0" else if b = 9 then "\\t" else if b = 10 then "\\n"
    else if b = 13 then "\\r" else if b = 39 then "\\'" else if b = 92 then "\\\\"
    else if b < 32 ∨ (127 ≤ b ∧ b ≤ 160) ∨ b = 173 then
      "\\u\x7b" ++ String.ofList (Nat.toDigits 16 b.toNat) ++ "\x7d"
    else String.singleton (Char.ofNat b.toNat)
  "'" ++ shown ++ "'"

end Hex

def HexError.message : HexError → String
  | .oddLength => "Odd number of digits"
  | .invalidDigit b position => s!"Invalid character {Hex.quote b} at position {position}"

end BlockExchange
