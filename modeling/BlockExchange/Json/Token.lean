import BlockExchange.Bytes

namespace BlockExchange.Json

inductive Piece where
  | char (c : Char)
  | control (c : Char)
  | surrogate (n : Nat)
  deriving DecidableEq, Repr

inductive Token where
  | beginArray
  | endArray
  | beginObject
  | endObject
  | colon
  | comma
  | null
  | bool (b : Bool)
  | integer (n : Int)
  | decimal
  | string (pieces : List Piece)
  deriving DecidableEq, Repr

def isSpace (c : Char) : Bool :=
  c == ' ' || c == '\n' || c == '\t' || c == '\r'

def hexValue? (c : Char) : Option Nat :=
  if '0' ≤ c ∧ c ≤ '9' then some (c.toNat - 48)
  else if 'a' ≤ c ∧ c ≤ 'f' then some (c.toNat - 87)
  else if 'A' ≤ c ∧ c ≤ 'F' then some (c.toNat - 55)
  else none

def unicode? (a b c d : Char) : Option Piece := do
  let n := (← hexValue? a) * 4096 + (← hexValue? b) * 256 + (← hexValue? c) * 16 + (← hexValue? d)
  return if 0xd800 ≤ n ∧ n ≤ 0xdfff then .surrogate n else .char (Char.ofNat n)

def escaped? : Char → Option Char
  | '"' => some '"'
  | '\\' => some '\\'
  | '/' => some '/'
  | 'b' => some '\x08'
  | 'f' => some '\x0c'
  | 'n' => some '\n'
  | 'r' => some '\r'
  | 't' => some '\t'
  | _ => none

def string? (acc : List Piece) : List Char → Option (List Piece × List Char)
  | [] => none
  | '"' :: rest => some (acc.reverse, rest)
  | '\\' :: 'u' :: a :: b :: c :: d :: rest =>
    match unicode? a b c d with
    | some piece => string? (piece :: acc) rest
    | none => none
  | '\\' :: c :: rest =>
    match escaped? c with
    | some c => string? (.char c :: acc) rest
    | none => none
  | c :: rest => string? ((if c.toNat < 32 then .control c else .char c) :: acc) rest

def digits (text : List Char) : List Char × List Char :=
  text.span Char.isDigit

def number (digits : List Char) : Nat :=
  digits.foldl (fun n c => n * 10 + (c.toNat - 48)) 0

def skipFraction (rest : List Char) : Option (Bool × List Char) :=
  match rest with
  | '.' :: rest =>
    match digits rest with
    | ([], _) => none
    | (_, rest) => some (true, rest)
  | _ => some (false, rest)

def skipExponent (rest : List Char) : Option (Bool × List Char) :=
  let after (rest : List Char) : Option (Bool × List Char) :=
    match digits rest with
    | ([], _) => none
    | (_, rest) => some (true, rest)
  match rest with
  | 'e' :: '+' :: rest | 'E' :: '+' :: rest | 'e' :: '-' :: rest | 'E' :: '-' :: rest
  | 'e' :: rest | 'E' :: rest => after rest
  | _ => some (false, rest)

def number? (negative : Bool) (text : List Char) : Option (Token × List Char) := do
  let (whole, rest) := digits text
  if whole.isEmpty || (whole.head? == some '0' && whole.length ≠ 1) then none
  let (fraction, rest) ← skipFraction rest
  let (exponent, rest) ← skipExponent rest
  let n : Int := number whole
  let token : Token :=
    if fraction || exponent || (negative && n = 0) then .decimal
    else .integer (if negative then -n else n)
  return (token, rest)

def token? : List Char → Option (Token × List Char)
  | '[' :: rest => some (.beginArray, rest)
  | ']' :: rest => some (.endArray, rest)
  | '\x7b' :: rest => some (.beginObject, rest)
  | '\x7d' :: rest => some (.endObject, rest)
  | ':' :: rest => some (.colon, rest)
  | ',' :: rest => some (.comma, rest)
  | 'n' :: 'u' :: 'l' :: 'l' :: rest => some (.null, rest)
  | 't' :: 'r' :: 'u' :: 'e' :: rest => some (.bool true, rest)
  | 'f' :: 'a' :: 'l' :: 's' :: 'e' :: rest => some (.bool false, rest)
  | '"' :: rest => (string? [] rest).map fun (pieces, rest) => (.string pieces, rest)
  | '-' :: rest => number? true rest
  | text => number? false text

def tokensFrom : (limit : Nat) → (acc : List Token) → List Char → Option (List Token)
  | _, acc, [] => some acc.reverse
  | 0, _, _ => none
  | limit + 1, acc, c :: rest =>
    if isSpace c then tokensFrom limit acc rest
    else
      match token? (c :: rest) with
      | some (token, rest) => tokensFrom limit (token :: acc) rest
      | none => none

def tokens? (text : String) : Option (List Token) :=
  let chars := text.toList
  tokensFrom chars.length [] chars

def text? (acc : List Char) : List Piece → Option String
  | [] => some (String.ofList acc.reverse)
  | .char c :: rest => text? (c :: acc) rest
  | .surrogate high :: .surrogate low :: rest =>
    if high < 0xdc00 ∧ 0xdc00 ≤ low then
      text? (Char.ofNat ((high - 0xd800) * 1024 + (low - 0xdc00) + 0x10000) :: acc) rest
    else none
  | _ => none

def loneSurrogate (n : Nat) : Bytes :=
  [UInt8.ofNat (0xe0 + n / 4096), UInt8.ofNat (0x80 + n / 64 % 64), UInt8.ofNat (0x80 + n % 64)]

def octets : List Piece → Bytes
  | [] => []
  | .char c :: rest | .control c :: rest => Bytes.ofText (String.singleton c) ++ octets rest
  | .surrogate high :: .surrogate low :: rest =>
    if high < 0xdc00 ∧ 0xdc00 ≤ low then
      let c := Char.ofNat ((high - 0xd800) * 1024 + (low - 0xdc00) + 0x10000)
      Bytes.ofText (String.singleton c) ++ octets rest
    else loneSurrogate high ++ octets (.surrogate low :: rest)
  | .surrogate n :: rest => loneSurrogate n ++ octets rest

def isSkippable (pieces : List Piece) : Bool :=
  pieces.all fun
    | .control _ => false
    | _ => true

end BlockExchange.Json
