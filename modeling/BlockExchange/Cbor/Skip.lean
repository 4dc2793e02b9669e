import BlockExchange.Cbor.Head
/-!
Strings and sequences of CBOR items, and skipping an item whose kind does not matter.

A `limit` bounds the items that are read; one more than the number of bytes is always enough, as
every item takes a byte at least. A `depth` bounds how deeply items may be nested.
-/

namespace BlockExchange.Cbor

def maxName : Nat := 4096

def maxDepth : Nat := 256

def take (n : Nat) : Reader Bytes := fun bytes =>
  match Bytes.split? n bytes with
  | some parts => .ok parts
  | none => .error .truncated

def untagged : (limit : Nat) → Reader Head
  | 0, _ => .error .truncated
  | limit + 1, bytes => do
    let (h, rest) ← readHead bytes
    match h with
    | .tag _ => untagged limit rest
    | _ => return (h, rest)

inductive StringKind where
  | bytes
  | text
  deriving DecidableEq

def StringKind.length? : StringKind → Head → Option (Option Nat)
  | .bytes, .bytes length => some length
  | .text, .text length => some length
  | _, _ => none

def readChunks (kind : StringKind) : (limit nested : Nat) → (acc : List Bytes) → Reader (List Bytes)
  | 0, _, _, _ => .error .truncated
  | limit + 1, nested, acc, bytes => do
    let (h, rest) ← readHead bytes
    if h = .stop then
      match nested with
      | 0 => return (acc.reverse, rest)
      | outer + 1 => readChunks kind limit outer acc rest
    else
      match kind.length? h with
      | none => .error (.unexpected "chunk")
      | some none => readChunks kind limit (nested + 1) acc rest
      | some (some n) =>
        let (chunk, rest) ← take n rest
        readChunks kind limit nested (chunk :: acc) rest

def readString (kind : StringKind) (limit : Nat) : Option Nat → Reader (List Bytes)
  | some n, bytes => do
    let (chunk, rest) ← take n bytes
    return ([chunk], rest)
  | none, bytes => readChunks kind limit 0 [] bytes

def textOfChunks (chunks : List Bytes) : Except Error String :=
  match chunks.mapM Bytes.toText? with
  | some parts => .ok (String.join parts)
  | none => .error .badText

def iterate {σ : Type} (step : σ → Reader σ) : (n : Nat) → σ → Reader σ
  | 0, s, bytes => .ok (s, bytes)
  | n + 1, s, bytes => do
    let (s, rest) ← step s bytes
    iterate step n s rest

def iterateOpen {σ : Type} (step : σ → Reader σ) : (limit : Nat) → σ → Reader σ
  | 0, _, _ => .error .truncated
  | limit + 1, s, bytes =>
    match bytes with
    | 0xff :: rest => .ok (s, rest)
    | _ => do
      let (s, rest) ← step s bytes
      iterateOpen step limit s rest

def iterateAll {σ : Type} (step : σ → Reader σ) (limit : Nat) : Option Nat → σ → Reader σ
  | some n => iterate step n
  | none => iterateOpen step limit

def skipString (kind : StringKind) (limit : Nat) (length : Option Nat) : Reader Unit := fun bytes => do
  let (chunks, rest) ← readString kind limit length bytes
  if kind = .text then
    let _ ← textOfChunks chunks
  return ((), rest)

def bigNumber? (rest : Bytes) : Option (Except Error (Nat × Bytes)) :=
  match readHead rest with
  | .ok (.bytes (some n), rest) =>
    if n ≤ 16 then some ((take n rest).map fun (digits, rest) => (Bytes.toNat digits, rest)) else none
  | _ => none

def skipItem (limit : Nat) (inner : Option (Reader Unit)) : Reader Unit := fun bytes => do
  let (h, rest) ← readHead bytes
  let nested (length : Option Nat) (read : Reader Unit → Reader Unit) : Except Error (Unit × Bytes) :=
    match inner with
    | none => .error .tooDeep
    | some skip => iterateAll (fun _ => read skip) limit length () rest
  match h with
  | .positive _ | .negative _ | .float => return ((), rest)
  | .simple n => if 20 ≤ n ∧ n ≤ 23 then return ((), rest) else .error (.unexpected "simple value")
  | .stop => .error (.unexpected "item")
  | .bytes length => skipString .bytes limit length rest
  | .text length => skipString .text limit length rest
  | .array length => nested length id
  | .map length =>
    nested length fun skip bytes => do
      let (_, rest) ← skip bytes
      skip rest
  | .tag n =>
    match if n = 2 ∨ n = 3 then bigNumber? rest else none with
    | some number => do
      let (value, rest) ← number
      if n = 3 ∧ 0x80000000000000000000000000000000 ≤ value then .error .outOfRange else return ((), rest)
    | none => nested (some 1) id

def skip (limit : Nat) : (depth : Nat) → Reader Unit
  | 0 => skipItem limit none
  | depth + 1 => skipItem limit (some (skip limit depth))

end BlockExchange.Cbor
