import BlockExchange.Shape

namespace BlockExchange

namespace Json

def escape (c : Char) : String :=
  if c = '"' then "\\\"" else if c = '\\' then "\\\\"
  else if c.toNat < 32 then
    "\\u00" ++ String.ofList [Nat.digitChar (c.toNat / 16), Nat.digitChar (c.toNat % 16)]
  else String.singleton c

def quote (text : String) : String :=
  "\"" ++ String.join (text.toList.map escape) ++ "\""

def array (items : List String) : String :=
  "[" ++ ",".intercalate items ++ "]"

def object (entries : List (String × String)) : String :=
  "\x7b" ++ ",".intercalate (entries.map fun (name, value) => quote name ++ ":" ++ value) ++ "\x7d"

end Json

open Json

mutual

def Shape.toJson {α : Type} : Shape α → α → String
  | .bool, b => if b then "true" else "false"
  | .number range, a => toString (range.toInt a)
  | .text, text => quote text
  | .octets, bytes => array (bytes.map fun b => toString b.toNat)
  | .optional _, none => "null"
  | .optional s, some a => s.toJson a
  | .sequence s, items => array (items.map s.toJson)
  | .tuple _ s, items => array (items.1.map s.toJson)
  | .record fields, a => object (fields.toJson a)
  | .closed fields, a => object (fields.toJson a)
  | .choice cases, a => cases.toJson a
  | .convert _ write s, a => s.toJson (write a)

def Fields.toJson {α σ : Type} : Fields α σ → α → List (String × String)
  | .nil, () => []
  | .cons name _ s rest, (a, others) => (name, s.toJson a) :: rest.toJson others

def Cases.toJson {α : Type} : Cases α → α → String
  | .nil, e => nomatch e
  | .bare name _, .inl () => quote name
  | .bare _ rest, .inr b => rest.toJson b
  | .content name s _, .inl a => object [(name, s.toJson a)]
  | .content _ _ rest, .inr b => rest.toJson b

end

end BlockExchange
