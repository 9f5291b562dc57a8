/-
# JSON payloads

Values of a `jsonb` column, the `->>` operator that reads a field as text, and the
checks a payload schema is made of. Numbers keep the text `jsonb` prints for them.
-/

import Mathlib.Tactic.Common

namespace Eveland

/-- A JSON value. -/
inductive Json
  | null
  | bool (value : Bool)
  | num (text : String)
  | str (value : String)
  | arr (elements : List Json)
  | obj (fields : List (String × Json))
  deriving Repr

namespace Json

/-! ## Text -/

/-- The hexadecimal digit of a number below sixteen. -/
def hexDigit (n : ℕ) : Char :=
  if n < 10 then Char.ofNat (48 + n) else Char.ofNat (87 + n)

/-- A character of a string as `jsonb` prints it. -/
def escapeChar (c : Char) : List Char :=
  if c = '"' then ['\\', '"']
  else if c = '\\' then ['\\', '\\']
  else if c.toNat = 8 then ['\\', 'b']
  else if c.toNat = 9 then ['\\', 't']
  else if c.toNat = 10 then ['\\', 'n']
  else if c.toNat = 12 then ['\\', 'f']
  else if c.toNat = 13 then ['\\', 'r']
  else if c.toNat < 32 then
    ['\\', 'u', '0', '0', hexDigit (c.toNat / 16), hexDigit (c.toNat % 16)]
  else [c]

/-- A string as `jsonb` prints it, quotes included. -/
def quote (s : String) : String :=
  String.ofList ('"' :: s.toList.flatMap escapeChar ++ ['"'])

mutual

/-- The text of a value. -/
def render : Json → String
  | .null => "null"
  | .bool true => "true"
  | .bool false => "false"
  | .num text => text
  | .str value => quote value
  | .arr elements => "[" ++ renderElements elements ++ "]"
  | .obj fields => "\x7b" ++ renderFields fields ++ "\x7d"

/-- The elements of an array, separated. -/
def renderElements : List Json → String
  | [] => ""
  | element :: rest =>
      render element ++ (if rest.isEmpty then "" else ", ") ++ renderElements rest

/-- The fields of an object, separated. -/
def renderFields : List (String × Json) → String
  | [] => ""
  | (key, value) :: rest =>
      quote key ++ ": " ++ render value ++ (if rest.isEmpty then "" else ", ") ++
        renderFields rest

end

/-! ## Fields -/

/-- The value of a key; only an object has any. -/
def field (key : String) : Json → Option Json
  | .obj fields => (fields.find? fun entry => entry.1 = key).map Prod.snd
  | _ => none

/-- `payload->>'key'`: the text of a field, `none` where SQL has null. -/
def fieldText (key : String) (payload : Json) : Option String :=
  match payload.field key with
  | none => none
  | some .null => none
  | some (.str value) => some value
  | some value => some value.render

/-- An object less one of its keys. -/
def without (key : String) : Json → Json
  | .obj fields => .obj (fields.filter fun entry => entry.1 ≠ key)
  | value => value

/-! ## Schemas -/

/-- `z.string()`. -/
def isString : Json → Bool
  | .str _ => true
  | _ => false

/-- `z.boolean()`. -/
def isBoolean : Json → Bool
  | .bool _ => true
  | _ => false

/-- `z.enum(values)`. -/
def isOneOf (values : List String) : Json → Bool
  | .str value => values.contains value
  | _ => false

/-- `.nullable()`. -/
def nullable (check : Json → Bool) : Json → Bool
  | .null => true
  | value => check value

/-- `z.array(element)`. -/
def isArrayOf (check : Json → Bool) : Json → Bool
  | .arr elements => elements.all check
  | _ => false

/-- A field that must be present. -/
def required (check : Json → Bool) : Option Json → Bool
  | some value => check value
  | none => false

/-- `.optional()`. -/
def optional (check : Json → Bool) : Option Json → Bool
  | some value => check value
  | none => true

/-- `z.object(shape).passthrough()`: the named fields are checked, others are let through. -/
def isObject (shape : List (String × (Option Json → Bool))) : Json → Bool
  | .obj fields => shape.all fun entry => entry.2 ((Json.obj fields).field entry.1)
  | _ => false

end Json

end Eveland
