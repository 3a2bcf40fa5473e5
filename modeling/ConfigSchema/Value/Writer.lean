import ConfigSchema.Text.Quoted
import ConfigSchema.Value
/-!
# Writer — documents as text

A document is written on one line in plain ASCII, with a blank after each comma and colon and the fields in their order.
Characters outside printable ASCII are written by their codes, those above the first plane as a pair of codes.  A key that
is not a name is written as the text of its value.
-/
namespace ConfigSchema
namespace Writer

def unicodeEscape (code : Nat) : List Char := '\\' :: 'u' :: Quoted.hex 4 code

/-- One character between the quotes of a written string. -/
def escape (c : Char) : List Char :=
  if c = '"' ∨ c = '\\' then ['\\', c]
  else if c = '\n' then ['\\', 'n']
  else if c = '\r' then ['\\', 'r']
  else if c = '\t' then ['\\', 't']
  else if c = '\x08' then ['\\', 'b']
  else if c = '\x0c' then ['\\', 'f']
  else if 0x20 ≤ c.toNat ∧ c.toNat < 0x7f then [c]
  else if c.toNat < 0x10000 then unicodeEscape c.toNat
  else
    let offset := c.toNat - 0x10000
    unicodeEscape (0xd800 + offset / 0x400) ++ unicodeEscape (0xdc00 + offset % 0x400)

def string (s : String) : List Char := '"' :: (s.toList.flatMap escape ++ ['"'])

def boolean (b : Bool) : List Char := if b then "true".toList else "false".toList

def key : Key → List Char
  | .name text => string text
  | .number n => string (n.text .document)
  | .null => string "null"

/-- The parts with a comma and a blank between them. -/
def separated (parts : List (List Char)) : List Char := List.intercalate [',', ' '] parts

mutual

def value : Value → List Char
  | .null => "null".toList
  | .boolean b => boolean b
  | .number n => (n.text .document).toList
  | .string s => string s
  | .array _ entries => '[' :: (separated (values entries) ++ [']'])
  | .object fields => '{' :: (separated (fieldTexts fields) ++ ['}'])
  | .foreign f => string f.type

def values : List Value → List (List Char)
  | [] => []
  | v :: rest => value v :: values rest

def fieldTexts : List (Key × Value) → List (List Char)
  | [] => []
  | (k, v) :: rest => (key k ++ ':' :: ' ' :: value v) :: fieldTexts rest

end

end Writer

def Value.write (v : Value) : String := String.ofList (Writer.value v)

end ConfigSchema
