import ConfigSchema.Text.Quoted
import ConfigSchema.Value
/-!
# Display — documents as reports show them

A report shows a document on one line: strings in quotes, `None`, `True` and `False` for null and the booleans, brackets
around arrays, parentheses around fixed ones, where a single entry is followed by a comma, and braces around objects.  A
string that is the whole document stands bare.  Values of foreign types, and arrays that can be looked up by key, are shown
as their types will have it (`Printing`).
-/
namespace ConfigSchema

/-- How the types of arrays that can be looked up by key print them, given the entries and how these print. -/
structure Printing where
  /-- The text inside another value. -/
  nested : (type : String) → List Value → List String → String
  /-- The text of an array that is the whole document. -/
  alone : (type : String) → List Value → List String → String

namespace Display

def key : Key → String
  | .name text => quoted text
  | .number n => n.text .message
  | .null => "None"

/-- The parts with a comma and a blank between them, inside an opening and a closing mark. -/
def enclosed (opening closing : String) (parts : List String) : String :=
  opening ++ String.intercalate ", " parts ++ closing

/-- A fixed array; the comma tells a single entry from a value in parentheses. -/
def tuple : List String → String
  | [part] => "(" ++ part ++ ",)"
  | parts => enclosed "(" ")" parts

mutual

def value (p : Printing) : Value → String
  | .null => "None"
  | .boolean b => if b then "True" else "False"
  | .number n => n.text .message
  | .string s => quoted s
  | .array .list entries => enclosed "[" "]" (values p entries)
  | .array .tuple entries => tuple (values p entries)
  | .array (.keyed type) entries => p.nested type entries (values p entries)
  | .object fields => enclosed "\x7b" "\x7d" (fieldTexts p fields)
  | .foreign f => f.nested

def values (p : Printing) : List Value → List String
  | [] => []
  | v :: rest => value p v :: values p rest

def fieldTexts (p : Printing) : List (Key × Value) → List String
  | [] => []
  | (k, v) :: rest => (key k ++ ": " ++ value p v) :: fieldTexts p rest

end

end Display

namespace Printing

/-- All arrays print as plain ones do. -/
def plain : Printing where
  nested _ _ texts := Display.enclosed "[" "]" texts
  alone _ _ texts := Display.enclosed "[" "]" texts

end Printing

/-- The document as a report shows it. -/
def Value.display (p : Printing) : Value → String
  | .string s => s
  | .array (.keyed type) entries => p.alone type entries (Display.values p entries)
  | .foreign f => f.alone
  | v => Display.value p v

end ConfigSchema
