/-!
# Malformed — why and where a text is no document

A text that is no document is refused at one position.  Positions count characters from zero; lines count from one, and a
column is the distance to the line end before it.
-/
namespace ConfigSchema

/-- Why a text is no document. -/
inductive MalformedCause where
  | byteOrderMark
  | value
  | propertyName
  | colon
  | comma
  | unterminated
  | controlCharacter
  | escape
  | unicodeEscape
  | extraData
  deriving DecidableEq

def MalformedCause.text : MalformedCause → String
  | .byteOrderMark => "Unexpected UTF-8 BOM (decode using utf-8-sig)"
  | .value => "Expecting value"
  | .propertyName => "Expecting property name enclosed in double quotes"
  | .colon => "Expecting ':' delimiter"
  | .comma => "Expecting ',' delimiter"
  | .unterminated => "Unterminated string starting at"
  | .controlCharacter => "Invalid control character at"
  | .escape => "Invalid \\escape"
  | .unicodeEscape => "Invalid \\uXXXX escape"
  | .extraData => "Extra data"

/-- A refusal of a text, with the characters that stand before the position. -/
structure Malformed where
  cause : MalformedCause
  before : List Char

namespace Malformed

def position (m : Malformed) : Nat := m.before.length

def line (m : Malformed) : Nat := 1 + m.before.count '\n'

/-- The distance to the line end before the position, or to the place just before the text. -/
def column (m : Malformed) : Nat := 1 + (m.before.reverse.takeWhile (· ≠ '\n')).length

def message (m : Malformed) : String :=
  m.cause.text ++ ": line " ++ toString m.line ++ " column " ++ toString m.column ++
    " (char " ++ toString m.position ++ ")"

end Malformed
end ConfigSchema
