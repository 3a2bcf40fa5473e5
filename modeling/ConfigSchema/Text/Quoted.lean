import ConfigSchema.Text.Printable
/-!
# Quoted — text as messages show it

A message shows a text between quotes, so that its ends and its invisible characters can be seen.  Single quotes are used
unless the text has one and no double quote.  The quote in use and the backslash are escaped, line ends and tabs have
short escapes, and every other character that is not printable is given by its code in the least of three widths.
-/
namespace ConfigSchema
namespace Quoted

/-- The quote that needs the fewest escapes, single quotes before double ones. -/
def quoteFor (s : List Char) : Char :=
  if s.contains '\'' && !s.contains '"' then '"' else '\''

/-- A code in lower-case hexadecimal digits, filled up to a width. -/
def hex (width code : Nat) : List Char :=
  let digits := Nat.toDigits 16 code
  List.replicate (width - digits.length) '0' ++ digits

/-- One character as it stands between quotes. -/
def escape (quote c : Char) : List Char :=
  if c = quote ∨ c = '\\' then ['\\', c]
  else if c = '\n' then ['\\', 'n']
  else if c = '\r' then ['\\', 'r']
  else if c = '\t' then ['\\', 't']
  else if isPrintable c then [c]
  else if c.toNat < 0x100 then '\\' :: 'x' :: hex 2 c.toNat
  else if c.toNat < 0x10000 then '\\' :: 'u' :: hex 4 c.toNat
  else '\\' :: 'U' :: hex 8 c.toNat

end Quoted

def quoted (s : String) : String :=
  let quote := Quoted.quoteFor s.toList
  String.ofList (quote :: (s.toList.flatMap (Quoted.escape quote) ++ [quote]))

end ConfigSchema
