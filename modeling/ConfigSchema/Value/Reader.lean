import ConfigSchema.Value
import ConfigSchema.Value.Malformed
/-!
# Reader — documents from text

A text is read from left to right without going back.  Each step gives what it read and the rest of the text with a proof
that the rest is shorter, so that reading ends by the length of the text.  A number keeps whether it was written as a whole
one; of a fraction or an exponent that is not complete nothing is taken.  A repeated key keeps its first place and takes
its last value.
-/
namespace ConfigSchema
namespace Reader

/-- A refusal, with the part of the text that begins at its position. -/
structure Refusal where
  cause : MalformedCause
  rest : List Char

/-- What a step took from the front of `s`. -/
structure Taken (s : List Char) (α : Type) where
  value : α
  rest : List Char
  shorter : rest.length < s.length

abbrev Step (s : List Char) (α : Type) := Except Refusal (Taken s α)

def isBlank (c : Char) : Bool := c == ' ' || c == '\t' || c == '\n' || c == '\r'

def skipBlanks (s : List Char) : List Char := s.dropWhile isBlank

theorem length_skipBlanks_le (s : List Char) : (skipBlanks s).length ≤ s.length :=
  (List.dropWhile_sublist isBlank).length_le

/-! ## Strings -/

def hexDigit? (c : Char) : Option Nat :=
  if '0' ≤ c ∧ c ≤ '9' then some (c.toNat - '0'.toNat)
  else if 'a' ≤ c ∧ c ≤ 'f' then some (c.toNat - 'a'.toNat + 10)
  else if 'A' ≤ c ∧ c ≤ 'F' then some (c.toNat - 'A'.toNat + 10)
  else none

def hexCode? (a b c d : Char) : Option Nat := do
  let w ← hexDigit? a
  let x ← hexDigit? b
  let y ← hexDigit? c
  let z ← hexDigit? d
  return ((w * 16 + x) * 16 + y) * 16 + z

def letterEscape? : Char → Option Char
  | '"' => some '"'
  | '\\' => some '\\'
  | '/' => some '/'
  | 'b' => some '\x08'
  | 'f' => some '\x0c'
  | 'n' => some '\n'
  | 'r' => some '\r'
  | 't' => some '\t'
  | _ => none

def isHighSurrogate (code : Nat) : Bool := decide (0xd800 ≤ code ∧ code ≤ 0xdbff)

def isLowSurrogate (code : Nat) : Bool := decide (0xdc00 ≤ code ∧ code ≤ 0xdfff)

/-- The character with a code.  Half a pair alone stands for no character, so the replacement character is taken; texts that
differ in nothing but such halves become one. -/
def charOfCode (code : Nat) : Char :=
  if isHighSurrogate code || isLowSurrogate code then '\ufffd' else Char.ofNat code

def joinSurrogates (high low : Nat) : Char := Char.ofNat (0x10000 + (high - 0xd800) * 0x400 + (low - 0xdc00))

/-- The low half of a pair that continues in an escape of its own; at least one more character has to follow. -/
def lowHalf? (s : List Char) : Option (Nat × { r : List Char // r.length < s.length }) :=
  match s with
  | '\\' :: 'u' :: a :: b :: c :: d :: e :: r =>
    match hexCode? a b c d with
    | some code =>
      if isLowSurrogate code then some (code, ⟨e :: r, by simp only [List.length_cons]; omega⟩) else none
    | none => none
  | _ => none

/-- The characters of a string up to its closing quote; `opening` begins with the opening one. -/
def characters (opening s : List Char) : Step s (List Char) :=
  match s with
  | [] => .error ⟨.unterminated, opening⟩
  | '"' :: r => .ok ⟨[], r, by simp⟩
  | ['\\'] => .error ⟨.unterminated, opening⟩
  | '\\' :: 'u' :: r =>
    match r with
    | a :: b :: c :: d :: e :: r' =>
      match hexCode? a b c d with
      | none => .error ⟨.unicodeEscape, 'u' :: r⟩
      | some code =>
        match isHighSurrogate code, lowHalf? (e :: r') with
        | true, some (low, ⟨after, h⟩) =>
          match characters opening after with
          | .error refusal => .error refusal
          | .ok x => .ok ⟨joinSurrogates code low :: x.value, x.rest, by
              have := x.shorter; simp only [List.length_cons] at *; omega⟩
        | _, _ =>
          match characters opening (e :: r') with
          | .error refusal => .error refusal
          | .ok x => .ok ⟨charOfCode code :: x.value, x.rest, by
              have := x.shorter; simp only [List.length_cons] at *; omega⟩
    | _ => .error ⟨.unicodeEscape, 'u' :: r⟩
  | '\\' :: c :: r =>
    match letterEscape? c with
    | none => .error ⟨.escape, '\\' :: c :: r⟩
    | some c' =>
      match characters opening r with
      | .error refusal => .error refusal
      | .ok x => .ok ⟨c' :: x.value, x.rest, by have := x.shorter; simp only [List.length_cons]; omega⟩
  | c :: r =>
    if c.toNat < 0x20 then .error ⟨.controlCharacter, c :: r⟩
    else
      match characters opening r with
      | .error refusal => .error refusal
      | .ok x => .ok ⟨c :: x.value, x.rest, by have := x.shorter; simp only [List.length_cons]; omega⟩
termination_by s.length
decreasing_by all_goals simp_all only [List.length_cons]; try omega

/-! ## Numbers -/

def isDigit (c : Char) : Bool := decide ('0' ≤ c ∧ c ≤ '9')

def digitsValue (digits : List Char) : Nat := digits.foldl (fun n c => n * 10 + (c.toNat - '0'.toNat)) 0

/-- The digits before the point: a single zero, or digits that begin with another one. -/
def wholeDigits (s : List Char) : List Char × List Char :=
  match s with
  | '0' :: r => (['0'], r)
  | _ => (s.takeWhile isDigit, s.dropWhile isDigit)

/-- The digits after a point; a point without a digit is not taken. -/
def fractionDigits (s : List Char) : Option (List Char) × List Char :=
  match s with
  | '.' :: r =>
    if (r.takeWhile isDigit).isEmpty then (none, s) else (some (r.takeWhile isDigit), r.dropWhile isDigit)
  | _ => (none, s)

def signedExponent (negative : Bool) (s r : List Char) : Option Int × List Char :=
  let digits := r.takeWhile isDigit
  if digits.isEmpty then (none, s)
  else
    let e : Int := digitsValue digits
    (some (if negative then -e else e), r.dropWhile isDigit)

/-- The exponent; a letter without a digit is not taken. -/
def exponent (s : List Char) : Option Int × List Char :=
  match s with
  | c :: r =>
    if c = 'e' ∨ c = 'E' then
      match r with
      | '-' :: r' => signedExponent true s r'
      | '+' :: r' => signedExponent false s r'
      | _ => signedExponent false s r
    else (none, s)
  | [] => (none, s)

/-- The number that a sign, its digits and an exponent spell. -/
def assemble (negative : Bool) (whole : List Char) (fraction : Option (List Char)) (power : Option Int) : Number :=
  match fraction, power with
  | none, none =>
    let n : Int := digitsValue whole
    .whole (if negative then -n else n)
  | _, _ =>
    let after := fraction.getD []
    .real (.ofDecimal negative (digitsValue (whole ++ after)) (power.getD 0 - after.length))

theorem length_fractionDigits_le (s : List Char) : (fractionDigits s).2.length ≤ s.length := by
  unfold fractionDigits
  split
  · split
    · exact Nat.le_refl _
    · exact Nat.le_succ_of_le (List.dropWhile_sublist _).length_le
  · exact Nat.le_refl _

theorem length_signedExponent_le (negative : Bool) {s r : List Char} (h : r.length ≤ s.length) :
    (signedExponent negative s r).2.length ≤ s.length := by
  unfold signedExponent
  dsimp only
  split
  · exact Nat.le_refl _
  · exact Nat.le_trans (List.dropWhile_sublist _).length_le h

theorem length_exponent_le (s : List Char) : (exponent s).2.length ≤ s.length := by
  unfold exponent
  split
  · split
    · split <;> apply length_signedExponent_le <;> simp only [List.length_cons] <;> omega
    · exact Nat.le_refl _
  · exact Nat.le_refl _

theorem length_wholeDigits_lt {s : List Char} (h : (wholeDigits s).1 ≠ []) : (wholeDigits s).2.length < s.length := by
  unfold wholeDigits at *
  split at *
  · simp
  · have hs : (s.takeWhile isDigit).length + (s.dropWhile isDigit).length = s.length := by
      rw [← List.length_append, List.takeWhile_append_dropWhile]
    have : 0 < (s.takeWhile isDigit).length := List.length_pos_iff.2 h
    dsimp only
    omega

/-- Whether a minus sign stands in front, and what follows it. -/
def minus (s : List Char) : Bool × List Char :=
  match s with
  | '-' :: r => (true, r)
  | _ => (false, s)

theorem length_minus_le (s : List Char) : (minus s).2.length ≤ s.length := by
  unfold minus
  split
  · exact Nat.le_succ _
  · exact Nat.le_refl _

def number (s : List Char) : Step s Number :=
  let sign := minus s
  if h : (wholeDigits sign.2).1 = [] then .error ⟨.value, s⟩
  else
    let fraction := fractionDigits (wholeDigits sign.2).2
    let power := exponent fraction.2
    .ok ⟨assemble sign.1 (wholeDigits sign.2).1 fraction.1 power.1, power.2,
      Nat.lt_of_le_of_lt (Nat.le_trans (length_exponent_le _) (length_fractionDigits_le _))
        (Nat.lt_of_lt_of_le (length_wholeDigits_lt h) (length_minus_le s))⟩

/-! ## Values -/

def words : List (List Char × Value) :=
  [("null".toList, .null), ("true".toList, .boolean true), ("false".toList, .boolean false),
    ("NaN".toList, .number (.real .nan)), ("Infinity".toList, .number (.real (.infinite false))),
    ("-Infinity".toList, .number (.real (.infinite true)))]

/-- The word at the front of a text, with the value that it stands for. -/
def word? (s : List Char) : Option (List Char × Value) := words.find? (·.1.isPrefixOf s)

theorem length_drop_word_lt {s : List Char} {w : List Char × Value} (h : word? s = some w) :
    (s.drop w.1.length).length < s.length := by
  have hp : w.1.isPrefixOf s = true := by
    have := List.find?_some h
    exact this
  have hm : w ∈ words := List.mem_of_find?_eq_some h
  have hw : 0 < w.1.length := by
    simp only [words, List.mem_cons, List.not_mem_nil, or_false] at hm
    rcases hm with rfl | rfl | rfl | rfl | rfl | rfl <;> decide
  have hl : w.1.length ≤ s.length := (List.isPrefixOf_iff_prefix.1 hp).length_le
  rw [List.length_drop]
  omega

/-- A value with no parts: a word or a number. -/
def leaf (s : List Char) : Step s Value :=
  match h : word? s with
  | some w => .ok ⟨w.2, s.drop w.1.length, length_drop_word_lt h⟩
  | none => (number s).map fun x => ⟨.number x.value, x.rest, x.shorter⟩

mutual

def value (s : List Char) : Step s Value :=
  match s with
  | '"' :: r =>
    match characters s r with
    | .error refusal => .error refusal
    | .ok x => .ok ⟨.string (String.ofList x.value), x.rest, Nat.lt_succ_of_lt x.shorter⟩
  | '[' :: r =>
    match h : skipBlanks r with
    | ']' :: r' => .ok ⟨.array .list [], r', by
        have := length_skipBlanks_le r; rw [h] at this; simp only [List.length_cons] at *; omega⟩
    | _ =>
      match entries (skipBlanks r) with
      | .error refusal => .error refusal
      | .ok x => .ok ⟨.array .list x.value, x.rest, by
          have := length_skipBlanks_le r; have := x.shorter; simp only [List.length_cons]; omega⟩
  | '{' :: r =>
    match h : skipBlanks r with
    | '}' :: r' => .ok ⟨.object [], r', by
        have := length_skipBlanks_le r; rw [h] at this; simp only [List.length_cons] at *; omega⟩
    | _ =>
      match fields (skipBlanks r) with
      | .error refusal => .error refusal
      | .ok x => .ok ⟨.ofFields x.value, x.rest, by
          have := length_skipBlanks_le r; have := x.shorter; simp only [List.length_cons]; omega⟩
  | s => leaf s
termination_by (s.length, 0)
decreasing_by
  all_goals
    have := length_skipBlanks_le r
    apply Prod.Lex.left
    simp only [List.length_cons]
    omega

/-- The entries of an array from the first one on, up to the closing bracket. -/
def entries (s : List Char) : Step s (List Value) :=
  match value s with
  | .error refusal => .error refusal
  | .ok x =>
    match h : skipBlanks x.rest with
    | ']' :: r => .ok ⟨[x.value], r, by
        have := length_skipBlanks_le x.rest; have := x.shorter
        rw [h] at *; simp only [List.length_cons] at *; omega⟩
    | ',' :: r =>
      match entries (skipBlanks r) with
      | .error refusal => .error refusal
      | .ok y => .ok ⟨x.value :: y.value, y.rest, by
          have := length_skipBlanks_le x.rest; have := length_skipBlanks_le r; have := x.shorter; have := y.shorter
          rw [h] at *; simp only [List.length_cons] at *; omega⟩
    | r => .error ⟨.comma, r⟩
termination_by (s.length, 1)
decreasing_by
  · apply Prod.Lex.right; omega
  · have := length_skipBlanks_le x.rest; have := length_skipBlanks_le r; have := x.shorter
    apply Prod.Lex.left
    rw [h] at *; simp only [List.length_cons] at *; omega

/-- The fields of an object from the first key on, up to the closing brace. -/
def fields (s : List Char) : Step s (List (Key × Value)) :=
  match s with
  | '"' :: r =>
    match characters s r with
    | .error refusal => .error refusal
    | .ok k =>
      match hk : skipBlanks k.rest with
      | ':' :: r₁ =>
        match value (skipBlanks r₁) with
        | .error refusal => .error refusal
        | .ok x =>
          match hx : skipBlanks x.rest with
          | '}' :: r₂ => .ok ⟨[(.name (String.ofList k.value), x.value)], r₂, by
              have := length_skipBlanks_le k.rest; have := length_skipBlanks_le r₁
              have := length_skipBlanks_le x.rest; have := k.shorter; have := x.shorter
              rw [hk, hx] at *; simp only [List.length_cons] at *; omega⟩
          | ',' :: r₂ =>
            match fields (skipBlanks r₂) with
            | .error refusal => .error refusal
            | .ok y => .ok ⟨(.name (String.ofList k.value), x.value) :: y.value, y.rest, by
                have := length_skipBlanks_le k.rest; have := length_skipBlanks_le r₁
                have := length_skipBlanks_le x.rest; have := length_skipBlanks_le r₂
                have := k.shorter; have := x.shorter; have := y.shorter
                rw [hk, hx] at *; simp only [List.length_cons] at *; omega⟩
          | r₂ => .error ⟨.comma, r₂⟩
      | r₁ => .error ⟨.colon, r₁⟩
  | _ => .error ⟨.propertyName, s⟩
termination_by (s.length, 1)
decreasing_by
  · have := length_skipBlanks_le k.rest; have := length_skipBlanks_le r₁; have := k.shorter
    apply Prod.Lex.left
    rw [hk] at *; simp only [List.length_cons] at *; omega
  · have := length_skipBlanks_le k.rest; have := length_skipBlanks_le r₁
    have := length_skipBlanks_le x.rest; have := length_skipBlanks_le r₂
    have := k.shorter; have := x.shorter
    apply Prod.Lex.left
    rw [hk, hx] at *; simp only [List.length_cons] at *; omega

end

/-- A whole document: one value between blanks, and no byte order mark before it. -/
def document (s : List Char) : Except Refusal Value :=
  match s with
  | '\ufeff' :: _ => .error ⟨.byteOrderMark, s⟩
  | _ =>
    match value (skipBlanks s) with
    | .error refusal => .error refusal
    | .ok x =>
      match skipBlanks x.rest with
      | [] => .ok x.value
      | r => .error ⟨.extraData, r⟩

def Refusal.locate (text : List Char) (r : Refusal) : Malformed :=
  ⟨r.cause, text.take (text.length - r.rest.length)⟩

end Reader

/-- The document that a text stands for.  Of texts with half a surrogate pair alone this says nothing about the half itself
(`Reader.charOfCode`): two keys or strings may fall together that differ there. -/
def Value.read (text : String) : Except Malformed Value :=
  match Reader.document text.toList with
  | .error refusal => .error (refusal.locate text.toList)
  | .ok v => .ok v

end ConfigSchema
