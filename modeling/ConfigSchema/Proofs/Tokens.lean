import ConfigSchema.Pointer
import ConfigSchema.Value
/-!
# Tokens — pointers read back

A pointer is split at its slashes, and in each part `~1` is read as a slash and then `~0` as a tilde.  What `push` writes is
read back as it was (`tokens_push`), so a pointer and its tokens say the same.  `Value.at?` follows tokens into a document:
a name leads to the field of that name, and a number, written in decimal, to the entry of that index.
-/
namespace ConfigSchema

namespace Pointer

/-- Reads each `a` that is followed by `b`, and the `b` with it, as `c`, from the left. -/
def read (a b c : Char) : List Char → List Char
  | x :: y :: rest => if x = a ∧ y = b then c :: read a b c rest else x :: read a b c (y :: rest)
  | cs => cs

/-- A token as it was before it was written into a pointer. -/
def unescape (cs : List Char) : List Char := read '~' '0' '~' (read '~' '1' '/' cs)

/-- The tokens of a pointer; whatever stands before the first slash is none. -/
def tokens (p : Pointer) : List String :=
  ((p.text.toList.splitOn '/').drop 1).map fun part => String.ofList (unescape part)

theorem read_cons_of_ne {a b c x : Char} (h : x ≠ a) (rest : List Char) :
    read a b c (x :: rest) = x :: read a b c rest := by
  cases rest with
  | nil => rfl
  | cons y rest => rw [read, if_neg fun hxy => h hxy.1]

theorem read_pair (a b c : Char) (rest : List Char) : read a b c (a :: b :: rest) = c :: read a b c rest := by
  rw [read, if_pos ⟨rfl, rfl⟩]

theorem read_cons_cons_of_ne {a b c y : Char} (h : y ≠ b) (rest : List Char) :
    read a b c (a :: y :: rest) = a :: read a b c (y :: rest) := by
  rw [read, if_neg fun hxy => h hxy.2]

/-- A token in which only the tildes are written otherwise. -/
def escapeTildes (token : List Char) : List Char := token.flatMap fun c => if c = '~' then ['~', '0'] else [c]

/-- The first reading brings the slashes back. -/
theorem read_escape : ∀ (token : List Char), read '~' '1' '/' (token.flatMap escape) = escapeTildes token
  | [] => rfl
  | c :: token => by
    have ih := read_escape token
    rw [List.flatMap_cons, escapeTildes, List.flatMap_cons, ← escapeTildes, ← ih]
    unfold escape
    by_cases ht : c = '~'
    · subst ht
      simp only [if_true, List.cons_append, List.nil_append]
      rw [read_cons_cons_of_ne (by decide), read_cons_of_ne (by decide)]
    · by_cases hs : c = '/'
      · subst hs
        simp only [ht, if_false, if_true, List.cons_append, List.nil_append]
        rw [read_pair]
      · simp only [ht, hs, if_false, List.cons_append, List.nil_append]
        rw [read_cons_of_ne ht]

/-- The second reading brings the tildes back. -/
theorem read_escapeTildes : ∀ (token : List Char), read '~' '0' '~' (escapeTildes token) = token
  | [] => rfl
  | c :: token => by
    have ih := read_escapeTildes token
    rw [escapeTildes, List.flatMap_cons, ← escapeTildes]
    by_cases ht : c = '~'
    · subst ht
      simp only [if_true, List.cons_append, List.nil_append]
      rw [read_pair, ih]
    · simp only [ht, if_false, List.cons_append, List.nil_append]
      rw [read_cons_of_ne ht, ih]

theorem unescape_escape (token : List Char) : unescape (token.flatMap escape) = token := by
  rw [unescape, read_escape, read_escapeTildes]

theorem slash_not_mem_escape (token : List Char) : '/' ∉ token.flatMap escape := by
  intro h
  obtain ⟨c, -, hc⟩ := List.mem_flatMap.1 h
  unfold escape at hc
  split at hc
  · revert hc
    decide
  · split at hc
    · revert hc
      decide
    · rename_i hs
      exact hs (List.mem_singleton.1 hc).symm

@[simp] theorem tokens_root : root.tokens = [] := rfl

/-- Whatever follows a slash in a pointer is read after the tokens before the slash. -/
theorem tokens_of_append {p q : Pointer} {rest : List Char} (h : q.text.toList = p.text.toList ++ '/' :: rest) :
    q.tokens = p.tokens ++ (rest.splitOn '/').map fun part => String.ofList (unescape part) := by
  have hparts : 1 ≤ (p.text.toList.splitOn '/').length := List.length_pos_iff.2 (List.splitOn_ne_nil _ _)
  rw [tokens, h, List.splitOn_append_cons_self, List.drop_append_of_le_length hparts, List.map_append, tokens]

theorem toList_text_push (p : Pointer) (token : String) :
    (p.push token).text.toList = p.text.toList ++ '/' :: token.toList.flatMap escape := by
  simp [push, String.toList_append]

/-- **A token that was pushed is read back as it was**, after the tokens before it. -/
@[simp] theorem tokens_push (p : Pointer) (token : String) : (p.push token).tokens = p.tokens ++ [token] := by
  rw [tokens_of_append (p.toList_text_push token), List.splitOn_eq_singleton (slash_not_mem_escape _), List.map_singleton,
    unescape_escape, String.ofList_toList]

@[simp] theorem tokens_entry (p : Pointer) (index : Nat) : (p.entry index).tokens = p.tokens ++ [toString index] :=
  p.tokens_push _

/-- Tokens pushed one after the other are read back after those of the pointer that they were pushed onto. -/
theorem tokens_foldl_push : ∀ (ts : List String) (p : Pointer), (ts.foldl push p).tokens = p.tokens ++ ts
  | [], p => (List.append_nil _).symm
  | t :: ts, p => by rw [List.foldl_cons, tokens_foldl_push ts, tokens_push, List.append_assoc, List.singleton_append]

end Pointer

namespace Value

/-- The index that a token writes in decimal, with no zero in front. -/
def index? (token : String) : Option Nat :=
  let i := Nat.ofDigitChars 10 token.toList 0
  if toString i = token then some i else none

theorem index?_toString (i : Nat) : index? (toString i) = some i := by
  have hdigits : (toString i).toList = Nat.toDigits 10 i := String.toList_ofList
  have h : Nat.ofDigitChars 10 (toString i).toList 0 = i := by rw [hdigits, Nat.ofDigitChars_ten_toDigits]
  simp only [index?, h, if_true]

/-- The part of a document that tokens lead to. -/
def at? : List String → Value → Option Value
  | [], v => some v
  | token :: rest, .object fields => (Assoc.find? (· == .name token) fields).bind (at? rest)
  | token :: rest, .array _ entries => ((index? token).bind (entries[·]?)).bind (at? rest)
  | _ :: _, _ => none

theorem at?_append : ∀ (ts ts' : List String) (v : Value), at? (ts ++ ts') v = (at? ts v).bind (at? ts')
  | [], _, _ => rfl
  | t :: ts, ts', v => by
    cases v with
    | object fields =>
      cases h : Assoc.find? (· == .name t) fields <;> simp [at?, h, at?_append ts ts']
    | array shape entries =>
      cases h : (index? t).bind (entries[·]?) <;> simp [at?, h, at?_append ts ts']
    | null | boolean | number | string | foreign => rfl

end Value
end ConfigSchema
