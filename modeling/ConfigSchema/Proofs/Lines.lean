import Mathlib.Data.List.Basic
import ConfigSchema.Proofs.Descent
import ConfigSchema.Value.Display
/-!
# Lines — texts that stay on one line

Texts joined by line ends come apart into just these texts if each of them stays on one line (`lines_intercalate_eq_iff`).
Numbers stay on one line in any layout, and so does any text between quotes; nothing else is done about line ends, so a
message stays on one line if the texts do that it holds as they are (`Cause.oneLine_message`).
-/
namespace ConfigSchema

/-- A text without a line end. -/
def OneLine (text : String) : Prop := '\n' ∉ text.toList

instance (text : String) : Decidable (OneLine text) := inferInstanceAs (Decidable ('\n' ∉ text.toList))

/-- A text, split at its line ends. -/
def lines (text : String) : List String := (text.toList.splitOn '\n').map String.ofList

section

variable {text : String} {parts : List String}

theorem oneLine_append {a b : String} : OneLine (a ++ b) ↔ OneLine a ∧ OneLine b := by
  rw [OneLine, String.toList_append, List.mem_append, not_or]
  rfl

theorem oneLine_after {a b : String} (h : OneLine a) : OneLine (a ++ b) ↔ OneLine b := by
  rw [oneLine_append, and_iff_right h]

theorem oneLine_before {a b : String} (h : OneLine b) : OneLine (a ++ b) ↔ OneLine a := by
  rw [oneLine_append, and_iff_left h]

theorem oneLine_ofList {cs : List Char} : OneLine (String.ofList cs) ↔ '\n' ∉ cs := by
  rw [OneLine, String.toList_ofList]

theorem oneLine_intercalate {between : String} (hb : OneLine between) : ∀ {parts : List String},
    OneLine (between.intercalate parts) ↔ ∀ part ∈ parts, OneLine part
  | [] => by
    rw [String.intercalate_nil]
    exact iff_of_true (by decide) fun _ h => nomatch h
  | [part] => by rw [String.intercalate_singleton, List.forall_mem_singleton]
  | part :: next :: parts => by
    rw [String.intercalate_cons_cons, oneLine_append, oneLine_append, oneLine_intercalate hb, and_iff_left hb]
    exact List.forall_mem_cons.symm

/-! ## Texts joined by line ends -/

theorem length_lines (text : String) : 0 < (lines text).length := by
  rw [lines, List.length_map]
  exact List.length_pos_of_ne_nil (List.splitOn_ne_nil _ _)

theorem lines_of_oneLine (h : OneLine text) : lines text = [text] := by
  rw [lines, List.splitOn_eq_singleton h, List.map_singleton, String.ofList_toList]

theorem lines_append (text rest : String) : lines (text ++ "\n" ++ rest) = lines text ++ lines rest := by
  have hsplit : (text ++ "\n" ++ rest).toList = text.toList ++ '\n' :: rest.toList := by
    simp [String.toList_append]
  rw [lines, hsplit, List.splitOn_append_cons_self, List.map_append]
  rfl

theorem oneLine_of_length_lines (h : (lines text).length = 1) : OneLine text := by
  intro hm
  obtain ⟨before, after, hsplit⟩ := List.append_of_mem hm
  rw [lines, hsplit, List.splitOn_append_cons_self, List.length_map, List.length_append] at h
  have hbefore := List.length_pos_of_ne_nil (List.splitOn_ne_nil '\n' before)
  have hafter := List.length_pos_of_ne_nil (List.splitOn_ne_nil '\n' after)
  omega

/-- **The lines of joined texts are the lines of each of them.** -/
theorem lines_intercalate : ∀ {parts : List String}, parts ≠ [] → lines ("\n".intercalate parts) = parts.flatMap lines
  | [], h => absurd rfl h
  | [part], _ => by rw [String.intercalate_singleton, List.flatMap_singleton]
  | part :: next :: parts, _ => by
    rw [String.intercalate_cons_cons, lines_append, lines_intercalate (List.cons_ne_nil _ _)]
    rfl

/-- Texts have no more lines than there are texts only if each has one. -/
theorem length_flatMap_lines : ∀ parts : List String, parts.length ≤ (parts.flatMap lines).length ∧
    ((parts.flatMap lines).length = parts.length → ∀ part ∈ parts, OneLine part)
  | [] => ⟨Nat.le_refl _, fun _ _ h => nomatch h⟩
  | part :: parts => by
    obtain ⟨hle, heq⟩ := length_flatMap_lines parts
    have hpos := length_lines part
    rw [List.flatMap_cons, List.length_append, List.length_cons]
    refine ⟨by omega, fun h => List.forall_mem_cons.2 ⟨oneLine_of_length_lines ?_, heq ?_⟩⟩ <;> omega

theorem flatMap_lines_of_oneLine (h : ∀ part ∈ parts, OneLine part) : parts.flatMap lines = parts := by
  rw [List.flatMap_congr fun part hp => lines_of_oneLine (h part hp), List.flatMap_singleton']

/-- **Joined texts come apart again, or into as many lines as there are texts, just if each stays on one line.** -/
theorem lines_intercalate_eq_iff (h : parts ≠ []) :
    (lines ("\n".intercalate parts) = parts ↔ ∀ part ∈ parts, OneLine part) ∧
    ((lines ("\n".intercalate parts)).length = parts.length ↔ ∀ part ∈ parts, OneLine part) := by
  rw [lines_intercalate h]
  have honly := (length_flatMap_lines parts).2
  exact ⟨⟨fun heq => honly (congrArg List.length heq), flatMap_lines_of_oneLine⟩,
    ⟨honly, fun hparts => congrArg List.length (flatMap_lines_of_oneLine hparts)⟩⟩

end

/-! ## Numbers -/

theorem digitChar_ne_newline (n : Nat) : n.digitChar ≠ '\n' :=
  match n with
  | 0 | 1 | 2 | 3 | 4 | 5 | 6 | 7 | 8 | 9 | 10 | 11 | 12 | 13 | 14 | 15 => by decide
  | _ + 16 => by simp [Nat.digitChar]

theorem newline_not_mem_toDigits {b : Nat} (hb : 1 < b) (n : Nat) : '\n' ∉ Nat.toDigits b n := by
  induction n using Nat.strongRecOn with
  | ind n ih =>
    rw [Nat.toDigits_eq_if hb]
    split
    · exact fun h => digitChar_ne_newline n (List.mem_singleton.1 h).symm
    · rename_i hn
      have hlt : n / b < n := Nat.div_lt_self (by omega) hb
      rw [List.mem_append, List.mem_singleton, not_or]
      exact ⟨ih _ hlt, (digitChar_ne_newline _).symm⟩

theorem oneLine_toString (n : Nat) : OneLine (toString n) := by
  rw [Nat.toString_eq_ofList_toDigits, oneLine_ofList]
  exact newline_not_mem_toDigits (by decide) n

theorem oneLine_toString_int (n : Int) : OneLine (toString n) := by
  cases n with
  | ofNat n => exact oneLine_toString n
  | negSucc n => exact oneLine_append.2 ⟨by decide, oneLine_toString (n + 1)⟩

namespace Layout

theorem newline_not_mem_significantDigits (n : Nat) : '\n' ∉ significantDigits n := by
  intro h
  rw [significantDigits, List.mem_reverse] at h
  exact newline_not_mem_toDigits (by decide) n (List.mem_reverse.1 ((List.dropWhile_sublist _).subset h))

theorem newline_not_mem_exponentText (l : Layout) (e : Int) : '\n' ∉ l.exponentText e := by
  have hdigits := newline_not_mem_toDigits (b := 10) (by decide) e.natAbs
  have hsign : '\n' ≠ if e < 0 then '-' else '+' := by split <;> decide
  simp only [exponentText, List.mem_cons, List.mem_append, List.mem_replicate, not_or]
  exact ⟨by decide, hsign, fun h => absurd h.2 (by decide), hdigits⟩

theorem newline_not_mem_positional {digits : List Char} (h : '\n' ∉ digits) (e : Int) : '\n' ∉ positional digits e := by
  have hzeros (n : Nat) : '\n' ∉ List.replicate n '0' := fun hm => absurd (List.mem_replicate.1 hm).2 (by decide)
  unfold positional
  split
  · simp only [List.mem_cons, List.mem_append, not_or]
    exact ⟨by decide, by decide, hzeros _, h⟩
  · simp only
    split
    · simp only [List.mem_cons, List.mem_append, not_or]
      exact ⟨⟨h, hzeros _⟩, by decide, by decide, List.not_mem_nil⟩
    · simp only [List.mem_cons, List.mem_append, not_or]
      exact ⟨fun hm => h (List.mem_of_mem_take hm), by decide, fun hm => h (List.mem_of_mem_drop hm)⟩

theorem newline_not_mem_scientific (l : Layout) {digits : List Char} (h : '\n' ∉ digits) (e : Int) :
    '\n' ∉ l.scientific digits e := by
  have hexponent := l.newline_not_mem_exponentText e
  unfold scientific
  split
  · exact List.not_mem_nil
  · simp only [List.mem_cons, not_or] at h ⊢
    exact ⟨h.1, hexponent⟩
  · simp only [List.mem_cons, List.mem_append, not_or] at h ⊢
    exact ⟨h.1, by decide, h.2, hexponent⟩

/-- A number stays on one line if what the layout calls the values without digits does. -/
theorem oneLine_text {l : Layout} (hinfinity : OneLine l.infinity) (hnan : OneLine l.nan) (x : Binary64) :
    OneLine (l.text x) := by
  cases x with
  | nan => exact hnan
  | infinite negative =>
    cases negative with
    | false => exact hinfinity
    | true => exact oneLine_append.2 ⟨by decide, hinfinity⟩
  | finite negative significand exponent =>
    have hdecimal (d : Decimal) : '\n' ∉ l.decimalText d := by
      unfold decimalText
      simp only
      split
      · exact newline_not_mem_positional (newline_not_mem_significantDigits _) _
      · exact l.newline_not_mem_scientific (newline_not_mem_significantDigits _) _
    have hmagnitude : '\n' ∉ if significand = 0 then ['0', '.', '0']
        else l.decimalText (Shortest.decimal significand exponent) := by
      split
      · decide
      · exact hdecimal _
    rw [Layout.text, oneLine_ofList]
    cases negative with
    | false => exact hmagnitude
    | true => exact List.not_mem_cons_of_ne_of_not_mem (by decide) hmagnitude

end Layout

theorem Number.oneLine_text (n : Number) : OneLine (n.text .message) := by
  cases n with
  | whole n => exact oneLine_toString_int n
  | real x => exact Layout.oneLine_text (by decide) (by decide) x

theorem Measure.oneLine_text (m : Measure) : OneLine m.text := by
  cases m with
  | value n => exact oneLine_append.2 ⟨by decide, n.oneLine_text⟩
  | length n => exact oneLine_append.2 ⟨by decide, oneLine_toString n⟩

/-! ## Quotes -/

namespace Quoted

theorem newline_not_mem_hex (width code : Nat) : '\n' ∉ hex width code := by
  have hdigits := newline_not_mem_toDigits (b := 16) (by decide) code
  simp only [hex, List.mem_append, List.mem_replicate, not_or]
  exact ⟨fun h => absurd h.2 (by decide), hdigits⟩

theorem newline_not_mem_escape {quote : Char} (hq : quote ≠ '\n') (c : Char) : '\n' ∉ escape quote c := by
  have hhex (mark : Char) (hm : '\n' ≠ mark) (width : Nat) : '\n' ∉ '\\' :: mark :: hex width c.toNat :=
    List.not_mem_cons_of_ne_of_not_mem (by decide)
      (List.not_mem_cons_of_ne_of_not_mem hm (newline_not_mem_hex width c.toNat))
  unfold escape
  split
  case isTrue h =>
    -- a quote or a backslash stands for itself behind a backslash
    have hc : '\n' ≠ c := by
      rcases h with rfl | rfl
      · exact hq.symm
      · decide
    exact List.not_mem_cons_of_ne_of_not_mem (by decide) fun h => hc (List.mem_singleton.1 h)
  case isFalse =>
    split
    case isTrue => decide
    case isFalse hc =>
      by_cases hr : c = '\r'
      · rw [if_pos hr]
        decide
      by_cases ht : c = '\t'
      · rw [if_neg hr, if_pos ht]
        decide
      rw [if_neg hr, if_neg ht]
      by_cases hp : isPrintable c = true
      · rw [if_pos hp]
        exact fun h => hc (List.mem_singleton.1 h).symm
      rw [if_neg hp]
      -- any other character is given by its code
      split
      · exact hhex 'x' (by decide) 2
      · split
        · exact hhex 'u' (by decide) 4
        · exact hhex 'U' (by decide) 8

theorem quoteFor_ne_newline (text : List Char) : quoteFor text ≠ '\n' := by
  unfold quoteFor
  split <;> decide

end Quoted

/-- **A text between quotes stays on one line, whatever it holds.** -/
theorem oneLine_quoted (text : String) : OneLine (quoted text) := by
  have hquote := Quoted.quoteFor_ne_newline text.toList
  rw [quoted, oneLine_ofList]
  simp only [List.mem_cons, List.mem_append, List.mem_flatMap, not_or, List.not_mem_nil, not_exists, not_and]
  exact ⟨hquote.symm, fun c _ => Quoted.newline_not_mem_escape hquote c, hquote.symm, not_false⟩

/-! ## Messages -/

theorem Kind.oneLine_label (k : Kind) : OneLine k.label := by cases k <;> decide

theorem ErrorClass.oneLine_name (c : ErrorClass) : OneLine c.name := by cases c <;> exact oneLine_ofList.2 (by decide)

/-! ### The texts that a message holds as they are -/

namespace RootFault

def bareTexts : RootFault → List String
  | .notContainer _ => []
  | .wrongKind actual _ => [actual]
  | .stated message => [message]

theorem oneLine_message (fault : RootFault) : OneLine fault.message ↔ ∀ text ∈ fault.bareTexts, OneLine text := by
  cases fault with
  | notContainer kind =>
    exact iff_of_true (oneLine_append.2 ⟨oneLine_ofList.2 (by decide), kind.oneLine_label⟩) fun _ h => nomatch h
  | wrongKind actual expected =>
    exact (((oneLine_before expected.oneLine_label).trans (oneLine_before (by decide))).trans
      (oneLine_after (by decide))).trans List.forall_mem_singleton.symm
  | stated message => exact List.forall_mem_singleton.symm

end RootFault

namespace ValueFault

def bareTexts : ValueFault → List String
  | .above _ _ | .below _ _ | .notListed _ _ => []
  | .rejectedBy validator => [validator]
  | .stated message => [message]

theorem oneLine_message (fault : ValueFault) : OneLine fault.message ↔ ∀ text ∈ fault.bareTexts, OneLine text := by
  cases fault with
  | above measure bound | below measure bound =>
    exact iff_of_true (oneLine_append.2 ⟨oneLine_append.2 ⟨measure.oneLine_text, by decide⟩, bound.oneLine_text⟩)
      fun _ h => nomatch h
  | notListed value allowed =>
    have hallowed : OneLine (String.intercalate ", " (allowed.map quoted)) :=
      (oneLine_intercalate (by decide)).2 fun part hp => by
        obtain ⟨text, -, rfl⟩ := List.mem_map.1 hp
        exact oneLine_quoted text
    exact iff_of_true (oneLine_append.2 ⟨oneLine_append.2 ⟨oneLine_append.2 ⟨by decide, oneLine_quoted value⟩, by decide⟩,
      hallowed⟩) fun _ h => nomatch h
  | rejectedBy validator => exact (oneLine_after (by decide)).trans List.forall_mem_singleton.symm
  | stated message => exact List.forall_mem_singleton.symm

end ValueFault

namespace ContentsFault

def bareTexts : ContentsFault → List String
  | .wrongLength _ _ => []
  | .stated message => [message]

theorem oneLine_message (fault : ContentsFault) : OneLine fault.message ↔ ∀ text ∈ fault.bareTexts, OneLine text := by
  cases fault with
  | wrongLength actual expected =>
    exact iff_of_true (oneLine_append.2 ⟨oneLine_append.2 ⟨oneLine_append.2 ⟨by decide, oneLine_toString actual⟩,
      by decide⟩, oneLine_toString expected⟩) fun _ h => nomatch h
  | stated message => exact List.forall_mem_singleton.symm

end ContentsFault

def Cause.bareTexts : Cause → List String
  | .rootType fault => fault.bareTexts
  | .wrongType actual expected => [actual, expected]
  | .badValue fault => fault.bareTexts
  | .nullValue field => field.toList
  | .missingField field => [field]
  | .arrayContents fault => fault.bareTexts
  | .nullEntry => []
  | .entryType actual => [actual]
  | .stated message => [message]

/-- **A message stays on one line just if the texts do that it holds as they are.** -/
theorem Cause.oneLine_message (c : Cause) : OneLine c.message ↔ ∀ text ∈ c.bareTexts, OneLine text := by
  cases c with
  | rootType fault => exact fault.oneLine_message
  | wrongType actual expected =>
    have hpair : OneLine (wrongType actual expected).message ↔ OneLine actual ∧ OneLine expected :=
      oneLine_append.trans (and_congr_left' ((oneLine_before (by decide)).trans (oneLine_after (by decide))))
    rw [hpair, bareTexts, List.forall_mem_cons, List.forall_mem_singleton]
  | badValue fault => exact fault.oneLine_message
  | nullValue field =>
    cases field with
    | none =>
      -- the whole message is one text then
      have hmessage : (nullValue none).message = "Field <unnamed> is null, null fields not allowed" := rfl
      rw [hmessage]
      exact iff_of_true (oneLine_ofList.2 (by decide)) fun _ h => nomatch h
    | some field =>
      exact ((oneLine_before (oneLine_ofList.2 (by decide))).trans (oneLine_after (by decide))).trans
        List.forall_mem_singleton.symm
  | missingField field => exact (oneLine_after (by decide)).trans List.forall_mem_singleton.symm
  | arrayContents fault => exact fault.oneLine_message
  | nullEntry => exact iff_of_true (by decide) fun _ h => nomatch h
  | entryType actual => exact (oneLine_after (by decide)).trans List.forall_mem_singleton.symm
  | stated message => exact List.forall_mem_singleton.symm

/-! ## Documents -/

namespace Value

mutual

/-- The names of the foreign types of which a value holds values. -/
def foreignTypes : Value → List String
  | .array _ entries => foreignTypesIn entries
  | .object fields => foreignTypesUnder fields
  | .foreign f => [f.type]
  | .null | .boolean _ | .number _ | .string _ => []

def foreignTypesIn : List Value → List String
  | [] => []
  | v :: rest => foreignTypes v ++ foreignTypesIn rest

def foreignTypesUnder : List (Key × Value) → List String
  | [] => []
  | (_, v) :: rest => foreignTypes v ++ foreignTypesUnder rest

end

theorem foreignTypesIn_eq : ∀ entries : List Value, foreignTypesIn entries = entries.flatMap foreignTypes
  | [] => rfl
  | v :: rest => by rw [foreignTypesIn, foreignTypesIn_eq rest, List.flatMap_cons]

theorem foreignTypesUnder_eq : ∀ fields : List (Key × Value),
    foreignTypesUnder fields = fields.flatMap fun field => foreignTypes field.2
  | [] => rfl
  | (key, v) :: rest => by rw [foreignTypesUnder, foreignTypesUnder_eq rest, List.flatMap_cons]

mutual

/-- The texts in a shown value that types print of their own accord: those of its foreign values and of its arrays that can
be looked up by key, where what such an array holds is part of its text. -/
def printedTexts (p : Printing) : Value → List String
  | .array .list entries | .array .tuple entries => printedTextsIn p entries
  | .array (.keyed type) entries => [p.nested type entries (Display.values p entries)]
  | .object fields => printedTextsUnder p fields
  | .foreign f => [f.nested]
  | .null | .boolean _ | .number _ | .string _ => []

def printedTextsIn (p : Printing) : List Value → List String
  | [] => []
  | v :: rest => printedTexts p v ++ printedTextsIn p rest

def printedTextsUnder (p : Printing) : List (Key × Value) → List String
  | [] => []
  | (_, v) :: rest => printedTexts p v ++ printedTextsUnder p rest

end

variable (p : Printing)

theorem printedTextsIn_eq : ∀ entries : List Value, printedTextsIn p entries = entries.flatMap (printedTexts p)
  | [] => rfl
  | v :: rest => by rw [printedTextsIn, printedTextsIn_eq rest, List.flatMap_cons]

theorem printedTextsUnder_eq : ∀ fields : List (Key × Value),
    printedTextsUnder p fields = fields.flatMap fun field => printedTexts p field.2
  | [] => rfl
  | (key, v) :: rest => by rw [printedTextsUnder, printedTextsUnder_eq rest, List.flatMap_cons]

/-- The texts that a report of a document holds as they are: the document itself, if it is a string or its type prints it,
and else the texts in it that types print. -/
def bareTexts : Value → List String
  | .string text => [text]
  | .array (.keyed type) entries => [p.alone type entries (Display.values p entries)]
  | .foreign f => [f.alone]
  | v => v.printedTexts p

end Value

namespace Display

variable (p : Printing)

theorem values_eq : ∀ entries : List Value, values p entries = entries.map (value p)
  | [] => rfl
  | v :: rest => by rw [values, values_eq rest, List.map_cons]

theorem fieldTexts_eq : ∀ fields : List (Key × Value),
    fieldTexts p fields = fields.map fun field => key field.1 ++ ": " ++ value p field.2
  | [] => rfl
  | (k, v) :: rest => by rw [fieldTexts, fieldTexts_eq rest, List.map_cons]

theorem oneLine_key (k : Key) : OneLine (key k) := by
  cases k with
  | name text => exact oneLine_quoted text
  | number n => exact n.oneLine_text
  | null => exact of_decide_eq_true rfl

theorem oneLine_enclosed {opening closing : String} (ho : OneLine opening) (hc : OneLine closing) {parts : List String} :
    OneLine (enclosed opening closing parts) ↔ ∀ part ∈ parts, OneLine part :=
  ((oneLine_before hc).trans (oneLine_after ho)).trans (oneLine_intercalate (by decide))

theorem oneLine_tuple : ∀ {parts : List String}, OneLine (tuple parts) ↔ ∀ part ∈ parts, OneLine part
  | [] => oneLine_enclosed (by decide) (by decide)
  | [_] => ((oneLine_before (by decide)).trans (oneLine_after (by decide))).trans List.forall_mem_singleton.symm
  | _ :: _ :: _ => oneLine_enclosed (by decide) (by decide)

/-- **A value is shown on one line just if the texts in it stay on one that types print.** -/
theorem oneLine_value (v : Value) : OneLine (value p v) ↔ ∀ text ∈ v.printedTexts p, OneLine text := by
  induction v using Value.induct with
  | null => exact iff_of_true (show OneLine "None" by decide) fun _ h => nomatch h
  | scalar v hv =>
    cases v with
    | null | array | object => cases hv
    | boolean b =>
      have hb : OneLine (if b then "True" else "False") := by cases b <;> decide
      exact iff_of_true hb fun _ h => nomatch h
    | number n => exact iff_of_true n.oneLine_text fun _ h => nomatch h
    | string text => exact iff_of_true (oneLine_quoted text) fun _ h => nomatch h
    | foreign f => exact List.forall_mem_singleton.symm
  | array shape entries ih =>
    have hentries : (∀ part ∈ values p entries, OneLine part) ↔ ∀ text ∈ Value.printedTextsIn p entries, OneLine text := by
      rw [values_eq, List.forall_mem_map, Value.printedTextsIn_eq, List.forall_mem_flatMap]
      exact forall₂_congr ih
    cases shape with
    | list => exact (oneLine_enclosed (by decide) (by decide)).trans hentries
    | tuple => exact oneLine_tuple.trans hentries
    | keyed type => exact List.forall_mem_singleton.symm
  | object fields ih =>
    refine (oneLine_enclosed (by decide) (by decide)).trans ?_
    rw [fieldTexts_eq, List.forall_mem_map, Value.printedTexts, Value.printedTextsUnder_eq, List.forall_mem_flatMap]
    refine forall₂_congr fun field hf => ?_
    exact (oneLine_after (oneLine_append.2 ⟨oneLine_key field.1, by decide⟩)).trans (ih field hf)

end Display

theorem Value.oneLine_display (p : Printing) (v : Value) : OneLine (v.display p) ↔ ∀ text ∈ v.bareTexts p, OneLine text := by
  cases v with
  | string text => exact List.forall_mem_singleton.symm
  | foreign f => exact List.forall_mem_singleton.symm
  | array shape entries =>
    cases shape with
    | list | tuple => exact Display.oneLine_value p _
    | keyed type => exact List.forall_mem_singleton.symm
  | null | boolean | number | object => exact Display.oneLine_value p _

end ConfigSchema
