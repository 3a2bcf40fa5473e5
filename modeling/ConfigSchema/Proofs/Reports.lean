import ConfigSchema.Proofs.Answers
import ConfigSchema.Proofs.Lines
import ConfigSchema.Proofs.Offences
import ConfigSchema.Proofs.Remains
import ConfigSchema.Proofs.Settled
/-!
# Reports — a line for each error

A report of a document that is not valid has a heading, the document, and the errors.  It comes apart into just these lines
if every text stays on one line that it holds as it is, and such a text is a name or label of the schema, the name of a type
foreign to schemas, the document itself, or what a type prints of a value in it (`lines_assertValid`).  Names are not quoted,
so a line end in one of them makes two lines of one error.
-/
namespace ConfigSchema

/-! ## Pointers -/

namespace Pointer

theorem newline_mem_escape {c : Char} : '\n' ∈ escape c ↔ c = '\n' := by
  unfold escape
  by_cases ht : c = '~'
  · subst ht
    decide
  · by_cases hs : c = '/'
    · subst hs
      decide
    · rw [if_neg ht, if_neg hs, List.mem_singleton, eq_comm]

theorem oneLine_push (p : Pointer) (token : String) :
    OneLine (p.push token).text ↔ OneLine p.text ∧ OneLine token := by
  have htoken : OneLine (String.ofList (token.toList.flatMap escape)) ↔ OneLine token := by
    rw [oneLine_ofList, OneLine, List.mem_flatMap]
    simp only [newline_mem_escape, exists_eq_right]
  rw [Pointer.push, oneLine_append, htoken, oneLine_before (by decide)]

theorem oneLine_foldl_push : ∀ (ts : List String) (p : Pointer),
    OneLine (ts.foldl push p).text ↔ OneLine p.text ∧ ∀ t ∈ ts, OneLine t
  | [], p => (and_iff_left fun _ h => nomatch h).symm
  | t :: ts, p => by
    rw [List.foldl_cons, oneLine_foldl_push ts, oneLine_push, List.forall_mem_cons, and_assoc]

theorem oneLine_shown (p : Pointer) : OneLine p.shown ↔ OneLine p.text := by
  unfold shown
  split
  · rename_i h
    rw [h]
    decide
  · rfl

/-- A pointer that was put together of tokens. -/
def Composed (p : Pointer) : Prop := ∃ ts : List String, p = ts.foldl push root

/-- **A pointer stays on one line just if its tokens do.** -/
theorem Composed.oneLine_shown {p : Pointer} (h : p.Composed) : OneLine p.shown ↔ ∀ token ∈ p.tokens, OneLine token := by
  obtain ⟨ts, rfl⟩ := h
  rw [Pointer.oneLine_shown, oneLine_foldl_push, tokens_foldl_push, tokens_root, List.nil_append]
  exact and_iff_right (by decide)

end Pointer

/-! ## Where the texts of violations come from -/

/-- The texts that a violation holds as they are: the tokens of its path, and those of its cause. -/
def Violation.bareTexts (x : Violation) : List String := x.path.tokens ++ x.cause.bareTexts

namespace Value

theorem foreignTypes_entry {shape : ArrayShape} {entries : List Value} {v : Value} (h : v ∈ entries) :
    v.foreignTypes ⊆ (Value.array shape entries).foreignTypes := fun type ht => by
  rw [foreignTypes, foreignTypesIn_eq]
  exact List.mem_flatMap.2 ⟨v, h, ht⟩

theorem foreignTypes_field {fields : List (Key × Value)} {field : Key × Value} (h : field ∈ fields) :
    field.2.foreignTypes ⊆ (Value.object fields).foreignTypes := fun type ht => by
  rw [foreignTypes, foreignTypesUnder_eq]
  exact List.mem_flatMap.2 ⟨field, h, ht⟩

/-- A run makes no type print that printed nothing before. -/
theorem printedTexts_of_remains {p : Printing} {u v : Value} (h : u.RemainsOf v) (hv : v.printedTexts p = []) :
    u.printedTexts p = [] := by
  induction v using Value.induct generalizing u with
  | null => cases h <;> exact hv
  | scalar v hscalar =>
    cases h with
    | scalar => exact hv
    | null | array | object => cases hscalar
  | array shape entries ih =>
    cases h with
    | scalar => exact hv
    | @array _ left _ each =>
      have hleft (h : printedTextsIn p entries = []) : printedTextsIn p left = [] := by
        rw [printedTextsIn_eq, List.flatMap_eq_nil_iff] at h ⊢
        intro u hu
        obtain ⟨v, hmem, hr⟩ := exists_of_forall₂ each hu
        exact ih v hmem hr (h v hmem)
      cases shape with
      | list | tuple => exact hleft hv
      | keyed => cases hv
  | object fields ih =>
    cases u with
    | object left =>
      obtain ⟨kept, hsub, heach⟩ := remainsOf_object.1 h
      rw [printedTexts, printedTextsUnder_eq, List.flatMap_eq_nil_iff] at hv ⊢
      intro u hu
      obtain ⟨field, hf, hr⟩ := exists_of_forall₂ heach hu
      exact ih field (hsub.subset hf) hr.value (hv field (hsub.subset hf))
    | null | array | boolean | number | string | foreign => cases h

/-- Where no type prints a text, no type is foreign. -/
theorem foreignTypes_of_printedTexts {p : Printing} {v : Value} (hv : v.printedTexts p = []) : v.foreignTypes = [] := by
  induction v using Value.induct with
  | null => rfl
  | scalar v hscalar =>
    cases v with
    | null | array | object => cases hscalar
    | boolean | number | string => rfl
    | foreign => cases hv
  | array shape entries ih =>
    have hentries (held : printedTextsIn p entries = []) : foreignTypesIn entries = [] := by
      rw [printedTextsIn_eq, List.flatMap_eq_nil_iff] at held
      rw [foreignTypesIn_eq, List.flatMap_eq_nil_iff]
      exact fun v hmem => ih v hmem (held v hmem)
    cases shape with
    | list | tuple => exact hentries hv
    | keyed => cases hv
  | object fields ih =>
    rw [printedTexts, printedTextsUnder_eq, List.flatMap_eq_nil_iff] at hv
    rw [foreignTypes, foreignTypesUnder_eq, List.flatMap_eq_nil_iff]
    exact fun field hmem => ih field hmem (hv field hmem)

end Value

namespace Element

/-- The texts of an element that violations hold as they are: its name, the labels of its validators, and the names of its
children. -/
def ownTexts (e : Element) : List String :=
  e.name?.toList ++ e.validators.map (·.label) ++
    match e with
    | .object _ children => children.map (·.1)
    | .array _ _ _ _ | .string _ _ | .number _ _ | .boolean _ _ => []

/-- Where a text comes from that a violation holds as it is: from an element of the schema or a foreign value of the document,
or it is one of the texts that stay on one line, such as an index or the label of a kind. -/
inductive Supplies (root : Element) (document : Value) : String → Prop
  | element {e : Element} {text : String} (part : root.Holds e) (own : text ∈ e.ownTexts) : Supplies root document text
  | foreign {type : String} (held : type ∈ document.foreignTypes) : Supplies root document type
  | plain {text : String} (line : OneLine text) : Supplies root document text

variable {root e : Element} {document v : Value} {text : String}

theorem Supplies.of_part (h : e.Supplies v text) (part : root.Holds e) (sub : v.foreignTypes ⊆ document.foreignTypes) :
    root.Supplies document text := by
  cases h with
  | element part' own => exact .element (part.trans part') own
  | foreign held => exact .foreign (sub held)
  | plain line => exact .plain line

theorem supplies_name (h : text ∈ e.name?.toList) : e.Supplies v text :=
  .element .root (List.mem_append_left _ (List.mem_append_left _ h))

theorem supplies_label {w : Validator} (h : w ∈ e.validators) : e.Supplies v w.label :=
  .element .root (List.mem_append_left _ (List.mem_append_right _ (List.mem_map_of_mem h)))

theorem supplies_childName {traits : Traits} {children : List (String × Element)} {child : String × Element}
    (h : child ∈ children) : (object traits children).Supplies v child.1 :=
  .element .root (List.mem_append_right _ (List.mem_map_of_mem h))

theorem supplies_kindName : e.Supplies v v.kindName := by
  cases v with
  | foreign f =>
    rw [Value.kindName_foreign]
    exact .foreign (List.mem_singleton_self f.type)
  | null => exact .plain (by decide)
  | boolean => exact .plain (Kind.oneLine_label .boolean)
  | number => exact .plain (Kind.oneLine_label .number)
  | string => exact .plain (Kind.oneLine_label .string)
  | array => exact .plain (Kind.oneLine_label .array)
  | object => exact .plain (Kind.oneLine_label .object)

end Element

namespace Setting

variable {s : Setting} {path : Pointer} {e : Element} {v : Value} {x : Violation}

/-- A violation points on from a path, and the tokens that it points on by and the texts of its cause that it holds as they
are come from an element and the value under it. -/
structure WrittenOn (path : Pointer) (e : Element) (v : Value) (x : Violation) : Prop where
  points : ∃ ts : List String, x.path = ts.foldl Pointer.push path ∧ ∀ t ∈ ts, e.Supplies v t
  cause : ∀ text ∈ x.cause.bareTexts, e.Supplies v text

theorem WrittenOn.here {cause : Cause} (h : ∀ text ∈ cause.bareTexts, e.Supplies v text) :
    WrittenOn path e v ⟨cause, path⟩ := ⟨⟨[], rfl, fun _ ht => nomatch ht⟩, h⟩

theorem WrittenOn.here_of_nil {cause : Cause} (h : cause.bareTexts = []) : WrittenOn path e v ⟨cause, path⟩ :=
  .here fun _ ht => by
    rw [h] at ht
    cases ht

theorem WrittenOn.part {token : String} {e' : Element} {v' : Value} (h : WrittenOn (path.push token) e' v' x)
    (supplied : e.Supplies v token) (part : e.Holds e') (sub : v'.foreignTypes ⊆ v.foreignTypes) : WrittenOn path e v x := by
  obtain ⟨⟨ts, hpath, hts⟩, hcause⟩ := h
  refine ⟨⟨token :: ts, hpath, List.forall_mem_cons.2 ⟨supplied, fun t ht => (hts t ht).of_part part sub⟩⟩, ?_⟩
  exact fun text ht => (hcause text ht).of_part part sub

/-- The texts that a violation holds as they are come from the root and the document. -/
theorem WrittenOn.supplies {root : Element} {document : Value} {text : String} (h : WrittenOn .root root document x)
    (ht : text ∈ x.bareTexts) : root.Supplies document text := by
  obtain ⟨⟨ts, hpath, hts⟩, hcause⟩ := h
  rw [Violation.bareTexts, hpath, Pointer.tokens_foldl_push, Pointer.tokens_root, List.nil_append] at ht
  exact (List.mem_append.1 ht).elim (hts text) (hcause text)

/-! ### What walks write -/

theorem bareTexts_of_mem_outOfRange {m : Measure} {lower upper : Option Number} {cause : Cause}
    (h : cause ∈ m.outOfRange lower upper) : cause.bareTexts = [] := by
  rcases Measure.mem_outOfRange h with ⟨bound, -, -, rfl⟩ | ⟨bound, -, -, rfl⟩ <;> rfl

theorem bareTexts_of_mem_causes {cause : Cause} (h : cause ∈ e.causes v) : cause.bareTexts = [] := by
  unfold Element.causes at h
  split at h
  · unfold StringRules.causes at h
    split at h
    · exact bareTexts_of_mem_outOfRange h
    · split at h
      · cases h
      · rw [List.mem_singleton.1 h]
        rfl
  · exact bareTexts_of_mem_outOfRange h
  · cases h

theorem written_askAll {u : Value} (h : x ∈ (s.askAll path e u).violations) : WrittenOn path e v x := by
  obtain ⟨w, hw, -, rfl⟩ := mem_violations_askAll h
  exact .here (List.forall_mem_singleton.2 (Element.supplies_label hw))

/-- Whatever walks of a value find is written in texts of it and of the element that it is walked under. -/
def FindsWritten (s : Setting) (v : Value) : Prop := ∀ e path, ∀ x ∈ (s.walk path e v).trail.violations, WrittenOn path e v x

theorem written_walkObject {traits : Traits} {children : List (String × Element)} {fields : List (Key × Value)}
    (ih : ∀ field ∈ fields, s.FindsWritten field.2)
    (h : x ∈ (s.walk path (.object traits children) (.object fields)).trail.violations) :
    WrittenOn path (.object traits children) (.object fields) x := by
  rw [walk_object] at h
  rcases mem_violations_walkObject h with h | h | ⟨-, -, h⟩
  · -- a missing child is named in the path and in the message
    obtain ⟨name, hname, rfl⟩ := mem_violations_opening h
    obtain ⟨child, hc, rfl⟩ := List.mem_map.1 (List.mem_filter.1 hname).1
    have hsupplied : (Element.object traits children).Supplies (.object fields) child.1 :=
      Element.supplies_childName (List.mem_filter.1 hc).1
    exact ⟨⟨[child.1], rfl, List.forall_mem_singleton.2 hsupplied⟩, List.forall_mem_singleton.2 hsupplied⟩
  · obtain ⟨i, field, hfield, h⟩ := Walk.mem_violations_each h
    obtain ⟨name, child, hkey, hdeclared, h⟩ := mem_violations_walkField h
    have hmem := List.mem_of_getElem? hfield
    have hchild : (name, child) ∈ children := Assoc.mem_of_find?_key hdeclared
    exact (ih field hmem child _ x h).part (Element.supplies_childName hchild) (Element.Holds.root.child hchild)
      (Value.foreignTypes_field hmem)
  · exact written_askAll h

theorem written_walkEntry {traits : Traits} {slots : List (Kind × Element)} {ordered : List Element} {allowNull : Bool}
    {shape : ArrayShape} {entries : List Value} (ih : s.FindsWritten v) (hv : v ∈ entries) {index : Nat}
    (h : x ∈ (s.walkEntry path slots ordered allowNull index v).trail.violations) :
    WrittenOn path (.array traits slots ordered allowNull) (.array shape entries) x := by
  have hindex : (Element.array traits slots ordered allowNull).Supplies (.array shape entries) (toString index) :=
    .plain (oneLine_toString index)
  have hsub : v.foreignTypes ⊆ (Value.array shape entries).foreignTypes := Value.foreignTypes_entry hv
  unfold walkEntry at h
  cases hd : Element.entryDemand slots ordered allowNull index v with
  | nothing => rw [hd] at h; cases h
  | refused cause =>
    rw [hd] at h
    rw [mem_violations_found.1 h]
    refine ⟨⟨[toString index], rfl, List.forall_mem_singleton.2 hindex⟩, ?_⟩
    rcases Element.entryDemand_eq_refused hd with ⟨-, -, rfl⟩ | ⟨-, -, rfl⟩
    · exact fun _ ht => nomatch ht
    · exact List.forall_mem_singleton.2 (Element.supplies_kindName.of_part .root hsub)
  | governed e =>
    rw [hd] at h
    exact (ih e _ x h).part hindex (Element.holds_of_entry? (Element.entryDemand_eq_governed hd).2) hsub

theorem written_walkContents {traits : Traits} {slots : List (Kind × Element)} {ordered : List Element} {allowNull : Bool}
    {shape : ArrayShape} {entries : List Value} (ih : ∀ v ∈ entries, s.FindsWritten v)
    (h : x ∈ (s.walkContents path slots ordered allowNull entries).trail.violations) :
    WrittenOn path (.array traits slots ordered allowNull) (.array shape entries) x := by
  unfold walkContents at h
  split at h
  · unfold anyEntries at h
    split at h
    · rw [mem_violations_found.1 h]
      exact .here_of_nil rfl
    · cases h
  all_goals
    obtain ⟨i, v, hv, h⟩ := Walk.mem_violations_each h
    have hmem := List.mem_of_getElem? hv
    exact written_walkEntry (ih v hmem) hmem h

/-- **Whatever a walk finds is written in texts of its element and its value**, with texts that stay on one line. -/
theorem written_walk (e : Element) (v : Value) : ∀ path, ∀ x ∈ (s.walk path e v).trail.violations, WrittenOn path e v x := by
  induction e, v using Element.induct with
  | null e =>
    intro path x hx
    rw [walk_null] at hx
    unfold nullField at hx
    split at hx
    · cases hx
    · rw [mem_violations_found.1 hx]
      exact .here fun text ht => Element.supplies_name ht
  | wrong e v hn ha =>
    intro path x hx
    rw [walk_wrong s path hn ha] at hx
    rw [mem_violations_found.1 hx]
    exact .here (List.forall_mem_cons.2 ⟨Element.supplies_kindName,
      List.forall_mem_singleton.2 (.plain e.kind.oneLine_label)⟩)
  | scalar e v hs ha =>
    intro path x hx
    rw [walk_scalar s path hs ha] at hx
    rcases Trail.mem_violations_andIfClean hx with hx | ⟨-, hx⟩
    · obtain ⟨cause, hc, rfl⟩ := mem_violations_foundAll hx
      exact .here_of_nil (bareTexts_of_mem_causes hc)
    · exact written_askAll hx
  | object traits children fields ih =>
    exact fun path x hx => written_walkObject (fun field hf child => ih field hf child) hx
  | array traits slots ordered allowNull shape entries ih =>
    intro path x hx
    by_cases hl : ordered = [] ∨ ordered.length = entries.length
    · rw [walk_array s path traits slots allowNull shape hl, trail_walkArray] at hx
      rcases Trail.mem_violations_andIfClean hx with hx | ⟨-, hx⟩
      · exact written_walkContents (fun v hv e => ih v hv e) hx
      · exact written_askAll hx
    · rw [walk_array_of_length_ne s path traits slots allowNull shape hl] at hx
      rw [mem_violations_found.1 hx]
      exact .here_of_nil rfl

theorem written_run {root : Element} {document : Value} (h : x ∈ (s.run root document).violations) :
    WrittenOn .root root document x := by
  rw [violations_run] at h
  cases ha : root.admits document with
  | true =>
    rw [s.walkRoot_of_admits root document ha] at h
    exact written_walk root document .root x h
  | false =>
    obtain ⟨cause, hunfit, hw⟩ := s.walkRoot_of_unfit ha
    rw [hw] at h
    rw [mem_violations_found.1 h]
    cases hunfit with
    | notContainer => exact .here_of_nil rfl
    | wrongKind => exact .here (List.forall_mem_singleton.2 Element.supplies_kindName)

end Setting

/-! ## The lines of a report -/

namespace Report

variable (p : Printing)

def heading (r : Result) : String := "Configuration not valid: " ++ toString r.errors.length ++ " error(s)"

def data (r : Result) : String := "  data: " ++ r.value.display p

/-- The texts that a report holds as they are. -/
def bareTexts (r : Result) : List String := r.value.bareTexts p ++ r.errors.flatMap Violation.bareTexts

theorem text_eq {r : Result} (h : r.errors ≠ []) :
    text p r = "\n".intercalate (heading r :: data p r :: r.errors.map line) := by
  have hne : r.errors.map line ≠ [] := by rwa [ne_eq, List.map_eq_nil_iff]
  have hbetween : " error(s)\n  data: " = " error(s)" ++ ("\n" ++ "  data: ") := by decide
  have htext : text p r = "Configuration not valid: " ++ toString r.errors.length ++ " error(s)\n  data: " ++
      r.value.display p ++ "\n" ++ String.intercalate "\n" (r.errors.map line) := rfl
  have hhead : heading r = "Configuration not valid: " ++ toString r.errors.length ++ " error(s)" := rfl
  rw [htext, hbetween, String.intercalate_cons_cons, String.intercalate_cons_of_ne_nil hne, hhead, data]
  simp only [String.append_assoc]

theorem oneLine_heading (r : Result) : OneLine (heading r) :=
  oneLine_append.2 ⟨oneLine_append.2 ⟨by decide, oneLine_toString _⟩, by decide⟩

theorem oneLine_data (r : Result) : OneLine (data p r) ↔ ∀ text ∈ r.value.bareTexts p, OneLine text :=
  (oneLine_after (by decide)).trans (r.value.oneLine_display p)

theorem oneLine_line {x : Violation} (h : x.path.Composed) : OneLine (line x) ↔ ∀ text ∈ x.bareTexts, OneLine text := by
  rw [line, oneLine_append, oneLine_before (by decide), oneLine_before x.errorClass.oneLine_name, oneLine_before (by decide),
    oneLine_after (by decide), h.oneLine_shown, Violation.message, Cause.oneLine_message, Violation.bareTexts,
    List.forall_mem_append]

/-- **A report comes apart into its lines, or has as many of them as it should, just if the texts stay on one line that it
holds as they are.** -/
theorem lines_text_iff {r : Result} (h : r.errors ≠ []) (hpaths : ∀ x ∈ r.errors, x.path.Composed) :
    (lines (text p r) = heading r :: data p r :: r.errors.map line ↔ ∀ text ∈ bareTexts p r, OneLine text) ∧
    ((lines (text p r)).length = 2 + r.errors.length ↔ ∀ text ∈ bareTexts p r, OneLine text) := by
  have hlines : (∀ part ∈ heading r :: data p r :: r.errors.map line, OneLine part) ↔
      ∀ text ∈ bareTexts p r, OneLine text := by
    rw [List.forall_mem_cons, and_iff_right (oneLine_heading r), List.forall_mem_cons, oneLine_data, bareTexts,
      List.forall_mem_append, List.forall_mem_flatMap, List.forall_mem_map]
    exact and_congr_right' (forall₂_congr fun x hx => oneLine_line (hpaths x hx))
  have hlength : (heading r :: data p r :: r.errors.map line).length = 2 + r.errors.length := by
    rw [List.length_cons, List.length_cons, List.length_map]
    omega
  rw [text_eq p h, ← hlines, ← hlength]
  exact lines_intercalate_eq_iff (List.cons_ne_nil _ _)

end Report

namespace Value

variable {p : Printing}

/-- Where a report holds nothing of a document bare, no type prints a text in it. -/
theorem printedTexts_of_bareTexts {v : Value} (h : v.bareTexts p = []) : v.printedTexts p = [] := by
  cases v with
  | string | foreign => cases h
  | array shape entries =>
    cases shape with
    | list | tuple => exact h
    | keyed => cases h
  | null | boolean | number | object => exact h

theorem bareTexts_of_remains {u v : Value} (h : u.RemainsOf v) (hv : v.bareTexts p = []) : u.bareTexts p = [] := by
  have hprinted := printedTexts_of_remains h (printedTexts_of_bareTexts hv)
  cases h with
  | null | scalar => exact hv
  | @array shape =>
    cases shape with
    | list | tuple => exact hprinted
    | keyed => cases hprinted
  | object => exact hprinted

end Value

namespace Element

variable {root : Element} {s : Setting} {document : Value} {r : Result}

/-- A check that gives a result gives the violations of a run and what the run left. -/
theorem check_eq_ok (h : (root.check s document).answer = .ok r) :
    r = ⟨(s.run root document).violations.isEmpty, (s.run root document).violations, (s.run root document).document⟩ := by
  unfold check Loader.check at h
  simp only at h
  split at h
  · cases h
  all_goals exact (Except.ok.inj h).symm

/-- An assertion that finds the document invalid reports what the check of it gives. -/
theorem assertValid_eq_invalid (h : (root.assertValid s document).1 = .error (.invalid r)) :
    (root.check s document).answer = .ok r ∧ r.valid = false := by
  unfold assertValid Loader.assertValid at h
  rw [← check] at h
  simp only at h
  split at h
  · cases h
  · rename_i result hcheck
    split at h
    · cases h
    · rename_i hvalid
      cases h
      exact ⟨hcheck, Bool.eq_false_iff.2 hvalid⟩

/-- A text that a report holds as it is stays on one line, or is part of the document or of the schema. -/
theorem supplies_of_mem_bareTexts {p : Printing} {text : String} (hcheck : (root.check s document).answer = .ok r)
    (h : text ∈ Report.bareTexts p r) : OneLine text ∨ text ∈ r.value.bareTexts p ∨ text ∈ document.foreignTypes ∨
      ∃ e, root.Holds e ∧ text ∈ e.ownTexts := by
  rcases List.mem_append.1 h with h | h
  · exact .inr (.inl h)
  · obtain ⟨x, hx, h⟩ := List.mem_flatMap.1 h
    rw [check_eq_ok hcheck] at hx
    cases (Setting.written_run hx).supplies h with
    | element part own => exact .inr (.inr (.inr ⟨_, part, own⟩))
    | foreign held => exact .inr (.inr (.inl held))
    | plain line => exact .inl line

/-- **A report has its heading, the document and a line for each error, just if every text stays on one line that it holds as
it is**, however types print.  Any other such text is what the shown document holds bare, the name of a foreign type, or a
name or a label of the schema; of a document that is no string, and that types print nothing of, only the last remain. -/
theorem lines_assertValid (p : Printing) (h : (root.assertValid s document).1 = .error (.invalid r)) :
    (root.check s document).answer = .ok r ∧
    (lines ((AssertionRaised.invalid r).message p) = Report.heading r :: Report.data p r :: r.errors.map Report.line ↔
      ∀ text ∈ Report.bareTexts p r, OneLine text) ∧
    ((lines ((AssertionRaised.invalid r).message p)).length = 2 + r.errors.length ↔
      ∀ text ∈ Report.bareTexts p r, OneLine text) ∧
    (∀ text ∈ Report.bareTexts p r, OneLine text ∨ text ∈ r.value.bareTexts p ∨ text ∈ document.foreignTypes ∨
      ∃ e, root.Holds e ∧ text ∈ e.ownTexts) ∧
    (document.bareTexts p = [] → r.value.bareTexts p = [] ∧ document.foreignTypes = []) := by
  obtain ⟨hcheck, hvalid⟩ := assertValid_eq_invalid h
  have hr := check_eq_ok hcheck
  have hne : r.errors ≠ [] := fun hnil => by
    rw [hr] at hvalid hnil
    rw [List.isEmpty_eq_false_iff] at hvalid
    exact hvalid hnil
  have hpaths : ∀ x ∈ r.errors, x.path.Composed := fun x hx => by
    rw [hr] at hx
    exact (Setting.written_run hx).points.imp fun _ => And.left
  obtain ⟨hlines, hlength⟩ := Report.lines_text_iff p hne hpaths
  refine ⟨hcheck, hlines, hlength, fun text ht => supplies_of_mem_bareTexts hcheck ht, fun hbare => ⟨?_, ?_⟩⟩
  · rw [hr]
    exact Value.bareTexts_of_remains (s.remains_run root document) hbare
  · exact Value.foreignTypes_of_printedTexts (Value.printedTexts_of_bareTexts hbare)

/-- Line ends between quotes are written otherwise: two errors, one of them about a text with a line end, make four lines. -/
theorem lines_assertValid_quoted :
    let s : Setting := ⟨{}, fun _ _ _ => .accept⟩
    let root := Element.object {} [("port", .number {} {}), ("a/b", .string {} { validValues := ["on\noff"] })]
    let document := Value.object [(.name "a/b", .string "x\ny")]
    ∃ r, (root.assertValid s document).1 = .error (.invalid r) ∧
      lines ((AssertionRaised.invalid r).message .plain) = ["Configuration not valid: 2 error(s)", "  data: \x7b'a/b': 'x\\ny'\x7d",
        "  /port: MissingRequiredFieldError: Missing required field port",
        "  /a~1b: InvalidValueError: Value 'x\\ny' is not one of 'on\\noff'"] := by
  intro s root document
  let r : Result := ⟨false, [⟨.missingField "port", ⟨"/port"⟩⟩,
    ⟨.badValue (.notListed "x\ny" ["on\noff"]), ⟨"/a~1b"⟩⟩], document⟩
  have hraised : (root.assertValid s document).1 = .error (.invalid r) := by
    unfold r s root document
    rfl
  have hplain : ∀ text ∈ Report.bareTexts .plain r, OneLine text := by
    unfold r document
    decide
  obtain ⟨-, hlines, -⟩ := lines_assertValid .plain hraised
  refine ⟨r, hraised, (hlines.2 hplain).trans ?_⟩
  unfold r document
  rfl

/-- A name with a line end stands in the path as it is, and makes two lines of the error. -/
theorem lines_assertValid_broken : ¬ ∀ (p : Printing) (root : Element) (s : Setting) (document : Value) (r : Result),
    s.Decides → (root.assertValid s document).1 = .error (.invalid r) →
      (lines ((AssertionRaised.invalid r).message p)).length = 2 + r.errors.length := by
  intro h
  let s : Setting := ⟨{}, fun _ _ _ => .accept⟩
  let root := Element.object {} [("a\nb", .number {} {})]
  let document := Value.object [(.name "a\nb", .string "text")]
  let r : Result := ⟨false, [⟨.wrongType "string" "number", ⟨"/a\nb"⟩⟩], document⟩
  have hdecides : s.Decides := fun _ _ _ _ hj => nomatch hj
  have hraised : (root.assertValid s document).1 = .error (.invalid r) := by
    unfold r s root document
    rfl
  have hlength := h .plain root s document r hdecides hraised
  have hpaths : ∀ x ∈ r.errors, x.path.Composed := List.forall_mem_singleton.2 ⟨["a\nb"], by decide⟩
  have hplain := (Report.lines_text_iff .plain (List.cons_ne_nil _ _) hpaths).2.1 hlength
  have hmem : "a\nb" ∈ Report.bareTexts .plain r := by
    unfold r document
    decide
  exact absurd (hplain _ hmem) (by decide)

end Element
end ConfigSchema
