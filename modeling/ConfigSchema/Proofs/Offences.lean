import ConfigSchema.Proofs.Conformance
import ConfigSchema.Proofs.Declared
import ConfigSchema.Proofs.Findings
import ConfigSchema.Proofs.Governed
/-!
# Offences — every violation points at what is wrong

The tokens of a violation's path lead into the document as it was before the run.  What they lead to is at fault for just
the cause that the violation names: a value that its element refuses, a child that an object lacks, a field that must not be
null, or an entry of which an array asks something else (`Setting.Offence`).  This holds of whatever a run finds before it
ends, however it ends (`violations_run_offend`).
-/
namespace ConfigSchema

/-- What the bounds of an element are held against, with the lower and the upper bound. -/
inductive Element.Measured : Element → Value → Measure → Option Number → Option Number → Prop
  | length {traits : Traits} {rules : StringRules} {text : String} (free : rules.validValues = []) :
    Measured (.string traits rules) (.string text) (.length text.length) rules.minLength rules.maxLength
  | value {traits : Traits} {rules : NumberRules} {n : Number} :
    Measured (.number traits rules) (.number n) (.value n) rules.minValue rules.maxValue

/-- Tokens lead to a value of a document, and an element governs it there. -/
structure Element.Meets (root : Element) (document : Value) (tokens : List String) (e : Element) (v : Value) : Prop where
  governs : root.Governs document tokens e v
  resolves : document.at? tokens = some v

namespace Setting

variable (s : Setting)

/-- What can be wrong with a value under its element, as far as the value is not null and has its parts. -/
inductive Faulty : Element → Value → Cause → Prop
  | kind {e : Element} {v : Value} (present : v ≠ .null) (refused : e.accepts v = false) :
    Faulty e v (.wrongType v.kindName e.kind.label)
  | above {e : Element} {v : Value} {m : Measure} {lower : Option Number} {bound : Number}
    (measured : e.Measured v m lower (some bound)) (exceeds : bound.lt m.toNumber = true) :
    Faulty e v (.badValue (.above m bound))
  | below {e : Element} {v : Value} {m : Measure} {upper : Option Number} {bound : Number}
    (measured : e.Measured v m (some bound) upper) (under : m.toNumber.lt bound = true) :
    Faulty e v (.badValue (.below m bound))
  | notListed {traits : Traits} {rules : StringRules} {text : String} (listed : rules.validValues ≠ [])
    (other : text ∉ rules.validValues) :
    Faulty (.string traits rules) (.string text) (.badValue (.notListed text rules.validValues))
  /-- The validator was asked about the value without its meta fields. -/
  | rejected {e : Element} {v : Value} {w : Validator} (accepted : e.accepts v = true) (own : w ∈ e.validators)
    (verdict : s.judge w e (s.options.prune false e v) = .reject) : Faulty e v (.badValue (.rejectedBy w.label))
  | length {traits : Traits} {slots : List (Kind × Element)} {ordered : List Element} {allowNull : Bool}
    {shape : ArrayShape} {entries : List Value} (listed : ordered ≠ []) (differs : ordered.length ≠ entries.length) :
    Faulty (.array traits slots ordered allowNull) (.array shape entries)
      (.arrayContents (.wrongLength entries.length ordered.length))
  /-- An array that takes entries of any kind answers for its nulls as a whole. -/
  | nulls {traits : Traits} {shape : ArrayShape} {entries : List Value} (held : .null ∈ entries) :
    Faulty (.array traits [] [] false) (.array shape entries) .nullEntry

/-- What is wrong where tokens lead to in a document whose root is governed by an element. -/
inductive Offence (root : Element) (document : Value) : List String → Cause → Prop
  | faulty {tokens : List String} {e : Element} {v : Value} {cause : Cause} (meets : root.Meets document tokens e v)
    (faulty : s.Faulty e v cause) : Offence root document tokens cause
  | missingField {tokens : List String} {traits : Traits} {children : List (String × Element)}
    {fields : List (Key × Value)} {child : String × Element}
    (meets : root.Meets document tokens (.object traits children) (.object fields)) (declared : child ∈ children)
    (required : child.2.traits.required = true) (absent : .name child.1 ∉ fields.map Prod.fst) :
    Offence root document (tokens ++ [child.1]) (.missingField child.1)
  | nullField {tokens : List String} {traits : Traits} {children : List (String × Element)}
    {fields : List (Key × Value)} {name : String} {child : Element}
    (meets : root.Meets document tokens (.object traits children) (.object fields))
    (held : document.at? (tokens ++ [name]) = some .null) (declared : Element.child? children name = some child)
    (strict : child.traits.nullable = false) : Offence root document (tokens ++ [name]) (.nullValue child.name?)
  | nullEntry {tokens : List String} {traits : Traits} {slots : List (Kind × Element)} {ordered : List Element}
    {shape : ArrayShape} {entries : List Value} {index : Nat}
    (meets : root.Meets document tokens (.array traits slots ordered false) (.array shape entries))
    (asks : ordered = [] ∧ slots ≠ [] ∨ ordered ≠ [] ∧ ordered.length = entries.length)
    (held : document.at? (tokens ++ [toString index]) = some .null) :
    Offence root document (tokens ++ [toString index]) .nullEntry
  | entryType {tokens : List String} {traits : Traits} {slots : List (Kind × Element)} {allowNull : Bool}
    {shape : ArrayShape} {entries : List Value} {index : Nat} {v : Value}
    (meets : root.Meets document tokens (.array traits slots [] allowNull) (.array shape entries)) (slotted : slots ≠ [])
    (held : document.at? (tokens ++ [toString index]) = some v) (present : v ≠ .null)
    (free : Element.slot? slots v.kindName = none) :
    Offence root document (tokens ++ [toString index]) (.entryType v.kindName)

end Setting

/-! ## Offences seen from further out -/

namespace Element

variable {root e e' : Element} {document v v' : Value} {tokens tokens' : List String}

theorem Meets.refl (e : Element) (v : Value) : e.Meets v [] e v := ⟨.root, rfl⟩

theorem Meets.trans (h : root.Meets document tokens e v) (h' : e.Meets v tokens' e' v') :
    root.Meets document (tokens ++ tokens') e' v' :=
  ⟨h.governs.trans h'.governs, by rw [Value.at?_append, h.resolves, Option.bind_some, h'.resolves]⟩

theorem Meets.at?_append (h : root.Meets document tokens e v) (tokens' : List String) :
    document.at? (tokens ++ tokens') = v.at? tokens' := by
  rw [Value.at?_append, h.resolves, Option.bind_some]

theorem Meets.field {traits : Traits} {children : List (String × Element)} {fields : List (Key × Value)} {name : String}
    {child : Element} (hd : (Value.object fields).Distinct) (held : (.name name, v) ∈ fields)
    (declared : child? children name = some child) :
    (Element.object traits children).Meets (.object fields) [name] child v :=
  ⟨.field .root held declared, Value.at?_field hd held⟩

theorem Meets.entry {traits : Traits} {slots : List (Kind × Element)} {ordered : List Element} {allowNull : Bool}
    {shape : ArrayShape} {entries : List Value} {index : Nat} (fits : ordered = [] ∨ ordered.length = entries.length)
    (held : entries[index]? = some v) (present : v ≠ .null) (asked : entry? slots ordered index v = some e) :
    (Element.array traits slots ordered allowNull).Meets (.array shape entries) [toString index] e v :=
  ⟨.entry .root fits held present asked, by rw [Value.at?_entry, held]⟩

end Element

theorem Measure.mem_outOfRange {m : Measure} {cause : Cause} {lower upper : Option Number} (h : cause ∈ m.outOfRange lower upper) :
    (∃ bound, upper = some bound ∧ bound.lt m.toNumber = true ∧ cause = .badValue (.above m bound)) ∨
      ∃ bound, lower = some bound ∧ m.toNumber.lt bound = true ∧ cause = .badValue (.below m bound) := by
  unfold outOfRange at h
  rw [List.mem_append] at h
  refine h.imp (fun h => ?_) fun h => ?_
  · cases upper with
    | none => cases h
    | some bound =>
      simp only at h
      split at h
      · rename_i hlt
        exact ⟨bound, rfl, hlt, List.mem_singleton.1 h⟩
      · cases h
  · cases lower with
    | none => cases h
    | some bound =>
      simp only at h
      split at h
      · rename_i hlt
        exact ⟨bound, rfl, hlt, List.mem_singleton.1 h⟩
      · cases h

namespace Setting

variable {s : Setting} {root e : Element} {document v : Value} {tokens tokens' : List String} {cause : Cause}

/-- **An offence inside a part of a document is one of the document.** -/
theorem Offence.trans (h : root.Meets document tokens e v) (h' : s.Offence e v tokens' cause) :
    s.Offence root document (tokens ++ tokens') cause := by
  cases h' with
  | faulty meets faulty => exact .faulty (h.trans meets) faulty
  | missingField meets declared required absent =>
    rw [← List.append_assoc]
    exact .missingField (h.trans meets) declared required absent
  | nullField meets held declared strict =>
    rw [← h.at?_append, ← List.append_assoc] at held
    rw [← List.append_assoc]
    exact .nullField (h.trans meets) held declared strict
  | nullEntry meets asks held =>
    rw [← h.at?_append, ← List.append_assoc] at held
    rw [← List.append_assoc]
    exact .nullEntry (h.trans meets) asks held
  | entryType meets slotted held present free =>
    rw [← h.at?_append, ← List.append_assoc] at held
    rw [← List.append_assoc]
    exact .entryType (h.trans meets) slotted held present free

/-! ## The offences that a walk finds -/

theorem faulty_of_mem_outOfRange {m : Measure} {lower upper : Option Number} (hm : e.Measured v m lower upper)
    (h : cause ∈ m.outOfRange lower upper) : s.Faulty e v cause := by
  rcases Measure.mem_outOfRange h with ⟨bound, rfl, hlt, rfl⟩ | ⟨bound, rfl, hlt, rfl⟩
  · exact .above hm hlt
  · exact .below hm hlt

theorem faulty_of_mem_causes (h : cause ∈ e.causes v) : s.Faulty e v cause := by
  unfold Element.causes at h
  split at h
  · rename_i traits rules text
    unfold StringRules.causes at h
    split at h
    · rename_i hfree
      exact faulty_of_mem_outOfRange (.length (List.isEmpty_iff.1 hfree)) h
    · rename_i hlisted
      rw [List.isEmpty_iff] at hlisted
      split at h
      · cases h
      · rename_i hother
        rw [List.contains_iff_mem] at hother
        rw [List.mem_singleton.1 h]
        exact .notListed hlisted hother
  · exact faulty_of_mem_outOfRange .value h
  · cases h

theorem missingField_of_mem {traits : Traits} {children : List (String × Element)} {fields : List (Key × Value)}
    {name : String} (h : name ∈ Element.missingNames children fields) :
    s.Offence (.object traits children) (.object fields) [name] (.missingField name) := by
  obtain ⟨child, hc, rfl⟩ := List.mem_map.1 (List.mem_filter.1 h).1
  obtain ⟨hdeclared, hrequired⟩ := List.mem_filter.1 hc
  have hroot := Element.Meets.refl (.object traits children) (.object fields)
  have hoff := Offence.missingField (s := s) hroot hdeclared hrequired (Element.not_mem_of_mem_missingNames h)
  exact hoff

/-- A violation points at an offence, by tokens that lead on from a path. -/
def PointsOn (s : Setting) (path : Pointer) (e : Element) (v : Value) (x : Violation) : Prop :=
  ∃ ts, x.path.tokens = path.tokens ++ ts ∧ s.Offence e v ts x.cause

theorem PointsOn.here {path : Pointer} (h : s.Faulty e v cause) : s.PointsOn path e v ⟨cause, path⟩ :=
  ⟨[], (List.append_nil _).symm, .faulty (.refl e v) h⟩

theorem PointsOn.part {path path' : Pointer} {e' : Element} {v' : Value} {x : Violation} (h : e.Meets v tokens e' v')
    (hp : path'.tokens = path.tokens ++ tokens) (hx : s.PointsOn path' e' v' x) : s.PointsOn path e v x := by
  obtain ⟨ts, htokens, hoff⟩ := hx
  rw [hp, List.append_assoc] at htokens
  exact ⟨tokens ++ ts, htokens, hoff.trans h⟩

/-- Whatever walks of a value find points at an offence. -/
def FindsOffences (s : Setting) (v : Value) : Prop := ∀ e path, v.Distinct → v ≠ .null →
  ∀ x ∈ (s.walk path e v).trail.violations, s.PointsOn path e v x

theorem offence_walkFields {path : Pointer} {traits : Traits} {children : List (String × Element)}
    {fields : List (Key × Value)} (ih : ∀ field ∈ fields, s.FindsOffences field.2) (hd : (Value.object fields).Distinct) :
    ∀ x ∈ (Walk.each (fun _ => s.walkField path children) 0 fields).trail.violations,
      s.PointsOn path (.object traits children) (.object fields) x := by
  intro x hx
  obtain ⟨i, ⟨key, v⟩, hfield, hx⟩ := Walk.mem_violations_each hx
  obtain ⟨name, child, hkey, hdeclared, hx⟩ := mem_violations_walkField hx
  cases hkey
  have held : (.name name, v) ∈ fields := List.mem_of_getElem? hfield
  by_cases hv : v = .null
  · subst hv
    rw [walk_null] at hx
    unfold nullField at hx
    split at hx
    · cases hx
    · rename_i hstrict
      rw [mem_violations_found.1 hx]
      have hroot := Element.Meets.refl (.object traits children) (.object fields)
      have hoff := Offence.nullField (s := s) hroot (Value.at?_field hd held) hdeclared (Bool.eq_false_iff.2 hstrict)
      exact ⟨[name], path.tokens_push name, hoff⟩
  · have hinside := ih _ held child _ (hd.of_object.2 _ held) hv x hx
    exact hinside.part (.field hd held hdeclared) (path.tokens_push name)

theorem offence_walkEntry {path : Pointer} {traits : Traits} {slots : List (Kind × Element)} {ordered : List Element}
    {allowNull : Bool} {shape : ArrayShape} {entries : List Value} {index : Nat} {v : Value} (ih : s.FindsOffences v)
    (hd : v.Distinct) (hmode : ¬ (slots = [] ∧ ordered = [])) (fits : ordered = [] ∨ ordered.length = entries.length)
    (held : entries[index]? = some v) :
    ∀ x ∈ (s.walkEntry path slots ordered allowNull index v).trail.violations,
      s.PointsOn path (.array traits slots ordered allowNull) (.array shape entries) x := by
  intro x hx
  have hat : (Value.array shape entries).at? [toString index] = some v := by rw [Value.at?_entry, held]
  unfold walkEntry at hx
  cases hdemand : Element.entryDemand slots ordered allowNull index v with
  | nothing => rw [hdemand] at hx; cases hx
  | refused cause =>
    rw [hdemand] at hx
    rw [mem_violations_found.1 hx]
    refine ⟨[toString index], path.tokens_entry index, ?_⟩
    have hroot := Element.Meets.refl (.array traits slots ordered allowNull) (.array shape entries)
    rcases Element.entryDemand_eq_refused hdemand with ⟨rfl, rfl, rfl⟩ | ⟨hv, hnone, rfl⟩
    · have hasks : ordered = [] ∧ slots ≠ [] ∨ ordered ≠ [] ∧ ordered.length = entries.length := by
        by_cases ho : ordered = []
        · exact .inl ⟨ho, fun hs => hmode ⟨hs, ho⟩⟩
        · exact .inr ⟨ho, fits.resolve_left ho⟩
      have hoff := Offence.nullEntry (s := s) hroot hasks hat
      exact hoff
    · -- only slots can lack an element, for a list of ordered elements that fits has one at each index
      have ho : ordered = [] := Classical.byContradiction fun ho => by
        rw [Element.entry?_ordered ho, List.getElem?_eq_none_iff, fits.resolve_left ho] at hnone
        have hlt := (List.getElem?_eq_some_iff.1 held).1
        omega
      subst ho
      have hs : slots ≠ [] := fun hs => hmode ⟨hs, rfl⟩
      rw [Element.entry?_typed hs] at hnone
      have hoff := Offence.entryType (s := s) hroot hs hat hv hnone
      exact hoff
  | governed e =>
    rw [hdemand] at hx
    obtain ⟨hv, hasked⟩ := Element.entryDemand_eq_governed hdemand
    exact (ih e _ hd hv x hx).part (.entry fits held hv hasked) (path.tokens_entry index)

theorem offence_walkContents {path : Pointer} {traits : Traits} {slots : List (Kind × Element)} {ordered : List Element}
    {allowNull : Bool} {shape : ArrayShape} {entries : List Value} (ih : ∀ v ∈ entries, s.FindsOffences v)
    (hd : (Value.array shape entries).Distinct) (fits : ordered = [] ∨ ordered.length = entries.length) :
    ∀ x ∈ (s.walkContents path slots ordered allowNull entries).trail.violations,
      s.PointsOn path (.array traits slots ordered allowNull) (.array shape entries) x := by
  intro x hx
  rw [walkContents] at hx
  cases hm : ArrayMode.ofContents slots ordered with
  | any =>
    rw [hm] at hx
    obtain ⟨rfl, rfl⟩ := ArrayMode.ofContents_eq_any.1 hm
    simp only [anyEntries] at hx
    split at hx
    · rename_i hnull
      simp only [Bool.and_eq_true, Bool.not_eq_true', List.any_eq_true, Value.isNull_iff, exists_eq_right] at hnull
      obtain ⟨rfl, hnull⟩ := hnull
      rw [mem_violations_found.1 hx]
      exact .here (.nulls hnull)
    · cases hx
  | typed | ordered =>
    have hmode : ¬ (slots = [] ∧ ordered = []) := by
      rw [← ArrayMode.ofContents_eq_any, hm]
      intro h
      cases h
    rw [hm] at hx
    obtain ⟨i, v, hv, hx⟩ := Walk.mem_violations_each hx
    rw [Nat.zero_add] at hx
    have hmem := List.mem_of_getElem? hv
    exact offence_walkEntry (ih v hmem) (hd.of_array v hmem) hmode fits hv x hx

/-- **A walk finds offences only**, at paths that lead on from its own. -/
theorem offence_walk (e : Element) (v : Value) : ∀ path, v.Distinct → v ≠ .null →
    ∀ x ∈ (s.walk path e v).trail.violations, s.PointsOn path e v x := by
  induction e, v using Element.induct with
  | null e => exact fun path _ hv => absurd rfl hv
  | wrong e v hn ha =>
    intro path _ hv x hx
    rw [walk_wrong s path hn ha] at hx
    rw [mem_violations_found.1 hx]
    exact .here (.kind hv ha)
  | scalar e v hs ha =>
    intro path _ hv x hx
    rw [walk_scalar s path hs ha] at hx
    rcases Trail.mem_violations_andIfClean hx with hx | ⟨-, hx⟩
    · obtain ⟨cause, hc, rfl⟩ := mem_violations_foundAll hx
      exact .here (faulty_of_mem_causes hc)
    · obtain ⟨w, hw, hj, rfl⟩ := mem_violations_askAll hx
      exact .here (.rejected ha hw (by rwa [Options.prune_scalar _ _ _ hs]))
  | object traits children fields ih =>
    intro path hd _ x hx
    have hfinds : ∀ field ∈ fields, s.FindsOffences field.2 := fun field hf child => ih field hf child
    rw [walk_object] at hx
    rcases mem_violations_walkObject hx with hx | hx | ⟨ho, hi, hx⟩
    · obtain ⟨name, hname, rfl⟩ := mem_violations_opening hx
      exact ⟨[name], path.tokens_push name, missingField_of_mem hname⟩
    · exact offence_walkFields hfinds hd x hx
    · rw [s.left_walkObject_eq_prune (fun field _ => s.leavesPruned field.2) ho hi] at hx
      obtain ⟨w, hw, hj, rfl⟩ := mem_violations_askAll hx
      exact .here (.rejected rfl hw hj)
  | array traits slots ordered allowNull shape entries ih =>
    intro path hd _ x hx
    have hfinds : ∀ v ∈ entries, s.FindsOffences v := fun v hv e => ih v hv e
    by_cases hl : ordered = [] ∨ ordered.length = entries.length
    · rw [walk_array s path traits slots allowNull shape hl, trail_walkArray] at hx
      rcases Trail.mem_violations_andIfClean hx with hx | ⟨hi, hx⟩
      · exact offence_walkContents hfinds hd hl x hx
      · rw [s.left_walkArray_eq_prune hl (fun v _ => s.leavesPruned v) hi] at hx
        obtain ⟨w, hw, hj, rfl⟩ := mem_violations_askAll hx
        exact .here (.rejected rfl hw hj)
    · rw [walk_array_of_length_ne s path traits slots allowNull shape hl] at hx
      rw [mem_violations_found.1 hx]
      rw [not_or] at hl
      exact .here (.length hl.1 hl.2)

end Setting

/-- What is wrong with a document into which a run does not go: its schema has a root that can be none, or the document is of
another kind. -/
inductive Element.Unfit (root : Element) (document : Value) : Cause → Prop
  | notContainer (primitive : root.kind.isContainer = false) : Unfit root document (.rootType (.notContainer root.kind))
  | wrongKind (container : root.kind.isContainer = true) (refused : root.accepts document = false) :
    Unfit root document (.rootType (.wrongKind document.kindName root.kind))

namespace Setting

variable {s : Setting} {root : Element} {document : Value}

theorem walkRoot_of_unfit (h : root.admits document = false) :
    ∃ cause, root.Unfit document cause ∧ s.walkRoot root document = ⟨document, s.found .root cause⟩ := by
  unfold walkRoot
  cases hc : root.kind.isContainer with
  | false => exact ⟨_, .notContainer hc, rfl⟩
  | true =>
    have ha : root.accepts document = false := by simpa [Element.admits, hc] using h
    exact ⟨_, .wrongKind hc ha, by rw [ha]; rfl⟩

theorem offence_of_mem_run (hd : document.Distinct) (ha : root.admits document = true) :
    ∀ x ∈ (s.run root document).violations, s.Offence root document x.path.tokens x.cause := by
  intro x hx
  have hv : document ≠ .null := by
    rintro rfl
    cases root <;> cases ha
  rw [violations_run, s.walkRoot_of_admits root document ha] at hx
  obtain ⟨ts, htokens, hoff⟩ := offence_walk root document .root hd hv x hx
  rw [Pointer.tokens_root, List.nil_append] at htokens
  rwa [htokens]

theorem violations_run_of_unfit (ha : root.admits document = false) :
    ∃ cause, root.Unfit document cause ∧ (s.run root document).violations = [⟨cause, .root⟩] := by
  obtain ⟨cause, hunfit, hw⟩ := s.walkRoot_of_unfit ha
  exact ⟨cause, hunfit, by rw [violations_run, hw]; rfl⟩

/-- **Every violation of a run points at what is wrong with the document as it was before.**  Only a document that does not
fit the root has a violation of the root, and then no other. -/
theorem violations_run_offend (hd : document.Distinct) : ∀ x ∈ (s.run root document).violations,
    root.admits document = true ∧ s.Offence root document x.path.tokens x.cause ∨
      root.Unfit document x.cause ∧ x.path = .root ∧ (s.run root document).violations = [x] := by
  intro x hx
  cases ha : root.admits document with
  | false =>
    obtain ⟨cause, hunfit, hvs⟩ := violations_run_of_unfit (s := s) ha
    rw [hvs] at hx ⊢
    rw [List.mem_singleton.1 hx]
    exact .inr ⟨hunfit, rfl, rfl⟩
  | true => exact .inl ⟨rfl, offence_of_mem_run hd ha x hx⟩

/-- A violation in a declared meta field points into the document as it was: the field is gone when its value is refused. -/
theorem violations_run_offend_meta :
    ((⟨{}, fun _ _ _ => .accept⟩ : Setting).run (.object {} [("a/b", .object {} [("$~", .string {} {})])])
      (.object [(.name "a/b", .object [(.name "$~", .boolean true)])])).violations.map (·.path.text) = ["/a~1b/$~0"] ∧
    ∀ x ∈ ((⟨{}, fun _ _ _ => .accept⟩ : Setting).run (.object {} [("a/b", .object {} [("$~", .string {} {})])])
      (.object [(.name "a/b", .object [(.name "$~", .boolean true)])])).violations,
      Offence ⟨{}, fun _ _ _ => .accept⟩ (.object {} [("a/b", .object {} [("$~", .string {} {})])])
        (.object [(.name "a/b", .object [(.name "$~", .boolean true)])]) x.path.tokens x.cause := by
  have hd : (Value.object [(.name "a/b", .object [(.name "$~", .boolean true)])]).Distinct := by
    refine .object (by decide) fun field hf => ?_
    rw [List.mem_singleton.1 hf]
    refine .object (by decide) fun field hf => ?_
    rw [List.mem_singleton.1 hf]
    exact .scalar rfl
  refine ⟨by decide, fun x hx => ?_⟩
  rcases violations_run_offend hd x hx with ⟨-, h⟩ | ⟨-, hroot, -⟩
  · exact h
  · rw [List.mem_singleton.1 hx] at hroot
    exact absurd (congrArg Pointer.text hroot) (by decide)

end Setting
end ConfigSchema
