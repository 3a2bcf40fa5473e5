import ConfigSchema.Proofs.Locality
import ConfigSchema.Proofs.Reordered
/-!
# Interchange — elements that are the same, and documents in another order

Runs of reordered documents under elements that are the same find violations of the same classes at the same places, in
whatever order, and leave reordered documents; under one element they find the same violations
(`run_of_same`).  The order of the missing children follows the schema and that of the fields the document, so only the
lists as wholes can be compared: everything that is found in a value is a shuffle of what is found in the other one
(`Collects.findings_shuffled`).
-/
namespace ConfigSchema

/-- Two violations are of one class and at one place, and they are equal if what they are found by is `one`. -/
structure Violation.Like (one : Prop) (x y : Violation) : Prop where
  errorClass : x.errorClass = y.errorClass
  path : x.path = y.path
  eq : one → x = y

theorem Violation.Like.refl {one : Prop} (x : Violation) : x.Like one x := ⟨rfl, rfl, fun _ => rfl⟩

/-- The verdicts depend neither on the order of fields nor on which of two elements that are the same, or of two validators
with one identity, is asked about. -/
def Judge.Steady (judge : Judge) : Prop := ∀ (w w' : Validator) (e e' : Element) (v v' : Value), w.id = w'.id →
  e.same e' = true → v.Reordered v' → judge w e v = judge w' e' v'

namespace Setting

open Value (Reordered)

variable {s : Setting} {one : Prop} {e e' : Element} {v v' : Value} {path : Pointer}

/-! ## What is found, part by part -/

theorem shuffled_rejections (hj : s.judge.Steady) (he : e.Same e') (hone : one → e' = e) (hv : v.Reordered v') :
    Shuffled (Violation.Like one) (s.rejections path e v) (s.rejections path e' v') := by
  have hids : List.Forall₂ (fun w w' : Validator => w.id = w'.id ∧ (one → w = w')) e.validators e'.validators := by
    by_cases hx : one
    · rw [hone hx]
      exact List.forall₂_same.2 fun w _ => ⟨rfl, fun _ => rfl⟩
    · have hmap := (Traits.same_iff.1 he.traits).2
      rw [← List.forall₂_eq_eq_eq, List.forall₂_map_left_iff, List.forall₂_map_right_iff] at hmap
      exact hmap.imp fun w w' hw => ⟨hw, fun h => absurd h hx⟩
  refine .of_forall₂ (forall₂_map (forall₂_filter hids fun w _ w' hw => ?_) fun w _ w' hw => ?_)
  · rw [hj w w' e e' v v' hw.1 he hv]
  · exact ⟨rfl, rfl, fun hx => by rw [hw.2 hx]⟩

theorem shuffled_orRejections (hj : s.judge.Steady) (hk : e.Keyed) (he : e.Same e') (hone : one → e' = e)
    (hv : v.Reordered v') {inside inside' : List Violation} (h : Shuffled (Violation.Like one) inside inside') :
    Shuffled (Violation.Like one) (s.orRejections path e v inside) (s.orRejections path e' v' inside') := by
  unfold orRejections
  -- the validators are heard on both sides or on none, and what they see is reordered again
  by_cases hi : inside = []
  · rw [if_pos hi, if_pos (h.eq_nil_iff.1 hi)]
    exact shuffled_rejections hj he hone (Options.prune_reordered e v hk he hv)
  · rw [if_neg hi, if_neg (mt h.eq_nil_iff.2 hi)]
    exact h

/-- What is found in a value is a shuffle of what is found in a reordering of it under an element that is the same. -/
def Shuffles (s : Setting) (one : Prop) (v : Value) : Prop := ∀ (e : Element) {e' : Element} {v' : Value} (path : Pointer),
  e.Keyed → e.Same e' → (one → e' = e) → v.Reordered v' →
    Shuffled (Violation.Like one) (s.findings path e v) (s.findings path e' v')

variable {traits : Traits} {children children' : List (String × Element)} {slots slots' : List (Kind × Element)}
  {ordered ordered' : List Element} {allowNull : Bool}

theorem shuffled_fieldFindings {field field' : Key × Value} (ih : s.Shuffles one field.2)
    (hk : (Element.object traits children).Keyed) (h : Element.SameUnder children children')
    (hone : one → children' = children) (hfield : Assoc.Match Reordered field field') :
    Shuffled (Violation.Like one) (s.fieldFindings path children field) (s.fieldFindings path children' field') := by
  unfold fieldFindings
  rw [← hfield.key]
  rcases hk.governing_cases h field.1 with ⟨hc, hc'⟩ | ⟨child, child', hc, hc', hchild, hsame⟩
  · rw [hc, hc']
    exact .of_forall₂ .nil
  · have hsame' : one → child' = child := fun hx => by
      rw [hone hx, hc] at hc'
      exact (Option.some.inj hc').symm
    rw [hc, hc']
    exact ih child _ hchild hsame hsame' hfield.value

theorem shuffled_entryFindings (ih : s.Shuffles one v) (hk : (Element.array traits slots ordered allowNull).Keyed)
    (hslots : Element.SameUnder slots slots') (hordered : List.Forall₂ Element.Same ordered ordered')
    (hone : one → slots' = slots ∧ ordered' = ordered) (index : Nat) (hv : v.Reordered v') :
    Shuffled (Violation.Like one) (s.entryFindings path slots ordered allowNull index v)
      (s.entryFindings path slots' ordered' allowNull index v') := by
  have hrefused : ∀ cause, Shuffled (Violation.Like one) [⟨cause, path.entry index⟩] [⟨cause, path.entry index⟩] :=
    fun cause => .of_forall₂ (.cons (.refl _) .nil)
  unfold entryFindings Element.entryDemand
  rw [← hv.isNull_eq, ← hv.kindName_eq]
  cases v.isNull with
  | true =>
    cases allowNull with
    | true => exact .of_forall₂ .nil
    | false => exact hrefused _
  | false =>
    simp only [Bool.false_eq_true, if_false]
    rcases hk.entry_cases hslots hordered index hv.kindName_eq with ⟨hx, hx'⟩ | ⟨x, x', hx, hx', hentry, hsame⟩
    · rw [hx, hx']
      exact hrefused _
    · have hsame' : one → x' = x := fun h => by
        rw [(hone h).1, (hone h).2, ← Element.entry?_congr hv.kindName_eq, hx] at hx'
        exact (Option.some.inj hx').symm
      rw [hx, hx']
      exact ih x _ hentry hsame hsame' hv

theorem shuffled_contentsFindings {entries entries' : List Value} (ih : ∀ v ∈ entries, s.Shuffles one v)
    (hk : (Element.array traits slots ordered allowNull).Keyed)
    (hslots : Element.SameUnder slots slots') (hordered : List.Forall₂ Element.Same ordered ordered')
    (hone : one → slots' = slots ∧ ordered' = ordered) (hentries : List.Forall₂ Reordered entries entries') :
    Shuffled (Violation.Like one) (s.contentsFindings path slots ordered allowNull entries)
      (s.contentsFindings path slots' ordered' allowNull entries') := by
  unfold contentsFindings
  rw [← Element.ofContents_eq hslots hordered]
  cases ArrayMode.ofContents slots ordered with
  | any =>
    have hnull : entries.any (·.isNull) = entries'.any (·.isNull) :=
      (Shuffled.of_forall₂ hentries).any_eq fun _ _ _ hv => hv.isNull_eq
    simp only [hnull]
    exact .of_perm .refl (.refl _)
  | typed | ordered =>
    exact .flatten (forall₂_mapIdx hentries fun i v hm v' hv =>
      shuffled_entryFindings (ih v hm) hk hslots hordered hone i hv)

theorem shuffled_missing (h : Element.SameUnder children children') {fields fields' : List (Key × Value)}
    (hfields : Value.ReorderedFields fields fields') : Shuffled (Violation.Like one)
      ((Element.missingNames children fields).map fun name => ⟨.missingField name, path.push name⟩)
      ((Element.missingNames children' fields').map fun name => ⟨.missingField name, path.push name⟩) :=
  .of_perm .refl ((Element.missingNames_perm h (Value.keys_perm hfields)).map _)

/-- **What is found in a value is a shuffle of what is found in a reordering of it under an element that is the same.** -/
theorem Collects.findings_shuffled (hs : s.Collects) (hj : s.judge.Steady) (e : Element) (v : Value) :
    ∀ {e' : Element} {v' : Value} (path : Pointer), e.Keyed → e.Same e' → (one → e' = e) → v.Reordered v' →
      Shuffled (Violation.Like one) (s.findings path e v) (s.findings path e' v') := by
  induction e, v using Element.induct with
  | null e =>
    intro e' v' path _ he _ hv
    obtain ⟨⟨hname, -, hnullable⟩, -⟩ := Traits.same_iff.1 he.traits
    cases hv with
    | null =>
      rw [findings_null, findings_null, Element.name?, Element.name?, hname, hnullable]
      exact .of_perm .refl (.refl _)
    | scalar h => cases h
  | wrong e v hn ha =>
    intro e' v' path _ he _ hv
    rw [findings_wrong path hn ha, findings_wrong path (hv.isNull_eq ▸ hn) (hv.accepts_eq he ▸ ha), hv.kindName_eq,
      he.kind_eq]
    exact .of_perm .refl (.refl _)
  | scalar e v hn ha =>
    intro e' v' path _ he hone hv
    have ha' : e'.accepts v' = true := hv.accepts_eq he ▸ ha
    have hcauses := he.forall₂_causes v
    have hempty := (Shuffled.of_forall₂ hcauses).eq_nil_iff
    rw [hv.eq_of_isScalar hn] at ha' ⊢
    rw [hs.findings_scalar path hn ha, hs.findings_scalar path hn ha']
    by_cases hc : e.causes v = []
    · rw [if_pos hc, if_pos (hempty.1 hc)]
      exact shuffled_rejections hj he hone (.scalar hn)
    · rw [if_neg hc, if_neg (mt hempty.2 hc)]
      by_cases hx : one
      · rw [hone hx]
        exact .of_perm .refl (.refl _)
      · exact .of_forall₂ (forall₂_map hcauses fun _ _ _ hclass => ⟨hclass, rfl, fun h => absurd h hx⟩)
  | object traits children fields ih =>
    intro e' v' path hk he hone hv
    obtain ⟨traits', children', rfl, hchildren⟩ := he.object hk
    obtain ⟨fields', rfl, hfields⟩ := Value.reordered_object.1 hv
    have hsame : one → children' = children := fun h => (Element.object.inj (hone h)).2
    rw [hs.findings_object, hs.findings_object]
    -- missing children come in the order of either schema, fields in that of either document
    refine shuffled_orRejections hj hk he hone hv ((shuffled_missing hchildren hfields).append ?_)
    exact hfields.flatMap fun field hf field' hfield => shuffled_fieldFindings (ih field hf) hk hchildren hsame hfield
  | array traits slots ordered allowNull shape entries ih =>
    intro e' v' path hk he hone hv
    obtain ⟨traits', slots', ordered', rfl, hslots, hordered⟩ := he.array hk
    obtain ⟨entries', rfl, hentries⟩ := Value.reordered_array.1 hv
    have hsame : one → slots' = slots ∧ ordered' = ordered := fun h =>
      ⟨(Element.array.inj (hone h)).2.1, (Element.array.inj (hone h)).2.2.1⟩
    by_cases hl : ordered = [] ∨ ordered.length = entries.length
    · have hl' := (Options.fits_iff hordered hentries).1 hl
      rw [hs.findings_array path traits slots allowNull shape hl, hs.findings_array path traits' slots' allowNull shape hl']
      exact shuffled_orRejections hj hk he hone hv (shuffled_contentsFindings ih hk hslots hordered hsame hentries)
    · have hl' := mt (Options.fits_iff hordered hentries).2 hl
      rw [findings_array_of_length_ne path traits slots allowNull shape hl,
        findings_array_of_length_ne path traits' slots' allowNull shape hl', hordered.length_eq, hentries.length_eq]
      exact .of_perm .refl (.refl _)

/-! ## Runs -/

variable {root root' : Element} {document document' : Value}

theorem admits_eq (he : root.Same root') (hv : document.Reordered document') :
    root.admits document = root'.admits document' := by
  rw [Element.admits, Element.admits, he.kind_eq, hv.accepts_eq he]

/-- Documents that are refused as wholes are refused for the same fault. -/
theorem walkRoot_of_same (s : Setting) (he : root.Same root') (hv : document.Reordered document')
    (ha : root.admits document = false) : ∃ fault, s.walkRoot root document = ⟨document, s.found .root (.rootType fault)⟩ ∧
      s.walkRoot root' document' = ⟨document', s.found .root (.rootType fault)⟩ := by
  unfold walkRoot
  rw [← he.kind_eq, ← hv.accepts_eq he, ← hv.kindName_eq]
  cases hc : root.kind.isContainer with
  | false => exact ⟨_, rfl, rfl⟩
  | true =>
    rw [Element.admits, hc, Bool.true_and] at ha
    rw [ha]
    exact ⟨_, rfl, rfl⟩

theorem Collects.violations_run_shuffled (hs : s.Collects) (hj : s.judge.Steady) (hk : root.Keyed) (he : root.Same root')
    (hone : one → root' = root) (hv : document.Reordered document') :
    Shuffled (Violation.Like one) (s.run root document).violations (s.run root' document').violations := by
  cases ha : root.admits document with
  | true =>
    rw [violations_run_eq_findings ha, violations_run_eq_findings (admits_eq he hv ▸ ha)]
    exact hs.findings_shuffled hj root document .root hk he hone hv
  | false =>
    obtain ⟨fault, hw, hw'⟩ := s.walkRoot_of_same he hv ha
    rw [violations_run, violations_run, hw, hw']
    exact .of_perm .refl (.refl _)

theorem Collects.document_run_reordered (hs : s.Collects) (hk : root.Keyed) (he : root.Same root')
    (hv : document.Reordered document') (hd : document.Distinct) (hd' : document'.Distinct)
    (hempty : (s.run root document).violations = [] ↔ (s.run root' document').violations = []) :
    (s.run root document).document.Reordered (s.run root' document').document := by
  have hhalt := hs.halt (s.prompt_walkRoot root document)
  have hhalt' := hs.halt (s.prompt_walkRoot root' document')
  cases ha : root.admits document with
  | true =>
    have hclean : (s.run root document).violations.isEmpty = (s.run root' document').violations.isEmpty := by
      rw [Bool.eq_iff_iff, List.isEmpty_iff, List.isEmpty_iff, hempty]
    rw [document_run_of_admits hd ha hhalt, document_run_of_admits hd' (admits_eq he hv ▸ ha) hhalt', hclean]
    exact Options.prune_reordered root document hk he hv
  | false =>
    obtain ⟨fault, hw, hw'⟩ := s.walkRoot_of_same he hv ha
    rw [s.document_run_of_none root document hhalt, s.document_run_of_none root' document' hhalt', hw, hw',
      violations_found, if_neg (List.cons_ne_nil _ _), if_neg (List.cons_ne_nil _ _)]
    exact hv

/-- **Elements that are the same and reordered documents are interchangeable**: the runs find violations of the same
classes at the same places, and if the two elements are one they find the same violations, each time up to order, and what
they leave of the documents is equal up to the order of fields again. -/
theorem run_of_same (hs : s.Collects) (hj : s.judge.Steady) (hroot : root.Constructible)
    (he : root.same root' = true) (hd : document.Distinct) (hd' : document'.Distinct) (hv : document.Reordered document') :
    ∃ vs vs', (s.run root document).outcome = .ok vs ∧ (s.run root' document').outcome = .ok vs' ∧
      (vs.map fun x => (x.errorClass, x.path)).Perm (vs'.map fun x => (x.errorClass, x.path)) ∧
      (root' = root → vs.Perm vs') ∧ (s.run root document).document.Reordered (s.run root' document').document := by
  have hfound : Shuffled (Violation.Like (root' = root)) (s.run root document).violations
      (s.run root' document').violations := hs.violations_run_shuffled hj hroot.keyed he id hv
  have houtcome : ∀ root document, (s.run root document).outcome = .ok (s.run root document).violations :=
    fun root document => (s.outcome_run_eq_ok root document).2
      ⟨hs.halt (s.prompt_walkRoot root document), (s.violations_run root document).symm⟩
  refine ⟨_, _, houtcome root document, houtcome root' document', ?_, fun hsame => ?_, ?_⟩
  · exact hfound.map_perm fun x _ y hxy => Prod.ext hxy.errorClass hxy.path
  · have hperm := hfound.map_perm (f := id) (g := id) fun x _ y hxy => hxy.eq hsame
    rwa [List.map_id, List.map_id] at hperm
  · exact hs.document_run_reordered hroot.keyed he hv hd hd' hfound.eq_nil_iff

/-- Children in another order, with bounds of two and of two as a float, and a document with its fields in another order:
one child is missing, one is below its bound and one is an object that its validator does not take. -/
theorem run_of_same_bounds :
    let judge : Judge := fun _ _ v => match v with
      | .object fields => if fields.length = 1 then .reject else .accept
      | _ => .accept
    let s : Setting := ⟨{}, judge⟩
    let inner := Element.object { validators := [⟨"v", "v"⟩] } []
    let root := Element.object {} [("a", .number {} { minValue := some (.whole 2) }), ("b", inner), ("c", inner)]
    let root' := Element.object {}
      [("c", inner), ("b", inner), ("a", .number {} { minValue := some (.real (.finite false 4503599627370496 (-51))) })]
    let document := Value.object [(.name "a", .number (.whole 1)), (.name "b", .object [(.name "x", .null)])]
    let document' := Value.object [(.name "b", .object [(.name "x", .null)]), (.name "a", .number (.whole 1))]
    s.Collects ∧ judge.Steady ∧ root.Constructible ∧ root.same root' = true ∧ document.Reordered document' ∧
      (s.run root document).outcome = .ok [⟨.missingField "c", ⟨"/c"⟩⟩,
        ⟨.badValue (.below (.value (.whole 1)) (.whole 2)), ⟨"/a"⟩⟩, ⟨.badValue (.rejectedBy "v"), ⟨"/b"⟩⟩] ∧
      ∃ vs', (s.run root' document').outcome = .ok vs' ∧
        (vs'.map fun x => (x.errorClass, x.path)).Perm
          [(.missingField, ⟨"/c"⟩), (.badValue, ⟨"/a"⟩), (.badValue, ⟨"/b"⟩)] := by
  intro judge s inner root root' document document'
  have hs : s.Collects := ⟨rfl, fun w e v f h => by
    simp only [s, judge] at h
    split at h
    · split at h <;> cases h
    · cases h⟩
  have hj : judge.Steady := fun w w' e e' v v' _ _ hv => by
    cases hv with
    | null | scalar | array => rfl
    | @object fields aligned fields' keys each moved =>
      have hlength : fields.length = fields'.length := by simpa [moved.length_eq] using congrArg List.length keys
      simp only [judge, hlength]
  have hinner : inner.Constructible := @Element.Constructible.object { validators := [⟨"v", "v"⟩] } [] _ nofun rfl
  have hroot : root.Constructible := @Element.Constructible.object {}
    [("a", .number {} { minValue := some (.whole 2) }), ("b", inner), ("c", inner)] root
    (by simpa [hinner] using .number) rfl
  have htwo : (Number.whole 2).same (.real (.finite false 4503599627370496 (-51))) = true := rfl
  have he : root.same root' = true := by
    simp [root, root', inner, Element.same, Element.childrenIn, Element.child?, Assoc.find?, Traits.same,
      NumberRules.same, sameOption, htwo]
  have hv : document.Reordered document' :=
    .object rfl (.cons (.scalar rfl) (.cons (.refl _) .nil)) (.swap _ _ [])
  have hx : (Value.object [(.name "x", .null)]).Distinct := .object (by decide) (List.forall_mem_singleton.2 .null)
  have hd : document.Distinct :=
    .object (by decide) (List.forall_mem_cons.2 ⟨.scalar rfl, List.forall_mem_singleton.2 hx⟩)
  have hd' : document'.Distinct :=
    .object (by decide) (List.forall_mem_cons.2 ⟨hx, List.forall_mem_singleton.2 (.scalar rfl)⟩)
  have houtcome : (s.run root document).outcome = .ok [⟨.missingField "c", ⟨"/c"⟩⟩,
      ⟨.badValue (.below (.value (.whole 1)) (.whole 2)), ⟨"/a"⟩⟩, ⟨.badValue (.rejectedBy "v"), ⟨"/b"⟩⟩] := by
    unfold s root document inner judge
    rfl
  obtain ⟨vs, vs', hvs, hvs', hperm, -⟩ := run_of_same hs hj hroot he hd hd' hv
  cases houtcome.symm.trans hvs
  exact ⟨hs, hj, hroot, he, hv, houtcome, vs', hvs', hperm.symm⟩

end Setting
end ConfigSchema
