import ConfigSchema.Proofs.Offences
/-!
# Branches — one cause for each branch of a document

Two violations of a run stand apart, on branches of the document of which neither leads to the other; or they are twins,
found at one value: both bounds of a measure are broken, or both violations are rejections by validators.  So nothing is
found below a violation, and only a value of the right kind can have more than one (`violations_run_branch`).
-/
namespace ConfigSchema

namespace Violation

/-- Neither of the two places leads to the other. -/
def Apart (x y : Violation) : Prop := ¬ x.path.tokens <+: y.path.tokens ∧ ¬ y.path.tokens <+: x.path.tokens

/-- Two violations of one value, in the order in which they are found. -/
inductive Twins : Violation → Violation → Prop
  | range {path : Pointer} {m : Measure} {upper lower : Number} :
    Twins ⟨.badValue (.above m upper), path⟩ ⟨.badValue (.below m lower), path⟩
  | rejections {path : Pointer} {label label' : String} :
    Twins ⟨.badValue (.rejectedBy label), path⟩ ⟨.badValue (.rejectedBy label'), path⟩

/-- Each two violations of a list are apart or twins. -/
def Branching (vs : List Violation) : Prop := vs.Pairwise fun x y => x.Apart y ∨ x.Twins y

variable {x y z : Violation} {vs : List Violation}

theorem Twins.path_eq (h : x.Twins y) : x.path = y.path := by cases h <;> rfl

theorem Twins.errorClass_eq (h : x.Twins y) : x.errorClass = .badValue ∧ y.errorClass = .badValue := by
  cases h <;> exact ⟨rfl, rfl⟩

theorem branching_singleton (x : Violation) : Branching [x] := List.pairwise_singleton ..

/-- Of two ways that part neither goes on where the other ends. -/
theorem not_prefix_of_parting {path ts us : List String} {a b : String} (hab : a ≠ b) (hts : path ++ [a] <+: ts)
    (hus : path ++ [b] <+: us) : ¬ ts <+: us := by
  obtain ⟨ts, rfl⟩ := hts
  obtain ⟨us, rfl⟩ := hus
  rw [List.append_assoc, List.append_assoc, List.prefix_append_right_inj]
  exact fun h => hab (List.cons_prefix_cons.1 h).1

/-- Below two ways that part from one path, violations are apart. -/
theorem apart_of_tokens {path : List String} {a b : String} (hab : a ≠ b) (hx : path ++ [a] <+: x.path.tokens)
    (hy : path ++ [b] <+: y.path.tokens) : x.Apart y :=
  ⟨not_prefix_of_parting hab hx hy, not_prefix_of_parting hab.symm hy hx⟩

/-- Two entries of a list whose entries are apart or twins are one and the same, apart, or twins in one order. -/
theorem Branching.cases (h : Branching vs) (hx : x ∈ vs) (hy : y ∈ vs) :
    x = y ∨ x.Apart y ∨ x.Twins y ∨ y.Twins x := by
  obtain ⟨before, after, rfl⟩ := List.append_of_mem hx
  obtain ⟨-, hafter, hbefore⟩ := List.pairwise_append.1 h
  rcases List.mem_append.1 hy with hy | hy
  · rcases hbefore y hy x List.mem_cons_self with h | h
    · exact .inr (.inl ⟨h.2, h.1⟩)
    · exact .inr (.inr (.inr h))
  · rcases List.mem_cons.1 hy with rfl | hy
    · exact .inl rfl
    · rcases (List.pairwise_cons.1 hafter).1 y hy with h | h
      · exact .inr (.inl h)
      · exact .inr (.inr (.inl h))

theorem Branching.tokens_eq (h : Branching vs) (hx : x ∈ vs) (hy : y ∈ vs) (hp : x.path.tokens <+: y.path.tokens) :
    x.path.tokens = y.path.tokens := by
  rcases h.cases hx hy with rfl | h | h | h
  · rfl
  · exact absurd hp h.1
  · rw [h.path_eq]
  · rw [h.path_eq]

/-- Whatever stands in a list before or after an entry that is no twin is apart from it. -/
theorem Branching.filter_below (h : Branching vs) (hx : x ∈ vs) (hc : x.errorClass ≠ .badValue) :
    vs.filter (fun y => x.path.tokens <+: y.path.tokens) = [x] := by
  obtain ⟨before, after, rfl⟩ := List.append_of_mem hx
  obtain ⟨-, hafter, hbefore⟩ := List.pairwise_append.1 h
  have hnone : ∀ y, x.Apart y ∨ x.Twins y ∨ y.Twins x → ¬ x.path.tokens <+: y.path.tokens := by
    rintro y (h | h | h)
    · exact h.1
    · exact absurd h.errorClass_eq.1 hc
    · exact absurd h.errorClass_eq.2 hc
  have hb : before.filter (fun y => x.path.tokens <+: y.path.tokens) = [] := by
    refine List.filter_eq_nil_iff.2 fun y hy => ?_
    rw [decide_eq_true_eq]
    exact hnone y ((hbefore y hy x List.mem_cons_self).imp And.symm .inr)
  have ha : after.filter (fun y => x.path.tokens <+: y.path.tokens) = [] := by
    refine List.filter_eq_nil_iff.2 fun y hy => ?_
    rw [decide_eq_true_eq]
    exact hnone y (((List.pairwise_cons.1 hafter).1 y hy).imp_right .inl)
  have hself : decide (x.path.tokens <+: x.path.tokens) = true := decide_eq_true (List.prefix_refl _)
  rw [List.filter_append, hb, List.filter_cons, if_pos hself, ha, List.nil_append]

theorem cases_of_pairwise_twins (h : vs.Pairwise Twins) (hl : 2 ≤ vs.length) :
    (∃ path m upper lower, vs = [⟨.badValue (.above m upper), path⟩, ⟨.badValue (.below m lower), path⟩]) ∨
      ∀ x ∈ vs, ∃ label, x.cause = .badValue (.rejectedBy label) := by
  match vs, hl with
  | x :: y :: rest, _ =>
    obtain ⟨hx, hrest⟩ := List.pairwise_cons.1 h
    have hxy := hx y List.mem_cons_self
    cases hxy with
    | range =>
      cases rest with
      | nil => exact .inl ⟨_, _, _, _, rfl⟩
      | cons z rest => cases (List.pairwise_cons.1 hrest).1 z List.mem_cons_self
    | rejections =>
      refine .inr fun z hz => ?_
      rcases List.mem_cons.1 hz with rfl | hz
      · exact ⟨_, rfl⟩
      · cases hx z hz
        exact ⟨_, rfl⟩

theorem prefix_tokens_push (p : Pointer) (token : String) : p.tokens ++ [token] <+: (p.push token).tokens :=
  ⟨[], by rw [List.append_nil, Pointer.tokens_push]⟩

end Violation

open Violation

/-! ## The violations of one value -/

theorem Measure.pairwise_outOfRange (m : Measure) (lower upper : Option Number) (path : Pointer) :
    (m.outOfRange lower upper).Pairwise fun c c' => Twins ⟨c, path⟩ ⟨c', path⟩ := by
  unfold outOfRange
  refine List.pairwise_append.2 ⟨?_, ?_, fun c hc c' hc' => ?_⟩
  · cases upper with
    | none => exact .nil
    | some bound =>
      simp only
      split
      · exact List.pairwise_singleton ..
      · exact .nil
  · cases lower with
    | none => exact .nil
    | some bound =>
      simp only
      split
      · exact List.pairwise_singleton ..
      · exact .nil
  · cases upper with
    | none => cases hc
    | some upper =>
      cases lower with
      | none => cases hc'
      | some lower =>
        simp only at hc hc'
        split at hc
        · split at hc'
          · rw [List.mem_singleton.1 hc, List.mem_singleton.1 hc']
            exact .range
          · cases hc'
        · cases hc

theorem Element.pairwise_causes (e : Element) (v : Value) (path : Pointer) :
    (e.causes v).Pairwise fun c c' => Twins ⟨c, path⟩ ⟨c', path⟩ := by
  unfold causes
  split
  · unfold StringRules.causes
    split
    · exact Measure.pairwise_outOfRange _ _ _ path
    · split
      · exact .nil
      · exact List.pairwise_singleton ..
  · exact Measure.pairwise_outOfRange _ _ _ path
  · exact .nil

theorem Element.Measured.unique {e : Element} {v : Value} {m m' : Measure} {lower lower' upper upper' : Option Number}
    (h : e.Measured v m lower upper) (h' : e.Measured v m' lower' upper') :
    m' = m ∧ lower' = lower ∧ upper' = upper := by
  cases h <;> cases h' <;> exact ⟨rfl, rfl, rfl⟩

namespace Setting

variable {s : Setting}

theorem branching_foundAll {path : Pointer} {causes : List Cause}
    (h : causes.Pairwise fun c c' => Twins ⟨c, path⟩ ⟨c', path⟩) : Branching (s.foundAll path causes).violations := by
  refine Trail.pairwise_violations_sequence (fun t ht => ?_) (List.pairwise_map.2 (h.imp fun hcc' x hx y hy => ?_))
  · obtain ⟨cause, -, rfl⟩ := List.mem_map.1 ht
    exact branching_singleton _
  · rw [mem_violations_found.1 hx, mem_violations_found.1 hy]
    exact .inr hcc'

theorem branching_ask (path : Pointer) (e : Element) (v : Value) (w : Validator) :
    Branching (s.ask path e v w).violations := by
  rw [ask, Trail.violations_andThen rfl]
  cases s.judge w e v with
  | accept | fail => exact .nil
  | reject => exact branching_singleton _

theorem branching_askAll (path : Pointer) (e : Element) (v : Value) : Branching (s.askAll path e v).violations := by
  refine Trail.pairwise_violations_sequence (fun t ht => ?_)
    (List.pairwise_map.2 (List.pairwise_of_forall fun w w' x hx y hy => ?_))
  · obtain ⟨w, -, rfl⟩ := List.mem_map.1 ht
    exact branching_ask path e v w
  · obtain ⟨-, rfl⟩ := mem_violations_ask hx
    obtain ⟨-, rfl⟩ := mem_violations_ask hy
    exact .inr .rejections

/-! ## The violations of a walk -/

theorem tokens_prefix_of_mem_walk {path : Pointer} {e : Element} {v : Value} (hd : v.Distinct) :
    ∀ x ∈ (s.walk path e v).trail.violations, path.tokens <+: x.path.tokens := by
  intro x hx
  by_cases hv : v = .null
  · subst hv
    rw [walk_null] at hx
    unfold nullField at hx
    split at hx
    · cases hx
    · cases mem_violations_found.1 hx
      exact List.prefix_refl _
  · obtain ⟨ts, htokens, -⟩ := offence_walk e v path hd hv x hx
    exact ⟨ts, htokens.symm⟩

/-- The violations that walks of a value find are apart or twins. -/
def FindsBranches (s : Setting) (v : Value) : Prop := ∀ e path, e.Distinct → v.Distinct →
  Branching (s.walk path e v).trail.violations

theorem branching_reportMissing {path : Pointer} {children : List (String × Element)} {fields : List (Key × Value)}
    (h : (Element.missingNames children fields).Nodup) : Branching (s.reportMissing path children fields).violations := by
  refine Trail.pairwise_violations_sequence (fun t ht => ?_) (List.pairwise_map.2 (h.imp fun hne x hx y hy => .inl ?_))
  · obtain ⟨name, -, rfl⟩ := List.mem_map.1 ht
    exact branching_singleton _
  · rw [mem_violations_found.1 hx, mem_violations_found.1 hy]
    exact apart_of_tokens hne (prefix_tokens_push path _) (prefix_tokens_push path _)

theorem branching_walkFields {path : Pointer} {traits : Traits} {children : List (String × Element)}
    {fields : List (Key × Value)} (ih : ∀ field ∈ fields, s.FindsBranches field.2)
    (he : (Element.object traits children).Distinct) (hd : (Value.object fields).Distinct) :
    Branching (Walk.each (fun _ => s.walkField path children) 0 fields).trail.violations := by
  obtain ⟨hnames, heach⟩ := hd.of_object
  refine Walk.pairwise_violations_each (fun i field hi => ?_) fun i j a b hlt hi hj x hx y hy => .inl ?_
  · have hm := List.mem_of_getElem? hi
    unfold walkField
    cases hg : Element.governing? children field.1 with
    | none => exact .nil
    | some child =>
      obtain ⟨key, v⟩ := field
      cases key with
      | number | null => cases hg
      | name name => exact ih _ hm child _ (he.of_child? hg) (heach _ hm)
  · obtain ⟨name, child, hname, -, hx⟩ := mem_violations_walkField hx
    obtain ⟨name', child', hname', -, hy⟩ := mem_violations_walkField hy
    have hne : name ≠ name' := by
      obtain ⟨hi', hai⟩ := List.getElem?_eq_some_iff.1 hi
      obtain ⟨hj', hbj⟩ := List.getElem?_eq_some_iff.1 hj
      refine List.pairwise_iff_getElem.1 (List.pairwise_filterMap.1 hnames) i j hi' hj' hlt name ?_ name' ?_
      · rw [hai, hname]; rfl
      · rw [hbj, hname']; rfl
    have hpx := tokens_prefix_of_mem_walk (heach _ (List.mem_of_getElem? hi)) x hx
    have hpy := tokens_prefix_of_mem_walk (heach _ (List.mem_of_getElem? hj)) y hy
    rw [Pointer.tokens_push] at hpx hpy
    exact apart_of_tokens hne hpx hpy

theorem tokens_prefix_of_mem_walkEntry {path : Pointer} {slots : List (Kind × Element)} {ordered : List Element}
    {allowNull : Bool} {index : Nat} {v : Value} (hd : v.Distinct) :
    ∀ x ∈ (s.walkEntry path slots ordered allowNull index v).trail.violations,
      path.tokens ++ [toString index] <+: x.path.tokens := by
  intro x hx
  unfold walkEntry at hx
  rw [← Pointer.tokens_entry]
  cases hdemand : Element.entryDemand slots ordered allowNull index v with
  | nothing => rw [hdemand] at hx; cases hx
  | refused cause =>
    rw [hdemand] at hx
    cases mem_violations_found.1 hx
    exact List.prefix_refl _
  | governed e =>
    rw [hdemand] at hx
    exact tokens_prefix_of_mem_walk hd x hx

theorem branching_walkContents {path : Pointer} {traits : Traits} {slots : List (Kind × Element)}
    {ordered : List Element} {allowNull : Bool} {shape : ArrayShape} {entries : List Value}
    (ih : ∀ v ∈ entries, s.FindsBranches v) (he : (Element.array traits slots ordered allowNull).Distinct)
    (hd : (Value.array shape entries).Distinct) :
    Branching (s.walkContents path slots ordered allowNull entries).trail.violations := by
  unfold walkContents
  cases ArrayMode.ofContents slots ordered with
  | any =>
    simp only [anyEntries]
    split
    · exact branching_singleton _
    · exact .nil
  | typed | ordered =>
    refine Walk.pairwise_violations_each (fun i v hi => ?_) fun i j v u hlt hi hj x hx y hy => .inl ?_
    · have hm := List.mem_of_getElem? hi
      unfold walkEntry
      cases hdemand : Element.entryDemand slots ordered allowNull (0 + i) v with
      | nothing => exact .nil
      | refused cause => exact branching_singleton _
      | governed e =>
        exact ih v hm e _ (he.of_entry? (Element.entryDemand_eq_governed hdemand).2) (hd.of_array v hm)
    · have hpx := tokens_prefix_of_mem_walkEntry (hd.of_array v (List.mem_of_getElem? hi)) x hx
      have hpy := tokens_prefix_of_mem_walkEntry (hd.of_array u (List.mem_of_getElem? hj)) y hy
      refine apart_of_tokens (fun heq => ?_) hpx hpy
      have hindex := congrArg Value.index? heq
      rw [Value.index?_toString, Value.index?_toString, Option.some.injEq] at hindex
      omega

theorem branching_opening {path : Pointer} {traits : Traits} {children : List (String × Element)}
    (he : (Element.object traits children).Distinct) (fields : List (Key × Value)) :
    Branching ((s.dropMeta path fields).andThen (s.reportMissing path children fields)).violations := by
  have hdrop := s.clean_dropMeta path fields
  rw [Trail.violations_andThen hdrop.halt, hdrop.violations, List.nil_append]
  exact branching_reportMissing (he.nodup_missingNames fields)

theorem branching_walkObject {path : Pointer} {traits : Traits} {children : List (String × Element)}
    {fields : List (Key × Value)} (ih : ∀ field ∈ fields, s.FindsBranches field.2)
    (he : (Element.object traits children).Distinct) (hd : (Value.object fields).Distinct) :
    Branching (s.walk path (.object traits children) (.object fields)).trail.violations := by
  rw [walk_object, trail_walkObject]
  refine Trail.pairwise_violations_andThen (Trail.pairwise_violations_andIfClean
    (Trail.pairwise_violations_andThen (branching_opening he fields) (branching_walkFields ih he hd)
      fun x hx y hy => .inl ?_) (branching_askAll path _ _)) ?_ ?_
  · -- a name that is missing is the name of no field
    obtain ⟨name, hmissing, rfl⟩ := mem_violations_opening hx
    obtain ⟨i, field, hi, hy⟩ := Walk.mem_violations_each hy
    obtain ⟨name', child, hname', -, hy⟩ := mem_violations_walkField hy
    have hm := List.mem_of_getElem? hi
    have hpy := tokens_prefix_of_mem_walk (hd.of_object.2 _ hm) y hy
    rw [Pointer.tokens_push] at hpy
    refine apart_of_tokens (fun heq => ?_) (prefix_tokens_push path name) hpy
    subst heq
    exact Element.not_mem_of_mem_missingNames hmissing (List.mem_map.2 ⟨field, hm, hname'⟩)
  · rw [(s.clean_noteUnlisted children fields).violations]
    exact .nil
  · intro x _ y hy
    rw [(s.clean_noteUnlisted children fields).violations] at hy
    cases hy

/-- **The violations of a walk are apart or twins.** -/
theorem branching_walk (e : Element) (v : Value) : ∀ path, e.Distinct → v.Distinct →
    Branching (s.walk path e v).trail.violations := by
  induction e, v using Element.induct with
  | null e =>
    intro path _ _
    rw [walk_null]
    unfold nullField
    split
    · exact .nil
    · exact branching_singleton _
  | wrong e v hv ha =>
    intro path _ _
    rw [walk_wrong s path hv ha]
    exact branching_singleton _
  | scalar e v hv ha =>
    intro path _ _
    rw [walk_scalar s path hv ha]
    exact Trail.pairwise_violations_andIfClean (branching_foundAll (e.pairwise_causes v path)) (branching_askAll path e v)
  | object traits children fields ih =>
    exact fun path he hd => branching_walkObject (fun field hm child => ih field hm child) he hd
  | array traits slots ordered allowNull shape entries ih =>
    intro path he hd
    by_cases hl : ordered = [] ∨ ordered.length = entries.length
    · rw [walk_array s path traits slots allowNull shape hl, trail_walkArray]
      exact Trail.pairwise_violations_andIfClean (branching_walkContents (fun v hm e => ih v hm e) he hd)
        (branching_askAll path _ _)
    · rw [walk_array_of_length_ne s path traits slots allowNull shape hl]
      exact branching_singleton _

/-- What a run finds at one value, where that is more than one violation: both bounds are broken, the upper one first, or
validators reject the value. -/
inductive Together (s : Setting) (e : Element) (v : Value) : List Violation → Prop
  | range {path : Pointer} {m : Measure} {lower upper : Number} (measured : e.Measured v m (some lower) (some upper))
    (exceeds : upper.lt m.toNumber = true) (under : m.toNumber.lt lower = true) :
    Together s e v [⟨.badValue (.above m upper), path⟩, ⟨.badValue (.below m lower), path⟩]
  | rejections {vs : List Violation} (each : ∀ x ∈ vs, ∃ w ∈ e.validators,
      s.judge w e (s.options.prune false e v) = .reject ∧ x.cause = .badValue (.rejectedBy w.label)) : Together s e v vs

variable {s : Setting} {root e : Element} {document v : Value}

theorem together_of_twins {vs : List Violation} (hf : ∀ x ∈ vs, s.Faulty e v x.cause) (h : vs.Pairwise Twins)
    (hl : 2 ≤ vs.length) : s.Together e v vs := by
  rcases cases_of_pairwise_twins h hl with ⟨path, m, upper, lower, rfl⟩ | hrejected
  · have habove := hf _ List.mem_cons_self
    have hbelow := hf _ (List.mem_cons_of_mem _ List.mem_cons_self)
    cases habove with
    | above measured exceeds =>
      cases hbelow with
      | below measured' under =>
        obtain ⟨-, rfl, rfl⟩ := measured.unique measured'
        exact .range measured exceeds under
  · refine .rejections fun x hx => ?_
    obtain ⟨label, hlabel⟩ := hrejected x hx
    have hx := hf x hx
    rw [hlabel] at hx ⊢
    cases hx with
    | rejected _ own verdict => exact ⟨_, own, verdict, rfl⟩

theorem branching_run (he : root.Distinct) (hd : document.Distinct) : Branching (s.run root document).violations := by
  cases ha : root.admits document with
  | false =>
    obtain ⟨cause, -, hvs⟩ := violations_run_of_unfit (s := s) ha
    rw [hvs]
    exact branching_singleton _
  | true =>
    rw [violations_run, s.walkRoot_of_admits root document ha]
    exact branching_walk root document .root he hd

theorem Offence.faulty_of_errorClass {tokens : List String} {cause : Cause} (h : s.Offence root document tokens cause)
    (hc : cause.errorClass = .badValue) : ∃ e v, root.Meets document tokens e v ∧ s.Faulty e v cause := by
  cases h with
  | faulty meets faulty => exact ⟨_, _, meets, faulty⟩
  | missingField | nullField | nullEntry | entryType => cases hc

/-- A violation that only a value of the right kind can have is found at a value that an element governs. -/
theorem faulty_of_badValue (hd : document.Distinct) {x : Violation} (hx : x ∈ (s.run root document).violations)
    (hc : x.errorClass = .badValue) : ∃ e v, root.Meets document x.path.tokens e v ∧ s.Faulty e v x.cause := by
  cases ha : root.admits document with
  | false =>
    obtain ⟨cause, hunfit, hvs⟩ := violations_run_of_unfit (s := s) ha
    rw [hvs] at hx
    rw [List.mem_singleton.1 hx] at hc
    cases hunfit <;> cases hc
  | true => exact (offence_of_mem_run hd ha x hx).faulty_of_errorClass hc

/-- **There is one cause for each branch of a document.**  No violation is found below another.  Where there is more than
one, they are found at one value: both of its bounds are broken, or its validators reject it.  A violation of any other
class is alone, with nothing below it. -/
theorem violations_run_branch (he : root.Distinct) (hd : document.Distinct) :
    (∀ x ∈ (s.run root document).violations, ∀ y ∈ (s.run root document).violations,
      x.path.tokens <+: y.path.tokens → x.path.tokens = y.path.tokens) ∧
    (∀ tokens, 2 ≤ ((s.run root document).violations.filter (·.path.tokens = tokens)).length →
      ∃ e v, root.Meets document tokens e v ∧
        s.Together e v ((s.run root document).violations.filter (·.path.tokens = tokens))) ∧
    (∀ x ∈ (s.run root document).violations, x.errorClass ≠ .badValue →
      (s.run root document).violations.filter (fun y => x.path.tokens <+: y.path.tokens) = [x]) := by
  have hbranch := branching_run (s := s) he hd
  refine ⟨fun x hx y hy => hbranch.tokens_eq hx hy, fun tokens hl => ?_, fun x hx => hbranch.filter_below hx⟩
  generalize hhere : (s.run root document).violations.filter (·.path.tokens = tokens) = here at hl ⊢
  have hmem : ∀ x ∈ here, x ∈ (s.run root document).violations ∧ x.path.tokens = tokens := by
    intro x hx
    rw [← hhere, List.mem_filter, decide_eq_true_eq] at hx
    exact hx
  have htwins : here.Pairwise Twins := by
    have hsub : here.Sublist (s.run root document).violations := hhere ▸ List.filter_sublist
    refine (List.Pairwise.and_mem.1 (hbranch.sublist hsub)).imp ?_
    rintro x y ⟨hx, hy, hxy⟩
    refine hxy.resolve_left fun hapart => hapart.1 ?_
    exact ⟨[], by rw [List.append_nil, (hmem x hx).2, (hmem y hy).2]⟩
  match here, hl with
  | x :: y :: rest, hl =>
    -- the others are at the tokens of the first, and so at the value that its element governs
    obtain ⟨hx, htokens⟩ := hmem x List.mem_cons_self
    have hclass := ((List.pairwise_cons.1 htwins).1 y List.mem_cons_self).errorClass_eq.1
    obtain ⟨e, v, hmeets, -⟩ := faulty_of_badValue hd hx hclass
    rw [htokens] at hmeets
    refine ⟨e, v, hmeets, together_of_twins (fun z hz => ?_) htwins hl⟩
    obtain ⟨hz', hztokens⟩ := hmem z hz
    have hzclass : z.errorClass = .badValue := by
      rcases List.mem_cons.1 hz with rfl | hz
      · exact hclass
      · exact ((List.pairwise_cons.1 htwins).1 z hz).errorClass_eq.2
    obtain ⟨e', v', hmeets', hfaulty⟩ := faulty_of_badValue hd hz' hzclass
    rw [hztokens] at hmeets'
    obtain ⟨rfl, rfl⟩ := hmeets.governs.unique hd hmeets'.governs
    exact hfaulty

/-- A number that is above its maximum and below its minimum, beside a field whose name looks like a way into it. -/
theorem violations_run_branch_bounds :
    ((⟨{}, fun _ _ _ => .accept⟩ : Setting).run
      (.object {} [("a", .number {} { minValue := some (.whole 5), maxValue := some (.whole 3) }), ("a/b", .string {} {})])
      (.object [(.name "a", .number (.whole 4)), (.name "a/b", .null)])).violations.map (·.path.text) =
        ["/a", "/a", "/a~1b"] ∧
    ∃ e v, Element.Meets
      (.object {} [("a", .number {} { minValue := some (.whole 5), maxValue := some (.whole 3) }), ("a/b", .string {} {})])
      (.object [(.name "a", .number (.whole 4)), (.name "a/b", .null)]) ["a"] e v ∧
      Together ⟨{}, fun _ _ _ => .accept⟩ e v (((⟨{}, fun _ _ _ => .accept⟩ : Setting).run
        (.object {} [("a", .number {} { minValue := some (.whole 5), maxValue := some (.whole 3) }),
          ("a/b", .string {} {})])
        (.object [(.name "a", .number (.whole 4)), (.name "a/b", .null)])).violations.filter (·.path.tokens = ["a"])) := by
  have he : (Element.object {} [("a", .number {} { minValue := some (.whole 5), maxValue := some (.whole 3) }),
      ("a/b", .string {} {})]).Distinct := by
    refine .object (by decide) fun child hc => ?_
    simp only [List.mem_cons, List.not_mem_nil, or_false] at hc
    obtain rfl | rfl := hc
    · exact .number
    · exact .string
  have hd : (Value.object [(.name "a", .number (.whole 4)), (.name "a/b", .null)]).Distinct := by
    refine .object (by decide) fun field hf => ?_
    simp only [List.mem_cons, List.not_mem_nil, or_false] at hf
    obtain rfl | rfl := hf
    · exact .scalar rfl
    · exact .null
  exact ⟨by decide, (violations_run_branch he hd).2.1 ["a"] (by decide)⟩

end Setting
end ConfigSchema
