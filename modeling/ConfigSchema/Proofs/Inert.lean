import ConfigSchema.Proofs.Constructible
import ConfigSchema.Proofs.Entries
import ConfigSchema.Proofs.Remains
import ConfigSchema.Proofs.Runs
/-!
# Inert — attributes of elements that have no effect

A default is kept and never used.  The name of an element, whether it is required and whether it is nullable count only for a
child of an object; the root and the elements of an array stand where nobody asks.  The bounds on the length of a string do
not count where values are listed.  Elements that differ in nothing else are counterparts, and runs of one document by
counterparts differ in no more than the element about which a validator is asked (`unattributed_walk`), so that they end in
the same way, find the same and leave the same (`run_of_counterpart`).
-/
namespace ConfigSchema

/-! ## Counterparts -/

/-- Two elements have the same validators and, as children of objects, all else that elements of any kind have. -/
structure Traits.Counterpart (child : Bool) (traits traits' : Traits) : Prop where
  validators : traits'.validators = traits.validators
  child : child = true → traits' = traits

/-- The same values are listed; only if there are none, the bounds on the length are the same. -/
structure StringRules.Counterpart (rules rules' : StringRules) : Prop where
  validValues : rules'.validValues = rules.validValues
  bounds : rules.validValues = [] → rules'.minLength = rules.minLength ∧ rules'.maxLength = rules.maxLength

structure NumberRules.Counterpart (rules rules' : NumberRules) : Prop where
  minValue : rules'.minValue = rules.minValue
  maxValue : rules'.maxValue = rules.maxValue

theorem StringRules.Counterpart.causes_eq {rules rules' : StringRules} (h : rules.Counterpart rules') (text : String) :
    rules'.causes text = rules.causes text := by
  unfold causes
  rw [h.validValues]
  cases hv : rules.validValues with
  | nil => rw [(h.bounds hv).1, (h.bounds hv).2]
  | cons => rfl

theorem NumberRules.Counterpart.causes_eq {rules rules' : NumberRules} (h : rules.Counterpart rules') (n : Number) :
    rules'.causes n = rules.causes n := by
  rw [causes, causes, h.minValue, h.maxValue]

namespace Element

/-- The validators of an element say the same of any value, whichever of two elements they are asked about. -/
def Heedless (judge : Judge) (e e' : Element) : Prop := ∀ w ∈ e.validators, ∀ v, judge w e' v = judge w e v

/-- Two elements differ in nothing that has an effect where they stand: as children of an object, or anywhere else. -/
inductive Counterpart (judge : Judge) : Bool → Element → Element → Prop
  | object {child : Bool} {traits traits' : Traits} {children children' : List (String × Element)}
    (shared : traits.Counterpart child traits') (heedless : Heedless judge (.object traits children) (.object traits' children'))
    (names : children.map Prod.fst = children'.map Prod.fst)
    (each : List.Forall₂ (Counterpart judge true) (children.map Prod.snd) (children'.map Prod.snd)) :
    Counterpart judge child (.object traits children) (.object traits' children')
  | array {child : Bool} {traits traits' : Traits} {slots slots' : List (Kind × Element)} {ordered ordered' : List Element}
    {allowNull : Bool} (shared : traits.Counterpart child traits')
    (heedless : Heedless judge (.array traits slots ordered allowNull) (.array traits' slots' ordered' allowNull))
    (kinds : slots.map Prod.fst = slots'.map Prod.fst)
    (slot : List.Forall₂ (Counterpart judge false) (slots.map Prod.snd) (slots'.map Prod.snd))
    (each : List.Forall₂ (Counterpart judge false) ordered ordered') :
    Counterpart judge child (.array traits slots ordered allowNull) (.array traits' slots' ordered' allowNull)
  | string {child : Bool} {traits traits' : Traits} {rules rules' : StringRules} (shared : traits.Counterpart child traits')
    (heedless : Heedless judge (.string traits rules) (.string traits' rules')) (same : rules.Counterpart rules') :
    Counterpart judge child (.string traits rules) (.string traits' rules')
  | number {child : Bool} {traits traits' : Traits} {rules rules' : NumberRules} (shared : traits.Counterpart child traits')
    (heedless : Heedless judge (.number traits rules) (.number traits' rules')) (same : rules.Counterpart rules') :
    Counterpart judge child (.number traits rules) (.number traits' rules')
  | boolean {child : Bool} {traits traits' : Traits} {default default' : Option Scalar}
    (shared : traits.Counterpart child traits')
    (heedless : Heedless judge (.boolean traits default) (.boolean traits' default')) :
    Counterpart judge child (.boolean traits default) (.boolean traits' default')

variable {judge : Judge} {child : Bool} {e e' : Element}

theorem Counterpart.traits (h : e.Counterpart judge child e') : e.traits.Counterpart child e'.traits := by
  cases h <;> assumption

theorem Counterpart.heedless (h : e.Counterpart judge child e') : Heedless judge e e' := by
  cases h <;> assumption

theorem Counterpart.validators_eq (h : e.Counterpart judge child e') : e'.validators = e.validators := h.traits.validators

theorem Counterpart.kind_eq (h : e.Counterpart judge child e') : e'.kind = e.kind := by
  cases h <;> rfl

theorem Counterpart.accepts_eq (h : e.Counterpart judge child e') (v : Value) : e'.accepts v = e.accepts v := by
  rw [accepts, accepts, h.kind_eq]

theorem Counterpart.admits_eq (h : e.Counterpart judge child e') (document : Value) :
    e'.admits document = e.admits document := by
  rw [admits, admits, h.kind_eq, h.accepts_eq]

/-- What is refused of a scalar is the same. -/
theorem Counterpart.causes_eq (h : e.Counterpart judge child e') (v : Value) : e'.causes v = e.causes v := by
  cases h with
  | string _ _ same => cases v <;> first | rfl | exact same.causes_eq _
  | number _ _ same => cases v <;> first | rfl | exact same.causes_eq _
  | object | array | boolean => rfl

section Lookup

variable {children children' : List (String × Element)} {slots slots' : List (Kind × Element)} {ordered ordered' : List Element}

theorem rel_governing? (names : children.map Prod.fst = children'.map Prod.fst)
    (each : List.Forall₂ (Counterpart judge true) (children.map Prod.snd) (children'.map Prod.snd)) (key : Key) :
    Option.Rel (Counterpart judge true) (governing? children key) (governing? children' key) := by
  cases key with
  | name text => exact Assoc.rel_find?_of_forall₂ (Assoc.forall₂_match_iff.2 ⟨names, each⟩) (· == text)
  | number | null => exact .none

theorem isNone_governing?_eq (names : children.map Prod.fst = children'.map Prod.fst)
    (each : List.Forall₂ (Counterpart judge true) (children.map Prod.snd) (children'.map Prod.snd)) (key : Key) :
    (governing? children' key).isNone = (governing? children key).isNone := by
  have hrel := rel_governing? names each key
  generalize governing? children key = c, governing? children' key = c' at hrel
  cases hrel with
  | none | some => rfl

theorem missingNames_eq (names : children.map Prod.fst = children'.map Prod.fst)
    (each : List.Forall₂ (Counterpart judge true) (children.map Prod.snd) (children'.map Prod.snd))
    (fields : List (Key × Value)) : missingNames children' fields = missingNames children fields := by
  have hchildren := Assoc.forall₂_match_iff.2 ⟨names, each⟩
  have hrequired : requiredNames children = requiredNames children' := by
    unfold requiredNames
    refine map_eq_of_forall₂ (forall₂_filter hchildren fun c _ c' hc => ?_) fun _ _ _ hc => hc.key
    rw [hc.value.traits.child rfl]
  rw [missingNames, missingNames, hrequired]

theorem ofContents_eq_of_forall₂ (kinds : slots.map Prod.fst = slots'.map Prod.fst)
    (hlength : ordered.length = ordered'.length) :
    ArrayMode.ofContents slots' ordered' = ArrayMode.ofContents slots ordered := by
  have hslots : slots'.isEmpty = slots.isEmpty := by rw [← List.isEmpty_map (f := Prod.fst), ← kinds, List.isEmpty_map]
  have hordered : ordered'.isEmpty = ordered.isEmpty := by
    rw [Bool.eq_iff_iff, List.isEmpty_iff_length_eq_zero, List.isEmpty_iff_length_eq_zero, hlength]
  rw [ArrayMode.ofContents, ArrayMode.ofContents, hslots, hordered]

theorem rel_entry? (kinds : slots.map Prod.fst = slots'.map Prod.fst)
    (slot : List.Forall₂ (Counterpart judge false) (slots.map Prod.snd) (slots'.map Prod.snd))
    (each : List.Forall₂ (Counterpart judge false) ordered ordered') (i : Nat) (v : Value) :
    Option.Rel (Counterpart judge false) ( entry? slots ordered i v) ( entry? slots' ordered' i v) := by
  unfold entry?
  rw [ofContents_eq_of_forall₂ kinds each.length_eq]
  cases ArrayMode.ofContents slots ordered with
  | any => exact .none
  | typed =>
    unfold slot?
    cases Kind.ofLabel? v.kindName with
    | none => exact .none
    | some k => exact Assoc.rel_find?_of_forall₂ (Assoc.forall₂_match_iff.2 ⟨kinds, slot⟩) (· == k)
  | ordered => exact rel_getElem? each i

end Lookup

end Element

/-! ## Events without the element that a validator is asked about -/

namespace Event

/-- The event, with nothing said about the element that a validator is asked about. -/
def unattributed : Event → Event
  | .judged w _ v => .judged w (.bare .object) v
  | event => event

@[simp] theorem violation?_unattributed (event : Event) : event.unattributed.violation? = event.violation? := by
  cases event <;> rfl

@[simp] theorem message?_unattributed (event : Event) : event.unattributed.message? = event.message? := by
  cases event <;> rfl

theorem violations_unattributed (events : List Event) : violations (events.map unattributed) = violations events := by
  simp only [violations, List.filterMap_map, Function.comp_def, violation?_unattributed]

theorem log_unattributed (events : List Event) : log (events.map unattributed) = log events := by
  simp only [log, List.filterMap_map, Function.comp_def, message?_unattributed]

end Event

namespace Trail

def unattributed (t : Trail) : Trail := { t with events := t.events.map Event.unattributed }

@[simp] theorem halt_unattributed (t : Trail) : t.unattributed.halt = t.halt := rfl

@[simp] theorem unlisted_unattributed (t : Trail) : t.unattributed.unlisted = t.unlisted := rfl

@[simp] theorem violations_unattributed (t : Trail) : t.unattributed.violations = t.violations :=
  Event.violations_unattributed t.events

theorem unattributed_eq_iff {t u : Trail} : u.unattributed = t.unattributed ↔
    u.events.map Event.unattributed = t.events.map Event.unattributed ∧ u.unlisted = t.unlisted ∧ u.halt = t.halt := by
  rw [unattributed, unattributed, mk.injEq]

theorem unattributed_andThen (t u : Trail) : (t.andThen u).unattributed = t.unattributed.andThen u.unattributed := by
  cases h : t.halt with
  | some halt => rw [andThen_of_some h, andThen_of_some (t := t.unattributed) h]
  | none =>
    rw [andThen_of_none h, andThen_of_none (t := t.unattributed) h]
    simp only [unattributed, List.map_append]

theorem unattributed_andIfClean (t u : Trail) :
    (t.andIfClean u).unattributed = t.unattributed.andIfClean u.unattributed := by
  unfold andIfClean
  rw [violations_unattributed]
  split
  · exact unattributed_andThen t u
  · rfl

theorem unattributed_sequence : ∀ (ts : List Trail), (sequence ts).unattributed = sequence (ts.map unattributed)
  | [] => rfl
  | t :: ts => by rw [sequence, unattributed_andThen, unattributed_sequence ts]; rfl

theorem unattributed_under (step : Step) (t : Trail) : (t.under step).unattributed = t.unattributed.under step := rfl

end Trail

namespace Walk

variable {α β : Type}

def unattributed (w : Walk α) : Walk α := ⟨w.left, w.trail.unattributed⟩

theorem unattributed_eq_iff {w w' : Walk α} : w'.unattributed = w.unattributed ↔
    w'.left = w.left ∧ w'.trail.unattributed = w.trail.unattributed := by
  rw [unattributed, unattributed, mk.injEq]

theorem unattributed_map (f : α → β) (w : Walk α) : (w.map f).unattributed = w.unattributed.map f := rfl

theorem unattributed_under (step : Step) (w : Walk α) : (w.under step).unattributed = w.unattributed.under step := rfl

theorem unattributed_after (t : Trail) (untouched : α) (w : Walk α) :
    (w.after t untouched).unattributed = w.unattributed.after t.unattributed untouched := by
  unfold after
  rw [Trail.halt_unattributed]
  cases t.halt with
  | some halt => rfl
  | none => rw [unattributed, Trail.unattributed_andThen]; rfl

theorem unattributed_cons (head : Walk α) (untouched : List α) (tail : Walk (List α)) :
    (head.cons untouched tail).unattributed = head.unattributed.cons untouched tail.unattributed := by
  unfold cons
  rw [unattributed, unattributed, Trail.halt_unattributed]
  cases head.trail.halt with
  | some halt => rfl
  | none => rw [Trail.unattributed_andThen]; rfl

theorem unattributed_each {f g : Nat → α → Walk α} : ∀ {index : Nat} {parts : List α},
    (∀ i, ∀ a ∈ parts, (g i a).unattributed = (f i a).unattributed) →
      (each g index parts).unattributed = (each f index parts).unattributed
  | _, [], _ => rfl
  | index, a :: rest, h => by
    rw [each, each, unattributed_cons, unattributed_cons, h index a List.mem_cons_self,
      unattributed_each fun i b hb => h i b (List.mem_cons_of_mem a hb)]

end Walk

namespace Run

def unattributed (r : Run) : Run := { r with events := r.events.map Event.unattributed }

theorem unattributed_eq_iff {r r' : Run} : r'.unattributed = r.unattributed ↔
    r'.halt = r.halt ∧ r'.document = r.document ∧ r'.events.map Event.unattributed = r.events.map Event.unattributed := by
  rw [unattributed, unattributed, mk.injEq]

theorem violations_unattributed (r : Run) : r.unattributed.violations = r.violations :=
  Event.violations_unattributed r.events

theorem outcome_unattributed (r : Run) : r.unattributed.outcome = r.outcome := by
  rw [outcome, outcome, violations_unattributed]
  rfl

theorem log_unattributed (r : Run) : r.unattributed.log = r.log := Event.log_unattributed r.events

end Run

/-! ## Walks by counterparts -/

namespace Setting

variable {s : Setting} {child : Bool} {e e' : Element}

theorem unattributed_askAll (path : Pointer) (h : e.Counterpart s.judge child e') (v : Value) :
    (s.askAll path e' v).unattributed = (s.askAll path e v).unattributed := by
  rw [askAll, askAll, Trail.unattributed_sequence, Trail.unattributed_sequence, h.validators_eq, List.map_map, List.map_map]
  refine congrArg Trail.sequence (List.map_congr_left fun w hw => ?_)
  simp only [Function.comp_apply, ask, Trail.unattributed_andThen, h.heedless w hw v]
  rfl

theorem unattributed_walkObject (path : Pointer) (h : e.Counterpart s.judge child e')
    {children children' : List (String × Element)} (names : children.map Prod.fst = children'.map Prod.fst)
    (each : List.Forall₂ (Element.Counterpart s.judge true) (children.map Prod.snd) (children'.map Prod.snd))
    {fields : List (Key × Value)} {inside inside' : Walk (List (Key × Value))}
    (hinside : inside'.unattributed = inside.unattributed) :
    (s.walkObject path e' children' fields inside').unattributed =
      (s.walkObject path e children fields inside).unattributed := by
  have hmissing : s.reportMissing path children' fields = s.reportMissing path children fields := by
    rw [reportMissing, reportMissing, Element.missingNames_eq names each]
  have hkeys : s.unlistedKeys children' fields = s.unlistedKeys children fields := by
    simp only [unlistedKeys, Element.isNone_governing?_eq names each]
  have hnote : s.noteUnlisted children' fields = s.noteUnlisted children fields := by
    rw [noteUnlisted, noteUnlisted, hkeys]
  rw [walkObject, walkObject, hmissing, hnote]
  generalize (s.dropMeta path fields).andThen (s.reportMissing path children fields) = opening
  have hwalked : (inside'.after opening fields).unattributed = (inside.after opening fields).unattributed := by
    rw [Walk.unattributed_after, Walk.unattributed_after, hinside]
  generalize inside'.after opening fields = walked', inside.after opening fields = walked at hwalked
  obtain ⟨hleft, htrail⟩ := Walk.unattributed_eq_iff.1 hwalked
  rw [Walk.unattributed, Walk.unattributed]
  simp only [hleft, Trail.unattributed_andThen, Trail.unattributed_andIfClean, htrail, unattributed_askAll path h]

theorem unattributed_walkArray (path : Pointer) (h : e.Counterpart s.judge child e') (shape : ArrayShape)
    {inside inside' : Walk (List Value)} (hinside : inside'.unattributed = inside.unattributed) :
    (s.walkArray path e' shape inside').unattributed = (s.walkArray path e shape inside).unattributed := by
  obtain ⟨hleft, htrail⟩ := Walk.unattributed_eq_iff.1 hinside
  rw [walkArray, walkArray, Walk.unattributed, Walk.unattributed]
  simp only [hleft, Trail.unattributed_andIfClean, htrail, unattributed_askAll path h]

/-- A value is walked in the same way by counterparts.  Only a child of an object is ever walked over null. -/
def WalksAlike (s : Setting) (v : Value) : Prop := ∀ (e : Element) {child : Bool} {e' : Element} (path : Pointer),
  e.Counterpart s.judge child e' → (child = true ∨ v ≠ .null) →
    (s.walk path e' v).unattributed = (s.walk path e v).unattributed

theorem unattributed_walkField {children children' : List (String × Element)} {field : Key × Value}
    (ih : s.WalksAlike field.2) (path : Pointer) (names : children.map Prod.fst = children'.map Prod.fst)
    (each : List.Forall₂ (Element.Counterpart s.judge true) (children.map Prod.snd) (children'.map Prod.snd)) :
    (s.walkField path children' field).unattributed = (s.walkField path children field).unattributed := by
  have hrel := Element.rel_governing? names each field.1
  unfold walkField
  generalize Element.governing? children field.1 = c, Element.governing? children' field.1 = c' at hrel
  cases hrel with
  | none => rfl
  | some h => simp only [Walk.unattributed_under, Walk.unattributed_map, ih _ _ h (.inl rfl)]

theorem unattributed_walkEntry {slots slots' : List (Kind × Element)} {ordered ordered' : List Element} {v : Value}
    (ih : s.WalksAlike v) (path : Pointer) (kinds : slots.map Prod.fst = slots'.map Prod.fst)
    (slot : List.Forall₂ (Element.Counterpart s.judge false) (slots.map Prod.snd) (slots'.map Prod.snd))
    (each : List.Forall₂ (Element.Counterpart s.judge false) ordered ordered') (allowNull : Bool) (i : Nat) :
    (s.walkEntry path slots' ordered' allowNull i v).unattributed =
      (s.walkEntry path slots ordered allowNull i v).unattributed := by
  by_cases hv : v = .null
  · -- what is asked of null does not depend on any element
    subst hv
    rw [walkEntry, walkEntry, Element.entryDemand_null, Element.entryDemand_null]
  · have hrel := Element.rel_entry? kinds slot each i v
    generalize hc : Element.entry? slots ordered i v = c, hc' : Element.entry? slots' ordered' i v = c' at hrel
    cases hrel with
    | none => rw [walkEntry, walkEntry, Element.entryDemand_of_none hv hc, Element.entryDemand_of_none hv hc']
    | some h =>
      rw [walkEntry, walkEntry, Element.entryDemand_of_some hv hc, Element.entryDemand_of_some hv hc']
      simp only [Walk.unattributed_under, ih _ _ h (.inr hv)]

/-- **Counterparts walk a value in the same way**, up to the element about which validators are asked. -/
theorem unattributed_walk (e : Element) (v : Value) : ∀ {child : Bool} {e' : Element} (path : Pointer),
    e.Counterpart s.judge child e' → (child = true ∨ v ≠ .null) →
      (s.walk path e' v).unattributed = (s.walk path e v).unattributed := by
  induction e, v using Element.induct with
  | null e =>
    intro child e' path h hchild
    have hchild : child = true := hchild.resolve_right (absurd rfl)
    rw [walk_null, walk_null, nullField, nullField, Element.name?, Element.name?, h.traits.child hchild]
  | wrong e v hv ha =>
    intro child e' path h _
    rw [walk_wrong s path hv ha, walk_wrong s path hv (h.accepts_eq v ▸ ha), wrongKind, wrongKind, h.kind_eq]
  | scalar e v hv ha =>
    intro child e' path h _
    rw [walk_scalar s path hv ha, walk_scalar s path hv (h.accepts_eq v ▸ ha), h.causes_eq, Walk.unattributed,
      Walk.unattributed]
    simp only [Trail.unattributed_andIfClean, unattributed_askAll path h]
  | object traits children fields ih =>
    intro child e' path h _
    cases id h with
    | object _ _ names each =>
      rw [walk_object, walk_object]
      exact unattributed_walkObject path h names each <| Walk.unattributed_each fun _ field hf =>
        unattributed_walkField (fun e => ih field hf e) path names each
  | array traits slots ordered allowNull shape entries ih =>
    intro child e' path h _
    cases id h with
    | @array _ _ traits' _ slots' _ ordered' _ _ _ kinds slot each =>
      have hlength := each.length_eq
      by_cases hl : ordered = [] ∨ ordered.length = entries.length
      · have hl' : ordered' = [] ∨ ordered'.length = entries.length := by
          rwa [← List.length_eq_zero_iff, ← hlength, List.length_eq_zero_iff]
        rw [walk_array s path traits slots allowNull shape hl, walk_array s path traits' slots' allowNull shape hl']
        refine unattributed_walkArray path h shape ?_
        unfold walkContents
        rw [Element.ofContents_eq_of_forall₂ kinds hlength]
        cases ArrayMode.ofContents slots ordered with
        | any => rfl
        | typed | ordered => exact Walk.unattributed_each fun i v hv =>
            unattributed_walkEntry (fun e => ih v hv e) path kinds slot each allowNull i
      · have hl' : ¬ (ordered' = [] ∨ ordered'.length = entries.length) := by
          rwa [← List.length_eq_zero_iff, ← hlength, List.length_eq_zero_iff]
        rw [walk_array_of_length_ne s path traits slots allowNull shape hl,
          walk_array_of_length_ne s path traits' slots' allowNull shape hl', hlength]

/-! ## Runs by counterparts -/

variable {root root' : Element}

theorem unattributed_walkRoot (h : root.Counterpart s.judge false root') (document : Value) :
    (s.walkRoot root' document).unattributed = (s.walkRoot root document).unattributed := by
  unfold walkRoot
  rw [h.kind_eq, h.accepts_eq]
  split
  · rfl
  · split
    · rfl
    · rename_i haccepts
      refine unattributed_walk root document .root h (.inr ?_)
      rintro rfl
      cases root <;> exact haccepts rfl

theorem unattributed_close (w : Walk Value) : (close w).unattributed = (close w.unattributed).unattributed := by
  simp only [close, Run.unattributed, Walk.unattributed, Trail.violations_unattributed, Trail.unlisted_unattributed,
    List.map_append]
  congr 3
  rw [Trail.unattributed, List.map_map]
  exact List.map_congr_left fun event _ => by cases event <;> rfl

theorem unattributed_run (h : root.Counterpart s.judge false root') (document : Value) :
    (s.run root' document).unattributed = (s.run root document).unattributed := by
  have hwalk := s.unattributed_walkRoot h document
  obtain ⟨hleft, htrail⟩ := Walk.unattributed_eq_iff.1 hwalk
  obtain ⟨hevents, -, hhalt⟩ := Trail.unattributed_eq_iff.1 htrail
  rw [Run.unattributed_eq_iff]
  cases hh : (s.walkRoot root document).trail.halt with
  | some halt =>
    rw [hh] at hhalt
    rw [run_of_some s root document hh, run_of_some s root' document hhalt, h.kind_eq, List.map_cons, List.map_cons, hevents]
    exact ⟨rfl, hleft, rfl⟩
  | none =>
    rw [hh] at hhalt
    have hclose := unattributed_close (s.walkRoot root' document)
    rw [hwalk, ← unattributed_close] at hclose
    obtain ⟨-, hdocument, hevents⟩ := Run.unattributed_eq_iff.1 hclose
    rw [run_of_none s root document hh, run_of_none s root' document hhalt, h.kind_eq, List.map_cons, List.map_cons, hevents]
    exact ⟨rfl, hdocument, rfl⟩

/-- **Attributes without effect have none, in any run.**  If two roots differ only in defaults, in the name of the root or of
elements of arrays and in whether these are required or nullable, and in bounds on the length where values are listed, then
their runs end in the same way, find the same and leave the same.  So no default comes into a document, a root that is null is
refused although it may be nullable, and what is said of a null in an array is a matter of the array alone. -/
theorem run_of_counterpart (s : Setting) (h : root.Counterpart s.judge false root') (document : Value) :
    ((s.run root' document).outcome = (s.run root document).outcome ∧
      (s.run root' document).violations = (s.run root document).violations ∧
      (s.run root' document).document = (s.run root document).document ∧
      (s.run root' document).log = (s.run root document).log) ∧
    (s.run root document).document.RemainsOf document ∧
    (∃ fault, (s.run root .null).violations = [⟨.rootType fault, .root⟩]) ∧
    (root.Constructible → document.Distinct → ∀ tokens traits slots ordered allowNull shape entries (i : Nat),
      root.Governs document tokens (.array traits slots ordered allowNull) (.array shape entries) →
      (ordered = [] ∨ ordered.length = entries.length) → entries[i]? = some .null →
        s.SettlesNull root document tokens slots ordered allowNull i) := by
  have hrun := s.unattributed_run h document
  refine ⟨⟨?_, ?_, (Run.unattributed_eq_iff.1 hrun).2.1, ?_⟩, s.remains_run root document, ?_, ?_⟩
  · rw [← Run.outcome_unattributed, hrun, Run.outcome_unattributed]
  · rw [← Run.violations_unattributed, hrun, Run.violations_unattributed]
  · rw [← Run.log_unattributed, hrun, Run.log_unattributed]
  · have hadmits : root.admits .null = false := by cases root <;> rfl
    obtain ⟨cause, hunfit, hviolations⟩ := violations_run_of_unfit (s := s) hadmits
    cases hunfit with
    | notContainer => exact ⟨_, hviolations⟩
    | wrongKind => exact ⟨_, hviolations⟩
  · intro hroot hd tokens traits slots ordered allowNull shape entries i harray hfits hi
    exact settlesNull_of_governs hroot.distinct hd harray hfits hi

/-- A nullable array with a name and a slot for strings, of which one is listed, beside an array that says as much with less. -/
theorem run_of_counterpart_slot :
    let s : Setting := ⟨{}, fun _ _ _ => .accept⟩
    let entry := Element.string { name := some "entry", nullable := true }
      { minLength := some (.whole 5), validValues := ["a"], default := some (.string "b") }
    let root := Element.array { name := some "list", required := false, nullable := true } [(.string, entry)] [] false
    let root' := Element.array {} [(.string, .string {} { validValues := ["a"] })] [] false
    let document := Value.array .list [.string "a", .null]
    root.Counterpart s.judge false root' ∧ root.Constructible ∧ document.Distinct ∧
      (s.run root' document).violations.map (·.path.text) = ["/1"] ∧
      (s.run root document).violations = (s.run root' document).violations ∧
      s.SettlesNull root document [] [(.string, entry)] [] false 1 := by
  intro s entry root root' document
  have hroot : root.Constructible :=
    @Element.Constructible.array _ [("string", entry)] [] _ _ (List.forall_mem_singleton.2 .string) nofun rfl
  have hd : document.Distinct := .array fun v hv => by
    obtain rfl | rfl : v = .string "a" ∨ v = .null := by simpa using hv
    · exact .scalar rfl
    · exact .null
  have hentry : entry.Counterpart s.judge false (.string {} { validValues := ["a"] }) :=
    .string ⟨rfl, nofun⟩ nofun ⟨rfl, nofun⟩
  have h : root.Counterpart s.judge false root' :=
    .array ⟨rfl, nofun⟩ nofun rfl (.cons hentry .nil) .nil
  obtain ⟨⟨-, hviolations, -, -⟩, -, -, hnull⟩ := run_of_counterpart s h document
  exact ⟨h, hroot, hd, by decide, hviolations.symm, hnull hroot hd [] _ _ _ _ _ _ 1 .root (.inl rfl) rfl⟩

end Setting
end ConfigSchema
