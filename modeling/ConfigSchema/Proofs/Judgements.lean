import ConfigSchema.Proofs.Branches
import ConfigSchema.Proofs.Collected
import ConfigSchema.Proofs.Interrupted
import ConfigSchema.Proofs.Locality
import ConfigSchema.Proofs.Visits
/-!
# Judgements — which validators a run asks, and about what

The validators of a value are asked when the run is done with what is inside it, and only if nothing was wrong there.
So the calls of a run that goes on to the end can be read off the values that it comes to and the errors that it ends up
with (`judgements_run`): those of each value that fits and has no error below it, one value after the other.
-/
namespace ConfigSchema

namespace Trail

/-- The validators that a trail tells of, in order, each with what it was asked about. -/
def judgements (t : Trail) : List (Validator × Element × Value) := t.told Event.judgement?

variable {t : Trail}

theorem judgements_andThen (h : t.halt = none) (u : Trail) : (t.andThen u).judgements = t.judgements ++ u.judgements :=
  told_andThen _ h u

theorem judgements_andIfClean (h : t.halt = none) (u : Trail) :
    (t.andIfClean u).judgements = t.judgements ++ if t.violations = [] then u.judgements else [] := by
  by_cases hv : t.violations = []
  · rw [andIfClean_of_nil hv, judgements_andThen h, if_pos hv]
  · rw [andIfClean_of_ne_nil hv, if_neg hv, List.append_nil]

end Trail

namespace Setting

variable {s : Setting} (path : Pointer)

/-! ## Checks that ask no validator -/

theorem judgements_foundAll (causes : List Cause) : (s.foundAll path causes).judgements = [] :=
  told_foundAll_nil path (fun _ => rfl) causes

theorem judgements_nullField (e : Element) : (s.nullField path e).judgements = [] := told_nullField_nil path (fun _ => rfl) e

theorem judgements_opening (children : List (String × Element)) (fields : List (Key × Value)) :
    ((s.dropMeta path fields).andThen (s.reportMissing path children fields)).judgements = [] :=
  (Trail.told_andThen_nil (told_reportMissing_nil path (fun _ => rfl) children fields)).trans
    (told_dropMeta_nil path (fun _ _ => rfl) fields)

theorem judgements_noteUnlisted (children : List (String × Element)) (fields : List (Key × Value)) :
    (s.noteUnlisted children fields).judgements = [] := told_noteUnlisted_nil children fields

/-! ## The calls of a walk, part by part -/

theorem Collects.judgements_ask (hs : s.Collects) (e : Element) (v : Value) (w : Validator) :
    (s.ask path e v w).judgements = [(w, e, v)] := by
  rw [ask, Trail.judgements_andThen rfl]
  cases hj : s.judge w e v with
  | accept | reject => rfl
  | fail f => exact absurd hj (hs.decides w e v f)

/-- A validator that rejects does not keep the next from being asked. -/
theorem Collects.judgements_askAll (hs : s.Collects) (e : Element) (v : Value) :
    (s.askAll path e v).judgements = e.validators.map fun w => (w, e, v) := by
  rw [askAll, Trail.judgements, Trail.told_sequence, List.flatMap_map, List.map_eq_flatMap]
  · exact congrArg (List.flatMap · e.validators) (funext fun w => hs.judgements_ask path e v w)
  · intro t ht
    obtain ⟨w, -, rfl⟩ := List.mem_map.1 ht
    exact hs.halt_ask path e v w

theorem Collects.judgements_object (hs : s.Collects) (traits : Traits) (children : List (String × Element))
    {fields : List (Key × Value)} (hd : (Value.object fields).Distinct) :
    (s.walk path (.object traits children) (.object fields)).trail.judgements =
      fields.flatMap (fun field => (s.walkField path children field).trail.judgements) ++
        if s.fieldsFindings path children fields = [] then s.calls ⟨path, .object traits children, .object fields⟩
        else [] := by
  have hopen := hs.halt_opening path children fields
  have hwalked := Trail.halt_andThen_eq_none.2 ⟨hopen, hs.halt_walkFields path children 0 fields⟩
  have hleft := left_walk_eq_shed hd (hs.halt_walk (.object traits children) (.object fields) path)
  have hinside : (Walk.each (fun _ => s.walkField path children) 0 fields).trail.judgements =
      fields.flatMap fun field => (s.walkField path children field).trail.judgements := by
    rw [Trail.judgements, Walk.told_each _ fun _ field _ => hs.halt_walkField path children field, Walk.mapIdx_const,
      List.flatMap_def]
    rfl
  rw [walk_object] at hleft ⊢
  rw [trail_walkObject, Trail.judgements_andThen (Trail.halt_andIfClean hwalked (hs.halt_askAll _ _ _)),
    judgements_noteUnlisted, List.append_nil, Trail.judgements_andIfClean hwalked, Trail.judgements_andThen hopen,
    judgements_opening, List.nil_append, hinside, hs.violations_walkFields, hs.judgements_askAll, hleft]
  rfl

theorem Collects.judgements_walkContents (hs : s.Collects) (slots : List (Kind × Element)) (ordered : List Element)
    (allowNull : Bool) (entries : List Value) :
    (s.walkContents path slots ordered allowNull entries).trail.judgements =
      (entries.mapIdx fun i v => (s.walkEntry path slots ordered allowNull i v).trail.judgements).flatten := by
  unfold walkContents
  cases hm : ArrayMode.ofContents slots ordered with
  | any =>
    have hnone : ∀ i v, (s.walkEntry path slots ordered allowNull i v).trail.judgements = [] := by
      intro i v
      unfold walkEntry
      cases hdemand : Element.entryDemand slots ordered allowNull i v with
      | nothing | refused => rfl
      | governed e =>
        have he := (Element.entryDemand_eq_governed hdemand).2
        simp only [Element.entry?, hm] at he
        cases he
    simp only [anyEntries, hnone, Walk.mapIdx_const]
    rw [List.flatten_eq_nil_iff.2 fun l hl => (List.mem_map.1 hl).elim fun _ h => h.2.symm]
    split <;> rfl
  | typed | ordered =>
    simp only
    rw [Trail.judgements, Walk.told_each _ fun i v _ => hs.halt_walkEntry path slots ordered allowNull i v]
    simp only [Nat.zero_add]
    rfl

theorem Collects.judgements_array (hs : s.Collects) (traits : Traits) (slots : List (Kind × Element))
    {ordered : List Element} (allowNull : Bool) (shape : ArrayShape) {entries : List Value}
    (hl : ordered = [] ∨ ordered.length = entries.length) (hd : (Value.array shape entries).Distinct) :
    (s.walk path (.array traits slots ordered allowNull) (.array shape entries)).trail.judgements =
      (entries.mapIdx fun i v => (s.walkEntry path slots ordered allowNull i v).trail.judgements).flatten ++
        if s.contentsFindings path slots ordered allowNull entries = []
        then s.calls ⟨path, .array traits slots ordered allowNull, .array shape entries⟩ else [] := by
  have hinside := hs.halt_walkContents path slots ordered allowNull entries
  have hleft := left_walk_eq_shed hd (hs.halt_walk (.array traits slots ordered allowNull) (.array shape entries) path)
  rw [walk_array s path traits slots allowNull shape hl] at hleft ⊢
  rw [trail_walkArray, Trail.judgements_andIfClean hinside, hs.judgements_walkContents, hs.violations_walkContents,
    hs.judgements_askAll, ← left_walkArray, hleft]
  rfl

end Setting

/-! ## Errors below a value -/

namespace Violation

variable {x : Violation} {path : Pointer}

theorem below_of_prefix {token : String} (h : path.tokens ++ [token] <+: x.path.tokens) : x.Below path := by
  refine ⟨(List.prefix_append _ _).trans h, fun heq => ?_⟩
  have hlength := h.length_le
  rw [heq, List.length_append, List.length_singleton] at hlength
  omega

/-- Only one part of a value leads to a place below it. -/
theorem token_unique {tokens : List String} {a b : String} (ha : tokens ++ [a] <+: x.path.tokens)
    (hb : tokens ++ [b] <+: x.path.tokens) : a = b := by
  have hab := List.prefix_of_prefix_length_le ha hb (by simp)
  rw [List.prefix_append_right_inj] at hab
  exact (List.cons_prefix_cons.1 hab).1

end Violation

namespace Setting

variable {s : Setting} {path : Pointer} {errors inside : List Violation} {e : Element} {v : Value} {x : Violation}

/-- What validators say of a value is said at its place, so what is below is from inside. -/
theorem mem_orRejections_of_below (h : x.Below path) : x ∈ s.orRejections path e v inside ↔ x ∈ inside := by
  unfold orRejections
  split
  · rename_i hnil
    rw [hnil]
    refine ⟨fun hx => ?_, fun hx => nomatch hx⟩
    obtain ⟨w, -, rfl⟩ := List.mem_map.1 hx
    exact absurd rfl h.2
  · exact Iff.rfl

/-- Of all that is found in a value or below, a list of errors holds just what the walk of the value finds. -/
def Tells (s : Setting) (errors : List Violation) (path : Pointer) (e : Element) (v : Value) : Prop :=
  ∀ x : Violation, path.tokens <+: x.path.tokens → (x ∈ errors ↔ x ∈ s.findings path e v)

/-- **The validators of a value are due exactly if nothing is found inside it**, built-in checks included. -/
theorem Tells.due_iff (h : s.Tells errors path e v) (hfindings : s.findings path e v = s.orRejections path e v inside)
    (hbelow : e.Fits v → ∀ x ∈ inside, x.Below path) (hfits : inside = [] → e.Fits v) :
    (⟨path, e, v⟩ : Visit).Due errors ↔ inside = [] := by
  have hinside : ∀ x : Violation, x.Below path → (x ∈ errors ↔ x ∈ inside) := fun x hx => by
    rw [h x hx.1, hfindings, mem_orRejections_of_below hx]
  constructor
  · rintro ⟨hfit, hnone⟩
    refine List.eq_nil_iff_forall_not_mem.2 fun x hx => ?_
    have hb := hbelow hfit x hx
    exact hnone x ((hinside x hb).2 hx) hb
  · intro hnil
    refine ⟨hfits hnil, fun x hx hb => ?_⟩
    have hx := (hinside x hb).1 hx
    rw [hnil] at hx
    cases hx

theorem below_of_mem_fieldsFindings {children : List (String × Element)} {fields : List (Key × Value)}
    (hd : (Value.object fields).Distinct) (hx : x ∈ s.fieldsFindings path children fields) : x.Below path := by
  rcases List.mem_append.1 hx with hx | hx
  · obtain ⟨name, -, rfl⟩ := List.mem_map.1 hx
    exact Violation.below_of_prefix (Violation.prefix_tokens_push path name)
  · obtain ⟨field, hf, hx⟩ := List.mem_flatMap.1 hx
    rw [← violations_walkField] at hx
    obtain ⟨name, child, -, -, hx⟩ := mem_violations_walkField hx
    have hprefix := tokens_prefix_of_mem_walk (hd.of_object.2 field hf) x hx
    rw [Pointer.tokens_push] at hprefix
    exact Violation.below_of_prefix hprefix

/-- What is found in a field is found in its object, and of all that is found there nothing else is at the field's place
or below. -/
theorem Tells.field {traits : Traits} {children : List (String × Element)} {fields : List (Key × Value)}
    {name : String} {child : Element} (hs : s.Collects) (hd : (Value.object fields).Distinct)
    (h : s.Tells errors path (.object traits children) (.object fields)) (hf : (.name name, v) ∈ fields)
    (hchild : Element.child? children name = some child) : s.Tells errors (path.push name) child v := by
  intro x hx
  rw [Pointer.tokens_push] at hx
  have hb := Violation.below_of_prefix hx
  rw [h x hb.1, hs.findings_object, mem_orRejections_of_below hb]
  constructor
  · intro hm
    rcases List.mem_append.1 hm with hm | hm
    · -- a name that is missing is the name of no field
      obtain ⟨missing, hmissing, rfl⟩ := List.mem_map.1 hm
      cases Violation.token_unique hx (Violation.prefix_tokens_push path missing)
      exact absurd (List.mem_map.2 ⟨_, hf, rfl⟩) (Element.not_mem_of_mem_missingNames hmissing)
    · obtain ⟨⟨key, u⟩, hu, hm⟩ := List.mem_flatMap.1 hm
      rw [← violations_walkField] at hm
      obtain ⟨other, child', hkey, hchild', hm⟩ := mem_violations_walkField hm
      cases hkey
      have hprefix := tokens_prefix_of_mem_walk (hd.of_object.2 _ hu) x hm
      rw [Pointer.tokens_push] at hprefix
      cases Violation.token_unique hx hprefix
      cases hchild.symm.trans hchild'
      have hfirst := Assoc.find?_of_mem hd.of_object.1 hf
      rw [Assoc.find?_of_mem hd.of_object.1 hu] at hfirst
      cases hfirst
      exact hm
  · intro hm
    refine List.mem_append_right _ (List.mem_flatMap.2 ⟨_, hf, ?_⟩)
    rw [fieldFindings, Element.governing?, hchild]
    exact hm

theorem below_of_mem_entryFindings {slots : List (Kind × Element)} {ordered : List Element} {allowNull : Bool}
    {index : Nat} (hd : v.Distinct) (hx : x ∈ s.entryFindings path slots ordered allowNull index v) :
    path.tokens ++ [toString index] <+: x.path.tokens := by
  rw [← violations_walkEntry] at hx
  exact tokens_prefix_of_mem_walkEntry hd x hx

theorem contentsFindings_eq_flatten {slots : List (Kind × Element)} {ordered : List Element} {allowNull : Bool}
    {entries : List Value} (h : ¬ (slots = [] ∧ ordered = [])) :
    s.contentsFindings path slots ordered allowNull entries =
      (entries.mapIdx (s.entryFindings path slots ordered allowNull)).flatten := by
  unfold contentsFindings
  cases hm : ArrayMode.ofContents slots ordered with
  | any => exact absurd (ArrayMode.ofContents_eq_any.1 hm) h
  | typed | ordered => rfl

theorem mem_entriesFindings {slots : List (Kind × Element)} {ordered : List Element} {allowNull : Bool}
    {entries : List Value} : x ∈ (entries.mapIdx (s.entryFindings path slots ordered allowNull)).flatten ↔
      ∃ i u, entries[i]? = some u ∧ x ∈ s.entryFindings path slots ordered allowNull i u := by
  rw [List.mem_flatten]
  constructor
  · rintro ⟨l, hl, hx⟩
    obtain ⟨i, hi, rfl⟩ := List.mem_mapIdx.1 hl
    exact ⟨i, _, List.getElem?_eq_getElem hi, hx⟩
  · rintro ⟨i, u, hi, hx⟩
    obtain ⟨hlt, rfl⟩ := List.getElem?_eq_some_iff.1 hi
    exact ⟨_, List.mem_mapIdx.2 ⟨i, hlt, rfl⟩, hx⟩

/-- What is found in an entry is found in its array, and of all that is found there nothing else is at the entry's place
or below. -/
theorem Tells.entry {traits : Traits} {slots : List (Kind × Element)} {ordered : List Element} {allowNull : Bool}
    {shape : ArrayShape} {entries : List Value} {index : Nat} (hs : s.Collects)
    (hl : ordered = [] ∨ ordered.length = entries.length) (hd : (Value.array shape entries).Distinct)
    (h : s.Tells errors path (.array traits slots ordered allowNull) (.array shape entries))
    (hi : entries[index]? = some v) (hdemand : Element.entryDemand slots ordered allowNull index v = .governed e) :
    s.Tells errors (path.entry index) e v := by
  intro x hx
  rw [Pointer.tokens_entry] at hx
  have hb := Violation.below_of_prefix hx
  have hsome : ¬ (slots = [] ∧ ordered = []) := by
    rintro ⟨rfl, rfl⟩
    cases (Element.entryDemand_eq_governed hdemand).2
  rw [h x hb.1, hs.findings_array _ _ _ _ _ hl, mem_orRejections_of_below hb, contentsFindings_eq_flatten hsome,
    mem_entriesFindings]
  constructor
  · rintro ⟨i, u, hu, hm⟩
    have hindex := congrArg Value.index? (Violation.token_unique hx
      (below_of_mem_entryFindings (hd.of_array u (List.mem_of_getElem? hu)) hm))
    rw [Value.index?_toString, Value.index?_toString] at hindex
    cases hindex
    cases hi.symm.trans hu
    rwa [entryFindings, hdemand] at hm
  · intro hm
    refine ⟨index, v, hi, ?_⟩
    rwa [entryFindings, hdemand]

/-- An entry in which nothing is found is a null that the array takes, or of the kind of the element that governs it. -/
theorem Collects.of_entryFindings (hs : s.Collects) {slots : List (Kind × Element)} {ordered : List Element}
    {allowNull : Bool} {index : Nat} (h : s.entryFindings path slots ordered allowNull index v = []) :
    v = .null ∧ allowNull = true ∨
      v ≠ .null ∧ ∃ e, Element.entry? slots ordered index v = some e ∧ v.isOf e.kind = true := by
  unfold entryFindings at h
  cases hdemand : Element.entryDemand slots ordered allowNull index v with
  | nothing => exact .inl (Element.entryDemand_eq_nothing hdemand)
  | refused cause => rw [hdemand] at h; cases h
  | governed e =>
    rw [hdemand] at h
    obtain ⟨hpresent, he⟩ := Element.entryDemand_eq_governed hdemand
    have hconforms := (clean_walk e v _).1 ⟨hs.halt_walk e v (path.entry index), h⟩
    exact .inr ⟨hpresent, e, he, hconforms.accepts hpresent⟩

/-- An array fits its element if nothing is found inside it. -/
theorem Collects.fits_of_contentsFindings (hs : s.Collects) {traits : Traits} {slots : List (Kind × Element)}
    {ordered : List Element} {allowNull : Bool} {shape : ArrayShape} {entries : List Value}
    (hl : ordered = [] ∨ ordered.length = entries.length)
    (h : s.contentsFindings path slots ordered allowNull entries = []) :
    (Element.array traits slots ordered allowNull).Fits (.array shape entries) := by
  have hentries : ¬ (slots = [] ∧ ordered = []) → ∀ u ∈ entries, u = .null ∧ allowNull = true ∨
      u ≠ .null ∧ ∃ i e, Element.entry? slots ordered i u = some e ∧ u.isOf e.kind = true := by
    intro hsome u hu
    obtain ⟨i, hi⟩ := List.getElem?_of_mem hu
    rw [contentsFindings_eq_flatten hsome] at h
    have hnone : s.entryFindings path slots ordered allowNull i u = [] :=
      List.eq_nil_iff_forall_not_mem.2 fun x hx =>
        List.eq_nil_iff_forall_not_mem.1 h x (mem_entriesFindings.2 ⟨i, u, hi, hx⟩)
    exact (hs.of_entryFindings hnone).imp_right fun ⟨hpresent, he⟩ => ⟨hpresent, i, he⟩
  refine ⟨fun hnull => ?_, fun ho => hl.resolve_left ho, fun ho hsl u hu hpresent => ?_⟩
  · by_cases hany : slots = [] ∧ ordered = []
    · obtain ⟨rfl, rfl⟩ := hany
      cases allowNull with
      | true => rfl
      | false =>
        have hfound : entries.any (·.isNull) = true := List.any_eq_true.2 ⟨_, hnull, rfl⟩
        simp only [contentsFindings, ArrayMode.ofContents, hfound] at h
        cases h
    · obtain ⟨-, hallowed⟩ | ⟨hpresent, -⟩ := hentries hany .null hnull
      · exact hallowed
      · exact absurd rfl hpresent
  · -- the entry is of the kind of the element in whose slot it falls
    obtain ⟨hnull, -⟩ | ⟨-, i, e, he, hkind⟩ := hentries (fun hany => hsl hany.1) u hu
    · exact absurd hnull hpresent
    · rw [ho, Element.entry?_typed hsl, Element.slot?_kindName hkind] at he
      obtain ⟨kind, hslot, hsame⟩ := Assoc.exists_of_find? he
      exact ⟨_, hslot, (beq_iff_eq.1 hsame).symm ▸ hkind⟩

/-- The calls that are due of a list of visited values. -/
def dueCalls (s : Setting) (errors : List Violation) (visits : List Visit) : List (Validator × Element × Value) :=
  (visits.filter (·.Due errors)).flatMap s.calls

theorem dueCalls_append (visits visits' : List Visit) :
    s.dueCalls errors (visits ++ visits') = s.dueCalls errors visits ++ s.dueCalls errors visits' := by
  rw [dueCalls, List.filter_append, List.flatMap_append]
  rfl

theorem dueCalls_singleton (n : Visit) : s.dueCalls errors [n] = if n.Due errors then s.calls n else [] := by
  unfold dueCalls
  rw [List.filter_cons]
  by_cases h : n.Due errors <;> simp [h]

theorem dueCalls_flatten : ∀ (visits : List (List Visit)),
    s.dueCalls errors visits.flatten = (visits.map (s.dueCalls errors)).flatten
  | [] => rfl
  | first :: rest => by
    rw [List.flatten_cons, dueCalls_append, dueCalls_flatten rest]
    rfl

/-- The calls that a walk makes are those that are due of the values that it comes to. -/
def MakesDueCalls (s : Setting) (errors : List Violation) (v : Value) : Prop := ∀ e path, v.Distinct →
  s.Tells errors path e v → (s.walk path e v).trail.judgements = s.dueCalls errors (e.visits path v)

theorem dueCalls_of_not_accepts (path : Pointer) (h : e.accepts v = false) :
    s.dueCalls errors (e.visits path v) = [] := by
  rw [Element.visits_of_not_accepts path h, dueCalls_singleton, if_neg fun hdue => ?_]
  have hfits := hdue.1.accepts
  rw [h] at hfits
  cases hfits

theorem judgements_walkFields {traits : Traits} {children : List (String × Element)} {fields : List (Key × Value)}
    (hs : s.Collects) (hd : (Value.object fields).Distinct)
    (h : s.Tells errors path (.object traits children) (.object fields))
    (ih : ∀ field ∈ fields, s.MakesDueCalls errors field.2) :
    fields.flatMap (fun field => (s.walkField path children field).trail.judgements) =
      s.dueCalls errors (fields.flatMap (Element.fieldVisits path children)) := by
  rw [List.flatMap_def, List.flatMap_def, dueCalls_flatten, List.map_map]
  congr 1
  refine List.map_congr_left fun field hf => ?_
  obtain ⟨key, v⟩ := field
  unfold walkField
  rw [Function.comp_apply, Element.fieldVisits]
  cases key with
  | number | null => rfl
  | name name =>
    cases hchild : Element.child? children name with
    | none => simp only [Element.governing?, hchild]; rfl
    | some child =>
      simp only [Element.governing?, hchild]
      exact ih _ hf child _ (hd.of_object.2 _ hf) (h.field hs hd hf hchild)

theorem judgements_walkEntry {traits : Traits} {slots : List (Kind × Element)} {ordered : List Element}
    {allowNull : Bool} {shape : ArrayShape} {entries : List Value} {index : Nat} (hs : s.Collects)
    (hl : ordered = [] ∨ ordered.length = entries.length) (hd : (Value.array shape entries).Distinct)
    (h : s.Tells errors path (.array traits slots ordered allowNull) (.array shape entries))
    (hi : entries[index]? = some v) (ih : s.MakesDueCalls errors v) :
    (s.walkEntry path slots ordered allowNull index v).trail.judgements =
      s.dueCalls errors (Element.entryVisits path slots ordered index v) := by
  rw [Element.entryVisits_eq path slots ordered allowNull, walkEntry]
  cases hdemand : Element.entryDemand slots ordered allowNull index v with
  | nothing | refused => rfl
  | governed e => exact ih e _ (hd.of_array v (List.mem_of_getElem? hi)) (h.entry hs hl hd hi hdemand)

theorem judgements_walkEntries {traits : Traits} {slots : List (Kind × Element)} {ordered : List Element}
    {allowNull : Bool} {shape : ArrayShape} {entries : List Value} (hs : s.Collects)
    (hl : ordered = [] ∨ ordered.length = entries.length) (hd : (Value.array shape entries).Distinct)
    (h : s.Tells errors path (.array traits slots ordered allowNull) (.array shape entries))
    (ih : ∀ v ∈ entries, s.MakesDueCalls errors v) :
    (entries.mapIdx fun i v => (s.walkEntry path slots ordered allowNull i v).trail.judgements).flatten =
      s.dueCalls errors (entries.mapIdx (Element.entryVisits path slots ordered)).flatten := by
  rw [dueCalls_flatten]
  refine congrArg List.flatten (List.mapIdx_eq_iff.2 fun i => ?_)
  rw [List.getElem?_map, List.getElem?_mapIdx]
  cases hi : entries[i]? with
  | none => rfl
  | some v =>
    rw [Option.map_some, Option.map_some, Option.map_some,
      judgements_walkEntry hs hl hd h hi (ih v (List.mem_of_getElem? hi))]

theorem Collects.due_scalar (hs : s.Collects) (h : s.Tells errors path e v) (hv : v.isScalar = true)
    (ha : e.accepts v = true) : (⟨path, e, v⟩ : Visit).Due errors ↔ e.causes v = [] := by
  have hfindings : s.findings path e v = s.orRejections path e v ((e.causes v).map (⟨·, path⟩)) := by
    rw [hs.findings_scalar path hv ha, orRejections, s.options.prune_scalar _ _ hv]
    simp only [List.map_eq_nil_iff]
  rw [h.due_iff hfindings (fun hfits x hx => ?_) fun hnil => ?_, List.map_eq_nil_iff]
  · rw [(Element.fits_scalar hv ha).1 hfits] at hx
    cases hx
  · exact (Element.fits_scalar hv ha).2 (List.map_eq_nil_iff.1 hnil)

theorem Collects.due_object (hs : s.Collects) {traits : Traits} {children : List (String × Element)}
    {fields : List (Key × Value)} (hd : (Value.object fields).Distinct)
    (h : s.Tells errors path (.object traits children) (.object fields)) :
    (⟨path, .object traits children, .object fields⟩ : Visit).Due errors ↔
      s.fieldsFindings path children fields = [] := by
  refine h.due_iff (hs.findings_object path traits children fields) (fun _ x => below_of_mem_fieldsFindings hd)
    fun hnil => ?_
  exact Element.missingNames_eq_nil.1 (List.map_eq_nil_iff.1 (List.append_eq_nil_iff.1 hnil).1)

theorem Collects.due_array (hs : s.Collects) {traits : Traits} {slots : List (Kind × Element)} {ordered : List Element}
    {allowNull : Bool} {shape : ArrayShape} {entries : List Value}
    (hl : ordered = [] ∨ ordered.length = entries.length) (hd : (Value.array shape entries).Distinct)
    (h : s.Tells errors path (.array traits slots ordered allowNull) (.array shape entries)) :
    (⟨path, .array traits slots ordered allowNull, .array shape entries⟩ : Visit).Due errors ↔
      s.contentsFindings path slots ordered allowNull entries = [] := by
  refine h.due_iff (hs.findings_array path traits slots allowNull shape hl) (fun hfits x hx => ?_)
    fun hnil => hs.fits_of_contentsFindings hl hnil
  by_cases hany : slots = [] ∧ ordered = []
  · -- nulls of an array that takes any entries are found at the array itself, which does not fit then
    obtain ⟨rfl, rfl⟩ := hany
    unfold contentsFindings at hx
    simp only [ArrayMode.ofContents, List.isEmpty_nil, Bool.not_true, Bool.false_eq_true, if_false] at hx
    split at hx
    · rename_i hnulls
      obtain ⟨hno, hany⟩ := Bool.and_eq_true_iff.1 hnulls
      obtain ⟨u, hu, hnull⟩ := List.any_eq_true.1 hany
      rw [hfits.1 (Value.isNull_iff.1 hnull ▸ hu)] at hno
      cases hno
    · cases hx
  · rw [contentsFindings_eq_flatten hany] at hx
    obtain ⟨i, u, hi, hx⟩ := mem_entriesFindings.1 hx
    exact Violation.below_of_prefix (below_of_mem_entryFindings (hd.of_array u (List.mem_of_getElem? hi)) hx)

/-- **The calls that a walk makes are those that are due**, in the order in which it is done with the values. -/
theorem Collects.judgements_walk (hs : s.Collects) (errors : List Violation) (e : Element) (v : Value) :
    ∀ path, v.Distinct → s.Tells errors path e v →
      (s.walk path e v).trail.judgements = s.dueCalls errors (e.visits path v) := by
  induction e, v using Element.induct with
  | null e =>
    intro path _ _
    rw [walk_null, dueCalls_of_not_accepts path (by cases e <;> rfl)]
    exact judgements_nullField path e
  | wrong e v hv ha =>
    intro path _ _
    rw [walk_wrong s path hv ha, dueCalls_of_not_accepts path ha]
    rfl
  | scalar e v hv ha =>
    intro path _ h
    have hcalls : s.calls ⟨path, e, v⟩ = e.validators.map fun w => (w, e, v) := by
      simp only [calls, s.options.shed_scalar _ hv]
    rw [walk_scalar s path hv ha, Trail.judgements_andIfClean (hs.halt_foundAll path _), judgements_foundAll,
      hs.violations_foundAll, hs.judgements_askAll, Element.visits_scalar path e hv, dueCalls_singleton, hcalls]
    simp only [List.map_eq_nil_iff, List.nil_append, hs.due_scalar h hv ha]
  | object traits children fields ih =>
    intro path hd h
    rw [hs.judgements_object path traits children hd, Element.visits_object, dueCalls_append, dueCalls_singleton,
      judgements_walkFields hs hd h ih]
    simp only [hs.due_object hd h]
  | array traits slots ordered allowNull shape entries ih =>
    intro path hd h
    by_cases hl : ordered = [] ∨ ordered.length = entries.length
    · rw [hs.judgements_array path traits slots allowNull shape hl hd,
        Element.visits_array path traits slots allowNull shape hl, dueCalls_append, dueCalls_singleton,
        judgements_walkEntries hs hl hd h ih]
      simp only [hs.due_array hl hd h]
    · rw [walk_array_of_length_ne s path traits slots allowNull shape hl,
        Element.visits_array_of_length_ne path traits slots allowNull shape hl, dueCalls_singleton,
        if_neg fun hdue => ?_]
      · rfl
      · exact hl (Decidable.or_iff_not_imp_left.2 hdue.1.2.1)

theorem judgements_close (w : Walk Value) : (close w).judgements = w.trail.judgements := by
  simp only [close, Run.judgements]
  split <;> simp [Event.judgement?, Trail.judgements, Trail.told]

theorem judgements_run_eq_walk (root : Element) (document : Value) :
    (s.run root document).judgements = (s.walkRoot root document).trail.judgements := by
  cases h : (s.walkRoot root document).trail.halt with
  | some halt => rw [s.run_of_some root document h]; rfl
  | none => rw [s.run_of_none root document h, ← judgements_close]; rfl

/-- **A run that goes on to the end makes the calls that are due**: it is done with the values that it comes to one
after the other, and asks the validators of each that fits and has no error below it, all of them, in their order. -/
theorem judgements_run (hs : s.Collects) {root : Element} {document : Value} (hd : document.Distinct) :
    (s.run root document).judgements =
      ((root.documentVisits document).filter (·.Due (s.run root document).violations)).flatMap s.calls := by
  rw [judgements_run_eq_walk, Element.documentVisits]
  cases ha : root.admits document with
  | false =>
    obtain ⟨fault, hw⟩ := s.walkRoot_of_not_admits root document ha
    rw [hw]
    rfl
  | true =>
    rw [s.walkRoot_of_admits root document ha, if_pos rfl]
    refine hs.judgements_walk _ root document .root hd fun x _ => ?_
    rw [violations_run_eq_findings ha]

/-- A declared meta field is judged before it leaves the document, and a rejection in a field keeps the validators of the
document from being asked, but not the second one of the field. -/
theorem judgements_run_rejected :
    let first : Validator := ⟨"first", "first"⟩
    let second : Validator := ⟨"second", "second"⟩
    let s : Setting := ⟨{ pruneUnlisted := true }, fun w _ _ => if w = first then .reject else .accept⟩
    let note := Element.object { validators := [second] } []
    let field := Element.object { validators := [first, second] } [("x", .number {} {})]
    let root := Element.object { validators := [second] } [("a", field), ("$note", note)]
    let document := Value.object [(.name "$note", .object [(.name "$m", .null), (.name "extra", .null)]),
      (.name "a", .object [(.name "$m", .null), (.name "x", .number (.whole 1)), (.name "extra", .null)])]
    let left := Value.object [(.name "x", .number (.whole 1)), (.name "extra", .null)]
    (s.run root document).judgements =
      [(second, note, .object [(.name "extra", .null)]), (first, field, left), (second, field, left)] := by
  intro first second s note field root document left
  have hs : s.Collects := by
    refine ⟨rfl, fun w e v f hj => ?_⟩
    simp only [s] at hj
    split at hj <;> cases hj
  have hd : document.Distinct := by
    have hextra : ∀ v : Value, v = .null ∨ v = .number (.whole 1) → v.Distinct := by
      rintro v (rfl | rfl)
      · exact .null
      · exact .scalar rfl
    refine .object (by decide) fun field hf => ?_
    simp only [List.mem_cons, List.not_mem_nil, or_false] at hf
    obtain rfl | rfl := hf <;> refine .object (by decide) fun field hf => hextra _ ?_ <;>
      simp only [List.mem_cons, List.not_mem_nil, or_false] at hf
    · obtain rfl | rfl := hf <;> simp
    · obtain rfl | rfl | rfl := hf <;> simp
  rw [judgements_run hs hd]
  unfold s root document left note field first second
  rfl

end Setting
end ConfigSchema
