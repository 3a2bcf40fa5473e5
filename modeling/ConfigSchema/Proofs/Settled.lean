import ConfigSchema.Proofs.Conformance
import ConfigSchema.Proofs.Declared
import ConfigSchema.Proofs.Notes
/-!
# Settled — a document that a run has pruned already

Pruning a value again takes nothing more out of it (`prune_prune`), and from a value without anything to take out a walk
takes nothing out however it ends.  So a run on what an accepting run has left leaves it as it is.  It accepts it again,
if what the options take out is nothing that an object requires or that the validators of an object or array could have
looked at (`Options.Harmless`).
-/
namespace ConfigSchema

/-! ## Pruning again -/

namespace Options

variable (o : Options)

/-- Pruning changes no more of a value than its parts: whatever does not look at the parts is the same afterwards. -/
theorem prune_congr {α : Type} {g : Value → α}
    (object : ∀ fields fields', g (.object fields) = g (.object fields'))
    (array : ∀ shape entries entries', g (.array shape entries) = g (.array shape entries')) (unlisted : Bool)
    (e : Element) (v : Value) : g (o.prune unlisted e v) = g v := by
  cases ha : e.accepts v with
  | false => rw [o.prune_of_not_accepts unlisted ha]
  | true =>
    cases v with
    | object fields =>
      cases e with
      | object traits children =>
        rw [prune_object]
        exact object _ _
      | array | string | number | boolean => cases ha
    | array shape entries =>
      cases e with
      | array traits slots ordered allowNull =>
        by_cases hl : ordered = [] ∨ ordered.length = entries.length
        · rw [prune_array _ _ _ _ _ _ hl]
          exact array shape _ _
        · rw [prune_array_of_length_ne _ _ _ _ _ _ hl]
      | object => rw [Element.object_accepts_array] at ha; cases ha
      | string | number | boolean => cases ha
    | null | boolean | number | string | foreign => rfl

@[simp] theorem isNull_prune (unlisted : Bool) (e : Element) (v : Value) : (o.prune unlisted e v).isNull = v.isNull :=
  o.prune_congr (fun _ _ => rfl) (fun _ _ _ => rfl) unlisted e v

@[simp] theorem kindName_prune (unlisted : Bool) (e : Element) (v : Value) :
    (o.prune unlisted e v).kindName = v.kindName :=
  o.prune_congr (fun _ _ => rfl) (fun _ _ _ => rfl) unlisted e v

@[simp] theorem admits_prune (unlisted : Bool) (root e : Element) (v : Value) :
    root.admits (o.prune unlisted e v) = root.admits v :=
  o.prune_congr (g := root.admits) (fun _ _ => by cases root <;> rfl) (fun _ _ _ => by cases root <;> rfl) unlisted e v

@[simp] theorem isNull_pruneEntry (unlisted : Bool) (slots : List (Kind × Element)) (ordered : List Element)
    (index : Nat) (v : Value) : (o.pruneEntry unlisted slots ordered index v).isNull = v.isNull := by
  unfold pruneEntry
  split
  · exact o.isNull_prune unlisted _ v
  · rfl

/-- The pruned entry of an array is governed by the element that governed the entry. -/
@[simp] theorem entry?_pruneEntry (unlisted : Bool) (slots : List (Kind × Element)) (ordered : List Element)
    (index : Nat) (v : Value) : Element.entry? slots ordered index (o.pruneEntry unlisted slots ordered index v) =
      Element.entry? slots ordered index v := by
  unfold pruneEntry
  split
  · exact Element.entry?_congr (o.kindName_prune _ _ v) slots ordered index
  · rfl

theorem keeps_or (unlisted unlisted' : Bool) (children : List (String × Element)) (key : Key) :
    (o.keeps unlisted children key && o.keeps unlisted' children key) =
      o.keeps (unlisted || unlisted') children key := by
  unfold keeps
  cases o.isMeta key <;> cases unlisted <;> cases unlisted' <;> cases Element.governing? children key <;> simp

theorem pruneField_pruneField {unlisted unlisted' : Bool} {children : List (String × Element)} {field : Key × Value}
    (ih : ∀ child, o.prune unlisted' child (o.prune unlisted child field.2) =
      o.prune (unlisted || unlisted') child field.2) :
    o.pruneField unlisted' children (o.pruneField unlisted children field) =
      o.pruneField (unlisted || unlisted') children field := by
  unfold pruneField
  cases Element.governing? children field.1 with
  | none => rfl
  | some child => simp only [ih child]

theorem pruneEntry_pruneEntry {unlisted unlisted' : Bool} {slots : List (Kind × Element)} {ordered : List Element}
    {index : Nat} {v : Value}
    (ih : ∀ e, o.prune unlisted' e (o.prune unlisted e v) = o.prune (unlisted || unlisted') e v) :
    o.pruneEntry unlisted' slots ordered index (o.pruneEntry unlisted slots ordered index v) =
      o.pruneEntry (unlisted || unlisted') slots ordered index v := by
  rw [pruneEntry, entry?_pruneEntry]
  unfold pruneEntry
  cases Element.entry? slots ordered index v with
  | none => rfl
  | some e => exact ih e

/-- **Pruning what was pruned is pruning once**, of all that either takes out. -/
theorem prune_prune (unlisted unlisted' : Bool) (e : Element) (v : Value) :
    o.prune unlisted' e (o.prune unlisted e v) = o.prune (unlisted || unlisted') e v := by
  induction e, v using Element.induct with
  | null e => rfl
  | wrong e v hv ha => rw [o.prune_of_not_accepts _ ha, o.prune_of_not_accepts _ ha, o.prune_of_not_accepts _ ha]
  | scalar e v hv ha => rw [o.prune_scalar _ e hv, o.prune_scalar _ e hv, o.prune_scalar _ e hv]
  | object traits children fields ih =>
    -- pruning a field leaves its key, so the second filter can be asked first
    have hkeeps : ∀ field : Key × Value, (o.keeps unlisted children field.1 &&
        o.keeps unlisted' children (o.pruneField unlisted children field).1) =
        o.keeps (unlisted || unlisted') children field.1 := fun field => o.keeps_or unlisted unlisted' children field.1
    rw [prune_object, prune_object, prune_object, List.filter_map, List.filter_filter, List.map_map]
    simp only [Function.comp_def, Bool.and_comm (o.keeps unlisted' _ _), hkeeps]
    congr 1
    exact List.map_congr_left fun field hf => o.pruneField_pruneField (ih field (List.mem_filter.1 hf).1)
  | array traits slots ordered allowNull shape entries ih =>
    by_cases hl : ordered = [] ∨ ordered.length = entries.length
    · rw [prune_array _ _ _ _ _ _ hl, prune_array _ _ _ _ _ _ hl, prune_array _ _ _ _ _ _ (by simpa using hl),
        List.mapIdx_mapIdx]
      congr 1
      exact List.mapIdx_eq_mapIdx_iff.2 fun i hi => o.pruneEntry_pruneEntry (ih _ (List.getElem_mem hi))
    · simp only [prune_array_of_length_ne _ _ _ _ _ _ hl]

theorem mem_of_pruned {unlisted : Bool} {children : List (String × Element)} {fields : List (Key × Value)}
    {field : Key × Value}
    (h : field ∈ (fields.filter (o.keeps unlisted children ·.1)).map (o.pruneField unlisted children)) :
    ∃ v, (field.1, v) ∈ fields ∧ field = o.pruneField unlisted children (field.1, v) := by
  obtain ⟨field', hf, rfl⟩ := List.mem_map.1 h
  exact ⟨field'.2, (List.mem_filter.1 hf).1, rfl⟩

/-- No name is met twice in an object that was pruned. -/
theorem distinct_prune (unlisted : Bool) (e : Element) (v : Value) : v.Distinct → (o.prune unlisted e v).Distinct := by
  induction e, v using Element.induct with
  | null e => exact id
  | wrong e v hv ha => exact fun hd => (o.prune_of_not_accepts unlisted ha).symm ▸ hd
  | scalar e v hv ha => exact fun hd => (o.prune_scalar unlisted e hv).symm ▸ hd
  | object traits children fields ih =>
    intro hd
    obtain ⟨hnames, heach⟩ := hd.of_object
    rw [prune_object]
    refine .object ?_ fun field hm => ?_
    · rw [List.filterMap_map]
      exact hnames.sublist (List.filter_sublist.filterMap _)
    · obtain ⟨v, hf, heq⟩ := o.mem_of_pruned hm
      have hv := heach _ hf
      rw [heq]
      unfold pruneField
      cases Element.governing? children field.1 with
      | none => exact hv
      | some child => exact ih _ hf child hv
  | array traits slots ordered allowNull shape entries ih =>
    intro hd
    by_cases hl : ordered = [] ∨ ordered.length = entries.length
    · rw [prune_array _ _ _ _ _ _ hl]
      refine .array fun v hm => ?_
      obtain ⟨i, hi, rfl⟩ := List.mem_mapIdx.1 hm
      have hv := hd.of_array _ (List.getElem_mem hi)
      unfold pruneEntry
      cases Element.entry? slots ordered i entries[i] with
      | none => exact hv
      | some e => exact ih _ (List.getElem_mem hi) e hv
    · rw [prune_array_of_length_ne _ _ _ _ _ _ hl]
      exact hd

/-- An object that pruning leaves as it is holds no field to take out, and each of its fields is left as it is. -/
theorem of_prune_object_eq_self {unlisted : Bool} {traits : Traits} {children : List (String × Element)}
    {fields : List (Key × Value)} (h : o.prune unlisted (.object traits children) (.object fields) = .object fields) :
    ∀ field ∈ fields, o.keeps unlisted children field.1 = true ∧ o.pruneField unlisted children field = field := by
  rw [prune_object, Value.object.injEq] at h
  have hall : fields.filter (o.keeps unlisted children ·.1) = fields := by
    refine List.filter_sublist.eq_of_length ?_
    rw [← congrArg List.length h, List.length_map]
  rw [hall] at h
  intro field hf
  exact ⟨List.filter_eq_self.1 hall field hf, List.map_inj_left.1 (h.trans (List.map_id fields).symm) field hf⟩

theorem of_prune_array_eq_self {unlisted : Bool} {traits : Traits} {slots : List (Kind × Element)}
    {ordered : List Element} {allowNull : Bool} {shape : ArrayShape} {entries : List Value}
    (hl : ordered = [] ∨ ordered.length = entries.length)
    (h : o.prune unlisted (.array traits slots ordered allowNull) (.array shape entries) = .array shape entries) :
    ∀ i v, entries[i]? = some v → o.pruneEntry unlisted slots ordered i v = v := by
  rw [prune_array _ _ _ _ _ _ hl, Value.array.injEq] at h
  intro i v hi
  have hentry := List.mapIdx_eq_iff.1 h.2 i
  rw [hi, Option.map_some] at hentry
  exact (Option.some.inj hentry).symm

end Options

/-! ## Walking a value without anything to take out -/

/-- A walk of a list whose parts are all left as they are leaves the list as it is, however it ends. -/
theorem Walk.left_each_eq_self {α : Type} {f : Nat → α → Walk α} : ∀ {index : Nat} {parts : List α},
    (∀ i a, parts[i]? = some a → (f (index + i) a).left = a) → (each f index parts).left = parts
  | _, [], _ => rfl
  | index, a :: rest, h => by
    have ha : (f index a).left = a := h 0 a rfl
    have hrest : (each f (index + 1) rest).left = rest := by
      refine left_each_eq_self fun i b hb => ?_
      rw [Nat.add_assoc, Nat.add_comm 1]
      exact h (i + 1) b hb
    rw [each]
    cases hh : (f index a).trail.halt with
    | some halt => simp only [cons, hh, ha]
    | none => rw [left_cons hh, ha, hrest]

theorem Walk.left_after_eq_self {α : Type} {w : Walk α} {untouched : α} (h : w.left = untouched) (t : Trail) :
    (w.after t untouched).left = untouched := by
  unfold after
  cases t.halt with
  | some halt => rfl
  | none => exact h

namespace Setting

variable {s : Setting}

/-- Walks leave a value as it is where pruning its meta fields does. -/
def LeavesSettled (s : Setting) (v : Value) : Prop :=
  ∀ e path, s.options.prune false e v = v → (s.walk path e v).left = v

theorem left_walkField_of_settled {path : Pointer} {children : List (String × Element)} {field : Key × Value}
    (ih : s.LeavesSettled field.2) (h : s.options.pruneField false children field = field) :
    (s.walkField path children field).left = field := by
  unfold walkField
  unfold Options.pruneField at h
  cases hg : Element.governing? children field.1 with
  | none => rfl
  | some child =>
    rw [hg] at h
    rw [Walk.left_under, Walk.left_map, ih child _ (congrArg Prod.snd h)]

theorem left_walkEntry_of_settled {path : Pointer} {slots : List (Kind × Element)} {ordered : List Element}
    {allowNull : Bool} {index : Nat} {v : Value} (ih : s.LeavesSettled v)
    (h : s.options.pruneEntry false slots ordered index v = v) :
    (s.walkEntry path slots ordered allowNull index v).left = v := by
  unfold walkEntry
  cases hdemand : Element.entryDemand slots ordered allowNull index v with
  | nothing | refused => rfl
  | governed e =>
    rw [Options.pruneEntry, (Element.entryDemand_eq_governed hdemand).2] at h
    exact ih e _ h

/-- **A walk leaves a value without anything to take out as it is**, also if it ends early. -/
theorem left_walk_of_settled (e : Element) (v : Value) : ∀ path, s.options.prune false e v = v →
    (s.walk path e v).left = v := by
  induction e, v using Element.induct with
  | null e => exact fun path _ => by rw [walk_null]
  | wrong e v hv ha => exact fun path _ => by rw [walk_wrong s path hv ha]
  | scalar e v hv ha => exact fun path _ => by rw [walk_scalar s path hv ha]
  | object traits children fields ih =>
    intro path h
    have hfields := s.options.of_prune_object_eq_self h
    have hinside : (Walk.each (fun _ => s.walkField path children) 0 fields).left = fields :=
      Walk.left_each_eq_self fun _ field hi =>
        have hf := List.mem_of_getElem? hi
        left_walkField_of_settled (ih field hf) (hfields field hf).2
    have hkept : fields.filter (fun field => !s.options.drops field.1) = fields :=
      List.filter_eq_self.2 fun field hf => s.options.keeps_false children field.1 ▸ (hfields field hf).1
    rw [walk_object, walkObject, Walk.left_after_eq_self hinside, hkept]
  | array traits slots ordered allowNull shape entries ih =>
    intro path h
    by_cases hl : ordered = [] ∨ ordered.length = entries.length
    · have hentries := s.options.of_prune_array_eq_self hl h
      rw [walk_array s path traits slots allowNull shape hl, left_walkArray]
      congr 1
      unfold walkContents
      cases ArrayMode.ofContents slots ordered with
      | any => rfl
      | typed | ordered =>
        refine Walk.left_each_eq_self fun i v hi => ?_
        rw [Nat.zero_add]
        exact left_walkEntry_of_settled (ih v (List.mem_of_getElem? hi)) (hentries i v hi)
    · rw [walk_array_of_length_ne s path traits slots allowNull shape hl]

theorem admits_of_clean_walkRoot {root : Element} {document : Value} (h : (s.walkRoot root document).trail.Clean) :
    root.admits document = true := by
  cases ha : root.admits document with
  | true => rfl
  | false =>
    obtain ⟨fault, hw⟩ := s.walkRoot_of_not_admits root document ha
    rw [hw] at h
    exact absurd h (s.not_clean_found _ _)

/-- A run without violations leaves its document pruned. -/
theorem document_run_of_clean {root : Element} {document : Value} (hd : document.Distinct)
    (h : (s.walkRoot root document).trail.Clean) :
    (s.run root document).document = s.options.prune s.options.pruneUnlisted root document := by
  rw [document_run_of_admits hd (admits_of_clean_walkRoot h) h.halt, violations_run, h.violations, List.isEmpty_nil,
    Bool.and_true]

/-- **A run leaves a document without anything to take out as it is**, whatever it gives. -/
theorem document_run_of_settled {root : Element} {document : Value} (hd : document.Distinct)
    (h : s.options.prune s.options.pruneUnlisted root document = document) :
    (s.run root document).document = document := by
  have hleft : (s.walkRoot root document).left = document := by
    cases ha : root.admits document with
    | false =>
      obtain ⟨fault, hw⟩ := s.walkRoot_of_not_admits root document ha
      rw [hw]
    | true =>
      rw [s.walkRoot_of_admits root document ha]
      refine left_walk_of_settled root document .root ?_
      rw [← h, s.options.prune_prune, Bool.or_false]
  cases hhalt : (s.walkRoot root document).trail.halt with
  | some halt => rw [s.run_of_some root document hhalt, hleft]
  | none =>
    by_cases hv : (s.walkRoot root document).trail.violations = []
    · rw [document_run_of_clean hd ⟨hhalt, hv⟩, h]
    · rw [s.document_run_of_none root document hhalt, if_neg hv, hleft]

end Setting

/-! ## Accepting what was pruned -/

namespace Element

/-- The elements that a schema is made of: its root, and whatever one of them has as a child, in a slot or at a
position. -/
inductive Holds (root : Element) : Element → Prop
  | root : Holds root root
  | child {traits : Traits} {children : List (String × Element)} {child : String × Element}
    (parent : Holds root (.object traits children)) (own : child ∈ children) : Holds root child.2
  | slot {traits : Traits} {slots : List (Kind × Element)} {ordered : List Element} {allowNull : Bool}
    {slot : Kind × Element} (parent : Holds root (.array traits slots ordered allowNull)) (own : slot ∈ slots) :
    Holds root slot.2
  | position {traits : Traits} {slots : List (Kind × Element)} {ordered : List Element} {allowNull : Bool} {e : Element}
    (parent : Holds root (.array traits slots ordered allowNull)) (own : e ∈ ordered) : Holds root e

theorem Holds.trans {root e e' : Element} (h : root.Holds e) (h' : e.Holds e') : root.Holds e' := by
  induction h' with
  | root => exact h
  | child _ own ih => exact ih.child own
  | slot _ own ih => exact ih.slot own
  | position _ own ih => exact ih.position own

/-- The elements that an element has itself. -/
def parts : Element → List Element
  | .object _ children => children.map (·.2)
  | .array _ slots ordered _ => slots.map (·.2) ++ ordered
  | .string _ _ | .number _ _ | .boolean _ _ => []

theorem holds_of_mem_parts {root part : Element} (h : part ∈ root.parts) : root.Holds part := by
  cases root with
  | object traits children =>
    obtain ⟨child, own, rfl⟩ := List.mem_map.1 h
    exact .child .root own
  | array traits slots ordered allowNull =>
    rcases List.mem_append.1 h with h | own
    · obtain ⟨slot, own, rfl⟩ := List.mem_map.1 h
      exact .slot .root own
    · exact .position .root own
  | string | number | boolean => cases h

/-- **An element of a schema is its root or an element of a part of the root.** -/
theorem holds_iff {root e : Element} : root.Holds e ↔ e = root ∨ ∃ part ∈ root.parts, part.Holds e := by
  constructor
  · intro h
    induction h with
    | root => exact .inl rfl
    | @child _ _ child _ own ih =>
      rcases ih with rfl | ⟨part, hm, hp⟩
      · exact .inr ⟨child.2, List.mem_map_of_mem own, .root⟩
      · exact .inr ⟨part, hm, hp.child own⟩
    | @slot _ _ _ _ slot _ own ih =>
      rcases ih with rfl | ⟨part, hm, hp⟩
      · exact .inr ⟨slot.2, List.mem_append_left _ (List.mem_map_of_mem own), .root⟩
      · exact .inr ⟨part, hm, hp.slot own⟩
    | @position _ _ _ _ e _ own ih =>
      rcases ih with rfl | ⟨part, hm, hp⟩
      · exact .inr ⟨e, List.mem_append_right _ own, .root⟩
      · exact .inr ⟨part, hm, hp.position own⟩
  · rintro (rfl | ⟨part, hm, hp⟩)
    · exact .root
    · exact (holds_of_mem_parts hm).trans hp

/-- What holds of every element of a schema, part by part. -/
theorem forall_holds_iff {root : Element} {p : Element → Prop} :
    (∀ e, root.Holds e → p e) ↔ p root ∧ ∀ part ∈ root.parts, ∀ e, part.Holds e → p e := by
  constructor
  · exact fun h => ⟨h root .root, fun part hm e he => h e ((holds_of_mem_parts hm).trans he)⟩
  · rintro ⟨hroot, hparts⟩ e he
    rcases holds_iff.1 he with rfl | ⟨part, hm, hp⟩
    · exact hroot
    · exact hparts part hm e hp

theorem holds_of_governing? {traits : Traits} {children : List (String × Element)} {key : Key} {child : Element}
    (h : governing? children key = some child) : (Element.object traits children).Holds child := by
  cases key with
  | number | null => cases h
  | name text =>
    obtain ⟨name, hm⟩ := Assoc.mem_of_find? h
    exact Holds.root.child hm

theorem holds_of_entry? {traits : Traits} {slots : List (Kind × Element)} {ordered : List Element} {allowNull : Bool}
    {index : Nat} {v : Value} {e : Element} (h : entry? slots ordered index v = some e) :
    (Element.array traits slots ordered allowNull).Holds e := by
  unfold entry? at h
  split at h
  · cases h
  · obtain ⟨k, -, hk⟩ := Option.bind_eq_some_iff.1 h
    obtain ⟨k', hm⟩ := Assoc.mem_of_find? hk
    exact Holds.root.slot hm
  · exact Holds.root.position (List.mem_of_getElem? h)

/-- Something is declared under the name of each child. -/
theorem isSome_governing?_of_mem {child : String × Element} : ∀ {children : List (String × Element)}, child ∈ children →
    (governing? children (.name child.1)).isSome = true
  | (name, first) :: rest, h => by
    rw [governing?, child?, Assoc.find?]
    split
    · rfl
    · rename_i hne
      refine isSome_governing?_of_mem ((List.mem_cons.1 h).resolve_left fun heq => hne ?_)
      rw [heq]
      exact beq_self_eq_true name

end Element

/-- What the options take out of a document is nothing that an object of the schema requires, and nothing that the
validators of an object or array could have looked at. -/
structure Options.Harmless (o : Options) (root : Element) : Prop where
  /-- Meta fields stay, or no object requires a child whose name marks it as one. -/
  required : o.pruneMeta = false ∨ ∀ traits children, root.Holds (.object traits children) →
    ∀ child ∈ children, child.2.traits.required = true → o.isMeta (.name child.1) = false
  /-- Unlisted fields stay, or no object or array has validators. -/
  unseen : o.pruneUnlisted = false ∨ ∀ e, root.Holds e → e.kind.isContainer = true → e.validators = []

theorem Options.Harmless.of_holds {o : Options} {root e : Element} (h : o.Harmless root) (he : root.Holds e) :
    o.Harmless e :=
  ⟨h.required.imp_right fun h traits children hc => h traits children (he.trans hc),
    h.unseen.imp_right fun h e' hc => h e' (he.trans hc)⟩

/-- A field that an object requires is declared, and no meta field that goes. -/
theorem Options.Harmless.keeps_of_required {o : Options} {traits : Traits} {children : List (String × Element)}
    {child : String × Element} (h : o.Harmless (.object traits children)) (hc : child ∈ children)
    (hr : child.2.traits.required = true) : o.keeps o.pruneUnlisted children (.name child.1) = true := by
  unfold keeps
  rw [Element.isSome_governing?_of_mem hc]
  rcases h.required with hstay | hnone
  · rw [hstay]
    cases o.isMeta (.name child.1) <;> rfl
  · rw [hnone traits children .root child hc hr]
    rfl

namespace Setting

variable {s : Setting}

/-- Validators of an object or array accept it again where harmless pruning has left it. -/
theorem Accepted.prune {e : Element} {v : Value} (h : s.Accepted e v) (ho : s.options.Harmless e)
    (hc : e.kind.isContainer = true) : s.Accepted e (s.options.prune s.options.pruneUnlisted e v) := by
  intro w hw
  rcases ho.unseen with hu | hnone
  · rw [hu, s.options.prune_prune]
    exact h w hw
  · rw [hnone e .root hc] at hw
    cases hw

/-- **A value that is as its element asks still is so after harmless pruning.** -/
theorem conforms_prune (e : Element) (v : Value) : s.options.Harmless e → s.Conforms e v →
    s.Conforms e (s.options.prune s.options.pruneUnlisted e v) := by
  induction e, v using Element.induct with
  | null e => exact fun _ h => h
  | wrong e v hv ha => exact fun _ h => (s.options.prune_of_not_accepts _ ha).symm ▸ h
  | scalar e v hv ha => exact fun _ h => (s.options.prune_scalar _ e hv).symm ▸ h
  | object traits children fields ih =>
    intro ho h
    obtain ⟨hmissing, hdeclared, haccepted⟩ := conforms_object.1 h
    have haccepted' := haccepted.prune ho rfl
    rw [Options.prune_object] at haccepted' ⊢
    refine conforms_object.2 ⟨Element.missingNames_eq_nil.2 fun child hc hr => ?_, fun field hm child hg => ?_,
      haccepted'⟩
    · obtain ⟨field, hf, hkey⟩ := List.mem_map.1 (Element.missingNames_eq_nil.1 hmissing child hc hr)
      have hkeeps := hkey ▸ ho.keeps_of_required hc hr
      exact List.mem_map.2 ⟨_, List.mem_map.2 ⟨field, List.mem_filter.2 ⟨hf, hkeeps⟩, rfl⟩, hkey⟩
    · obtain ⟨v, hf, heq⟩ := s.options.mem_of_pruned hm
      rw [heq, Options.pruneField, hg]
      exact ih _ hf child (ho.of_holds (Element.holds_of_governing? hg)) (hdeclared _ hf child hg)
  | array traits slots ordered allowNull shape entries ih =>
    intro ho h
    by_cases hl : ordered = [] ∨ ordered.length = entries.length
    · obtain ⟨⟨hnulls, hinside⟩, haccepted⟩ := (conforms_array hl).1 h
      have haccepted' := haccepted.prune ho rfl
      rw [Options.prune_array _ _ _ _ _ _ hl] at haccepted' ⊢
      refine (conforms_array (by simpa using hl)).2 ⟨⟨fun hm => ?_, fun hsome i v hi hv => ?_⟩, haccepted'⟩
      · obtain ⟨i, hi, hnull⟩ := List.mem_mapIdx.1 hm
        have hsame := s.options.isNull_pruneEntry s.options.pruneUnlisted slots ordered i entries[i]
        rw [hnull] at hsame
        exact hnulls (Value.isNull_iff.1 hsame.symm ▸ List.getElem_mem hi)
      · rw [List.getElem?_mapIdx] at hi
        obtain ⟨u, hu, rfl⟩ := Option.map_eq_some_iff.1 hi
        have hpresent : u ≠ .null := fun hnull => hv (by
          rw [← Value.isNull_iff, s.options.isNull_pruneEntry, hnull]
          rfl)
        obtain ⟨e, he, hc⟩ := hinside hsome i u hu hpresent
        rw [s.options.entry?_pruneEntry, Options.pruneEntry, he]
        exact ⟨e, rfl, ih u (List.mem_of_getElem? hu) e (ho.of_holds (Element.holds_of_entry? he)) hc⟩
    · rw [Options.prune_array_of_length_ne _ _ _ _ _ _ hl]
      exact h

/-- **A run on what an accepting run has left leaves that as it is**, whatever it gives.  If what the options take out
is harmless, it gives no violations again. -/
theorem document_run_again {root : Element} {document : Value} (hd : document.Distinct)
    (h : (s.run root document).outcome = .ok []) :
    (s.run root (s.run root document).document).document = (s.run root document).document ∧
      (s.options.Harmless root → (s.run root (s.run root document).document).outcome = .ok []) := by
  have hclean := Trail.clean_iff.2 ((s.outcome_run_eq_ok root document).1 h)
  have hadmits := admits_of_clean_walkRoot hclean
  rw [document_run_of_clean hd hclean]
  refine ⟨document_run_of_settled (s.options.distinct_prune _ root document hd) ?_, fun ho => ?_⟩
  · rw [s.options.prune_prune, Bool.or_self]
  · rw [s.walkRoot_of_admits root document hadmits, clean_walk] at hclean
    rw [outcome_run_eq_ok, ← Trail.clean_iff, walkRoot_of_admits _ _ _ (by rwa [Options.admits_prune]), clean_walk]
    exact conforms_prune root document ho hclean

/-- A declared meta field and an unlisted field leave a document of which only a number has a validator. -/
theorem document_run_again_number :
    let s : Setting := ⟨{ pruneUnlisted := true }, fun _ _ v => if v.isScalar then .accept else .reject⟩
    let root := Element.object {}
      [("$note", .object { required := false } []), ("x", .number { validators := [⟨"known", "known"⟩] } {})]
    let document := Value.object [(.name "$note", .object [(.name "extra", .null)]), (.name "x", .number (.whole 1)),
      (.name "extra", .null)]
    let left := Value.object [(.name "x", .number (.whole 1))]
    (s.run root document).document = left ∧ (s.run root left).document = left ∧ (s.run root left).outcome = .ok [] := by
  intro s root document left
  have hd : document.Distinct := by
    refine .object (by decide) fun field hf => ?_
    simp only [List.mem_cons, List.not_mem_nil, or_false] at hf
    obtain rfl | rfl | rfl := hf
    · exact .object (by decide) (by simp [Value.Distinct.null])
    · exact .scalar rfl
    · exact .null
  have hharmless : s.options.Harmless root := by
    have hheld : ∀ e, root.Holds e → e = root ∨ e = .object { required := false } [] ∨
        e = .number { validators := [⟨"known", "known"⟩] } {} := by
      intro e he
      induction he with
      | root => exact .inl rfl
      | child parent own ih =>
        unfold root at ih ⊢
        rcases ih with heq | heq | heq <;> cases heq
        · simp only [List.mem_cons, List.not_mem_nil, or_false] at own
          obtain rfl | rfl := own
          · exact .inr (.inl rfl)
          · exact .inr (.inr rfl)
        · cases own
      | slot parent own ih | position parent own ih =>
        unfold root at ih
        rcases ih with heq | heq | heq <;> cases heq
    refine ⟨.inr fun traits children hc child own hr => ?_, .inr fun e he hc => ?_⟩
    · unfold root at hheld
      rcases hheld _ hc with heq | heq | heq <;> cases heq
      · simp only [List.mem_cons, List.not_mem_nil, or_false] at own
        obtain rfl | rfl := own
        · cases hr
        · decide
      · cases own
    · rcases hheld e he with rfl | rfl | rfl
      · rfl
      · rfl
      · cases hc
  have hleft : (s.run root document).document = left := by
    unfold s root document left
    rfl
  have haccepted : (s.run root document).outcome = .ok [] := by
    unfold s root document
    rfl
  obtain ⟨hsame, hagain⟩ := document_run_again hd haccepted
  rw [hleft] at hsame hagain
  exact ⟨hleft, hsame, hagain hharmless⟩

/-- A meta field that an object requires goes in the first run, and the second one misses it. -/
example :
    let s : Setting := ⟨{}, fun _ _ _ => .accept⟩
    let root := Element.object {} [("$id", .number {} {})]
    let first := s.run root (.object [(.name "$id", .number (.whole 1))])
    first.outcome = .ok [] ∧ (s.run root first.document).outcome = .ok [⟨.missingField "$id", ⟨"/$id"⟩⟩] :=
  ⟨rfl, rfl⟩

end Setting
end ConfigSchema
