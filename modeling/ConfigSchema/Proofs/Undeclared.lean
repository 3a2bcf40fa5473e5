import ConfigSchema.Proofs.Constructible
import ConfigSchema.Proofs.Diagnosis
import Mathlib.Logic.Relation
/-!
# Undeclared — fields that a schema knows nothing of

Two documents differ in undeclared content only if one becomes the other by edits of the undeclared fields of objects that
the schema reaches (`Element.Edits`).  No such edit changes what a run says, as long as no object or array has validators
that could look at it; and where a run takes out both meta and unlisted fields and goes through without a violation,
nothing is left of the difference (`run_of_edits`).  A validator that fails ends a run before the unlisted fields are
taken out, so that what it leaves can still differ (`run_of_edits_failing`).
-/
namespace ConfigSchema

namespace Element

/-- Whether an object with these children declares a field. -/
def declares (children : List (String × Element)) (field : Key × Value) : Bool := (governing? children field.1).isSome

/-- A value becomes another one by an edit that its element does not notice: in one object that is reached, undeclared
fields are added, deleted, changed or moved, and nothing else is. -/
inductive Edits : Element → Value → Value → Prop
  | here {traits : Traits} {children : List (String × Element)} {fields fields' : List (Key × Value)}
    (declared : fields'.filter (declares children) = fields.filter (declares children)) :
    Edits (.object traits children) (.object fields) (.object fields')
  | field {traits : Traits} {children : List (String × Element)} {before after : List (Key × Value)} {name : String}
    {v v' : Value} {child : Element} (declared : child? children name = some child) (inside : Edits child v v') :
    Edits (.object traits children) (.object (before ++ (.name name, v) :: after))
      (.object (before ++ (.name name, v') :: after))
  | entry {traits : Traits} {slots : List (Kind × Element)} {ordered : List Element} {allowNull : Bool}
    {shape : ArrayShape} {before after : List Value} {v v' : Value} {e : Element}
    (fits : ordered = [] ∨ ordered.length = (before ++ v :: after).length)
    (asked : entry? slots ordered before.length v = some e) (inside : Edits e v v') :
    Edits (.array traits slots ordered allowNull) (.array shape (before ++ v :: after))
      (.array shape (before ++ v' :: after))

variable {e : Element} {v v' : Value}

theorem Edits.isNull_eq (h : e.Edits v v') : v.isNull = false ∧ v'.isNull = false := by
  cases h with
  | here | field | entry => exact ⟨rfl, rfl⟩

theorem Edits.kindName_eq (h : e.Edits v v') : v'.kindName = v.kindName := by
  cases h with
  | here | field | entry => rfl

theorem Edits.admits (h : e.Edits v v') : e.admits v = true ∧ e.admits v' = true := by
  cases h with
  | here | field | entry => exact ⟨rfl, rfl⟩

/-- An object lacks a child if none of its declared fields is the child's. -/
theorem missingNames_filter (children : List (String × Element)) (fields : List (Key × Value)) :
    missingNames children (fields.filter (declares children)) = missingNames children fields := by
  refine List.filter_congr fun name hname => ?_
  obtain ⟨child, hchild, rfl⟩ := List.mem_map.1 hname
  have hdeclared := isSome_governing?_of_mem (List.mem_filter.1 hchild).1
  rw [List.any_filter]
  congr 2
  funext field
  by_cases hkey : field.1 = .name child.1
  · rw [declares, hkey, hdeclared, Bool.true_and]
  · rw [beq_false_of_ne hkey, Bool.and_false]

theorem missingNames_replace (children : List (String × Element)) (before after : List (Key × Value)) (key : Key)
    (v v' : Value) : missingNames children (before ++ (key, v') :: after) =
      missingNames children (before ++ (key, v) :: after) := by
  simp only [missingNames, List.any_append, List.any_cons]

end Element

theorem Trail.sequence_filter {α : Type} {f : α → Trail} {p : α → Bool} : ∀ {l : List α},
    (∀ a ∈ l, p a = false → f a = .empty) → sequence ((l.filter p).map f) = sequence (l.map f)
  | [], _ => rfl
  | a :: l, h => by
    have ih := sequence_filter fun b hb => h b (List.mem_cons_of_mem a hb)
    rw [List.filter_cons, List.map_cons, sequence]
    cases hp : p a with
    | true => rw [if_pos rfl, List.map_cons, sequence, ih]
    | false => rw [if_neg Bool.false_ne_true, h a List.mem_cons_self hp, empty_andThen, ih]

namespace Setting

variable {s : Setting} {e : Element} {v v' : Value}

/-! ## What is said of an edited value -/

theorem diagnosis_walkFields (s : Setting) (path : Pointer) (children : List (String × Element))
    (fields : List (Key × Value)) : (Walk.each (fun _ => s.walkField path children) 0 fields).trail.diagnosis =
      .sequence (fields.map fun field => (s.walkField path children field).trail.diagnosis) := by
  rw [Walk.trail_each, Walk.mapIdx_const (fun field => (s.walkField path children field).trail), Trail.diagnosis_sequence,
    List.map_map]
  rfl

/-- Undeclared fields add nothing to what is said of an object. -/
theorem diagnosis_walkFields_filter (s : Setting) (path : Pointer) (children : List (String × Element))
    (fields : List (Key × Value)) :
    (Walk.each (fun _ => s.walkField path children) 0 (fields.filter (Element.declares children))).trail.diagnosis =
      (Walk.each (fun _ => s.walkField path children) 0 fields).trail.diagnosis := by
  rw [diagnosis_walkFields, diagnosis_walkFields]
  refine Trail.sequence_filter fun field _ hfield => ?_
  have hnone : Element.governing? children field.1 = none :=
    Option.isNone_iff_eq_none.1 (Option.isSome_eq_false_iff.1 hfield)
  simp only [walkField, hnone, Trail.diagnosis_empty]

theorem diagnosis_walkContents_of_edits {path : Pointer} {slots : List (Kind × Element)} {ordered : List Element}
    {allowNull : Bool} {before after : List Value} (asked : Element.entry? slots ordered before.length v = some e)
    (inside : e.Edits v v') (hentry : (s.walk (path.entry before.length) e v').trail.diagnosis =
      (s.walk (path.entry before.length) e v).trail.diagnosis) :
    (s.walkContents path slots ordered allowNull (before ++ v' :: after)).trail.diagnosis =
      (s.walkContents path slots ordered allowNull (before ++ v :: after)).trail.diagnosis := by
  have hdemand : Element.entryDemand slots ordered allowNull before.length v = .governed e := by
    simp only [Element.entryDemand, inside.isNull_eq.1, asked, Bool.false_eq_true, if_false]
  have hdemand' : Element.entryDemand slots ordered allowNull before.length v' = .governed e := by
    simp only [Element.entryDemand, inside.isNull_eq.2, Element.entry?_congr inside.kindName_eq, asked, Bool.false_eq_true, if_false]
  have hwalk : (s.walkEntry path slots ordered allowNull before.length v').trail.diagnosis =
      (s.walkEntry path slots ordered allowNull before.length v).trail.diagnosis := by
    simp only [walkEntry, hdemand, hdemand']
    exact hentry
  unfold walkContents
  cases hm : ArrayMode.ofContents slots ordered with
  | any =>
    rw [Element.entry?, hm] at asked
    cases asked
  | typed | ordered =>
    simp only [Walk.trail_each, Trail.diagnosis_sequence, List.mapIdx_append, List.mapIdx_cons, List.map_append,
      List.map_cons, Nat.zero_add, hwalk]

/-- **An edit of undeclared fields changes nothing of what is said of a value** whose objects and arrays have no
validators. -/
theorem diagnosis_walk_of_edits (h : e.Edits v v') : ∀ path, e.Unguarded →
    (s.walk path e v').trail.diagnosis = (s.walk path e v).trail.diagnosis := by
  induction h with
  | @here traits children fields fields' declared =>
    intro path hu
    rw [walk_object, walk_object, diagnosis_walkObject, diagnosis_walkObject, askAll_of_nil _ _ (hu _ .root rfl),
      askAll_of_nil _ _ (hu _ .root rfl), reportMissing, reportMissing, ← Element.missingNames_filter _ fields',
      ← Element.missingNames_filter _ fields, ← diagnosis_walkFields_filter _ _ _ fields',
      ← diagnosis_walkFields_filter _ _ _ fields, declared]
  | @field traits children before after name v v' child declared inside ih =>
    intro path hu
    have hg : Element.governing? children (.name name) = some child := declared
    have hchild := ih (path.push name) (hu.of_holds (Element.holds_of_governing? hg))
    have hfield : (s.walkField path children (.name name, v')).trail.diagnosis =
        (s.walkField path children (.name name, v)).trail.diagnosis := by
      simp only [walkField, hg]
      exact hchild
    rw [walk_object, walk_object, diagnosis_walkObject, diagnosis_walkObject, askAll_of_nil _ _ (hu _ .root rfl),
      askAll_of_nil _ _ (hu _ .root rfl), reportMissing, reportMissing, Element.missingNames_replace _ before after _ v v',
      diagnosis_walkFields, diagnosis_walkFields, List.map_append, List.map_append, List.map_cons, List.map_cons, hfield]
  | @entry traits slots ordered allowNull shape before after v v' e fits asked inside ih =>
    intro path hu
    have fits' : ordered = [] ∨ ordered.length = (before ++ v' :: after).length := by
      simpa only [List.length_append, List.length_cons] using fits
    have hentry := hu.of_holds <| Element.holds_of_entry? asked
    rw [walk_array s path traits slots allowNull shape fits', walk_array s path traits slots allowNull shape fits,
      trail_walkArray, trail_walkArray, askAll_of_nil _ _ (hu _ .root rfl), askAll_of_nil _ _ (hu _ .root rfl),
      Trail.diagnosis_andIfClean, Trail.diagnosis_andIfClean,
      diagnosis_walkContents_of_edits asked inside (ih _ hentry)]

end Setting

/-! ## What is left of an edited value -/

namespace Options

theorem keeps_of_pruneMeta {o : Options} (hmeta : o.pruneMeta = true) (children : List (String × Element))
    (field : Key × Value) :
    o.keeps true children field.1 = (Element.declares children field && !o.isMeta field.1) := by
  rw [keeps, hmeta, Element.declares]
  cases o.isMeta field.1 <;> simp

/-- **An edit of undeclared fields leaves no trace** where both meta and unlisted fields are taken out. -/
theorem prune_of_edits {o : Options} (hmeta : o.pruneMeta = true) {e : Element} {v v' : Value} (h : e.Edits v v') :
    o.prune true e v' = o.prune true e v := by
  induction h with
  | @here traits children fields fields' declared =>
    have hkept : ∀ fields : List (Key × Value), fields.filter (o.keeps true children ·.1) =
        (fields.filter (Element.declares children)).filter fun field => !o.isMeta field.1 := fun fields => by
      rw [List.filter_filter]
      exact List.filter_congr fun field _ => (keeps_of_pruneMeta hmeta children field).trans (Bool.and_comm _ _)
    rw [prune_object, prune_object, hkept, hkept, declared]
  | @field traits children before after name v v' child declared inside ih =>
    have hg : Element.governing? children (.name name) = some child := declared
    have hfield : o.pruneField true children (.name name, v') = o.pruneField true children (.name name, v) := by
      simp only [pruneField, hg, ih]
    rw [prune_object, prune_object]
    simp only [List.filter_append, List.filter_cons, List.map_append]
    cases o.keeps true children (.name name) with
    | true => simp only [if_true, List.map_cons, hfield]
    | false => rfl
  | @entry traits slots ordered allowNull shape before after v v' e fits asked inside ih =>
    have fits' : ordered = [] ∨ ordered.length = (before ++ v' :: after).length := by
      simpa only [List.length_append, List.length_cons] using fits
    have hentry : o.pruneEntry true slots ordered before.length v' = o.pruneEntry true slots ordered before.length v := by
      simp only [pruneEntry, Element.entry?_congr inside.kindName_eq, asked, ih]
    rw [prune_array o true traits slots allowNull shape fits', prune_array o true traits slots allowNull shape fits]
    simp only [List.mapIdx_append, List.mapIdx_cons, Nat.zero_add, hentry]

end Options

namespace Setting

/-! ## Runs -/

variable {s : Setting} {root : Element} {document document' : Value}

theorem diagnosis_walkRoot_of_chain (s : Setting) (hroot : root.Unguarded)
    (h : Relation.ReflTransGen root.Edits document document') :
    (s.walkRoot root document').trail.diagnosis = (s.walkRoot root document).trail.diagnosis := by
  induction h with
  | refl => rfl
  | tail _ edit ih =>
    rw [walkRoot_of_admits s root _ edit.admits.2, diagnosis_walk_of_edits edit .root hroot,
      ← walkRoot_of_admits s root _ edit.admits.1, ih]

theorem prune_of_chain {o : Options} (hmeta : o.pruneMeta = true)
    (h : Relation.ReflTransGen root.Edits document document') :
    o.prune true root document' = o.prune true root document := by
  induction h with
  | refl => rfl
  | tail _ edit ih => exact (Options.prune_of_edits hmeta edit).trans ih

/-- **Undeclared fields are irrelevant**: however many of them are added, deleted, changed or moved in the objects that a
schema reaches, a run ends in the same way and with the same violations, and if it goes through without any and takes out
both meta and unlisted fields, it leaves the same document. -/
theorem run_of_edits (s : Setting) (hroot : root.Unguarded)
    (h : Relation.ReflTransGen root.Edits document document') :
    (s.run root document').outcome = (s.run root document).outcome ∧
      (s.run root document').violations = (s.run root document).violations ∧
      (s.options.pruneUnlisted = true → s.options.pruneMeta = true → document.Distinct → document'.Distinct →
        (s.run root document).outcome = .ok [] →
          (s.run root document').document = (s.run root document).document) := by
  obtain ⟨houtcome, hviolations⟩ := outcome_run_of_diagnosis (diagnosis_walkRoot_of_chain s hroot h)
  refine ⟨houtcome, hviolations, fun hunlisted hmeta hd hd' hok => ?_⟩
  have hclean := Trail.clean_iff.2 ((s.outcome_run_eq_ok root document).1 hok)
  have hclean' := Trail.clean_iff.2 ((s.outcome_run_eq_ok root document').1 (houtcome.trans hok))
  rw [document_run_of_clean hd hclean, document_run_of_clean hd' hclean', hunlisted, prune_of_chain hmeta h]

/-- A meta field is added to an object in an array, and two unlisted fields to the object around it. -/
theorem run_of_edits_array :
    let s : Setting := ⟨{ pruneUnlisted := true }, fun _ _ _ => .accept⟩
    let root := Element.object {} [("list", .array {} [(.object, .object {} [])] [] false)]
    let document := Value.object [(.name "list", .array .list [.object []])]
    let document' := Value.object [(.null, .string "a"),
      (.name "list", .array .list [.object [(.name "$note", .object [(.name "list", .null)])]]), (.name "x", .null)]
    root.Unguarded ∧ Relation.ReflTransGen root.Edits document document' ∧
      (s.run root document').outcome = .ok [] ∧ (s.run root document').document = document := by
  intro s root document document'
  have hobject : (Element.object {} []).Unguarded := Element.unguarded_iff.2 ⟨fun _ => rfl, List.forall_mem_nil _⟩
  have hlist : (Element.array {} [(.object, .object {} [])] [] false).Unguarded :=
    Element.unguarded_iff.2 ⟨fun _ => rfl, by simpa [Element.parts] using hobject⟩
  have hroot : root.Unguarded := Element.unguarded_iff.2 ⟨fun _ => rfl, by simpa [root, Element.parts] using hlist⟩
  have hentry : (Element.array {} [(.object, .object {} [])] [] false).Edits (.array .list [.object []])
      (.array .list [.object [(.name "$note", .object [(.name "list", .null)])]]) :=
    @Element.Edits.entry _ _ _ _ _ [] [] _ _ _ (.inl rfl) rfl (.here rfl)
  have hinner : root.Edits document
      (.object [(.name "list", .array .list [.object [(.name "$note", .object [(.name "list", .null)])]])]) :=
    @Element.Edits.field _ _ [] [] _ _ _ _ rfl hentry
  have houter : root.Edits
      (.object [(.name "list", .array .list [.object [(.name "$note", .object [(.name "list", .null)])]])]) document' :=
    .here rfl
  have hedits := (Relation.ReflTransGen.single hinner).tail houter
  have hd : document.Distinct := .object (by decide) (List.forall_mem_singleton.2
    (.array (List.forall_mem_singleton.2 (.object .nil (List.forall_mem_nil _)))))
  have hnote : (Value.object [(.name "$note", .object [(.name "list", .null)])]).Distinct :=
    .object (by decide) (List.forall_mem_singleton.2 (.object (by decide) (List.forall_mem_singleton.2 .null)))
  have hd' : document'.Distinct := .object (by decide) (List.forall_mem_cons.2 ⟨.scalar rfl, List.forall_mem_cons.2
    ⟨.array (List.forall_mem_singleton.2 hnote), List.forall_mem_singleton.2 .null⟩⟩)
  have haccepted : (s.run root document).outcome = .ok [] := by
    unfold s root document
    rfl
  have hleft : (s.run root document).document = document := by
    unfold s root document
    rfl
  obtain ⟨houtcome, -, hdocument⟩ := run_of_edits s hroot hedits
  exact ⟨hroot, hedits, houtcome.trans haccepted, (hdocument rfl rfl hd hd' haccepted).trans hleft⟩

/-- A validator that fails ends a run before its unlisted fields are taken out: it finds no violation, but what is left of
two documents differs. -/
theorem run_of_edits_failing : ¬ ∀ (s : Setting) (root : Element) (document document' : Value), root.Constructible →
    root.Unguarded → document.Distinct → document'.Distinct → Relation.ReflTransGen root.Edits document document' →
    s.options.pruneUnlisted = true → s.options.pruneMeta = true → (s.run root document).violations = [] →
      (s.run root document').document = (s.run root document).document := by
  intro h
  let s : Setting := ⟨{ pruneUnlisted := true }, fun _ _ _ => .fail (.other "RuntimeError" "validator failed")⟩
  let x := Element.number { name := some "x", validators := [⟨"explode", "explode"⟩] } {}
  let root := Element.object {} [("x", x)]
  let document := Value.object [(.name "x", .number (.whole 1))]
  let document' := Value.object [(.name "x", .number (.whole 1)), (.name "y", .number (.whole 2))]
  have hroot : root.Constructible :=
    @Element.Constructible.object {} [("x", x)] _ (List.forall_mem_singleton.2 .number) rfl
  have hunguarded : root.Unguarded :=
    Element.unguarded_iff.2 ⟨fun _ => rfl, List.forall_mem_singleton.2 (Element.unguarded_iff.2 ⟨nofun, nofun⟩)⟩
  have hd : document.Distinct := .object (by decide) (List.forall_mem_singleton.2 (.scalar rfl))
  have hd' : document'.Distinct :=
    .object (by decide) (List.forall_mem_cons.2 ⟨.scalar rfl, List.forall_mem_singleton.2 (.scalar rfl)⟩)
  have hsame := h s root document document' hroot hunguarded hd hd' (.single (.here rfl)) rfl rfl
    (by unfold s root x document; rfl)
  have hleft : (Value.object [(.name "x", .number (.whole 1)), (.name "y", .number (.whole 2))]) =
      .object [(.name "x", .number (.whole 1))] := by
    unfold s root x document document' at hsame
    exact hsame
  cases hleft

end Setting
end ConfigSchema
