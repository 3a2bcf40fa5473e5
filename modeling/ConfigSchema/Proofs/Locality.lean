import ConfigSchema.Proofs.Ledger
import ConfigSchema.Proofs.Runs
/-!
# Locality — violations that know nothing of what is around them

What a setting that collects finds in a value depends on nothing but the value and its element: it comes behind whatever
was found before, and at another place of a document the same is found, with other pointers.  So a list of documents is at
fault just where its documents are (`composes_of_collects`).
-/
namespace ConfigSchema

/-- The pointer that leads on from `p` as `q` leads on from the root. -/
def Pointer.follow (p q : Pointer) : Pointer := ⟨p.text ++ q.text⟩

/-- A violation in a document that itself stands at `p` of another one. -/
def Violation.under (p : Pointer) (x : Violation) : Violation := { x with path := p.follow x.path }

namespace Pointer

theorem follow_root (p : Pointer) : p.follow .root = p := by
  simp [follow, root]

theorem follow_push (p q : Pointer) (token : String) : (p.follow q).push token = p.follow (q.push token) := by
  simp only [follow, push, String.append_assoc]

theorem follow_entry (p q : Pointer) (index : Nat) : (p.follow q).entry index = p.follow (q.entry index) :=
  follow_push p q _

end Pointer

namespace Setting

variable {s : Setting}

/-- What is found in a value at the end of a pointer is what is found at its beginning, led on. -/
def Shifts (s : Setting) (v : Value) : Prop := ∀ e p q, s.findings (p.follow q) e v = (s.findings q e v).map (.under p)

theorem rejections_follow (p q : Pointer) (e : Element) (v : Value) :
    s.rejections (p.follow q) e v = (s.rejections q e v).map (.under p) := by
  rw [rejections, rejections, List.map_map]
  rfl

theorem orRejections_follow (p q : Pointer) (e : Element) (v : Value) (inside : List Violation) :
    s.orRejections (p.follow q) e v (inside.map (.under p)) = (s.orRejections q e v inside).map (.under p) := by
  rw [orRejections, orRejections, apply_ite (List.map _), rejections_follow]
  simp only [List.map_eq_nil_iff]

theorem fieldFindings_follow {field : Key × Value} (ih : s.Shifts field.2) (p q : Pointer)
    (children : List (String × Element)) :
    s.fieldFindings (p.follow q) children field = (s.fieldFindings q children field).map (.under p) := by
  unfold fieldFindings
  cases Element.governing? children field.1 with
  | none => rfl
  | some child =>
    rw [Pointer.follow_push]
    exact ih child p _

theorem entryFindings_follow {v : Value} (ih : s.Shifts v) (p q : Pointer) (slots : List (Kind × Element))
    (ordered : List Element) (allowNull : Bool) (index : Nat) : s.entryFindings (p.follow q) slots ordered allowNull index v =
      (s.entryFindings q slots ordered allowNull index v).map (.under p) := by
  unfold entryFindings
  rw [Pointer.follow_entry]
  cases Element.entryDemand slots ordered allowNull index v with
  | nothing => rfl
  | refused cause => rfl
  | governed e => exact ih e p _

theorem contentsFindings_follow {entries : List Value} (ih : ∀ v ∈ entries, s.Shifts v) (p q : Pointer)
    (slots : List (Kind × Element)) (ordered : List Element) (allowNull : Bool) :
    s.contentsFindings (p.follow q) slots ordered allowNull entries =
      (s.contentsFindings q slots ordered allowNull entries).map (.under p) := by
  unfold contentsFindings
  cases ArrayMode.ofContents slots ordered with
  | any => rw [apply_ite (List.map _)]; rfl
  | typed | ordered =>
    simp only
    rw [List.map_flatten]
    congr 1
    refine List.mapIdx_eq_iff.2 fun i => ?_
    rw [List.getElem?_map, List.getElem?_mapIdx]
    cases hv : entries[i]? with
    | none => rfl
    | some v =>
      have hentry := entryFindings_follow (ih v (List.mem_of_getElem? hv)) p q slots ordered allowNull i
      simp only [Option.map_some, hentry]

/-- **The same is found in a value wherever it stands.** -/
theorem Collects.findings_follow (hs : s.Collects) (e : Element) (v : Value) : ∀ p q,
    s.findings (p.follow q) e v = (s.findings q e v).map (.under p) := by
  induction e, v using Element.induct with
  | null e =>
    intro p q
    rw [findings_null, findings_null, apply_ite (List.map _)]
    rfl
  | wrong e v hv ha =>
    intro p q
    rw [findings_wrong _ hv ha, findings_wrong _ hv ha]
    rfl
  | scalar e v hv ha =>
    intro p q
    rw [hs.findings_scalar _ hv ha, hs.findings_scalar _ hv ha, apply_ite (List.map _), rejections_follow, List.map_map]
    rfl
  | object traits children fields ih =>
    intro p q
    have hmissing : ((Element.missingNames children fields).map fun name =>
        (⟨.missingField name, (p.follow q).push name⟩ : Violation)) =
        ((Element.missingNames children fields).map fun name => ⟨.missingField name, q.push name⟩).map (.under p) := by
      simp only [List.map_map, Pointer.follow_push]
      rfl
    have hfields : fields.flatMap (s.fieldFindings (p.follow q) children) =
        (fields.flatMap (s.fieldFindings q children)).map (.under p) := by
      rw [List.map_flatMap, List.flatMap_def, List.flatMap_def]
      congr 1
      exact List.map_congr_left fun field hf => fieldFindings_follow (ih field hf) p q children
    rw [hs.findings_object, hs.findings_object, hmissing, hfields, ← List.map_append, orRejections_follow]
  | array traits slots ordered allowNull shape entries ih =>
    intro p q
    by_cases hl : ordered = [] ∨ ordered.length = entries.length
    · rw [hs.findings_array _ _ _ _ _ hl, hs.findings_array _ _ _ _ _ hl, contentsFindings_follow ih, orRejections_follow]
    · rw [findings_array_of_length_ne _ _ _ _ _ hl, findings_array_of_length_ne _ _ _ _ _ hl]
      rfl

theorem Collects.contentsFindings_batch (hs : s.Collects) (path : Pointer) {slots : List (Kind × Element)}
    {ordered : List Element} {allowNull : Bool} {e : Element} {entries : List Value}
    (h : ∀ (i : Nat) v, entries[i]? = some v → Element.entryDemand slots ordered allowNull i v = .governed e) :
    s.contentsFindings path slots ordered allowNull entries =
      (entries.mapIdx fun i v => (s.findings .root e v).map (.under (path.entry i))).flatten := by
  have hentries : entries.mapIdx (s.entryFindings path slots ordered allowNull) =
      entries.mapIdx fun i v => (s.findings .root e v).map (.under (path.entry i)) := by
    refine List.mapIdx_eq_iff.2 fun i => ?_
    rw [List.getElem?_mapIdx]
    cases hv : entries[i]? with
    | none => rfl
    | some v =>
      have hfollow := hs.findings_follow e v (path.entry i) .root
      rw [Pointer.follow_root] at hfollow
      simp only [Option.map_some, entryFindings, h i v hv, hfollow]
  unfold contentsFindings
  cases hm : ArrayMode.ofContents slots ordered with
  | any =>
    cases entries with
    | nil => simp
    | cons v rest =>
      -- no element governs an entry of an array that takes any
      have hv := h 0 v rfl
      simp only [Element.entryDemand, Element.entry?, hm] at hv
      split at hv <;> try split at hv
      all_goals cases hv
  | typed | ordered => simp only [hentries]

theorem violations_run_eq_findings {root : Element} {document : Value} (h : root.admits document = true) :
    (s.run root document).violations = s.findings .root root document := by
  rw [violations_run, walkRoot_of_admits s root document h, findings]

/-- What the runs of several documents find, each led on from its place in the list. -/
def batch (s : Setting) (root : Element) (documents : List (List (Key × Value))) : List Violation :=
  (documents.mapIdx fun i fields =>
    (s.run root (.object fields)).violations.map (.under (Pointer.root.entry i))).flatten

theorem Collects.violations_run_batch (hs : s.Collects) (whole traits : Traits) (children : List (String × Element))
    {slots : List (Kind × Element)} {ordered : List Element} (allowNull : Bool) (shape : ArrayShape)
    {documents : List (List (Key × Value))} (hl : ordered = [] ∨ ordered.length = documents.length)
    (h : ∀ i < documents.length, ∀ fields,
      Element.entry? slots ordered i (.object fields) = some (.object traits children)) :
    (s.run (.array whole slots ordered allowNull) (.array shape (documents.map .object))).violations =
      s.orRejections .root (.array whole slots ordered allowNull) (.array shape (documents.map .object))
        (s.batch (.object traits children) documents) := by
  have hdemand : ∀ (i : Nat) v, (documents.map Value.object)[i]? = some v →
      Element.entryDemand slots ordered allowNull i v = .governed (.object traits children) := by
    intro i v hv
    rw [List.getElem?_map] at hv
    obtain ⟨fields, hf, rfl⟩ := Option.map_eq_some_iff.1 hv
    have hi := (List.getElem?_eq_some_iff.1 hf).1
    simp only [Element.entryDemand, Value.isNull, h i hi, Bool.false_eq_true, if_false]
  have hbatch : ((documents.map Value.object).mapIdx fun i v =>
      (s.findings .root (.object traits children) v).map (.under (Pointer.root.entry i))).flatten =
      s.batch (.object traits children) documents := by
    have hrun : ∀ fields, (s.run (.object traits children) (.object fields)).violations =
        s.findings .root (.object traits children) (.object fields) := fun fields => violations_run_eq_findings rfl
    refine congrArg List.flatten (List.mapIdx_eq_iff.2 fun i => ?_)
    rw [List.getElem?_map, List.getElem?_mapIdx, Option.map_map]
    simp only [Function.comp_def, hrun]
  rw [violations_run_eq_findings rfl, hs.findings_array _ _ _ _ _ (by rwa [List.length_map]),
    hs.contentsFindings_batch .root hdemand, hbatch]

/-- What is found is put together from what is found in the parts, and in each part by itself. -/
structure Composes (s : Setting) : Prop where
  /-- What is found in a value comes behind all that was found and noted before, and is the same whatever that was. -/
  behind : ∀ path place e v (l : Ledger),
    (s.record path place e l v).2.violations = l.violations ++ s.findings path e v
  /-- What is found at a pointer is what is found at the root, led on. -/
  elsewhere : ∀ path e v, s.findings path e v = (s.findings .root e v).map (.under path)
  /-- The missing children come first, in the order of declaration, and then the fields in the order of the document. -/
  object : ∀ path traits children fields, s.findings path (.object traits children) (.object fields) =
    s.orRejections path (.object traits children) (.object fields)
      (((Element.missingNames children fields).map fun name => ⟨.missingField name, path.push name⟩) ++
        fields.flatMap (s.fieldFindings path children))
  array : ∀ path traits slots ordered allowNull shape entries,
    ArrayMode.ofContents slots ordered ≠ .any → (ordered = [] ∨ ordered.length = entries.length) →
    s.findings path (.array traits slots ordered allowNull) (.array shape entries) =
      s.orRejections path (.array traits slots ordered allowNull) (.array shape entries)
        (entries.mapIdx (s.entryFindings path slots ordered allowNull)).flatten
  /-- A list of documents under the slot of their element. -/
  slot : ∀ whole traits children allowNull shape documents,
    let list := Element.array whole [(.object, .object traits children)] [] allowNull
    (s.run list (.array shape (documents.map .object))).violations =
      s.orRejections .root list (.array shape (documents.map .object)) (s.batch (.object traits children) documents)
  /-- A list of documents, each with its element at its position. -/
  position : ∀ whole traits children allowNull shape documents,
    let list := Element.array whole [] (List.replicate documents.length (.object traits children)) allowNull
    (s.run list (.array shape (documents.map .object))).violations =
      s.orRejections .root list (.array shape (documents.map .object)) (s.batch (.object traits children) documents)

/-- **A setting that collects finds in each part what is there to be found, whatever is around it.** -/
theorem composes_of_collects (hs : s.Collects) : s.Composes where
  behind path place e v l := by
    rw [hs.record_eq e v path place l]
    rfl
  elsewhere path e v := by
    have hfollow := hs.findings_follow e v path .root
    rwa [Pointer.follow_root] at hfollow
  object := hs.findings_object
  array path traits slots ordered allowNull shape entries hm hl := by
    have hcontents : s.contentsFindings path slots ordered allowNull entries =
        (entries.mapIdx (s.entryFindings path slots ordered allowNull)).flatten := by
      unfold contentsFindings
      cases ha : ArrayMode.ofContents slots ordered with
      | any => exact absurd ha hm
      | typed | ordered => rfl
    rw [hs.findings_array path traits slots allowNull shape hl, hcontents]
  slot whole traits children allowNull shape documents :=
    hs.violations_run_batch whole traits children allowNull shape (.inl rfl) fun _ _ _ => rfl
  position whole traits children allowNull shape documents := by
    refine hs.violations_run_batch whole traits children allowNull shape (.inr List.length_replicate) fun i hi fields => ?_
    have hpos : 0 < documents.length := Nat.lt_of_le_of_lt (Nat.zero_le i) hi
    have hmode : ArrayMode.ofContents [] (List.replicate documents.length (Element.object traits children)) = .ordered := by
      simp [ArrayMode.ofContents, Nat.ne_of_gt hpos]
    simp only [Element.entry?, hmode, List.getElem?_replicate, hi, if_true]

/-- Of three documents under a slot the first lacks a field, the second holds text in its place, and the last is not what
its validator takes. -/
theorem composes_of_collects_list :
    ((⟨{}, fun _ _ _ => .reject⟩ : Setting).run
      (.array {} [(.object, .object { validators := [⟨"v", "v"⟩] } [("x", .number {} {})])] [] false)
      (.array .list [.object [], .object [(.name "x", .string "a")], .object [(.name "x", .number (.whole 1))]])).violations =
    [⟨.missingField "x", ⟨"/0/x"⟩⟩, ⟨.wrongType "string" "number", ⟨"/1/x"⟩⟩,
      ⟨.badValue (.rejectedBy "v"), ⟨"/2"⟩⟩] :=
  ((composes_of_collects ⟨rfl, fun _ _ _ _ h => by cases h⟩).slot {} _ _ false .list
    [[], [(.name "x", .string "a")], [(.name "x", .number (.whole 1))]]).trans rfl

end Setting
end ConfigSchema
