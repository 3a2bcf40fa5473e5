import ConfigSchema.Proofs.Ledger
import ConfigSchema.Proofs.Sameness
/-!
# InPlace — a run that takes keys out of its document where it stands

A run gives back what is left of a document as a new value.  Here the document stays where it is, and what can change of
it, the keys of its objects, is kept in a memory, place by place.  Keys are read and deleted there one at a time, and a
key that is not there is a fault, and so are entries and ordered elements that do not come out even and an element that no
case is for.  The validators are given from outside: what they decide may depend on all that has happened before.
-/
namespace ConfigSchema

/-! ## Documents in place -/

namespace Value

/-- Every object of a document holds each of its keys once. -/
inductive Unrepeated : Value → Prop
  | null : Unrepeated .null
  | scalar {v : Value} (h : v.isScalar = true) : Unrepeated v
  | array {shape : ArrayShape} {entries : List Value} (each : ∀ v ∈ entries, Unrepeated v) :
    Unrepeated (.array shape entries)
  | object {fields : List (Key × Value)} (keys : (fields.map Prod.fst).Nodup)
    (each : ∀ field ∈ fields, Unrepeated field.2) : Unrepeated (.object fields)

theorem Unrepeated.of_array {shape : ArrayShape} {entries : List Value} (h : Unrepeated (.array shape entries)) :
    ∀ v ∈ entries, Unrepeated v := by
  cases h with
  | scalar h => cases h
  | array each => exact each

theorem Unrepeated.of_object {fields : List (Key × Value)} (h : Unrepeated (.object fields)) :
    (fields.map Prod.fst).Nodup ∧ ∀ field ∈ fields, Unrepeated field.2 := by
  cases h with
  | scalar h => cases h
  | object keys each => exact ⟨keys, each⟩

/-- The keys of the object at a place of a value, if one is there. -/
def keysAt : Place → Value → List Key
  | [], .object fields => fields.map Prod.fst
  | .field key :: place, .object fields => ((Assoc.find? (· == key) fields).map (keysAt place)).getD []
  | .entry index :: place, .array _ entries => (entries[index]?.map (keysAt place)).getD []
  | _, _ => []

end Value

namespace InPlace

/-- The keys that are left in the objects of a document, each object known by the place where it stood at first. -/
abbrev Memory := Place → List Key

namespace Memory

/-- Takes a key out of the object at a place. -/
def erase (memory : Memory) (place : Place) (key : Key) : Memory :=
  Function.update memory place ((memory place).erase key)

mutual

/-- What is left of the value that stood at a place. -/
def view (memory : Memory) (place : Place) : Value → Value
  | .null => .null
  | .boolean b => .boolean b
  | .number n => .number n
  | .string text => .string text
  | .array shape entries => .array shape (viewEntries memory place 0 entries)
  | .object fields => .object (viewFields memory place fields)
  | .foreign f => .foreign f

def viewEntries (memory : Memory) (place : Place) (index : Nat) : List Value → List Value
  | [] => []
  | v :: rest => view memory (place ++ [Step.entry index]) v :: viewEntries memory place (index + 1) rest

def viewFields (memory : Memory) (place : Place) : List (Key × Value) → List (Key × Value)
  | [] => []
  | (key, v) :: rest =>
    if key ∈ memory place then (key, view memory (place ++ [Step.field key]) v) :: viewFields memory place rest
    else viewFields memory place rest

end

end Memory

/-! ## The machine -/

/-- What goes wrong through no fault of the document and of no validator. -/
inductive Fault where
  /-- A key was read or deleted that is not there. -/
  | missingKey (key : Key)
  /-- One of two lists that are walked together ended before the other. -/
  | unevenLengths
  /-- No case is for elements of this kind. -/
  | unknownKind (kind : Kind)
  /-- An element was handed to the case of another kind. -/
  | foreignElement

/-- Why a run does not go on. -/
inductive Stop where
  | ended (halt : Halt)
  | fault (fault : Fault)

/-- What a run has to go on: what is left of the document, what it wrote down, and what it told of. -/
structure Machine where
  memory : Memory
  ledger : Ledger := {}
  told : List Event := []

abbrev Work := EStateM Stop Machine

/-- What the validators decide, which may depend on all that has happened before they are asked. -/
abbrev Oracle := List Event → Judge

/-- A part of a document as it is handed on: the value that stood there, and how to validate it under an element. -/
structure Handle where
  value : Value
  validate : Element → Place → Pointer → Work Unit

def tell (event : Event) : Work Unit := modify fun m => { m with told := m.told ++ [event] }

def schedule (r : Removal) : Work Unit := modify fun m => { m with ledger := m.ledger.note r }

/-- Reads what the object at a place holds under a key. -/
def read {α : Type} (parts : List (Key × α)) (place : Place) (key : Key) : Work α := do
  let m ← get
  match if key ∈ m.memory place then Assoc.find? (· == key) parts else none with
  | some part => pure part
  | none => throw (.fault (.missingKey key))

def delete (place : Place) (key : Key) : Work Unit := do
  let m ← get
  if key ∈ m.memory place then set { m with memory := m.memory.erase place key }
  else throw (.fault (.missingKey key))

/-- The element of a declared field. -/
def childOf (children : List (String × Element)) (key : Key) : Work Element :=
  match Element.governing? children key with
  | some child => pure child
  | none => throw (.fault (.missingKey key))

/-- Two lists walked together, which have to end together. -/
def alongside {α β : Type} (f : Nat → α → β → Work Unit) : Nat → List α → List β → Work Unit
  | _, [], [] => pure ()
  | index, a :: as, b :: bs => do
    f index a b
    alongside f (index + 1) as bs
  | _, _, _ => throw (.fault .unevenLengths)

section

variable (options : Options) (oracle : Oracle)

/-- Writes a violation down, and ends the run if the options say so. -/
def find (path : Pointer) (cause : Cause) : Work Unit := do
  modify fun m => { m with ledger := m.ledger.found path cause }
  tell (.found ⟨cause, path⟩)
  if options.stopOnFirst then throw (.ended (.firstViolation ⟨cause, path⟩))

def heed (path : Pointer) (w : Validator) : Verdict → Work Unit
  | .accept => pure ()
  | .reject => find options path (.badValue (.rejectedBy w.label))
  | .fail f => throw (.ended (.failure f))

def ask (path : Pointer) (e : Element) (v : Value) (w : Validator) : Work Unit := do
  let m ← get
  tell (.judged w e v)
  heed options path w (oracle m.told w e v)

/-- Asks the validators of a value if no violation was written down since there were `mark` of them.  They see what is left
of the value by then. -/
def askSince (mark : Nat) (place : Place) (path : Pointer) (e : Element) (v : Value) : Work Unit := do
  let m ← get
  if m.ledger.violations.length = mark then
    e.validators.forM (ask options oracle path e (m.memory.view place v))

/-- Does the work on a value, and asks its validators if nothing was wrong. -/
def thenAsk (place : Place) (path : Pointer) (e : Element) (v : Value) (work : Work Unit) : Work Unit := do
  let m ← get
  work
  askSince options oracle m.ledger.violations.length place path e v

/-- Takes the meta fields out of the object at a place, if the options want them out. -/
def dropMeta (place : Place) (path : Pointer) (keys : List Key) : Work Unit := do
  let marked := keys.filter options.isMeta
  if options.pruneMeta && !marked.isEmpty then
    marked.forM (delete place)
    tell (.metaPruned marked.length path)

def reportMissing (path : Pointer) (children : List (String × Element)) (keys : List Key) : Work Unit :=
  ((Element.requiredNames children).filter fun name => !keys.contains (.name name)).forM fun name =>
    find options (path.push name) (.missingField name)

/-- The keys that are neither declared nor meta. -/
def unlisted (children : List (String × Element)) (keys : List Key) : List Key :=
  keys.filter fun key => (Element.governing? children key).isNone && !options.isMeta key

/-- The fields of an object.  All declared ones are read before the first key is deleted. -/
def insideObject (place : Place) (path : Pointer) (children : List (String × Element)) (parts : List (Key × Handle))
    (keys : List Key) : Work Unit := do
  let declared := keys.filter fun key => (Element.governing? children key).isSome
  let fields ← declared.mapM fun key => return (key, ← read parts place key)
  dropMeta options place path keys
  reportMissing options path children keys
  fields.forM fun field => do
    let child ← childOf children field.1
    field.2.validate child (place ++ [Step.field field.1]) (path.push field.1.token)

def validateObject (v : Value) (parts : List (Key × Handle)) (e : Element) (place : Place) (path : Pointer) : Work Unit :=
  match e with
  | .object _ children => do
    let m ← get
    let keys := m.memory place
    thenAsk options oracle place path e v (insideObject options place path children parts keys)
    let extra := unlisted options children keys
    if options.pruneUnlisted && !extra.isEmpty then schedule ⟨place, extra⟩
  | _ => throw (.fault .foreignElement)

/-- An entry of an array that is null is not asked about further. -/
def unlessNull (allowNull : Bool) (path : Pointer) (v : Value) (work : Work Unit) : Work Unit :=
  if v.isNull then if allowNull then pure () else find options path .nullEntry
  else work

def validateArray (v : Value) (entries : List Handle) (e : Element) (place : Place) (path : Pointer) : Work Unit :=
  match e with
  | .array _ slots ordered allowNull =>
    match ArrayMode.ofContents slots ordered with
    | .any => thenAsk options oracle place path e v
        (if !allowNull && entries.any (·.value.isNull) then find options path .nullEntry else pure ())
    | .ordered =>
      if ordered.length ≠ entries.length then
        find options path (.arrayContents (.wrongLength entries.length ordered.length))
      else thenAsk options oracle place path e v <| alongside (fun index entry slot =>
        unlessNull options allowNull (path.entry index) entry.value
          (entry.validate slot (place ++ [Step.entry index]) (path.entry index))) 0 entries ordered
    | .typed => thenAsk options oracle place path e v <| entries.zipIdx.forM fun entry =>
        unlessNull options allowNull (path.entry entry.2) entry.1.value <|
          match Element.slot? slots entry.1.value.kindName with
          | some slot => entry.1.validate slot (place ++ [Step.entry entry.2]) (path.entry entry.2)
          | none => find options (path.entry entry.2) (.entryType entry.1.value.kindName)
  | _ => throw (.fault .foreignElement)

def validateScalar (v : Value) (e : Element) (place : Place) (path : Pointer) : Work Unit :=
  thenAsk options oracle place path e v ((e.causes v).forM (find options path))

/-- A value is looked into if it is neither null nor of another kind than its element. -/
def guarded (path : Pointer) (e : Element) (v : Value) (work : Work Unit) : Work Unit :=
  if v.isNull then if e.traits.nullable then pure () else find options path (.nullValue e.name?)
  else if e.accepts v then work
  else find options path (.wrongType v.kindName e.kind.label)

/-- The kind of the element says how a value is validated, whatever the value is. -/
def dispatch (v : Value) (parts : List (Key × Handle)) (entries : List Handle) (e : Element) (place : Place)
    (path : Pointer) : Work Unit :=
  if e.kind = .object then guarded options path e v (validateObject options oracle v parts e place path)
  else if e.kind = .array then guarded options path e v (validateArray options oracle v entries e place path)
  else if e.kind = .string then guarded options path e v (validateScalar options oracle v e place path)
  else if e.kind = .number then guarded options path e v (validateScalar options oracle v e place path)
  else if e.kind = .boolean then guarded options path e v (validateScalar options oracle v e place path)
  else throw (.fault (.unknownKind e.kind))

mutual

/-- Validates a value, which stood at a place of the document, under the element that governs it. -/
def validate : Value → Element → Place → Pointer → Work Unit
  | .null => dispatch options oracle .null [] []
  | .boolean b => dispatch options oracle (.boolean b) [] []
  | .number n => dispatch options oracle (.number n) [] []
  | .string text => dispatch options oracle (.string text) [] []
  | .array shape entries => dispatch options oracle (.array shape entries) [] (entryHandles entries)
  | .object fields => dispatch options oracle (.object fields) (fieldHandles fields) []
  | .foreign f => dispatch options oracle (.foreign f) [] []

def entryHandles : List Value → List Handle
  | [] => []
  | v :: rest => ⟨v, validate v⟩ :: entryHandles rest

def fieldHandles : List (Key × Value) → List (Key × Handle)
  | [] => []
  | (key, v) :: rest => (key, ⟨v, validate v⟩) :: fieldHandles rest

end

def validateRoot (root : Element) (document : Value) : Work Unit :=
  if !root.kind.isContainer then find options .root (.rootType (.notContainer root.kind))
  else if !root.accepts document then find options .root (.rootType (.wrongKind document.kindName root.kind))
  else validate options oracle document root [] .root

/-- All of a run before it is known whether unlisted fields go. -/
def survey (root : Element) (document : Value) : Work Unit := do
  tell (.began document.kindName root.kind)
  validateRoot options oracle root document

/-- Takes out all fields that are scheduled, one after the other. -/
def prune : Work Unit := do
  let m ← get
  m.ledger.unlisted.forM fun r => r.keys.forM (delete r.place)
  modify fun m => { m with ledger := { m.ledger with unlisted := [] } }
  tell (.unlistedPruned (Removal.count m.ledger.unlisted))

/-- The scheduled fields go if nothing was wrong with the document. -/
def pruneIfClean : Work Unit := do
  let m ← get
  if m.ledger.violations.isEmpty && !m.ledger.unlisted.isEmpty then prune

/-- The end of a run that was not stopped. -/
def close : Work (List Violation) := do
  pruneIfClean
  let m ← get
  tell (.finished m.ledger.violations.length)
  return m.ledger.violations

/-- Validates a document in place, and gives the violations that were found. -/
def run (root : Element) (document : Value) : Work (List Violation) := do
  survey options oracle root document
  close

end

/-- The machine on which a run of a document begins. -/
def start (document : Value) : Machine := { memory := fun place => document.keysAt place }

/-- Stops that are no fault: the violation written down last, if the options say to stop there, and the failure of the
validator that was asked last. -/
def Honest (options : Options) (oracle : Oracle) : Stop → Machine → Prop
  | .ended (.firstViolation x), m => options.stopOnFirst = true ∧ m.ledger.violations.getLast? = some x
  | .ended (.failure f), m => ∃ history w e v, m.told = history ++ [.judged w e v] ∧ oracle history w e v = .fail f
  | .fault _, _ => False

/-! ## The machine opened one level down -/

section

variable (options : Options) (oracle : Oracle)

/-- How a value is handed on. -/
def handle (v : Value) : Handle := ⟨v, validate options oracle v⟩

theorem entryHandles_eq : ∀ entries, entryHandles options oracle entries = entries.map (handle options oracle)
  | [] => by rw [entryHandles, List.map_nil]
  | v :: rest => by rw [entryHandles, List.map_cons, entryHandles_eq rest, handle]

theorem fieldHandles_eq : ∀ fields,
    fieldHandles options oracle fields = fields.map fun field => (field.1, handle options oracle field.2)
  | [] => by rw [fieldHandles, List.map_nil]
  | (key, v) :: rest => by rw [fieldHandles, List.map_cons, fieldHandles_eq rest, handle]

/-- What is done with one entry of an array, by what the array asks of it. -/
def entryWork (place : Place) (path : Pointer) (slots : List (Kind × Element)) (ordered : List Element)
    (allowNull : Bool) (entry : Handle × Nat) : Work Unit :=
  match Element.entryDemand slots ordered allowNull entry.2 entry.1.value with
  | .nothing => pure ()
  | .refused cause => find options (path.entry entry.2) cause
  | .governed e => entry.1.validate e (place ++ [Step.entry entry.2]) (path.entry entry.2)

def contentsWork (place : Place) (path : Pointer) (slots : List (Kind × Element)) (ordered : List Element)
    (allowNull : Bool) (entries : List Handle) : Work Unit :=
  match ArrayMode.ofContents slots ordered with
  | .any => if !allowNull && entries.any (·.value.isNull) then find options path .nullEntry else pure ()
  | .typed | .ordered => entries.zipIdx.forM (entryWork options place path slots ordered allowNull)

variable (place : Place) (path : Pointer)

theorem unlessNull_slot {slots : List (Kind × Element)} {ordered : List Element}
    (hm : ArrayMode.ofContents slots ordered = .typed) (allowNull : Bool) (entry : Handle × Nat) :
    (unlessNull options allowNull (path.entry entry.2) entry.1.value <|
      match Element.slot? slots entry.1.value.kindName with
      | some slot => entry.1.validate slot (place ++ [Step.entry entry.2]) (path.entry entry.2)
      | none => find options (path.entry entry.2) (.entryType entry.1.value.kindName)) =
      entryWork options place path slots ordered allowNull entry := by
  unfold unlessNull entryWork Element.entryDemand Element.entry?
  simp only [hm]
  cases entry.1.value.isNull with
  | true => cases allowNull <;> rfl
  | false => cases Element.slot? slots entry.1.value.kindName <;> rfl

/-- Walking along the ordered elements that are left is doing the work of the entries that are left. -/
theorem alongside_ordered {slots : List (Kind × Element)} {ordered : List Element}
    (hm : ArrayMode.ofContents slots ordered = .ordered) (allowNull : Bool) :
    ∀ (index : Nat) (entries : List Handle) (rest : List Element), ordered.drop index = rest →
      rest.length = entries.length →
      alongside (fun index entry slot => unlessNull options allowNull (path.entry index) entry.value
        (entry.validate slot (place ++ [Step.entry index]) (path.entry index))) index entries rest =
        (entries.zipIdx index).forM (entryWork options place path slots ordered allowNull)
  | index, [], rest, _, hl => by
    cases List.length_eq_zero_iff.1 hl
    rfl
  | index, entry :: entries, [], _, hl => by cases hl
  | index, entry :: entries, slot :: rest, hd, hl => by
    have hslot : ordered[index]? = some slot := by
      rw [← List.head?_drop, hd, List.head?_cons]
    have hrest : ordered.drop (index + 1) = rest := by
      rw [← List.tail_drop, hd, List.tail_cons]
    have hwork : unlessNull options allowNull (path.entry index) entry.value
        (entry.validate slot (place ++ [Step.entry index]) (path.entry index)) =
          entryWork options place path slots ordered allowNull (entry, index) := by
      unfold unlessNull entryWork Element.entryDemand Element.entry?
      simp only [hm, hslot]
      cases entry.value.isNull with
      | true => cases allowNull <;> rfl
      | false => rfl
    rw [alongside, alongside_ordered hm allowNull (index + 1) entries rest hrest (Nat.succ.inj hl), hwork]
    rfl

theorem validate_null (e : Element) : validate options oracle .null e place path =
    if e.traits.nullable then pure () else find options path (.nullValue e.name?) := by
  cases e <;> rfl

theorem validate_wrong {e : Element} {v : Value} (hv : v.isNull = false) (h : e.accepts v = false) :
    validate options oracle v e place path = find options path (.wrongType v.kindName e.kind.label) := by
  have hdispatch : ∀ parts entries, dispatch options oracle v parts entries e place path =
      find options path (.wrongType v.kindName e.kind.label) := fun parts entries => by
    cases e <;> simp [dispatch, guarded, Element.kind, hv, h]
  cases v with
  | null => cases hv
  | object | array | boolean | number | string | foreign => exact hdispatch _ _

theorem validate_scalar {e : Element} {v : Value} (hv : v.isScalar = true) (h : e.accepts v = true) :
    validate options oracle v e place path = validateScalar options oracle v e place path := by
  cases v with
  | null | object | array => cases hv
  | foreign f => rw [e.accepts_foreign f] at h; cases h
  | boolean | number | string => cases e <;> first | rfl | cases h

theorem validate_object (traits : Traits) (children : List (String × Element)) (fields : List (Key × Value)) :
    validate options oracle (.object fields) (.object traits children) place path =
      validateObject options oracle (.object fields) (fields.map fun field => (field.1, handle options oracle field.2))
        (.object traits children) place path := by
  rw [← fieldHandles_eq]
  rfl

/-- **An array is validated entry by entry, as its element asks of each**, whatever the mode. -/
theorem validate_array (traits : Traits) (slots : List (Kind × Element)) {ordered : List Element} (allowNull : Bool)
    (shape : ArrayShape) {entries : List Value} (h : ordered = [] ∨ ordered.length = entries.length) :
    validate options oracle (.array shape entries) (.array traits slots ordered allowNull) place path =
      thenAsk options oracle place path (.array traits slots ordered allowNull) (.array shape entries)
        (contentsWork options place path slots ordered allowNull (entries.map (handle options oracle))) := by
  have hopen : validate options oracle (.array shape entries) (.array traits slots ordered allowNull) place path =
      validateArray options oracle (.array shape entries) (entries.map (handle options oracle))
        (.array traits slots ordered allowNull) place path := by
    rw [← entryHandles_eq]
    rfl
  rw [hopen, validateArray, contentsWork]
  cases hm : ArrayMode.ofContents slots ordered with
  | any => rfl
  | typed => simp only [unlessNull_slot options place path hm]
  | ordered =>
    have hl : ordered.length = (entries.map (handle options oracle)).length := by
      rw [List.length_map]
      exact h.resolve_left fun h0 => by
        subst h0
        cases slots <;> cases hm
    simp only [hl, ne_eq, not_true_eq_false, if_false]
    rw [alongside_ordered options place path hm allowNull 0 _ ordered rfl hl]

theorem validate_array_of_length_ne (traits : Traits) (slots : List (Kind × Element)) {ordered : List Element}
    (allowNull : Bool) (shape : ArrayShape) {entries : List Value}
    (h : ¬ (ordered = [] ∨ ordered.length = entries.length)) :
    validate options oracle (.array shape entries) (.array traits slots ordered allowNull) place path =
      find options path (.arrayContents (.wrongLength entries.length ordered.length)) := by
  rw [not_or] at h
  have hm : ArrayMode.ofContents slots ordered = .ordered := by simp [ArrayMode.ofContents, h.1]
  have hopen : validate options oracle (.array shape entries) (.array traits slots ordered allowNull) place path =
      validateArray options oracle (.array shape entries) (entries.map (handle options oracle))
        (.array traits slots ordered allowNull) place path := by
    rw [← entryHandles_eq]
    rfl
  rw [hopen, validateArray]
  simp only [hm, List.length_map, ne_eq, h.2, not_false_eq_true, if_true]

end

end InPlace
end ConfigSchema
