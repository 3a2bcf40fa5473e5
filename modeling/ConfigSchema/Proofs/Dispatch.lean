import ConfigSchema.Proofs.Bounds
import ConfigSchema.Proofs.Consistent
import ConfigSchema.Proofs.Entries
import ConfigSchema.Proofs.Sorts
/-!
# Dispatch — the kind of a value and the element that accepts it

A value is classified in two ways: by its kind, which finds the slot for an entry, and by the element that is asked whether
it accepts the value.  The two agree on every value of one sort, and so on every value of a document.  Slots are found by the
name of the kind, though, and a foreign type may have such a name; in a document that is free of those (`Value.Telling`) no
entry is refused by the element in its slot, and an entry without a slot is refused once and left alone (`dispatch_run`).
-/
namespace ConfigSchema

namespace Value

/-- No value that is foreign to schemas has a type with the name of a kind. -/
def Telling (document : Value) : Prop :=
  ∀ tokens f, document.at? tokens = some (.foreign f) → ∀ k : Kind, k.label ≠ f.type

theorem telling_scalar {v : Value} (hv : v.isScalar = true) (hf : ∀ f, v = .foreign f → ∀ k : Kind, k.label ≠ f.type) :
    v.Telling
  | [], f, h => hf f (Option.some.inj h)
  | _ :: _, _, h => by cases v <;> first | cases h | cases hv

theorem telling_array {shape : ArrayShape} {entries : List Value} (hentries : ∀ v ∈ entries, v.Telling) :
    (Value.array shape entries).Telling
  | [], _, h => by cases h
  | token :: rest, f, h => by
    obtain ⟨v, hv, h⟩ := Option.bind_eq_some_iff.1 h
    obtain ⟨i, -, hi⟩ := Option.bind_eq_some_iff.1 hv
    exact hentries v (List.mem_of_getElem? hi) rest f h

/-- The name of a kind is the kind's own, unless a foreign type bears it. -/
theorem isOf_of_kindName {v : Value} {k : Kind} (hv : v ≠ .null) (hf : ∀ f, v = .foreign f → k.label ≠ f.type)
    (h : v.kindName = k.label) : v.isOf k = true := by
  have hown (own : Kind) (hk : v.isOf own = true) : v.isOf k = true :=
    Element.label_injective ((kindName_of_isOf hk).symm.trans h) ▸ hk
  cases v with
  | null => exact absurd rfl hv
  | foreign f =>
    rw [kindName_foreign] at h
    exact absurd h.symm (hf f rfl)
  | boolean => exact hown .boolean rfl
  | number => exact hown .number rfl
  | string => exact hown .string rfl
  | array => exact hown .array rfl
  | object => exact hown .object rfl

end Value

/-- **An element accepts the values that have its kind.** -/
theorem Element.accepts_iff (e : Element) (v : Value) : e.accepts v = true ↔ v.kind? = .ok (some e.kind) :=
  Value.isOf_iff e.kind v

theorem Element.entry?_of_typed {slots : List (Kind × Element)} {ordered : List Element}
    (h : ArrayMode.ofContents slots ordered = .typed) (i : Nat) (v : Value) :
    entry? slots ordered i v = slot? slots v.kindName := by
  unfold entry?
  rw [h]

namespace Setting

variable {s : Setting} {root : Element} {document : Value} {traits : Traits} {slots : List (Kind × Element)}
  {ordered : List Element} {allowNull : Bool} {v : Value}

/-- A violation by the kind of a value is found where an element governs a value that it does not accept. -/
theorem meets_of_wrongType (hd : document.Distinct) {actual expected : String} {path : Pointer}
    (h : ⟨.wrongType actual expected, path⟩ ∈ (s.run root document).violations) : ∃ e v, root.Meets document path.tokens e v ∧
      v ≠ .null ∧ e.accepts v = false ∧ actual = v.kindName ∧ expected = e.kind.label := by
  cases ha : root.admits document with
  | false =>
    obtain ⟨cause, hunfit, hvs⟩ := violations_run_of_unfit (s := s) ha
    rw [hvs, List.mem_singleton, Violation.mk.injEq] at h
    obtain ⟨rfl, -⟩ := h
    cases hunfit
  | true =>
    have hoff : s.Offence root document path.tokens (.wrongType actual expected) := offence_of_mem_run hd ha _ h
    generalize path.tokens = ts at hoff
    cases hoff with
    | faulty meets faulty =>
      cases faulty with
      | kind present refused => exact ⟨_, _, meets, present, refused, rfl, rfl⟩

/-- The element in the slot for the kind of an entry accepts the entry. -/
theorem accepts_of_slot? (hroot : root.Constructible) (ht : document.Telling) {e : Element} {ts : List String}
    (harray : root.Holds (.array traits slots ordered allowNull)) (hv : v ≠ .null) (hat : document.at? ts = some v)
    (h : Element.slot? slots v.kindName = some e) : e.accepts v = true := by
  have hkind := Element.kind_of_slot? (hroot.consistent _ harray).1 h
  exact Value.isOf_of_kindName hv (fun f hf => ht ts f (hf ▸ hat) e.kind) hkind.symm

/-- What is found at an entry of an array with slots is not that its type is wrong. -/
theorem errorClass_ne_of_typed (hroot : root.Constructible) (hd : document.Distinct) (ht : document.Telling)
    {tokens : List String} {shape : ArrayShape} {entries : List Value} {i : Nat}
    (harray : root.Governs document tokens (.array traits slots ordered allowNull) (.array shape entries))
    (hmode : ArrayMode.ofContents slots ordered = .typed) (hi : entries[i]? = some v) {x : Violation}
    (hx : x ∈ (s.run root document).violations) (htokens : x.path.tokens = tokens ++ [toString i]) :
    x.errorClass ≠ .wrongType := by
  intro hclass
  obtain ⟨cause, path⟩ := x
  cases cause with
  | wrongType actual expected =>
    obtain ⟨e, u, hmeets, hu, hrefused, -, -⟩ := meets_of_wrongType hd hx
    rw [show path.tokens = _ from htokens] at hmeets
    obtain ⟨hdemand, rfl⟩ := harray.entryDemand_eq hd hi hmeets.governs
    have hentry := (Element.entryDemand_eq_governed hdemand).2
    rw [Element.entry?_of_typed hmode] at hentry
    rw [accepts_of_slot? hroot ht harray.holds hu hmeets.resolves hentry] at hrefused
    cases hrefused
  | rootType | badValue | nullValue | missingField | arrayContents | nullEntry | entryType | stated => cases hclass

/-- **The kind of a value and the element that accepts it never disagree.**  Whatever types a value is of, it is of the kind
that its tag names, and of no other just if it is of one sort, as every value of a document is; so an element accepts the
values of its kind.  Hence no entry is refused by the element in its slot; an entry that has no slot is refused once, and
nothing in it is looked at; and a value that is refused for its kind is not of the kind that was asked for. -/
theorem dispatch_run (s : Setting) (hroot : root.Constructible) (hd : document.Distinct) (ht : document.Telling) :
    (∀ (m : Membership) (k : Kind), m.tag? = some (some k) → m.isOf k = true) ∧
    (∀ m : Membership, m.OneSort ↔ ∀ k, m.isOf k = true ↔ m.tag? = some (some k)) ∧
    (∀ v : Value, v.membership.OneSort) ∧
    (∀ (e : Element) (v : Value), e.accepts v = true ↔ v.kind? = .ok (some e.kind)) ∧
    (∀ actual expected path, ⟨.wrongType actual expected, path⟩ ∈ (s.run root document).violations → actual ≠ expected) ∧
    ∀ tokens traits slots ordered allowNull shape entries (i : Nat) v,
      root.Governs document tokens (.array traits slots ordered allowNull) (.array shape entries) →
      ArrayMode.ofContents slots ordered = .typed → entries[i]? = some v →
        (∀ x ∈ (s.run root document).violations, x.path.tokens = tokens ++ [toString i] → x.errorClass ≠ .wrongType) ∧
        (v ≠ .null → Element.slot? slots v.kindName = none →
          s.Refuses root document (tokens ++ [toString i]) (.entryType v.kindName) ∧
          ∀ path, s.walkEntry path slots ordered allowNull i v = ⟨v, s.found (path.entry i) (.entryType v.kindName)⟩) := by
  refine ⟨fun _ _ => Membership.isOf_of_tag?, fun _ => Membership.oneSort_iff, Value.oneSort, Element.accepts_iff,
    fun actual expected path hx heq => ?_, ?_⟩
  · obtain ⟨e, v, hmeets, hv, hrefused, rfl, rfl⟩ := meets_of_wrongType hd hx
    have hof : e.accepts v = true := Value.isOf_of_kindName hv
      (fun f hf => ht _ f (hf ▸ hmeets.resolves) e.kind) heq
    rw [hof] at hrefused
    cases hrefused
  · intro tokens traits slots ordered allowNull shape entries i v harray hmode hi
    have hordered : ordered = [] := by
      cases ordered with
      | nil => rfl
      | cons => cases hmode
    refine ⟨fun x hx htokens => errorClass_ne_of_typed hroot hd ht harray hmode hi hx htokens, fun hv hnone => ?_⟩
    have hdemand : Element.entryDemand slots ordered allowNull i v = .refused (.entryType v.kindName) :=
      Element.entryDemand_of_none hv (by rw [Element.entry?_of_typed hmode, hnone])
    have hany : ArrayMode.ofContents slots ordered ≠ .any := by
      rw [hmode]
      nofun
    exact ⟨refuses_of_entryDemand hroot.distinct hd harray (.inl hordered) hany hi hdemand,
      fun path => walkEntry_of_refused path hdemand⟩

/-- Entries of two foreign types in an array that has a slot for strings; one of them is a sequence. -/
theorem dispatch_run_foreign :
    let set : Foreign := ⟨"set", {}, rfl, "\x7b1\x7d", "\x7b1\x7d"⟩
    let bytes : Foreign := ⟨"bytes", { bytes := true, sequence := true }, rfl, "b'x'", "b'x'"⟩
    let root := Element.array {} [(.string, .string {} {})] [] false
    let document := Value.array .list [.string "a", .foreign set, .foreign bytes]
    root.Constructible ∧ document.Distinct ∧ document.Telling ∧
      ((⟨{}, fun _ _ _ => .accept⟩ : Setting).run root document).violations.map (·.message) =
        ["Invalid array element type set", "Invalid array element type bytes"] ∧
      (⟨{}, fun _ _ _ => .accept⟩ : Setting).Refuses root document ["2"] (.entryType "bytes") := by
  intro set bytes root document
  have hroot : root.Constructible :=
    @Element.Constructible.array _ [("string", .string {} {})] [] _ _ (List.forall_mem_singleton.2 .string) nofun rfl
  have hentries : ∀ v ∈ [Value.string "a", .foreign set, .foreign bytes], v.isScalar = true ∧ v.Telling := by
    simp only [List.forall_mem_cons]
    refine ⟨⟨rfl, Value.telling_scalar rfl nofun⟩, ⟨rfl, Value.telling_scalar rfl ?_⟩, ⟨rfl, Value.telling_scalar rfl ?_⟩,
      nofun⟩
    all_goals
      rintro _ ⟨⟩ k
      cases k <;> decide
  have hd : document.Distinct := .array fun v hv => .scalar (hentries v hv).1
  have ht : document.Telling := Value.telling_array fun v hv => (hentries v hv).2
  obtain ⟨-, -, -, -, -, hrefused⟩ := dispatch_run ⟨{}, fun _ _ _ => .accept⟩ hroot hd ht
  exact ⟨hroot, hd, ht, by decide, ((hrefused [] _ _ _ _ _ _ 2 _ .root rfl rfl).2 nofun rfl).1⟩

end Setting
end ConfigSchema
