import ConfigSchema.Proofs.Branches
import Mathlib.Data.List.Induction
/-!
# Entries — what a run says of the entries of an array

An array asks something of each of its entries, and refuses those that it has no use for.  The walk of whatever is governed
is part of the run (`partOf_walk_of_governs`), and nothing in an entry is governed but by the element that the array asks of
it (`Governs.entryDemand_eq`).  So an entry that is refused is refused once, at the entry itself (`refuses_of_entryDemand`), and of
an entry of which nothing is asked nothing is said.
-/
namespace ConfigSchema

/-! ## What a walk tells of, and what its parts tell of -/

namespace Trail

variable {t u w : Trail}

/-- If the second trail goes through, so does the first, and what it tells of the second tells of as well. -/
def PartOf (t u : Trail) : Prop := u.halt = none → t.halt = none ∧ t.violations ⊆ u.violations

theorem PartOf.refl (t : Trail) : t.PartOf t := fun h => ⟨h, List.Subset.refl _⟩

theorem PartOf.trans (h : t.PartOf u) (h' : u.PartOf w) : t.PartOf w := fun hw => by
  obtain ⟨hu, hsub⟩ := h' hw
  obtain ⟨ht, hsub'⟩ := h hu
  exact ⟨ht, List.Subset.trans hsub' hsub⟩

theorem partOf_andThen_left (t u : Trail) : t.PartOf (t.andThen u) := fun h => by
  obtain ⟨ht, -⟩ := halt_andThen_eq_none.1 h
  rw [violations_andThen ht]
  exact ⟨ht, List.subset_append_left _ _⟩

theorem partOf_andThen_right (t u : Trail) : u.PartOf (t.andThen u) := fun h => by
  obtain ⟨ht, hu⟩ := halt_andThen_eq_none.1 h
  rw [violations_andThen ht]
  exact ⟨hu, List.subset_append_right _ _⟩

theorem partOf_andIfClean (t u : Trail) : t.PartOf (t.andIfClean u) := by
  by_cases hv : t.violations = []
  · rw [andIfClean_of_nil hv]
    exact partOf_andThen_left t u
  · rw [andIfClean_of_ne_nil hv]
    exact .refl t

theorem partOf_sequence : ∀ {ts : List Trail}, t ∈ ts → t.PartOf (sequence ts)
  | u :: ts, h => by
    rcases List.mem_cons.1 h with rfl | h
    · exact partOf_andThen_left t _
    · exact (partOf_sequence h).trans (partOf_andThen_right u _)

end Trail

theorem Walk.partOf_each {α : Type} (f : Nat → α → Walk α) {parts : List α} {i : Nat} {a : α} (h : parts[i]? = some a) :
    (f i a).trail.PartOf (each f 0 parts).trail := by
  obtain ⟨hi, rfl⟩ := List.getElem?_eq_some_iff.1 h
  rw [trail_each]
  exact Trail.partOf_sequence (List.mem_mapIdx.2 ⟨i, hi, by rw [Nat.zero_add]⟩)

/-! ## What an array asks of an entry -/

namespace Element

variable {slots : List (Kind × Element)} {ordered : List Element} {allowNull : Bool} {i : Nat} {v : Value}

theorem entryDemand_null (slots : List (Kind × Element)) (ordered : List Element) (allowNull : Bool) (i : Nat) :
    entryDemand slots ordered allowNull i .null = if allowNull then .nothing else .refused .nullEntry := rfl

theorem entryDemand_of_some (hv : v ≠ .null) {e : Element} (h : entry? slots ordered i v = some e) :
    entryDemand slots ordered allowNull i v = .governed e := by
  have hn : v.isNull = false := by rwa [Bool.eq_false_iff, ne_eq, Value.isNull_iff]
  simp only [entryDemand, hn, h, Bool.false_eq_true, if_false]

theorem entryDemand_of_none (hv : v ≠ .null) (h : entry? slots ordered i v = none) :
    entryDemand slots ordered allowNull i v = .refused (.entryType v.kindName) := by
  have hn : v.isNull = false := by rwa [Bool.eq_false_iff, ne_eq, Value.isNull_iff]
  simp only [entryDemand, hn, h, Bool.false_eq_true, if_false]

end Element

namespace Setting

variable {s : Setting} {root : Element} {document : Value} {tokens : List String} {e : Element} {v : Value}

theorem partOf_walk_object (path : Pointer) (traits : Traits) (children : List (String × Element))
    {fields : List (Key × Value)} {field : Key × Value} (h : field ∈ fields) :
    (s.walkField path children field).trail.PartOf (s.walk path (.object traits children) (.object fields)).trail := by
  obtain ⟨i, hi⟩ := List.getElem?_of_mem h
  rw [walk_object, trail_walkObject]
  refine (Walk.partOf_each (fun _ => s.walkField path children) hi).trans ?_
  exact ((Trail.partOf_andThen_right _ _).trans (Trail.partOf_andIfClean _ _)).trans (Trail.partOf_andThen_left _ _)

theorem partOf_walk_array (path : Pointer) (traits : Traits) {slots : List (Kind × Element)} {ordered : List Element}
    (allowNull : Bool) (shape : ArrayShape) {entries : List Value} (hfits : ordered = [] ∨ ordered.length = entries.length) :
    (s.walkContents path slots ordered allowNull entries).trail.PartOf
      (s.walk path (.array traits slots ordered allowNull) (.array shape entries)).trail := by
  rw [walk_array s path traits slots allowNull shape hfits, trail_walkArray]
  exact Trail.partOf_andIfClean _ _

theorem partOf_walkContents (path : Pointer) {slots : List (Kind × Element)} {ordered : List Element}
    (hmode : ArrayMode.ofContents slots ordered ≠ .any) (allowNull : Bool) {entries : List Value} {i : Nat}
    (h : entries[i]? = some v) : (s.walkEntry path slots ordered allowNull i v).trail.PartOf
      (s.walkContents path slots ordered allowNull entries).trail := by
  unfold walkContents
  cases hm : ArrayMode.ofContents slots ordered with
  | any => exact absurd hm hmode
  | typed | ordered => exact Walk.partOf_each (s.walkEntry path slots ordered allowNull) h

theorem walkEntry_of_refused (path : Pointer) {slots : List (Kind × Element)} {ordered : List Element} {allowNull : Bool}
    {i : Nat} {cause : Cause} (h : Element.entryDemand slots ordered allowNull i v = .refused cause) :
    s.walkEntry path slots ordered allowNull i v = ⟨v, s.found (path.entry i) cause⟩ := by
  rw [walkEntry, h]

/-- **What is governed is walked**, at the place to which the tokens lead. -/
theorem partOf_walk_of_governs (s : Setting) (h : root.Governs document tokens e v) :
    (s.walk (tokens.foldl .push .root) e v).trail.PartOf (s.walk .root root document).trail := by
  induction h with
  | root => exact .refl _
  | @field tokens traits children fields name v child _ held declared ih =>
    refine .trans ?_ ((partOf_walk_object _ traits children held).trans ih)
    have hg : Element.governing? children (.name name) = some child := declared
    rw [List.foldl_append]
    simp only [walkField, hg]
    exact .refl _
  | @entry tokens traits slots ordered allowNull shape entries index v e _ fits held present asked ih =>
    have hmode : ArrayMode.ofContents slots ordered ≠ .any := by
      intro hany
      unfold Element.entry? at asked
      rw [hany] at asked
      cases asked
    refine .trans ?_ ((partOf_walkContents _ hmode allowNull held).trans ((partOf_walk_array _ traits _ shape fits).trans ih))
    rw [walkEntry, Element.entryDemand_of_some present asked, List.foldl_append]
    exact .refl _

end Setting

/-! ## What governs the entries of an array -/

namespace Element

variable {root : Element} {document : Value} {tokens : List String} {traits : Traits} {slots : List (Kind × Element)}
  {ordered : List Element} {allowNull : Bool} {shape : ArrayShape} {entries : List Value} {i : Nat} {v : Value}

/-- The root of a document in which an array is governed admits the document. -/
theorem Governs.admits (h : root.Governs document tokens (.array traits slots ordered allowNull) (.array shape entries)) :
    root.admits document = true := by
  generalize he : Element.array traits slots ordered allowNull = e at h
  generalize hv : Value.array shape entries = v at h
  have hk : e.admits v = true := by
    subst he hv
    rfl
  clear he hv
  induction h with
  | root => exact hk
  | field _ _ _ ih => exact ih rfl
  | entry _ _ _ _ _ ih => exact ih rfl

/-- A part of a document is governed only if what is around it is. -/
theorem Governs.above {ts : List String} : ∀ {e : Element} {u : Value}, root.Governs document (tokens ++ ts) e u →
    ∃ e' u', root.Governs document tokens e' u' := by
  induction ts using List.reverseRecOn with
  | nil =>
    intro e u h
    rw [List.append_nil] at h
    exact ⟨e, u, h⟩
  | append_singleton ts t ih =>
    intro e u h
    generalize hts : tokens ++ (ts ++ [t]) = all at h
    rw [← List.append_assoc] at hts
    cases h with
    | root => simp at hts
    | field parent => exact ih ((List.append_inj' hts rfl).1 ▸ parent)
    | entry parent => exact ih ((List.append_inj' hts rfl).1 ▸ parent)

/-- **What governs an entry is the element that its array asks of it.** -/
theorem Governs.entryDemand_eq (hd : document.Distinct)
    (harray : root.Governs document tokens (.array traits slots ordered allowNull) (.array shape entries))
    (hi : entries[i]? = some v) {e : Element} {u : Value} (h : root.Governs document (tokens ++ [toString i]) e u) :
    entryDemand slots ordered allowNull i v = .governed e ∧ u = v := by
  generalize hts : tokens ++ [toString i] = all at h
  cases h with
  | root => simp at hts
  | field parent =>
    obtain ⟨rfl, -⟩ := List.append_inj' hts rfl
    cases (harray.unique hd parent).1
  | @entry _ _ _ _ _ _ _ index _ _ parent _ held present asked =>
    obtain ⟨rfl, hindex⟩ := List.append_inj' hts rfl
    have hindex : i = index := by
      have := congrArg Value.index? (List.singleton_inj.1 hindex)
      rwa [Value.index?_toString, Value.index?_toString, Option.some.injEq] at this
    subst hindex
    obtain ⟨he, hv⟩ := harray.unique hd parent
    cases he
    cases hv
    rw [hi] at held
    cases held
    exact ⟨entryDemand_of_some present asked, rfl⟩

theorem Governs.at?_entry (hd : document.Distinct)
    (harray : root.Governs document tokens (.array traits slots ordered allowNull) (.array shape entries))
    (hi : entries[i]? = some v) : document.at? (tokens ++ [toString i]) = some v := by
  rw [Value.at?_append, harray.at? hd, Option.bind_some, Value.at?_entry, hi]

/-- Nothing in an entry is governed unless its array asks an element of it. -/
theorem Governs.not_below (hd : document.Distinct)
    (harray : root.Governs document tokens (.array traits slots ordered allowNull) (.array shape entries))
    (hi : entries[i]? = some v) (hnone : ∀ e, entryDemand slots ordered allowNull i v ≠ .governed e) {ts : List String}
    {e : Element} {u : Value} : ¬ root.Governs document (tokens ++ [toString i] ++ ts) e u := fun h => by
  obtain ⟨e', u', h'⟩ := h.above
  exact hnone e' (harray.entryDemand_eq hd hi h').1

end Element

/-! ## Entries that are not walked -/

namespace Setting

variable {s : Setting} {root : Element} {document : Value} {tokens : List String} {traits : Traits}
  {slots : List (Kind × Element)} {ordered : List Element} {allowNull : Bool} {shape : ArrayShape} {entries : List Value}
  {i : Nat} {v : Value}

/-- Whatever is found in or below an entry that is not walked is what the array refuses in it, at the entry. -/
theorem refused_below (hd : document.Distinct)
    (harray : root.Governs document tokens (.array traits slots ordered allowNull) (.array shape entries))
    (hi : entries[i]? = some v) (hnone : ∀ e, Element.entryDemand slots ordered allowNull i v ≠ .governed e) {x : Violation}
    (hx : x ∈ (s.run root document).violations) (hp : tokens ++ [toString i] <+: x.path.tokens) :
    x.path.tokens = tokens ++ [toString i] ∧ Element.entryDemand slots ordered allowNull i v = .refused x.cause := by
  have hnot {ts e u} : ¬ root.Governs document (tokens ++ [toString i] ++ ts) e u := harray.not_below hd hi hnone
  -- what is missing or refused belongs to a value that is governed, and so to the array itself
  have hpart : ∀ {ts : List String} {t : String} {e : Element} {u : Value}, root.Meets document ts e u →
      tokens ++ [toString i] <+: ts ++ [t] → ts = tokens ∧ t = toString i ∧
        e = .array traits slots ordered allowNull ∧ u = .array shape entries := by
    intro ts t e u hmeets hp
    rcases List.prefix_concat_iff.1 hp with heq | ⟨rest, rfl⟩
    · obtain ⟨rfl, ht⟩ := List.append_inj' heq rfl
      obtain ⟨rfl, rfl⟩ := harray.unique hd hmeets.governs
      exact ⟨rfl, (List.singleton_inj.1 ht).symm, rfl, rfl⟩
    · exact absurd hmeets.governs hnot
  obtain ⟨cause, path⟩ := x
  have hoff := offence_of_mem_run hd harray.admits _ hx
  generalize hts : path.tokens = ts at hoff hp ⊢
  cases hoff with
  | faulty meets =>
    obtain ⟨rest, rfl⟩ := hp
    exact absurd meets.governs hnot
  | missingField meets | nullField meets =>
    cases (hpart meets hp).2.2.1
  | nullEntry meets _ held =>
    obtain ⟨rfl, ht, he, -⟩ := hpart meets hp
    rw [ht, harray.at?_entry hd hi] at held
    cases held
    cases he
    exact ⟨by rw [ht], rfl⟩
  | entryType meets slotted held present free =>
    obtain ⟨rfl, ht, he, -⟩ := hpart meets hp
    rw [ht, harray.at?_entry hd hi] at held
    cases held
    cases he
    exact ⟨by rw [ht], Element.entryDemand_of_none present (by rw [Element.entry?_typed slotted, free])⟩

/-- A run refuses what tokens lead to for a cause, once and on the spot, and does not look inside; only a run that ends
before it comes there says nothing of it. -/
structure Refuses (s : Setting) (root : Element) (document : Value) (tokens : List String) (cause : Cause) : Prop where
  once : ((s.run root document).violations.filter fun x => tokens <+: x.path.tokens) = [] ∨
    ∃ path : Pointer, path.tokens = tokens ∧
      ((s.run root document).violations.filter fun x => tokens <+: x.path.tokens) = [⟨cause, path⟩]
  found : (s.run root document).halt = none →
    ((s.run root document).violations.filter fun x => tokens <+: x.path.tokens) ≠ []
  undisturbed : ∀ ts e u, ¬ root.Governs document (tokens ++ ts) e u

/-- **An entry that its array refuses is refused once**, and nothing else is said of it or of anything in it. -/
theorem refuses_of_entryDemand (hroot : root.Distinct) (hd : document.Distinct)
    (harray : root.Governs document tokens (.array traits slots ordered allowNull) (.array shape entries))
    (hfits : ordered = [] ∨ ordered.length = entries.length) (hmode : ArrayMode.ofContents slots ordered ≠ .any)
    (hi : entries[i]? = some v) {cause : Cause} (hdemand : Element.entryDemand slots ordered allowNull i v = .refused cause) :
    s.Refuses root document (tokens ++ [toString i]) cause := by
  have hnone : ∀ e, Element.entryDemand slots ordered allowNull i v ≠ .governed e := fun e he => by
    rw [hdemand] at he
    cases he
  refine ⟨?_, fun hhalt => ?_, fun _ _ _ => harray.not_below hd hi hnone⟩
  · cases hfilter : (s.run root document).violations.filter fun x => tokens ++ [toString i] <+: x.path.tokens with
    | nil => exact .inl rfl
    | cons x rest =>
      have hmem : x ∈ (s.run root document).violations.filter fun x => tokens ++ [toString i] <+: x.path.tokens := by
        rw [hfilter]
        exact List.mem_cons_self
      rw [List.mem_filter, decide_eq_true_eq] at hmem
      obtain ⟨htokens, hcause⟩ := refused_below hd harray hi hnone hmem.1 hmem.2
      have hclass : x.errorClass ≠ .badValue := by
        rcases Element.entryDemand_eq_refused hcause with ⟨-, -, hc⟩ | ⟨-, -, hc⟩ <;> rw [Violation.errorClass, hc] <;> nofun
      have hbelow := (branching_run (s := s) hroot hd).filter_below hmem.1 hclass
      rw [htokens, hfilter] at hbelow
      rw [hdemand] at hcause
      cases hcause
      exact .inr ⟨x.path, htokens, hbelow⟩
  · rw [halt_run, s.walkRoot_of_admits root document harray.admits] at hhalt
    have hpart := ((partOf_walkContents (s := s) (tokens.foldl .push .root) hmode allowNull hi).trans
      (partOf_walk_array _ traits _ shape hfits)).trans (partOf_walk_of_governs s harray)
    rw [walkEntry_of_refused _ hdemand] at hpart
    have hmem := (hpart hhalt).2 (List.mem_singleton_self _)
    rw [violations_run, s.walkRoot_of_admits root document harray.admits]
    refine List.ne_nil_of_mem (List.mem_filter.2 ⟨hmem, ?_⟩)
    rw [decide_eq_true_eq, Pointer.tokens_entry, Pointer.tokens_foldl_push]
    exact List.prefix_refl _

/-! ## Entries that are null -/

/-- What a run says of the null at an index of an array goes by whether the array allows nulls, and by nothing else.  An array
that takes entries of any kind answers for its nulls together. -/
structure SettlesNull (s : Setting) (root : Element) (document : Value) (tokens : List String) (slots : List (Kind × Element))
    (ordered : List Element) (allowNull : Bool) (i : Nat) : Prop where
  allowed : allowNull = true → ∀ x ∈ (s.run root document).violations,
    ¬ tokens ++ [toString i] <+: x.path.tokens ∧ (x.path.tokens = tokens → x.cause ≠ .nullEntry)
  alone : allowNull = false → ArrayMode.ofContents slots ordered ≠ .any →
    s.Refuses root document (tokens ++ [toString i]) .nullEntry
  together : allowNull = false → ArrayMode.ofContents slots ordered = .any → (s.run root document).halt = none →
    ∃ path : Pointer, path.tokens = tokens ∧
      ((s.run root document).violations.filter fun x => tokens <+: x.path.tokens) = [⟨.nullEntry, path⟩]

/-- An array is at fault for a null among its entries only if it does not allow nulls. -/
theorem allowNull_of_nullEntry (hd : document.Distinct)
    (harray : root.Governs document tokens (.array traits slots ordered allowNull) (.array shape entries)) {x : Violation}
    (hx : x ∈ (s.run root document).violations) (htokens : x.path.tokens = tokens) (hcause : x.cause = .nullEntry) :
    allowNull = false := by
  have hoff := offence_of_mem_run hd harray.admits _ hx
  have hat := harray.at? hd
  rw [hcause] at hoff
  rw [← htokens] at hat harray
  generalize x.path.tokens = ts at hoff harray hat
  cases hoff with
  | faulty meets faulty =>
    obtain ⟨he, hv⟩ := harray.unique hd meets.governs
    cases faulty with
    | nulls held =>
      cases he
      rfl
  | nullEntry meets _ held =>
    rw [hat] at held
    cases held

theorem settlesNull_of_governs (hroot : root.Distinct) (hd : document.Distinct)
    (harray : root.Governs document tokens (.array traits slots ordered allowNull) (.array shape entries))
    (hfits : ordered = [] ∨ ordered.length = entries.length) (hi : entries[i]? = some .null) :
    s.SettlesNull root document tokens slots ordered allowNull i := by
  have hdemand := Element.entryDemand_null slots ordered allowNull i
  refine ⟨fun hallow x hx => ⟨fun hp => ?_, fun htokens hcause => ?_⟩, fun hallow hmode => ?_, fun hallow hmode hhalt => ?_⟩
  · rw [if_pos hallow] at hdemand
    have hrefused := (refused_below hd harray hi (fun e he => by rw [hdemand] at he; cases he) hx hp).2
    rw [hdemand] at hrefused
    cases hrefused
  · rw [allowNull_of_nullEntry hd harray hx htokens hcause] at hallow
    cases hallow
  · rw [if_neg (by rw [hallow]; exact Bool.false_ne_true)] at hdemand
    exact refuses_of_entryDemand hroot hd harray hfits hmode hi hdemand
  · have hwalk := hhalt
    rw [halt_run, s.walkRoot_of_admits root document harray.admits] at hwalk
    have hpart := (partOf_walk_array (s := s) (tokens.foldl .push .root) traits allowNull shape hfits).trans
      (partOf_walk_of_governs s harray)
    have hcontents : s.walkContents (tokens.foldl .push .root) slots ordered allowNull entries =
        ⟨entries, s.found (tokens.foldl .push .root) .nullEntry⟩ := by
      have hany : entries.any (·.isNull) = true := List.any_eq_true.2 ⟨.null, List.mem_of_getElem? hi, rfl⟩
      rw [walkContents, hmode]
      simp only [anyEntries, hallow, hany, Bool.not_false, Bool.and_true, if_true]
    rw [hcontents] at hpart
    have hmem := (hpart hwalk).2 (List.mem_singleton_self _)
    rw [← s.walkRoot_of_admits root document harray.admits, ← violations_run] at hmem
    have hbelow := (branching_run (s := s) hroot hd).filter_below hmem fun h => by cases h
    have htokens : (tokens.foldl Pointer.push .root).tokens = tokens := Pointer.tokens_foldl_push tokens .root
    rw [htokens] at hbelow
    exact ⟨_, htokens, hbelow⟩

end Setting
end ConfigSchema
