import ConfigSchema.Proofs.Distinct
import ConfigSchema.Proofs.Tokens
/-!
# Governed — the values of a document that a run comes to

A walk takes its way along the schema: an element governs the value that is walked under it, a child the field that it is
declared for, and what an array asks of an entry that entry.  The tokens of the way lead to the value itself
(`Governs.at?`), and no two elements govern what the same tokens lead to (`Governs.unique`).
-/
namespace ConfigSchema

namespace Element

/-- An element governs the value to which tokens lead in a document that the root governs.  No element governs an entry that
is null. -/
inductive Governs (root : Element) (document : Value) : List String → Element → Value → Prop
  | root : Governs root document [] root document
  | field {tokens : List String} {traits : Traits} {children : List (String × Element)} {fields : List (Key × Value)}
    {name : String} {v : Value} {child : Element}
    (parent : Governs root document tokens (.object traits children) (.object fields)) (held : (.name name, v) ∈ fields)
    (declared : child? children name = some child) : Governs root document (tokens ++ [name]) child v
  | entry {tokens : List String} {traits : Traits} {slots : List (Kind × Element)} {ordered : List Element}
    {allowNull : Bool} {shape : ArrayShape} {entries : List Value} {index : Nat} {v : Value} {e : Element}
    (parent : Governs root document tokens (.array traits slots ordered allowNull) (.array shape entries))
    (fits : ordered = [] ∨ ordered.length = entries.length) (held : entries[index]? = some v) (present : v ≠ .null)
    (asked : entry? slots ordered index v = some e) : Governs root document (tokens ++ [toString index]) e v

end Element

theorem Assoc.find?_of_mem {name : String} {v : Value} : ∀ {fields : List (Key × Value)},
    (fields.filterMap (·.1.name?)).Nodup → (.name name, v) ∈ fields →
      Assoc.find? (· == .name name) fields = some v
  | (key, u) :: fields, hnames, hm => by
    rw [find?]
    rcases List.mem_cons.1 hm with heq | hlater
    · cases heq
      rw [if_pos (beq_self_eq_true _)]
    · have hrest : (fields.filterMap (·.1.name?)).Nodup := hnames.sublist ((List.sublist_cons_self _ _).filterMap _)
      have hne : key ≠ .name name := by
        rintro rfl
        exact (List.nodup_cons.1 hnames).1 (List.mem_filterMap.2 ⟨(.name name, v), hlater, rfl⟩)
      rw [if_neg (by simpa using hne), find?_of_mem hrest hlater]

namespace Value

theorem at?_field {fields : List (Key × Value)} (h : (Value.object fields).Distinct) {name : String} {v : Value}
    (hm : (.name name, v) ∈ fields) : at? [name] (.object fields) = some v := by
  simp [at?, Assoc.find?_of_mem h.of_object.1 hm]

theorem at?_entry (shape : ArrayShape) (entries : List Value) (index : Nat) :
    at? [toString index] (.array shape entries) = entries[index]? := by
  rw [at?, index?_toString]
  simp [at?]

end Value

namespace Element

variable {root : Element} {document : Value} {tokens : List String} {e : Element} {v : Value}

theorem Governs.trans {tokens' : List String} {e' : Element} {v' : Value} (h : root.Governs document tokens e v)
    (h' : e.Governs v tokens' e' v') : root.Governs document (tokens ++ tokens') e' v' := by
  induction h' with
  | root => rwa [List.append_nil]
  | field _ held declared ih =>
    rw [← List.append_assoc]
    exact .field ih held declared
  | entry _ fits held present asked ih =>
    rw [← List.append_assoc]
    exact .entry ih fits held present asked

theorem Governs.distinct (hd : document.Distinct) (h : root.Governs document tokens e v) : v.Distinct := by
  induction h with
  | root => exact hd
  | field _ held _ ih => exact ih.of_object.2 _ held
  | entry _ _ held _ _ ih => exact ih.of_array _ (List.mem_of_getElem? held)

/-- **The tokens lead to the value** that the element governs. -/
theorem Governs.at? (hd : document.Distinct) (h : root.Governs document tokens e v) : document.at? tokens = some v := by
  induction h with
  | root => rfl
  | field parent held _ ih => rw [Value.at?_append, ih, Option.bind_some, Value.at?_field (parent.distinct hd) held]
  | entry _ _ held _ _ ih => rw [Value.at?_append, ih, Option.bind_some, Value.at?_entry, held]

/-- **No two elements govern what the same tokens lead to.** -/
theorem Governs.unique (hd : document.Distinct) (h : root.Governs document tokens e v) :
    ∀ {e' : Element} {v' : Value}, root.Governs document tokens e' v' → e' = e ∧ v' = v := by
  intro e' v' h'
  have hv : v' = v := Option.some.inj ((h'.at? hd).symm.trans (h.at? hd))
  refine ⟨?_, hv⟩
  clear hv
  -- the last step of both ways is the same, so what governs above it is by induction
  induction h generalizing e' v' with
  | root =>
    generalize hts : ([] : List String) = ts at h'
    cases h' with
    | root => rfl
    | field | entry => simp at hts
  | @field tokens traits children fields name v child parent held declared ih =>
    generalize hts : tokens ++ [name] = ts at h'
    cases h' with
    | root => simp at hts
    | field parent' held' declared' =>
      obtain ⟨rfl, hname⟩ := List.append_inj' hts rfl
      cases hname
      cases ih parent'
      rw [declared] at declared'
      exact (Option.some.inj declared').symm
    | entry parent' =>
      obtain ⟨rfl, -⟩ := List.append_inj' hts rfl
      cases ih parent'
  | @entry tokens traits slots ordered allowNull shape entries index v e parent fits held present asked ih =>
    generalize hts : tokens ++ [toString index] = ts at h'
    cases h' with
    | root => simp at hts
    | field parent' =>
      obtain ⟨rfl, -⟩ := List.append_inj' hts rfl
      cases ih parent'
    | @entry _ _ _ _ _ _ _ index' _ _ parent' _ held' _ asked' =>
      obtain ⟨rfl, hindex⟩ := List.append_inj' hts rfl
      have hi : index' = index := by
        have := congrArg Value.index? (List.singleton_inj.1 hindex)
        rw [Value.index?_toString, Value.index?_toString] at this
        exact (Option.some.inj this).symm
      subst hi
      cases ih parent'
      cases (parent'.at? hd).symm.trans (parent.at? hd)
      rw [held] at held'
      cases held'
      rw [asked] at asked'
      exact (Option.some.inj asked').symm

end Element
end ConfigSchema
