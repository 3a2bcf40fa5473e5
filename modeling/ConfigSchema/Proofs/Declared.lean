import ConfigSchema.Proofs.Distinct
import ConfigSchema.Element.Rules
/-!
# Declared — schemas whose objects declare each name once

Children are put under their names one after the other, and a name that is there already keeps its place
(`Assoc.nodup_put`).  If no object element declares a name twice, at any depth (`Element.Distinct`), an object lacks each of
its children at most once.
-/
namespace ConfigSchema

namespace Element

/-- Every object of a schema declares each of its names once. -/
inductive Distinct : Element → Prop
  | object {traits : Traits} {children : List (String × Element)} (names : (children.map Prod.fst).Nodup)
    (each : ∀ child ∈ children, Distinct child.2) : Distinct (.object traits children)
  | array {traits : Traits} {slots : List (Kind × Element)} {ordered : List Element} {allowNull : Bool}
    (slot : ∀ slot ∈ slots, Distinct slot.2) (each : ∀ e ∈ ordered, Distinct e) :
    Distinct (.array traits slots ordered allowNull)
  | string {traits : Traits} {rules : StringRules} : Distinct (.string traits rules)
  | number {traits : Traits} {rules : NumberRules} : Distinct (.number traits rules)
  | boolean {traits : Traits} {default : Option Scalar} : Distinct (.boolean traits default)

end Element

namespace Assoc

theorem exists_of_find? {α β : Type} {p : α → Bool} {b : β} : ∀ {l : List (α × β)}, find? p l = some b →
    ∃ a, (a, b) ∈ l ∧ p a = true
  | (a, b') :: l, h => by
    rw [find?] at h
    split at h
    · cases h
      exact ⟨a, List.mem_cons_self, by assumption⟩
    · obtain ⟨a', ha', hp⟩ := exists_of_find? h
      exact ⟨a', List.mem_cons_of_mem _ ha', hp⟩

theorem mem_of_find? {α β : Type} {p : α → Bool} {b : β} {l : List (α × β)} (h : find? p l = some b) :
    ∃ a, (a, b) ∈ l :=
  (exists_of_find? h).imp fun _ => And.left

theorem mem_of_find?_key {α β : Type} [BEq α] [LawfulBEq α] {l : List (α × β)} {a : α} {b : β}
    (h : find? (· == a) l = some b) : (a, b) ∈ l := by
  obtain ⟨a', hm, ha⟩ := exists_of_find? h
  exact beq_iff_eq.1 ha ▸ hm

theorem nodup_put {α β : Type} [BEq α] [LawfulBEq α] {l : List (α × β)} (h : (l.map Prod.fst).Nodup) (a : α) (b : β) :
    ((put (· == ·) a b l).map Prod.fst).Nodup := by
  rw [keys_put]
  split
  · exact h
  · rename_i hany
    refine List.nodup_append.2 ⟨h, List.pairwise_singleton .., fun x hx y hy heq => hany ?_⟩
    obtain ⟨p, hp, rfl⟩ := List.mem_map.1 hx
    rw [List.mem_singleton] at hy
    exact List.any_eq_true.2 ⟨p, hp, by rw [heq, hy]; exact beq_self_eq_true a⟩

end Assoc

namespace Element

theorem Distinct.of_child? {traits : Traits} {children : List (String × Element)} {name : String} {child : Element}
    (h : (Element.object traits children).Distinct) (hc : child? children name = some child) : child.Distinct := by
  cases h with
  | object names each =>
    obtain ⟨key, hm⟩ := Assoc.mem_of_find? hc
    exact each _ hm

theorem Distinct.of_entry? {traits : Traits} {slots : List (Kind × Element)} {ordered : List Element} {allowNull : Bool}
    {index : Nat} {v : Value} {e : Element} (h : (Element.array traits slots ordered allowNull).Distinct)
    (he : entry? slots ordered index v = some e) : e.Distinct := by
  cases h with
  | array slot each =>
    unfold entry? at he
    split at he
    · cases he
    · obtain ⟨k, -, hk⟩ := Option.bind_eq_some_iff.1 he
      obtain ⟨k', hm⟩ := Assoc.mem_of_find? hk
      exact slot _ hm
    · exact each _ (List.mem_of_getElem? he)

theorem Distinct.nodup_missingNames {traits : Traits} {children : List (String × Element)}
    (h : (Element.object traits children).Distinct) (fields : List (Key × Value)) :
    (missingNames children fields).Nodup := by
  cases h with
  | object names each =>
    have hrequired : (requiredNames children).Sublist (children.map Prod.fst) := List.filter_sublist.map _
    exact names.sublist (List.filter_sublist.trans hrequired)

theorem not_mem_of_mem_missingNames {children : List (String × Element)} {fields : List (Key × Value)} {name : String}
    (h : name ∈ missingNames children fields) : .name name ∉ fields.map Prod.fst := by
  intro hm
  obtain ⟨field, hf, hkey⟩ := List.mem_map.1 hm
  have hany : fields.any (·.1 == .name name) = true := List.any_eq_true.2 ⟨field, hf, beq_iff_eq.2 hkey⟩
  have habsent := (List.mem_filter.1 h).2
  rw [hany] at habsent
  cases habsent

end Element
end ConfigSchema
