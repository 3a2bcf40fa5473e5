import ConfigSchema.Assoc
import Mathlib.Data.List.Forall2
import Mathlib.Data.List.Perm.Subperm
import Mathlib.Data.Option.Basic
/-!
# Shuffled — lists that agree part by part, in any order

Two lists are shuffles of one another by a relation if their parts can be paired so that each pair is related
(`Shuffled`).  What is put together from related parts, by `map`, `filter`, `flatMap` or `flatten`, is shuffled again, and
look-ups in keyed lists without repeats give related values (`Assoc.rel_find?`).
-/
namespace ConfigSchema

/-- The parts of one list are related to those of the other, each to one, in whatever order they come. -/
def Shuffled {α β : Type} (r : α → β → Prop) (l : List α) (l' : List β) : Prop :=
  ∃ aligned, List.Forall₂ r l aligned ∧ aligned.Perm l'

section Forall₂

variable {α β γ δ : Type} {r : α → β → Prop} {q : γ → δ → Prop}

/-- Of related lists, each part of the first one may be taken to be in it. -/
theorem forall₂_mem {l : List α} {l' : List β} (h : List.Forall₂ r l l') :
    List.Forall₂ (fun a b => a ∈ l ∧ r a b) l l' :=
  (List.forall₂_and_left l l').2 ⟨fun _ ha => ha, h⟩

theorem exists_of_forall₂ {l : List α} {l' : List β} (h : List.Forall₂ r l l') {a : α} (ha : a ∈ l) : ∃ b ∈ l', r a b := by
  induction h with
  | nil => cases ha
  | @cons a' b _ _ hab _ ih =>
    rcases List.mem_cons.1 ha with rfl | ha
    · exact ⟨b, List.mem_cons_self, hab⟩
    · exact (ih ha).imp fun _ => And.imp_left (List.mem_cons_of_mem _)

theorem forall₂_filter {p : α → Bool} {p' : β → Bool} {l : List α} {l' : List β} (h : List.Forall₂ r l l')
    (hp : ∀ a ∈ l, ∀ b, r a b → p a = p' b) : List.Forall₂ r (l.filter p) (l'.filter p') :=
  (List.rel_filter (fun _ _ hab => Bool.eq_iff_iff.1 (hp _ hab.1 _ hab.2)) (forall₂_mem h)).imp fun _ _ => And.right

theorem forall₂_map {f : α → γ} {g : β → δ} {l : List α} {l' : List β} (h : List.Forall₂ r l l')
    (hfg : ∀ a ∈ l, ∀ b, r a b → q (f a) (g b)) : List.Forall₂ q (l.map f) (l'.map g) :=
  List.rel_map (fun _ _ hab => hfg _ hab.1 _ hab.2) (forall₂_mem h)

theorem forall₂_mapIdx {l : List α} {l' : List β} (h : List.Forall₂ r l l') : ∀ {f : Nat → α → γ} {g : Nat → β → δ},
    (∀ i, ∀ a ∈ l, ∀ b, r a b → q (f i a) (g i b)) → List.Forall₂ q (l.mapIdx f) (l'.mapIdx g) := by
  induction h with
  | nil => exact fun _ => .nil
  | cons hab _ ih =>
    intro f g hfg
    rw [List.mapIdx_cons, List.mapIdx_cons]
    exact .cons (hfg 0 _ List.mem_cons_self _ hab)
      (ih fun i a ha => hfg (i + 1) a (List.mem_cons_of_mem _ ha))

theorem map_eq_of_forall₂ {f : α → γ} {g : β → γ} {l : List α} {l' : List β} (h : List.Forall₂ r l l')
    (hfg : ∀ a ∈ l, ∀ b, r a b → f a = g b) : l.map f = l'.map g := by
  rw [← List.forall₂_eq_eq_eq]
  exact forall₂_map h hfg

theorem rel_getElem? {l : List α} {l' : List β} (h : List.Forall₂ r l l') : ∀ i : Nat, Option.Rel r l[i]? l'[i]? := by
  induction h with
  | nil => exact fun _ => .none
  | cons hab _ ih =>
    intro i
    cases i with
    | zero => exact .some hab
    | succ i => simpa only [List.getElem?_cons_succ] using ih i

end Forall₂

namespace Shuffled

variable {α β γ δ : Type} {r : α → β → Prop} {q : γ → δ → Prop} {l m : List α} {l' m' : List β}

theorem of_forall₂ (h : List.Forall₂ r l l') : Shuffled r l l' := ⟨l', h, .refl l'⟩

theorem of_perm {r : α → α → Prop} {l l' : List α} (hr : ∀ a, r a a) (h : l.Perm l') : Shuffled r l l' :=
  ⟨l, List.forall₂_same.2 fun a _ => hr a, h⟩

theorem length_eq (h : Shuffled r l l') : l.length = l'.length := by
  obtain ⟨aligned, heach, hmoved⟩ := h
  exact heach.length_eq.trans hmoved.length_eq

theorem eq_nil_iff (h : Shuffled r l l') : l = [] ↔ l' = [] := by
  rw [← List.length_eq_zero_iff, ← List.length_eq_zero_iff, h.length_eq]

/-- What related parts have in common makes lists that are the same up to order. -/
theorem map_perm {f : α → γ} {g : β → γ} (h : Shuffled r l l') (hfg : ∀ a ∈ l, ∀ b, r a b → f a = g b) :
    (l.map f).Perm (l'.map g) := by
  obtain ⟨aligned, heach, hmoved⟩ := h
  rw [map_eq_of_forall₂ heach hfg]
  exact hmoved.map g

theorem any_eq {p : α → Bool} {p' : β → Bool} (h : Shuffled r l l') (hp : ∀ a ∈ l, ∀ b, r a b → p a = p' b) :
    l.any p = l'.any p' := by
  have hperm := (h.map_perm hp).any_eq (f := id)
  rwa [List.any_map, List.any_map] at hperm

theorem map {f : α → γ} {g : β → δ} (h : Shuffled r l l') (hfg : ∀ a ∈ l, ∀ b, r a b → q (f a) (g b)) :
    Shuffled q (l.map f) (l'.map g) := by
  obtain ⟨aligned, heach, hmoved⟩ := h
  exact ⟨_, forall₂_map heach hfg, hmoved.map g⟩

theorem filter {p : α → Bool} {p' : β → Bool} (h : Shuffled r l l') (hp : ∀ a ∈ l, ∀ b, r a b → p a = p' b) :
    Shuffled r (l.filter p) (l'.filter p') := by
  obtain ⟨aligned, heach, hmoved⟩ := h
  exact ⟨_, forall₂_filter heach hp, hmoved.filter p'⟩

theorem append (h : Shuffled r l l') (hm : Shuffled r m m') : Shuffled r (l ++ m) (l' ++ m') := by
  obtain ⟨aligned, heach, hmoved⟩ := h
  obtain ⟨aligned', heach', hmoved'⟩ := hm
  exact ⟨_, List.rel_append heach heach', hmoved.append hmoved'⟩

theorem flatten {ls : List (List α)} {ls' : List (List β)} (h : List.Forall₂ (Shuffled r) ls ls') :
    Shuffled r ls.flatten ls'.flatten := by
  induction h with
  | nil => exact of_forall₂ .nil
  | cons hl _ ih =>
    rw [List.flatten_cons, List.flatten_cons]
    exact hl.append ih

theorem flatMap {f : α → List γ} {g : β → List δ} (h : Shuffled r l l')
    (hfg : ∀ a ∈ l, ∀ b, r a b → Shuffled q (f a) (g b)) : Shuffled q (l.flatMap f) (l'.flatMap g) := by
  obtain ⟨aligned, heach, hmoved⟩ := h
  obtain ⟨found, hfound, hperm⟩ : Shuffled q (l.flatMap f) (aligned.flatMap g) := by
    rw [List.flatMap_def, List.flatMap_def]
    exact flatten (forall₂_map heach hfg)
  exact ⟨found, hfound, hperm.trans (hmoved.flatMap_right g)⟩

end Shuffled

/-! ## Keyed lists -/

/-- Two entries stand under one key, and their values are related. -/
structure Assoc.Match {α β γ : Type} (r : β → γ → Prop) (a : α × β) (b : α × γ) : Prop where
  key : a.1 = b.1
  value : r a.2 b.2

namespace Assoc

variable {α β γ : Type} {r : β → γ → Prop}

theorem forall₂_match_iff {l : List (α × β)} {l' : List (α × γ)} : List.Forall₂ (Match r) l l' ↔
    l.map Prod.fst = l'.map Prod.fst ∧ List.Forall₂ r (l.map Prod.snd) (l'.map Prod.snd) := by
  constructor
  · exact fun h => ⟨map_eq_of_forall₂ h fun _ _ _ hab => hab.key, forall₂_map h fun _ _ _ hab => hab.value⟩
  · induction l generalizing l' with
    | nil =>
      rintro ⟨hkeys, -⟩
      rw [List.map_eq_nil_iff.1 hkeys.symm]
      exact .nil
    | cons a l ih =>
      cases l' with
      | nil => rintro ⟨hkeys, -⟩; cases hkeys
      | cons b l' =>
        rintro ⟨hkeys, hvalues⟩
        rw [List.map_cons, List.map_cons] at hkeys hvalues
        cases hvalues with
        | cons hvalue hvalues =>
          exact .cons ⟨(List.cons.inj hkeys).1, hvalue⟩ (ih ⟨(List.cons.inj hkeys).2, hvalues⟩)

theorem find?_of_perm [BEq α] [LawfulBEq α] {l l' : List (α × β)} (h : l.Perm l') (hn : (l.map Prod.fst).Nodup) (k : α) :
    find? (· == k) l = find? (· == k) l' := by
  induction h with
  | nil => rfl
  | cons a _ ih => rw [find?, find?, ih (List.nodup_cons.1 hn).2]
  | swap a b l =>
    have hne : b.1 ≠ a.1 := fun heq => (List.nodup_cons.1 hn).1 (by rw [heq]; exact List.mem_cons_self)
    simp only [find?]
    by_cases ha : a.1 = k
    · have hb : ¬ b.1 = k := fun hb => hne (hb.trans ha.symm)
      simp [ha, hb]
    · simp [ha]
  | trans hp _ ih ih' => rw [ih hn, ih' ((hp.map Prod.fst).nodup_iff.1 hn)]

/-- Look-ups in lists with the same keys in the same places give related values. -/
theorem rel_find?_of_forall₂ {l : List (α × β)} {l' : List (α × γ)} (h : List.Forall₂ (Match r) l l') (p : α → Bool) :
    Option.Rel r (find? p l) (find? p l') := by
  induction h with
  | nil => exact .none
  | @cons a b l l' hab _ ih =>
    rw [find?, find?, hab.key]
    split
    · exact .some hab.value
    · exact ih

/-- **Look-ups in shuffled lists without repeated keys give related values.** -/
theorem rel_find? [BEq α] [LawfulBEq α] {l : List (α × β)} {l' : List (α × γ)} (h : Shuffled (Match r) l l')
    (hn : (l.map Prod.fst).Nodup) (k : α) : Option.Rel r (find? (· == k) l) (find? (· == k) l') := by
  obtain ⟨aligned, heach, hmoved⟩ := h
  have hkeys := (forall₂_match_iff.1 heach).1
  rw [← find?_of_perm hmoved (hkeys ▸ hn) k]
  exact rel_find?_of_forall₂ heach (· == k)

end Assoc
end ConfigSchema
