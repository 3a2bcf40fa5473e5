import ConfigSchema.Proofs.InPlace
import Mathlib.Data.Set.Basic
/-!
# Regions — work that touches a part of a document

Work in a region deletes keys of no object elsewhere, and what it schedules it schedules once, with keys that are left by
then.  Work in regions that stand apart joins to work of the same sort, since neither takes out what the other has
scheduled (`Advance.trans`).  A loop over parts of a document is such a join (`Sound.forM`).
-/
namespace ConfigSchema
namespace InPlace

open scoped List

variable {α β : Type}

/-- The machine that a piece of work leaves, however it ends. -/
def after (x : Work α) (m : Machine) : Machine :=
  match x.run m with
  | .ok _ m' => m'
  | .error _ m' => m'

section

variable {x : Work α} {f : α → Work β} {m m' : Machine}

theorem after_of_ok {a : α} (h : x.run m = .ok a m') : after x m = m' := by simp only [after, h]

theorem after_of_error {stop : Stop} (h : x.run m = .error stop m') : after x m = m' := by simp only [after, h]

theorem after_bind_of_ok {a : α} (h : x.run m = .ok a m') : after (x >>= f) m = after (f a) m' := by
  simp only [after, EStateM.run_bind, h]

theorem after_bind_of_error {stop : Stop} (h : x.run m = .error stop m') : after (x >>= f) m = m' := by
  simp only [after, EStateM.run_bind, h]

theorem after_congr {y : Work α} (h : x.run m = y.run m') : after x m = after y m' := by simp only [after, h]

theorem bind_of_ok {a : α} (h : x.run m = .ok a m') : (x >>= f).run m = (f a).run m' := by
  simp only [EStateM.run_bind, h]

theorem bind_of_error {stop : Stop} (h : x.run m = .error stop m') : (x >>= f).run m = .error stop m' := by
  simp only [EStateM.run_bind, h]

end

theorem forM_cons {ι : Type} (work : ι → Work Unit) (a : ι) (items : List ι) :
    (a :: items).forM work = (do work a; items.forM work) := rfl

theorem forM_map {ι κ : Type} (g : κ → ι) (work : ι → Work Unit) : ∀ items : List κ,
    (items.map g).forM work = items.forM fun a => work (g a)
  | [] => rfl
  | a :: items => by rw [List.map_cons, forM_cons, forM_cons, forM_map g work items]

/-! ## What work may touch -/

/-- The places of a value and of everything in it. -/
def within (place : Place) : Set Place := {p | place <+: p}

theorem within_mono (place : Place) (step : Step) : within (place ++ [step]) ⊆ within place := fun _ hp =>
  (List.prefix_append place [step]).trans hp

theorem ne_of_mem_within {place p : Place} {step : Step} (h : p ∈ within (place ++ [step])) : p ≠ place := by
  rintro rfl
  have hlength := List.IsPrefix.length_le h
  rw [List.length_append, List.length_singleton] at hlength
  omega

/-- Whether no place is in both of two regions. -/
def Apart (S T : Set Place) : Prop := ∀ place ∈ S, place ∉ T

theorem Apart.symm {S T : Set Place} (h : Apart S T) : Apart T S := fun place hT hS => h place hS hT

/-- Parts of a value that different steps lead to stand apart. -/
theorem apart_within (place : Place) {step step' : Step} (h : step ≠ step') :
    Apart (within (place ++ [step])) (within (place ++ [step'])) := by
  refine fun p hp hp' => h ?_
  obtain ⟨rest, rfl⟩ := hp
  have hp' : place ++ [step'] <+: place ++ [step] ++ rest := hp'
  rw [List.append_assoc, List.prefix_append_right_inj, List.singleton_append, List.cons_prefix_cons] at hp'
  exact hp'.1.symm

/-- What work in a region does to a machine.  Objects elsewhere stay as they are, no object gains a key, and every object
that is newly scheduled stands in the region, is scheduled once, and still has the keys that are to go. -/
structure Advance (region : Set Place) (m m' : Machine) : Prop where
  frame : ∀ place ∉ region, m'.memory place = m.memory place
  shrinks : ∀ place, m'.memory place <+ m.memory place
  scheduled : ∃ notes, m'.ledger.unlisted = m.ledger.unlisted ++ notes ∧ (notes.map (·.place)).Nodup ∧
    ∀ r ∈ notes, r.place ∈ region ∧ r.keys <+ m'.memory r.place

namespace Advance

variable {S T : Set Place} {m m' m'' : Machine}

/-- Work that deletes no key and schedules nothing. -/
theorem of_same (hm : m'.memory = m.memory) (hu : m'.ledger.unlisted = m.ledger.unlisted) : Advance S m m' where
  frame place _ := by rw [hm]
  shrinks place := by rw [hm]
  scheduled := ⟨[], by rw [hu, List.append_nil], List.nodup_nil, fun r hr => by cases hr⟩

theorem mono (h : Advance S m m') (hST : S ⊆ T) : Advance T m m' where
  frame place hp := h.frame place fun hS => hp (hST hS)
  shrinks := h.shrinks
  scheduled := by
    obtain ⟨notes, hu, hn, hr⟩ := h.scheduled
    exact ⟨notes, hu, hn, fun r hm => ⟨hST (hr r hm).1, (hr r hm).2⟩⟩

/-- **Work in one region leaves alone what was scheduled in another.** -/
theorem trans (hd : Apart S T) (h : Advance S m m') (h' : Advance T m' m'') : Advance (S ∪ T) m m'' where
  frame place hp := by
    rw [Set.mem_union, not_or] at hp
    rw [h'.frame place hp.2, h.frame place hp.1]
  shrinks place := (h'.shrinks place).trans (h.shrinks place)
  scheduled := by
    obtain ⟨notes, hu, hn, hr⟩ := h.scheduled
    obtain ⟨notes', hu', hn', hr'⟩ := h'.scheduled
    have happart : (notes.map (·.place)).Disjoint (notes'.map (·.place)) := by
      intro place hp hp'
      obtain ⟨r, hm, rfl⟩ := List.mem_map.1 hp
      obtain ⟨r', hm', hplace⟩ := List.mem_map.1 hp'
      exact hd r.place (hr r hm).1 (hplace ▸ (hr' r' hm').1)
    refine ⟨notes ++ notes', by rw [hu', hu, List.append_assoc], ?_, fun r hm => ?_⟩
    · rw [List.map_append]
      exact hn.append hn' happart
    · rcases List.mem_append.1 hm with hm | hm
      · -- the second region does not hold the object, so its keys are as they were
        rw [h'.frame r.place (hd r.place (hr r hm).1)]
        exact ⟨.inl (hr r hm).1, (hr r hm).2⟩
      · exact ⟨.inr (hr' r hm).1, (hr' r hm).2⟩

/-- Keys may be deleted in a region before anything is scheduled there. -/
theorem after_deletion (hf : ∀ place ∉ S, m'.memory place = m.memory place)
    (hs : ∀ place, m'.memory place <+ m.memory place) (hu : m'.ledger.unlisted = m.ledger.unlisted)
    (h : Advance S m' m'') : Advance S m m'' where
  frame place hp := (h.frame place hp).trans (hf place hp)
  shrinks place := (h.shrinks place).trans (hs place)
  scheduled := by
    obtain ⟨notes, hu', h⟩ := h.scheduled
    exact ⟨notes, by rw [hu', hu], h⟩

end Advance

section

variable {options : Options} {oracle : Oracle}

/-- Work that stays in its region, and stops for no fault. -/
structure Sound (options : Options) (oracle : Oracle) (region : Set Place) (x : Work α) (m : Machine) : Prop where
  advance : Advance region m (after x m)
  honest : ∀ stop m', x.run m = .error stop m' → Honest options oracle stop m'

namespace Sound

variable {x : Work α} {f : α → Work β} {m : Machine} {S T : Set Place}

theorem mono (h : Sound options oracle S x m) (hST : S ⊆ T) : Sound options oracle T x m :=
  ⟨h.advance.mono hST, h.honest⟩

theorem of_ok {a : α} {m' : Machine} (h : x.run m = .ok a m') (ha : Advance S m m') : Sound options oracle S x m where
  advance := by rwa [after_of_ok h]
  honest stop m' he := by rw [h] at he; cases he

theorem of_error {stop : Stop} {m' : Machine} (h : x.run m = .error stop m') (ha : Advance S m m')
    (hs : Honest options oracle stop m') : Sound options oracle S x m where
  advance := by rwa [after_of_error h]
  honest stop' m'' he := by rw [h] at he; cases he; exact hs

theorem of_pure (a : α) : Sound options oracle S (pure a : Work α) m := of_ok rfl (.of_same rfl rfl)

/-- Work after work, in regions that stand apart. -/
theorem bind (hd : Apart S T) (hx : Sound options oracle S x m)
    (hf : ∀ a m', x.run m = .ok a m' → Advance S m m' → Sound options oracle T (f a) m') :
    Sound options oracle (S ∪ T) (x >>= f) m := by
  cases h : x.run m with
  | ok a m' =>
    have ha : Advance S m m' := after_of_ok h ▸ hx.advance
    have hrest := hf a m' h ha
    have hbind : (x >>= f).run m = (f a).run m' := bind_of_ok h
    refine ⟨?_, fun stop m'' he => hrest.honest stop m'' (hbind ▸ he)⟩
    rw [after_bind_of_ok h]
    exact ha.trans hd hrest.advance
  | error stop m' =>
    exact of_error (bind_of_error h) ((after_of_error h ▸ hx.advance).mono Set.subset_union_left) (hx.honest stop m' h)

theorem bind_quiet (hx : Sound options oracle ∅ x m)
    (hf : ∀ a m', x.run m = .ok a m' → Advance ∅ m m' → Sound options oracle S (f a) m') :
    Sound options oracle S (x >>= f) m :=
  (hx.bind (fun _ hp => absurd hp (Set.notMem_empty _)) hf).mono (Set.empty_union S).subset

theorem then_quiet (hx : Sound options oracle S x m) (hf : ∀ a m', Sound options oracle ∅ (f a) m') :
    Sound options oracle S (x >>= f) m :=
  (hx.bind (fun place _ => Set.notMem_empty place) fun a m' _ _ => hf a m').mono (Set.union_empty S).subset

/-- Work that may touch nothing leaves all keys where they are. -/
theorem memory_eq (h : Sound options oracle ∅ x m) : (after x m).memory = m.memory :=
  funext fun place => h.advance.frame place (Set.notMem_empty place)

theorem get_bind {f : Machine → Work β} (h : Sound options oracle S (f m) m) :
    Sound options oracle S (get >>= f) m := ⟨h.advance, h.honest⟩

/-- **A loop over items that stand apart is sound if each item is**, wherever the loop comes to it with the item's region as
it was. -/
theorem forM {ι : Type} {region : ι → Set Place} {work : ι → Work Unit} : ∀ {items : List ι} {m : Machine},
    items.Pairwise (fun a b => Apart (region a) (region b)) →
    (∀ a ∈ items, ∀ m' : Machine, (∀ place ∈ region a, m'.memory place = m.memory place) →
      Sound options oracle (region a) (work a) m') →
    Sound options oracle {place | ∃ a ∈ items, place ∈ region a} (items.forM work) m
  | [], m, _, _ => of_pure ()
  | a :: items, m, hd, h => by
    obtain ⟨ha, hd⟩ := List.pairwise_cons.1 hd
    have hapart : Apart (region a) {place | ∃ b ∈ items, place ∈ region b} := fun place hp ⟨b, hb, hp'⟩ =>
      ha b hb place hp hp'
    refine ((h a List.mem_cons_self m fun _ _ => rfl).bind hapart fun _ m' _ hadv =>
      forM hd fun b hb m'' hm'' => h b (List.mem_cons_of_mem a hb) m'' fun place hp => ?_).mono ?_
    · rw [hm'' place hp, hadv.frame place ((ha b hb).symm place hp)]
    · rintro place (hp | ⟨b, hb, hp⟩)
      · exact ⟨a, List.mem_cons_self, hp⟩
      · exact ⟨b, List.mem_cons_of_mem a hb, hp⟩

theorem forM_quiet {ι : Type} {items : List ι} {work : ι → Work Unit}
    (h : ∀ a ∈ items, ∀ m, Sound options oracle ∅ (work a) m) : Sound options oracle ∅ (items.forM work) m := by
  have hloop : Sound options oracle {place | ∃ a ∈ items, place ∈ (∅ : Set Place)} (items.forM work) m :=
    forM (List.pairwise_of_forall fun _ _ place _ => Set.notMem_empty place) fun a ha m' _ => h a ha m'
  exact hloop.mono fun _ ⟨_, _, hp⟩ => hp

end Sound

/-! ## Work that deletes nothing -/

/-- The machine after a violation was written down. -/
def Machine.found (m : Machine) (path : Pointer) (cause : Cause) : Machine :=
  { m with ledger := m.ledger.found path cause, told := m.told ++ [.found ⟨cause, path⟩] }

theorem find_of_stops (h : options.stopOnFirst = true) (path : Pointer) (cause : Cause) (m : Machine) :
    (find options path cause).run m = .error (.ended (.firstViolation ⟨cause, path⟩)) (m.found path cause) := by
  simp only [find, h, if_true]
  rfl

theorem find_of_goes_on (h : options.stopOnFirst = false) (path : Pointer) (cause : Cause) (m : Machine) :
    (find options path cause).run m = .ok () (m.found path cause) := by
  simp only [find, h]
  rfl

variable (path : Pointer) (m : Machine)

theorem sound_tell (event : Event) : Sound options oracle ∅ (tell event) m := .of_ok rfl (.of_same rfl rfl)

/-- **A run that stops at a violation has just written it down.** -/
theorem sound_find (cause : Cause) : Sound options oracle ∅ (find options path cause) m := by
  cases hs : options.stopOnFirst with
  | true => exact .of_error (find_of_stops hs path cause m) (.of_same rfl rfl) ⟨hs, List.getLast?_concat⟩
  | false => exact .of_ok (find_of_goes_on hs path cause m) (.of_same rfl rfl)

/-- **A run that stops at the failure of a validator has just asked it.** -/
theorem sound_ask (e : Element) (v : Value) (w : Validator) :
    Sound options oracle ∅ (ask options oracle path e v w) m := by
  refine .get_bind ?_
  cases hv : oracle m.told w e v with
  | accept => exact (sound_tell m _).then_quiet fun _ _ => .of_pure ()
  | reject => exact (sound_tell m _).then_quiet fun _ m' => sound_find path m' _
  | fail f =>
    have hrun : (do tell (.judged w e v); heed options path w (.fail f) : Work Unit).run m =
        .error (.ended (.failure f)) { m with told := m.told ++ [.judged w e v] } := rfl
    exact .of_error hrun (.of_same rfl rfl) ⟨m.told, w, e, v, rfl, hv⟩

theorem sound_askSince (mark : Nat) (place : Place) (e : Element) (v : Value) :
    Sound options oracle ∅ (askSince options oracle mark place path e v) m := by
  refine .get_bind ?_
  split
  · exact .forM_quiet fun w _ m' => sound_ask path m' e _ w
  · exact .of_pure ()

theorem sound_thenAsk {region : Set Place} {place : Place} {e : Element} {v : Value} {work : Work Unit} {m : Machine}
    (h : Sound options oracle region work m) :
    Sound options oracle region (thenAsk options oracle place path e v work) m :=
  .get_bind (h.then_quiet fun _ m' => sound_askSince path m' _ place e v)

end

end InPlace
end ConfigSchema
