import ConfigSchema.Proofs.Descent
import ConfigSchema.Proofs.Runs
/-!
# Endings — what ends a run before its time

Of all that happens in a run two things end it: a violation, if the options ask to stop there, and a validator that fails.
A trail is prompt if it ends with the first of these and for the reason that it gives.  Every join keeps this, so nothing
happens in a run after what ends it, and in a run that went through nothing of the kind has happened (`prompt_run`).
-/
namespace ConfigSchema

/-- The early end that an event asks for. -/
def Setting.ending? (s : Setting) : Event → Option Halt
  | .found x => if s.options.stopOnFirst then some (.firstViolation x) else none
  | .judged w e v =>
    match s.judge w e v with
    | .fail f => some (.failure f)
    | .accept | .reject => none
  | .began _ _ | .metaPruned _ _ | .unlistedPruned _ | .finished _ => none

/-- Violations end a run if the options say so, and validators do by failing. -/
theorem Setting.ending?_eq_some {s : Setting} {event : Event} {halt : Halt} : s.ending? event = some halt ↔
    (∃ x, event = .found x ∧ s.options.stopOnFirst = true ∧ halt = .firstViolation x) ∨
      ∃ w e v f, event = .judged w e v ∧ s.judge w e v = .fail f ∧ halt = .failure f := by
  constructor
  · intro h
    cases event with
    | found x =>
      rw [ending?, Option.ite_none_right_eq_some] at h
      obtain ⟨hstop, heq⟩ := h
      exact .inl ⟨x, rfl, hstop, (Option.some.inj heq).symm⟩
    | judged w e v =>
      rw [ending?] at h
      split at h
      · rename_i f hj
        exact .inr ⟨w, e, v, f, rfl, hj, (Option.some.inj h).symm⟩
      · cases h
      · cases h
    | began | metaPruned | unlistedPruned | finished => cases h
  · rintro (⟨x, rfl, hstop, rfl⟩ | ⟨w, e, v, f, rfl, hj, rfl⟩)
    · exact if_pos hstop
    · simp only [ending?, hj]

/-- A trail ends with the first event that asks for an end, or tells of none. -/
inductive Trail.Prompt (s : Setting) : Trail → Prop
  | through {events : List Event} {unlisted : List Removal} (before : ∀ event ∈ events, s.ending? event = none) :
    Prompt s ⟨events, unlisted, none⟩
  | ended {events : List Event} {unlisted : List Removal} {event : Event} {halt : Halt}
    (before : ∀ event ∈ events, s.ending? event = none) (last : s.ending? event = some halt) :
    Prompt s ⟨events ++ [event], unlisted, some halt⟩

/-- A run ends with the first event that asks for an end, or tells of none. -/
inductive Run.Prompt (s : Setting) : Run → Prop
  | through {document : Value} {events : List Event} (before : ∀ event ∈ events, s.ending? event = none) :
    Prompt s ⟨none, document, events⟩
  | ended {document : Value} {events : List Event} {event : Event} {halt : Halt}
    (before : ∀ event ∈ events, s.ending? event = none) (last : s.ending? event = some halt) :
    Prompt s ⟨some halt, document, events ++ [event]⟩

namespace Trail

variable {s : Setting} {t u : Trail}

theorem prompt_empty : empty.Prompt s := .through fun _ h => nomatch h

theorem prompt_note (r : Removal) : (note r).Prompt s := .through fun _ h => nomatch h

theorem prompt_event {event : Event} (h : s.ending? event = none) : (Trail.event event).Prompt s :=
  .through fun _ hm => List.mem_singleton.1 hm ▸ h

theorem prompt_last {event : Event} {halt : Halt} (h : s.ending? event = some halt) :
    Prompt s { events := [event], halt := some halt } :=
  show Prompt s ⟨[] ++ [event], [], some halt⟩ from .ended (fun _ hm => nomatch hm) h

/-- **Prompt trails are joined to a prompt trail.** -/
theorem Prompt.andThen (ht : t.Prompt s) (hu : t.halt = none → u.Prompt s) : (t.andThen u).Prompt s := by
  cases ht with
  | ended before last => exact .ended before last
  | through before =>
    cases hu rfl with
    | through before' => exact .through (List.forall_mem_append.2 ⟨before, before'⟩)
    | ended before' last =>
      simp only [Trail.andThen, ← List.append_assoc]
      exact .ended (List.forall_mem_append.2 ⟨before, before'⟩) last

theorem Prompt.andIfClean (ht : t.Prompt s) (hu : t.halt = none → u.Prompt s) : (t.andIfClean u).Prompt s := by
  unfold Trail.andIfClean
  split
  · exact ht.andThen hu
  · exact ht

theorem Prompt.sequence : ∀ {ts : List Trail}, (∀ t ∈ ts, t.Prompt s) → (sequence ts).Prompt s
  | [], _ => prompt_empty
  | t :: _, h => (h t List.mem_cons_self).andThen fun _ => Prompt.sequence fun u hu => h u (List.mem_cons_of_mem t hu)

theorem Prompt.under (h : t.Prompt s) (step : Step) : (t.under step).Prompt s := by
  cases h with
  | through before => exact .through before
  | ended before last => exact .ended before last

/-- Where nothing asks for an end, nothing ends early. -/
theorem Prompt.halt_eq_none (h : t.Prompt s) (hs : ∀ event, s.ending? event = none) : t.halt = none := by
  cases h with
  | through before => rfl
  | ended before last =>
    rw [hs] at last
    cases last

end Trail

theorem Walk.prompt_each {α : Type} {s : Setting} {f : Nat → α → Walk α} {index : Nat} {parts : List α}
    (h : ∀ i, ∀ a ∈ parts, (f i a).trail.Prompt s) : (each f index parts).trail.Prompt s := by
  rw [trail_each]
  refine Trail.Prompt.sequence fun t ht => ?_
  obtain ⟨i, hi, rfl⟩ := List.mem_mapIdx.1 ht
  exact h _ _ (List.getElem_mem hi)

namespace Setting

variable (s : Setting) (path : Pointer)

theorem prompt_found (cause : Cause) : (s.found path cause).Prompt s := by
  cases hstop : s.options.stopOnFirst with
  | true =>
    rw [found, hstop]
    exact Trail.prompt_last (ending?_eq_some.2 (.inl ⟨_, rfl, hstop, rfl⟩))
  | false =>
    rw [found, hstop]
    exact Trail.prompt_event (by rw [ending?, hstop]; rfl)

theorem prompt_foundAll (causes : List Cause) : (s.foundAll path causes).Prompt s := by
  refine Trail.Prompt.sequence fun t ht => ?_
  obtain ⟨cause, -, rfl⟩ := List.mem_map.1 ht
  exact s.prompt_found path cause

/-- A validator that fails ends the trail with the event of its being asked. -/
theorem prompt_ask (e : Element) (v : Value) (w : Validator) : (s.ask path e v w).Prompt s := by
  unfold ask
  cases hj : s.judge w e v with
  | accept => exact (Trail.prompt_event (by simp [ending?, hj])).andThen fun _ => Trail.prompt_empty
  | reject => exact (Trail.prompt_event (by simp [ending?, hj])).andThen fun _ => s.prompt_found path _
  | fail f => exact Trail.prompt_last (by simp [ending?, hj])

theorem prompt_askAll (e : Element) (v : Value) : (s.askAll path e v).Prompt s := by
  refine Trail.Prompt.sequence fun t ht => ?_
  obtain ⟨w, -, rfl⟩ := List.mem_map.1 ht
  exact s.prompt_ask path e v w

theorem prompt_nullField (e : Element) : (s.nullField path e).Prompt s := by
  unfold nullField
  split
  · exact Trail.prompt_empty
  · exact s.prompt_found path _

theorem prompt_dropMeta (fields : List (Key × Value)) : (s.dropMeta path fields).Prompt s := by
  unfold dropMeta
  simp only
  split
  · exact Trail.prompt_empty
  · exact Trail.prompt_event rfl

theorem prompt_reportMissing (children : List (String × Element)) (fields : List (Key × Value)) :
    (s.reportMissing path children fields).Prompt s := by
  refine Trail.Prompt.sequence fun t ht => ?_
  obtain ⟨name, -, rfl⟩ := List.mem_map.1 ht
  exact s.prompt_found _ _

theorem prompt_opening (children : List (String × Element)) (fields : List (Key × Value)) :
    ((s.dropMeta path fields).andThen (s.reportMissing path children fields)).Prompt s :=
  (s.prompt_dropMeta path fields).andThen fun _ => s.prompt_reportMissing path children fields

theorem prompt_noteUnlisted (children : List (String × Element)) (fields : List (Key × Value)) :
    (s.noteUnlisted children fields).Prompt s := by
  unfold noteUnlisted
  simp only
  split
  · exact Trail.prompt_note _
  · exact Trail.prompt_empty

theorem prompt_walkObject (e : Element) (children : List (String × Element)) (fields : List (Key × Value))
    {inside : Walk (List (Key × Value))} (h : inside.trail.Prompt s) :
    (s.walkObject path e children fields inside).trail.Prompt s := by
  rw [trail_walkObject]
  have hwalked := (s.prompt_opening path children fields).andThen fun _ => h
  exact (hwalked.andIfClean fun _ => s.prompt_askAll path e _).andThen fun _ => s.prompt_noteUnlisted children fields

variable {path}

theorem prompt_walkField {children : List (String × Element)} {field : Key × Value}
    (ih : ∀ child path, (s.walk path child field.2).trail.Prompt s) :
    (s.walkField path children field).trail.Prompt s := by
  unfold walkField
  cases Element.governing? children field.1 with
  | none => exact Trail.prompt_empty
  | some child => exact (ih child _).under _

theorem prompt_walkEntry {slots : List (Kind × Element)} {ordered : List Element} {allowNull : Bool} {index : Nat}
    {v : Value} (ih : ∀ e path, (s.walk path e v).trail.Prompt s) :
    (s.walkEntry path slots ordered allowNull index v).trail.Prompt s := by
  unfold walkEntry
  cases Element.entryDemand slots ordered allowNull index v with
  | nothing => exact Trail.prompt_empty
  | refused cause => exact s.prompt_found _ cause
  | governed e => exact (ih e _).under _

theorem prompt_walkContents {slots : List (Kind × Element)} {ordered : List Element} {allowNull : Bool}
    {entries : List Value} (ih : ∀ v ∈ entries, ∀ e path, (s.walk path e v).trail.Prompt s) :
    (s.walkContents path slots ordered allowNull entries).trail.Prompt s := by
  unfold walkContents
  cases ArrayMode.ofContents slots ordered with
  | any =>
    simp only [anyEntries]
    split
    · exact s.prompt_found path _
    · exact Trail.prompt_empty
  | typed | ordered => exact Walk.prompt_each fun _ v hv => s.prompt_walkEntry (ih v hv)

/-- **The walk of a value is prompt.** -/
theorem prompt_walk (e : Element) (v : Value) : ∀ path, (s.walk path e v).trail.Prompt s := by
  induction e, v using Element.induct with
  | null e =>
    intro path
    rw [walk_null]
    exact s.prompt_nullField path e
  | wrong e v hv ha =>
    intro path
    rw [walk_wrong s path hv ha]
    exact s.prompt_found path _
  | scalar e v hv ha =>
    intro path
    rw [walk_scalar s path hv ha]
    exact (s.prompt_foundAll path _).andIfClean fun _ => s.prompt_askAll path e v
  | object traits children fields ih =>
    intro path
    rw [walk_object]
    exact s.prompt_walkObject path _ children fields (Walk.prompt_each fun _ field hf => s.prompt_walkField (ih field hf))
  | array traits slots ordered allowNull shape entries ih =>
    intro path
    by_cases hl : ordered = [] ∨ ordered.length = entries.length
    · rw [walk_array s path traits slots allowNull shape hl, trail_walkArray]
      exact (s.prompt_walkContents ih).andIfClean fun _ => s.prompt_askAll path _ _
    · rw [walk_array_of_length_ne s path traits slots allowNull shape hl]
      exact s.prompt_found path _

theorem prompt_walkRoot (root : Element) (document : Value) : (s.walkRoot root document).trail.Prompt s := by
  cases ha : root.admits document with
  | true =>
    rw [s.walkRoot_of_admits root document ha]
    exact s.prompt_walk root document .root
  | false =>
    obtain ⟨fault, hw⟩ := s.walkRoot_of_not_admits root document ha
    rw [hw]
    exact s.prompt_found .root _

/-- **A run ends with the first event that asks for an end**, and one that went through tells of no such event. -/
theorem prompt_run (root : Element) (document : Value) : (s.run root document).Prompt s := by
  have hwalk := s.prompt_walkRoot root document
  unfold run
  generalize s.walkRoot root document = walked at hwalk
  obtain ⟨left, trail⟩ := walked
  cases hwalk with
  | ended before last => exact .ended (List.forall_mem_cons.2 ⟨rfl, before⟩) last
  | @through events unlisted before =>
    refine .through (List.forall_mem_cons.2 ⟨rfl, List.forall_mem_append.2 ⟨List.forall_mem_append.2 ⟨before, ?_⟩, ?_⟩⟩)
    · intro event hm
      split at hm
      · rw [List.mem_singleton.1 hm]
        rfl
      · cases hm
    · exact List.forall_mem_singleton.2 rfl

end Setting

namespace Run

variable {s : Setting} {r : Run} {event : Event} {halt : Halt}

/-- What ended a run is the last that happened in it, and the first that asked for an end. -/
theorem Prompt.of_halt (h : r.Prompt s) (hh : r.halt = some halt) : ∃ before event,
    r.events = before ++ [event] ∧ s.ending? event = some halt ∧ ∀ event ∈ before, s.ending? event = none := by
  cases h with
  | through before => cases hh
  | ended before last =>
    cases hh
    exact ⟨_, _, rfl, last, before⟩

/-- What asks for an end is given it, and is the last that happens. -/
theorem Prompt.of_mem (h : r.Prompt s) (hm : event ∈ r.events) (he : s.ending? event = some halt) :
    r.halt = some halt ∧ ∃ before, r.events = before ++ [event] ∧ ∀ event ∈ before, s.ending? event = none := by
  cases h with
  | through before =>
    rw [before event hm] at he
    cases he
  | @ended _ events last _ before hlast =>
    rcases List.mem_append.1 hm with hm | hm
    · rw [before event hm] at he
      cases he
    · cases List.mem_singleton.1 hm
      exact ⟨hlast.symm.trans he, events, rfl, before⟩

end Run
end ConfigSchema
