import ConfigSchema.Proofs.Mirrored
import ConfigSchema.Proofs.Runs
/-!
# Faultless — a run comes upon no fault

A run in place reads and deletes only keys that are there, whatever its validators decide: when the scheduled fields are to
go, no object is scheduled twice and none of the keys is gone (`settled_survey`), so each of them is found.  What stops a
run is the failure of a validator that was just asked, or the violation that was just written down.  And when validators
decide by what they are asked about, the run in place is the run that `Setting.run` tells of.
-/
namespace ConfigSchema

/-- An object of a document holds no key twice, wherever it stands. -/
theorem Value.Unrepeated.nodup_keysAt : ∀ (place : Place) {v : Value}, v.Unrepeated → (v.keysAt place).Nodup
  | [], v, h => by
    cases v with
    | object fields => exact h.of_object.1
    | null | boolean | number | string | array | foreign => exact List.nodup_nil
  | .field key :: place, v, h => by
    cases v with
    | object fields =>
      rw [keysAt]
      cases hf : Assoc.find? (· == key) fields with
      | none => exact List.nodup_nil
      | some u => exact nodup_keysAt place (h.of_object.2 _ (Assoc.mem_of_find?_key hf))
    | null | boolean | number | string | array | foreign => exact List.nodup_nil
  | .entry index :: place, v, h => by
    cases v with
    | array shape entries =>
      rw [keysAt]
      cases he : entries[index]? with
      | none => exact List.nodup_nil
      | some u => exact nodup_keysAt place (h.of_array _ (List.mem_of_getElem? he))
    | null | boolean | number | string | object | foreign => exact List.nodup_nil

namespace InPlace

open scoped List

section

variable {options : Options} {oracle : Oracle} {root : Element} {document : Value}

/-! ## Up to the pruning -/

theorem intact_start (document : Value) : Intact (start document).memory [] document := fun _ => rfl

theorem sound_validateRoot (hu : document.Unrepeated) {m : Machine} (h : Intact m.memory [] document) :
    Sound options oracle (within []) (validateRoot options oracle root document) m := by
  unfold validateRoot
  split
  · exact (sound_find _ m _).mono (Set.empty_subset _)
  · split
    · exact (sound_find _ m _).mono (Set.empty_subset _)
    · exact sound_validate root document [] .root m hu h

theorem sound_survey (hu : document.Unrepeated) :
    Sound options oracle (within []) (survey options oracle root document) (start document) :=
  (sound_tell (start document) _).bind_quiet fun _ _ _ hm =>
    sound_validateRoot hu ((intact_start document).congr fun p _ => hm.frame p (Set.notMem_empty p))

/-- What holds when the scheduled fields are to go: no object is scheduled twice, and its keys are still in it. -/
structure Settled (m : Machine) : Prop where
  places : (m.ledger.unlisted.map (·.place)).Nodup
  keys : ∀ r ∈ m.ledger.unlisted, r.keys <+ m.memory r.place
  memory : ∀ place, (m.memory place).Nodup

theorem settled_survey (hu : document.Unrepeated) {m : Machine}
    (h : (survey options oracle root document).run (start document) = .ok () m) : Settled m := by
  have hsound : Sound options oracle (within []) (survey options oracle root document) (start document) := sound_survey hu
  have hadvance : Advance (within []) (start document) m := after_of_ok h ▸ hsound.advance
  obtain ⟨notes, hnotes, hplaces, hkeys⟩ := hadvance.scheduled
  have hunlisted : m.ledger.unlisted = notes := hnotes
  exact
    { places := hunlisted ▸ hplaces
      keys := fun r hr => (hkeys r (hunlisted ▸ hr)).2
      memory := fun place => (hu.nodup_keysAt place).sublist (hadvance.shrinks place) }

/-! ## The pruning -/

/-- **Each note finds its keys**, since the notes before it are about other objects. -/
theorem takeOut_eq : ∀ (notes : List Removal) (m : Machine), (notes.map (·.place)).Nodup →
    (∀ r ∈ notes, r.keys <+ m.memory r.place) →
    (notes.forM fun r => r.keys.forM (delete r.place)).run m =
      .ok () { m with memory := notes.foldl Memory.without m.memory }
  | [], _, _, _ => rfl
  | r :: notes, m, hn, hk => by
    obtain ⟨hr, hn⟩ := List.nodup_cons.1 hn
    have hone := deleteAll_eq r.place r.keys m (hk r List.mem_cons_self).subperm
    have hrest : ∀ r' ∈ notes, r'.keys <+ m.memory.without r r'.place := fun r' hr' => by
      rw [Memory.without_of_ne m.memory fun h => hr (List.mem_map.2 ⟨r', hr', h⟩)]
      exact hk r' (List.mem_cons_of_mem r hr')
    rw [forM_cons, bind_of_ok hone, takeOut_eq notes _ hn hrest]
    rfl

/-- The machine after the scheduled fields have gone. -/
def Machine.pruned (m : Machine) : Machine where
  memory := m.ledger.unlisted.foldl Memory.without m.memory
  ledger := { m.ledger with unlisted := [] }
  told := m.told ++ [.unlistedPruned (Removal.count m.ledger.unlisted)]

/-- The machine at the end of a run that was not stopped. -/
def Machine.closed (m : Machine) : Machine :=
  let m' := if m.ledger.violations.isEmpty && !m.ledger.unlisted.isEmpty then m.pruned else m
  { m' with told := m'.told ++ [.finished m'.ledger.violations.length] }

/-- **Every scheduled field is there when it is taken out.** -/
theorem prune_eq {m : Machine} (h : Settled m) : prune.run m = .ok () m.pruned := by
  have hopen : prune.run m = (do
      m.ledger.unlisted.forM fun r => r.keys.forM (delete r.place)
      modify fun m => { m with ledger := { m.ledger with unlisted := [] } }
      tell (.unlistedPruned (Removal.count m.ledger.unlisted)) : Work Unit).run m := rfl
  rw [hopen, bind_of_ok (takeOut_eq _ m h.places h.keys)]
  rfl

theorem close_eq {m : Machine} (h : Settled m) : close.run m = .ok m.ledger.violations m.closed := by
  have hprune : pruneIfClean.run m =
      .ok () (if m.ledger.violations.isEmpty && !m.ledger.unlisted.isEmpty then m.pruned else m) := by
    have hopen : pruneIfClean.run m =
        (if m.ledger.violations.isEmpty && !m.ledger.unlisted.isEmpty then prune else pure () : Work Unit).run m := rfl
    rw [hopen]
    split
    · exact prune_eq h
    · rfl
  unfold close Machine.closed
  rw [bind_of_ok hprune]
  split <;> rfl

theorem honest_run (hu : document.Unrepeated) {stop : Stop} {m : Machine}
    (h : (run options oracle root document).run (start document) = .error stop m) : Honest options oracle stop m := by
  unfold run at h
  cases hs : (survey options oracle root document).run (start document) with
  | ok _ m' =>
    rw [bind_of_ok hs, close_eq (settled_survey hu hs)] at h
    cases h
  | error stop' m' =>
    rw [bind_of_error hs] at h
    cases h
    exact (sound_survey hu).honest _ _ hs

end

/-! ## The run that it is -/

/-- What a run in place gives, and the run as it is told, unless it came upon a fault. -/
def report (document : Value) :
    EStateM.Result Stop Machine (List Violation) → Except Fault (Except Halt (List Violation) × Run)
  | .ok violations m => .ok (.ok violations, ⟨none, m.memory.view [] document, m.told⟩)
  | .error (.ended halt) m => .ok (.error halt, ⟨some halt, m.memory.view [] document, m.told⟩)
  | .error (.fault fault) _ => .error fault

variable {s : Setting} {root : Element} {document : Value}

theorem mirrored_validateRoot (hu : document.Unrepeated) {m : Machine} (h : Intact m.memory [] document) :
    Mirrored [] (·.view [] document) (s.walkRoot root document) (validateRoot s.options s.oracle root document) m := by
  unfold validateRoot Setting.walkRoot
  split
  · exact mirrored_find hu h
  · split
    · exact mirrored_find hu h
    · exact mirrored_validate root document [] .root m hu h

/-- How a run in place stands when it is known whether unlisted fields go. -/
structure Surveyed (document : Value) (event : Event) (w : Walk Value) (m : Machine) : Prop where
  ledger : m.ledger = ⟨w.trail.violations, w.trail.unlisted⟩
  told : m.told = event :: w.trail.events
  seen : m.memory.view [] document = w.left

theorem surveyed (s : Setting) (root : Element) (hu : document.Unrepeated) :
    stop? (survey s.options s.oracle root document) (start document) =
        (s.walkRoot root document).trail.halt.map .ended ∧
      Surveyed document (.began document.kindName root.kind) (s.walkRoot root document)
        (after (survey s.options s.oracle root document) (start document)) := by
  have hroot : Mirrored [] (·.view [] document) (s.walkRoot root document) (validateRoot s.options s.oracle root document)
      { start document with told := [.began document.kindName root.kind] } := mirrored_validateRoot hu (intact_start document)
  have hrun : (survey s.options s.oracle root document).run (start document) =
      (validateRoot s.options s.oracle root document).run
        { start document with told := [.began document.kindName root.kind] } := rfl
  have hinside : Removal.inside [] = id := funext fun r => rfl
  have hledger := hroot.tells.ledger
  refine ⟨?_, ?_, ?_, ?_⟩
  · rw [stop?, hrun]
    exact hroot.tells.stop
  · rw [after_congr hrun, hledger, Ledger.add, hinside, List.map_id]
    rfl
  · rw [after_congr hrun, hroot.tells.told]
    rfl
  · rw [after_congr hrun]
    exact hroot.left

theorem closed_eq {event : Event} {w : Walk Value} {m : Machine} (hm : Settled m) (h : Surveyed document event w m) :
    m.closed.memory.view [] document = (Setting.close w).document ∧ m.closed.told = event :: (Setting.close w).events := by
  have hprune := Memory.view_withoutAll document w.trail.unlisted m.memory hm.memory
  rw [h.seen] at hprune
  unfold Machine.closed Setting.close Machine.pruned
  simp only [h.ledger, h.told]
  cases hv : w.trail.violations with
  | cons x xs => simp [h.ledger, h.told, h.seen, hv]
  | nil =>
    cases hn : w.trail.unlisted with
    | nil => simp [h.ledger, h.told, h.seen, hv]
    | cons r rs =>
      rw [hn] at hprune
      exact ⟨hprune, by simp⟩

/-- **The run in place is the run that is told of**, if validators decide by what they are asked about. -/
theorem report_run (hu : document.Unrepeated) :
    report document ((run s.options s.oracle root document).run (start document)) =
      .ok ((s.run root document).outcome, s.run root document) := by
  obtain ⟨hstop, h⟩ := surveyed s root hu
  unfold run
  cases hs : (survey s.options s.oracle root document).run (start document) with
  | ok _ m =>
    rw [stop?, hs] at hstop
    rw [after_of_ok hs] at h
    have hhalt : (s.walkRoot root document).trail.halt = none := Option.map_eq_none_iff.1 hstop.symm
    have hm := settled_survey hu hs
    have houtcome := (s.outcome_run_eq_ok root document).2 ⟨hhalt, rfl⟩
    obtain ⟨hseen, htold⟩ := closed_eq hm h
    rw [bind_of_ok hs, close_eq hm, houtcome, s.run_of_none root document hhalt, report, hseen, htold, h.ledger]
    rfl
  | error stop m =>
    rw [stop?, hs] at hstop
    rw [after_of_error hs] at h
    obtain ⟨halt, hhalt, rfl⟩ := Option.map_eq_some_iff.1 hstop.symm
    rw [bind_of_error hs, s.run_of_some root document hhalt, report, h.seen, h.told]
    rfl

/-- **A run never fails by itself.**  What stops it is the failure of a validator that was just asked, or the violation that
was just written down if the options say to stop there: no key is read or deleted that is not there, no list ends before
the one that is walked along with it, and no element is without a case.  When the scheduled fields are to go, no object is
scheduled twice, and each scheduled key is there once.  And this run is the run that is told of. -/
theorem run_faultless (options : Options) (oracle : Oracle) (root : Element) {document : Value}
    (hu : document.Unrepeated) :
    (∀ stop m, (run options oracle root document).run (start document) = .error stop m →
      Honest options oracle stop m) ∧
    (∀ m, (survey options oracle root document).run (start document) = .ok () m →
      (m.ledger.unlisted.map (·.place)).Nodup ∧
        ∀ r ∈ m.ledger.unlisted, r.keys.Nodup ∧ ∀ key ∈ r.keys, key ∈ m.memory r.place) ∧
    ∀ judge, report document ((run options (fun _ => judge) root document).run (start document)) =
      .ok (((Setting.mk options judge).run root document).outcome, (Setting.mk options judge).run root document) := by
  refine ⟨fun stop m h => honest_run hu h, fun m h => ?_, fun judge => report_run (s := ⟨options, judge⟩) hu⟩
  have hm := settled_survey hu h
  exact ⟨hm.places, fun r hr => ⟨(hm.memory r.place).sublist (hm.keys r hr), fun key hkey => (hm.keys r hr).subset hkey⟩⟩

/-- An object that has left the document with its meta field is scheduled like any other, and its field is still there. -/
theorem run_faultless_detached :
    let s : Setting := ⟨{ pruneUnlisted := true }, fun _ _ _ => .accept⟩
    let root := Element.object {} [("$m", .object {} [])]
    let document := Value.object [(.name "$m", .object [(.name "x", .null)]), (.name "y", .null)]
    document.Unrepeated ∧
      (∃ m, (survey s.options s.oracle root document).run (start document) = .ok () m ∧
        m.ledger.unlisted.map (·.place) = [[.field (.name "$m")], []] ∧
          ∀ r ∈ m.ledger.unlisted, ∀ key ∈ r.keys, key ∈ m.memory r.place) ∧
      (∀ oracle stop m, (run s.options oracle root document).run (start document) = .error stop m →
        Honest s.options oracle stop m) ∧
      ∃ told, report document ((run s.options s.oracle root document).run (start document)) =
        .ok (.ok [], told) ∧ told.document = .object [] := by
  intro s root document
  have hinner : (Value.object [(.name "x", .null)]).Unrepeated := .object (by decide) (by simp [Value.Unrepeated.null])
  have hu : document.Unrepeated := by
    refine .object (by decide) ?_
    simp only [List.forall_mem_cons]
    exact ⟨hinner, .null, nofun⟩
  have hrun : (s.run root document).outcome = .ok [] ∧ (s.run root document).document = .object [] := by
    unfold s root document
    exact ⟨rfl, rfl⟩
  have hsurvey : stop? (survey s.options s.oracle root document) (start document) = none ∧
      (after (survey s.options s.oracle root document) (start document)).ledger.unlisted.map (·.place) =
        [[.field (.name "$m")], []] := by
    unfold s root document
    exact ⟨rfl, rfl⟩
  obtain ⟨-, hscheduled, hreport⟩ := run_faultless s.options s.oracle root hu
  refine ⟨hu, ?_, fun oracle => (run_faultless s.options oracle root hu).1, s.run root document, ?_, hrun.2⟩
  · cases hs : (survey s.options s.oracle root document).run (start document) with
    | ok _ m =>
      rw [after_of_ok hs] at hsurvey
      exact ⟨m, rfl, hsurvey.2, fun r hr => ((hscheduled m hs).2 r hr).2⟩
    | error stop m =>
      rw [stop?, hs] at hsurvey
      cases hsurvey.1
  · exact (hreport s.judge).trans (by rw [← hrun.1])

/-- Where one object stands in two places, what the first note takes out is gone when the second one is carried out. -/
example :
    let root := Element.object {} [("a", .object {} [])]
    let document := Value.object [(.name "a", .object [(.name "x", .null)]), (.name "a", .object [(.name "x", .null)])]
    report document ((run { pruneUnlisted := true } (fun _ _ _ _ => .accept) root document).run (start document)) =
      .error (.missingKey (.name "x")) := by
  rfl

end InPlace
end ConfigSchema
