import ConfigSchema.Proofs.Calls
import ConfigSchema.Proofs.Desk
import ConfigSchema.Proofs.Runs
import ConfigSchema.Validation.Engine
import Mathlib.Data.List.Basic
/-!
# Session — runs one after the other on one desk

An engine that works on a desk leaves there what its run has written, also when the run ends early: violations, and notes
that were never carried out.  The next run clears the desk of both before it begins, and carries out at its end whatever
notes are there by then.  So what the run gives and does is what the run of a new engine gives and does, and it changes no
document but its own (`run_after`).
-/
namespace ConfigSchema

/-- The desk for a new run: only what has happened is still there, and now that the run has begun. -/
def Desk.clear (d : Desk) (began : Event) : Desk := { events := d.events ++ [began] }

def Setting.workRoot (s : Setting) (number : Nat) (root : Element) (d : Desk) (document : Value) : Value × Desk :=
  if !root.kind.isContainer then
    (document, d.write number [] (s.found .root (.rootType (.notContainer root.kind))))
  else if !root.accepts document then
    (document, d.write number [] (s.found .root (.rootType (.wrongKind document.kindName root.kind))))
  else s.work number .root [] root d document

/-- Carries out notes, each on the document that it is about. -/
def Removal.carryOutEach (notes : List (Nat × Removal)) (documents : List Value) : List Value :=
  notes.foldl (fun documents note => documents.modify note.1 note.2.carryOut) documents

/-- The desk of an engine, and the documents that it is given again and again. -/
structure Session where
  desk : Desk := {}
  documents : List Value

namespace Session

/-- What the latest run gave. -/
def outcome (t : Session) : Except Halt (List Violation) :=
  match t.desk.halt with
  | some halt => .error halt
  | none => .ok t.desk.violations

/-- The end of a run: all notes on the desk are carried out if no violation is there. -/
def finish (t : Session) : Session :=
  match t.desk.halt with
  | some _ => t
  | none =>
    let count := t.desk.violations.length
    if count == 0 && !t.desk.pending.isEmpty then
      { desk :=
          { t.desk with
            pending := []
            events := t.desk.events ++
              [.unlistedPruned (Removal.count (t.desk.pending.map (·.2))), .finished count] }
        documents := Removal.carryOutEach t.desk.pending t.documents }
    else { t with desk := { t.desk with events := t.desk.events ++ [.finished count] } }

/-- Validates the document with a number. -/
def run (s : Setting) (root : Element) (t : Session) (number : Nat) : Session :=
  match t.documents[number]? with
  | none => t
  | some document =>
    let worked := s.workRoot number root (t.desk.clear (.began document.kindName root.kind)) document
    finish ⟨worked.2, t.documents.set number worked.1⟩

def runAll (s : Setting) (root : Element) (t : Session) (numbers : List Nat) : Session := numbers.foldl (run s root) t

end Session

theorem Setting.workRoot_eq (s : Setting) (number : Nat) (root : Element) {d : Desk} (hd : d.halt = none)
    (document : Value) : s.workRoot number root d document =
      ((s.walkRoot root document).left, d.write number [] (s.walkRoot root document).trail) := by
  unfold workRoot walkRoot
  split
  · rfl
  · split
    · rfl
    · exact work_eq root document .root [] d hd

/-- Notes about one document change only that one. -/
theorem Removal.carryOutEach_map (number : Nat) : ∀ (notes : List Removal) (documents : List Value),
    carryOutEach (notes.map (number, ·)) documents = documents.modify number (carryOutAll notes)
  | [], documents => (List.modify_id number documents).symm
  | note :: notes, documents => by
    have hrest := carryOutEach_map number notes (documents.modify number note.carryOut)
    rw [List.modify_modify_eq] at hrest
    exact hrest

theorem Desk.write_clear (d : Desk) (began : Event) (number : Nat) (t : Trail) :
    (d.clear began).write number [] t =
      { violations := t.violations
        pending := t.unlisted.map (number, ·)
        events := d.events ++ began :: t.events
        halt := t.halt } := by
  simp [clear, write, Removal.inside]

namespace Session

variable {s : Setting} {root : Element} {t : Session} {number : Nat} {document : Value}

/-- **A walk that went through is brought to its end on the desk** as it is by itself. -/
theorem finish_eq (number : Nat) {w : Walk Value} (h : w.trail.halt = none) (events : List Event)
    (documents : List Value) :
    ∃ pending, finish
      { desk :=
          { violations := w.trail.violations
            pending := w.trail.unlisted.map (number, ·)
            events := events ++ w.trail.events
            halt := w.trail.halt }
        documents := documents.set number w.left } =
      { desk :=
          { violations := w.trail.violations
            pending
            events := events ++ (Setting.close w).events
            halt := none }
        documents := documents.set number (Setting.close w).document } := by
  have hcarried : Removal.carryOutEach (w.trail.unlisted.map (number, ·)) (documents.set number w.left) =
      documents.set number (Removal.carryOutAll w.trail.unlisted w.left) := by
    rw [Removal.carryOutEach_map, List.set_eq_modify, List.modify_modify_eq, List.set_eq_modify]
    rfl
  simp only [finish, h, Setting.close, List.isEmpty_map]
  split
  · refine ⟨[], ?_⟩
    simp [hcarried, Function.comp_def]
  · refine ⟨w.trail.unlisted.map (number, ·), ?_⟩
    simp

/-- **A run is the same on every desk**: it leaves its own violations there, adds its own events and its own end, and
leaves of its document what it leaves by itself. -/
theorem run_eq (h : t.documents[number]? = some document) : ∃ pending, t.run s root number =
    { desk :=
        { violations := (s.run root document).violations
          pending
          events := t.desk.events ++ (s.run root document).events
          halt := (s.run root document).halt }
      documents := t.documents.set number (s.run root document).document } := by
  have hrun : t.run s root number = finish
      { desk :=
          { violations := (s.walkRoot root document).trail.violations
            pending := (s.walkRoot root document).trail.unlisted.map (number, ·)
            events := t.desk.events ++ .began document.kindName root.kind :: (s.walkRoot root document).trail.events
            halt := (s.walkRoot root document).trail.halt }
        documents := t.documents.set number (s.walkRoot root document).left } := by
    have hclear : (t.desk.clear (.began document.kindName root.kind)).halt = none := rfl
    simp only [run, h, s.workRoot_eq number root hclear, Desk.write_clear]
  rw [hrun, Setting.violations_run, Setting.halt_run]
  cases hw : (s.walkRoot root document).trail.halt with
  | some halt =>
    rw [s.run_of_some root document hw]
    exact ⟨_, rfl⟩
  | none =>
    obtain ⟨pending, hfinish⟩ := finish_eq number hw (t.desk.events ++ [.began document.kindName root.kind]) t.documents
    rw [s.run_of_none root document hw]
    simp only [hw, List.append_assoc, List.singleton_append] at hfinish
    exact ⟨pending, hfinish⟩

/-- **What a session leaves of its documents** is what new engines would leave of them, one for each run. -/
theorem documents_runAll (s : Setting) (root : Element) : ∀ (numbers : List Nat) (t : Session),
    (t.runAll s root numbers).documents =
      numbers.foldl (fun documents number => documents.modify number fun v => (s.run root v).document) t.documents
  | [], t => rfl
  | number :: numbers, t => by
    have hrest := documents_runAll s root numbers (t.run s root number)
    have hdocuments : (t.run s root number).documents =
        t.documents.modify number fun v => (s.run root v).document := by
      rw [List.modify_eq_set_getElem?]
      cases h : t.documents[number]? with
      | none => simp only [run, h]; rfl
      | some document =>
        obtain ⟨pending, hrun⟩ := run_eq h
        rw [hrun]
        rfl
    rw [hdocuments] at hrest
    exact hrest

end Session

namespace Loader

variable (l : Loader) (errors : List Violation)

theorem parse_with_errors (text : String) : { l with errors }.parse text = l.parse text := by
  unfold parse
  cases l.decode text <;> rfl

theorem check_with_errors (document : Value) :
    ({ l with errors }.check document).answer = (l.check document).answer ∧
      ({ l with errors }.check document).run = (l.check document).run := by
  rcases h : (l.setting.run l.root document).halt with _ | _ | _ <;> simp only [check, h, and_self]

end Loader

namespace Session

/-- **No run depends on an earlier one.**  Whatever runs there were on a desk, and however they ended, the next one gives
what a new engine gives for the same document, lists the same violations, leaves the same of the document, and adds the
same events, and with them the same lines of the log and the same questions to validators; no other document changes.  And
whatever calls a loader has served, it answers the next one as a new loader does, after the same run. -/
theorem run_after (s : Setting) (root : Element) :
    (∀ (t : Session) (earlier : List Nat) (number : Nat) (document : Value),
      let before := t.runAll s root earlier
      let next := before.run s root number
      let fresh := ({ root, setting := s } : Engine).run document
      before.documents[number]? = some document →
        next.outcome = fresh.1.outcome ∧ next.desk.violations = fresh.2.violations ∧
          next.documents[number]? = some fresh.1.document ∧
          next.desk.events = before.desk.events ++ fresh.1.events ∧
          ∀ other, other ≠ number → next.documents[other]? = before.documents[other]?) ∧
      ∀ (decode : Decoder) (earlier : List Request),
        let new : Loader := { root, setting := s, decode }
        let used := new.serveAll earlier
        (∀ text, used.parse text = new.parse text) ∧ (∀ document, used.validate document = new.validate document) ∧
          ∀ document, (used.check document).answer = (new.check document).answer ∧
            (used.check document).run = (new.check document).run := by
  constructor
  · intro t earlier number document before next fresh h
    obtain ⟨pending, hrun⟩ := @run_eq s root _ _ _ h
    obtain ⟨hnumber, -⟩ := List.getElem?_eq_some_iff.1 h
    have hnext : next = _ := hrun
    rw [hnext]
    refine ⟨rfl, rfl, List.getElem?_set_self hnumber, rfl, fun other hother => ?_⟩
    exact List.getElem?_set_ne hother.symm
  · intro decode earlier new used
    have hused : used = { new with errors := new.listed earlier } := new.serveAll_eq earlier
    rw [hused]
    exact ⟨new.parse_with_errors _, fun _ => rfl, new.check_with_errors _⟩

/-- The first run stops at a violation, and in the second a validator fails when a field of the part is noted already.  The
third takes such a field out of its own document, and that of the second keeps its own. -/
theorem run_after_failure :
    let s : Setting := ⟨{ stopOnFirst := true, pruneUnlisted := true }, fun _ _ _ => .fail (.other "RuntimeError" "size")⟩
    let root := Element.object {} [("part", .object {} []),
      ("size", .number { required := false, validators := [⟨"size", "size"⟩] } {})]
    let noted := Value.object [(.name "part", .object [(.name "extra", .boolean true)]), (.name "size", .number (.whole 1))]
    let document := Value.object [(.name "part", .object [(.name "extra", .boolean true)])]
    let before := runAll s root { documents := [.object [(.name "part", .null)], noted, document] } [0, 1]
    let next := before.run s root 2
    before.documents[2]? = some document ∧
      before.desk.pending = [(1, ⟨[.field (.name "part")], [.name "extra"]⟩)] ∧ next.outcome = .ok [] ∧
      next.documents[2]? = some (.object [(.name "part", .object [])]) ∧ next.documents[1]? = some noted := by
  intro s root noted document before next
  have hdocuments : before.documents = [.object [(.name "part", .null)], noted, document] := by
    unfold before s root noted document
    rfl
  have hpending : before.desk.pending = [(1, ⟨[.field (.name "part")], [.name "extra"]⟩)] := by
    unfold before s root noted document
    rfl
  have hfresh : (s.run root document).outcome = .ok [] ∧
      (s.run root document).document = .object [(.name "part", .object [])] := by
    unfold s root document
    exact ⟨rfl, rfl⟩
  have hbefore : before.documents[2]? = some document := congrArg (·[2]?) hdocuments
  obtain ⟨houtcome, -, hleft, -, hothers⟩ := (run_after s root).1 _ [0, 1] 2 document hbefore
  exact ⟨hbefore, hpending, houtcome.trans hfresh.1, hleft.trans (congrArg some hfresh.2),
    (hothers 1 (by decide)).trans (congrArg (·[1]?) hdocuments)⟩

end Session
end ConfigSchema
