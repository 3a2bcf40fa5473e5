import ConfigSchema.Proofs.Descent
import ConfigSchema.Proofs.Runs
import ConfigSchema.Validation.Engine
/-!
# FirstViolation — stopping at the first violation

Two runs that differ only in whether they stop at the first violation agree up to that violation.  A trail is cut by
another if the two are the same while nothing is wrong, and the other ends at the first violation of the one; every join
keeps this (`Cut.andThen`, `Cut.andIfClean`), so whole walks are cut (`cut_walk`), and runs with them.
-/
namespace ConfigSchema

/-- What a trail that collects its violations has to do with the one that stops at the first of them. -/
structure Trail.Cut (full cut : Trail) : Prop where
  same : full.violations = [] → cut = full
  first : ∀ v rest, full.violations = v :: rest → cut.halt = some (.firstViolation v) ∧ cut.violations = [v]

/-- The same for walks: what they leave agrees while nothing is wrong. -/
structure Walk.Cut {α : Type} (full cut : Walk α) : Prop where
  trail : full.trail.Cut cut.trail
  left : full.trail.violations = [] → cut.left = full.left

namespace Trail

variable {t t' u u' : Trail}

theorem violations_andThen_of_cons {v : Violation} {rest : List Violation} (h : t.violations = v :: rest) (u : Trail) :
    ∃ more, (t.andThen u).violations = v :: more := by
  cases hh : t.halt with
  | some halt => exact ⟨rest, by rw [andThen_of_some hh, h]⟩
  | none => exact ⟨rest ++ u.violations, by rw [violations_andThen hh, h]; rfl⟩

theorem violations_of_andThen (h : (t.andThen u).violations = []) : t.violations = [] := by
  cases hv : t.violations with
  | nil => rfl
  | cons v rest =>
    obtain ⟨more, hm⟩ := violations_andThen_of_cons hv u
    rw [hm] at h
    cases h

theorem violations_of_andIfClean (h : (t.andIfClean u).violations = []) : t.violations = [] := by
  by_cases hv : t.violations = []
  · exact hv
  · rwa [andIfClean_of_ne_nil hv] at h

theorem Cut.of_nil (h : t.violations = []) : Cut t t :=
  ⟨fun _ => rfl, fun v rest hv => by rw [h] at hv; cases hv⟩

/-- **Cuts are joined to cuts.**  The second parts have to match only if nothing was wrong in the first. -/
theorem Cut.andThen (ht : Cut t t') (hu : t.violations = [] → Cut u u') : Cut (t.andThen u) (t'.andThen u') := by
  cases hv : t.violations with
  | nil =>
    rw [ht.same hv]
    cases hh : t.halt with
    | some halt =>
      rw [andThen_of_some hh, andThen_of_some hh]
      exact .of_nil hv
    | none =>
      refine ⟨fun h => ?_, fun v rest h => ?_⟩
      · rw [violations_andThen hh, hv, List.nil_append] at h
        rw [(hu hv).same h]
      · rw [violations_andThen hh, hv, List.nil_append] at h
        obtain ⟨h₁, h₂⟩ := (hu hv).first v rest h
        exact ⟨by rw [andThen_of_none hh, h₁], by rw [violations_andThen hh, hv, h₂]; rfl⟩
  | cons v rest =>
    -- the cut join has ended in its first part, and the full one tells of that violation first
    obtain ⟨h₁, h₂⟩ := ht.first v rest hv
    obtain ⟨more, hm⟩ := violations_andThen_of_cons hv u
    rw [andThen_of_some h₁]
    refine ⟨fun h => ?_, fun w rest' h => ?_⟩
    · rw [hm] at h
      cases h
    · rw [hm] at h
      cases h
      exact ⟨h₁, h₂⟩

theorem Cut.andIfClean (ht : Cut t t') (hu : t.violations = [] → Cut u u') :
    Cut (t.andIfClean u) (t'.andIfClean u') := by
  cases hv : t.violations with
  | nil =>
    have hj := ht.andThen hu
    rw [ht.same hv] at hj ⊢
    rwa [andIfClean_of_nil hv, andIfClean_of_nil hv]
  | cons v rest =>
    have hne : t.violations ≠ [] := by rw [hv]; exact List.cons_ne_nil _ _
    have hne' : t'.violations ≠ [] := by rw [(ht.first v rest hv).2]; exact List.cons_ne_nil _ _
    rwa [andIfClean_of_ne_nil hne, andIfClean_of_ne_nil hne']

theorem Cut.sequence {α : Type} {f g : α → Trail} : ∀ {l : List α}, (∀ a ∈ l, Cut (f a) (g a)) →
    Cut (sequence (l.map f)) (sequence (l.map g))
  | [], _ => .of_nil rfl
  | a :: _, h => (h a List.mem_cons_self).andThen fun _ => Cut.sequence fun b hb => h b (List.mem_cons_of_mem a hb)

theorem Cut.under (h : Cut t t') (step : Step) : Cut (t.under step) (t'.under step) :=
  ⟨fun hv => by rw [h.same hv], fun v rest hv => h.first v rest hv⟩

end Trail

namespace Walk

variable {α β : Type} {w w' : Walk α}

theorem Cut.same (h : Cut w w') (hv : w.trail.violations = []) : w' = w := by
  obtain ⟨left, trail⟩ := w
  obtain ⟨left', trail'⟩ := w'
  cases h.left hv
  cases h.trail.same hv
  rfl

theorem Cut.of_nil (h : w.trail.violations = []) : Cut w w := ⟨.of_nil h, fun _ => rfl⟩

theorem Cut.map (h : Cut w w') (f : α → β) : Cut (w.map f) (w'.map f) :=
  ⟨h.trail, fun hv => congrArg f (h.left hv)⟩

theorem Cut.under (h : Cut w w') (step : Step) : Cut (w.under step) (w'.under step) :=
  ⟨h.trail.under step, h.left⟩

theorem Cut.after {t t' : Trail} (ht : t.Cut t') (h : Cut w w') (untouched : α) :
    Cut (w.after t untouched) (w'.after t' untouched) := by
  refine ⟨by rw [trail_after, trail_after]; exact ht.andThen fun _ => h.trail, fun hv => ?_⟩
  rw [trail_after] at hv
  rw [ht.same (Trail.violations_of_andThen hv)]
  cases hh : t.halt with
  | some halt => simp only [Walk.after, hh]
  | none =>
    rw [Trail.violations_andThen hh, List.append_eq_nil_iff] at hv
    rw [left_after hh, left_after hh, h.left hv.2]

theorem Cut.cons (h : Cut w w') (untouched : List α) {tail tail' : Walk (List α)} (ht : Cut tail tail') :
    Cut (w.cons untouched tail) (w'.cons untouched tail') := by
  refine ⟨by rw [trail_cons, trail_cons]; exact h.trail.andThen fun _ => ht.trail, fun hv => ?_⟩
  rw [trail_cons] at hv
  rw [h.same (Trail.violations_of_andThen hv)]
  cases hh : w.trail.halt with
  | some halt => simp only [Walk.cons, hh]
  | none =>
    rw [Trail.violations_andThen hh, List.append_eq_nil_iff] at hv
    rw [left_cons hh, left_cons hh, ht.left hv.2]

/-- **A walk of a list is cut if the walk of each part is.** -/
theorem Cut.each {f g : Nat → α → Walk α} : ∀ {index : Nat} {parts : List α}, (∀ i, ∀ a ∈ parts, Cut (f i a) (g i a)) →
    Cut (each f index parts) (each g index parts)
  | _, [], _ => .of_nil rfl
  | index, a :: rest, h =>
    (h index a List.mem_cons_self).cons rest (Cut.each fun i b hb => h i b (List.mem_cons_of_mem a hb))

end Walk

namespace Setting

variable (s : Setting) (path : Pointer) (e : Element)

/-- The same setting, with the choice whether to stop at the first violation. -/
def stopping (stop : Bool) : Setting := { s with options := { s.options with stopOnFirst := stop } }

theorem cut_found (cause : Cause) : ((s.stopping false).found path cause).Cut ((s.stopping true).found path cause) :=
  ⟨(nomatch ·), fun _ _ h => by cases h; exact ⟨rfl, rfl⟩⟩

theorem cut_foundAll (causes : List Cause) :
    ((s.stopping false).foundAll path causes).Cut ((s.stopping true).foundAll path causes) :=
  Trail.Cut.sequence fun cause _ => s.cut_found path cause

theorem cut_askAll {v v' : Value} (h : v' = v) :
    ((s.stopping false).askAll path e v).Cut ((s.stopping true).askAll path e v') := by
  subst h
  refine Trail.Cut.sequence fun w _ => ?_
  refine (Trail.Cut.of_nil rfl).andThen fun _ => ?_
  show Trail.Cut ((s.stopping false).heed path w (s.judge w e v')) ((s.stopping true).heed path w (s.judge w e v'))
  cases s.judge w e v' with
  | accept => exact .of_nil rfl
  | reject => exact s.cut_found path _
  | fail f => exact .of_nil rfl

theorem cut_reportMissing (children : List (String × Element)) (fields : List (Key × Value)) :
    ((s.stopping false).reportMissing path children fields).Cut ((s.stopping true).reportMissing path children fields) :=
  Trail.Cut.sequence fun name _ => s.cut_found (path.push name) _

theorem violations_dropMeta (fields : List (Key × Value)) : (s.dropMeta path fields).violations = [] :=
  (s.clean_dropMeta path fields).violations

theorem cut_walkObject (children : List (String × Element)) (fields : List (Key × Value))
    {inside inside' : Walk (List (Key × Value))} (h : inside.Cut inside') :
    ((s.stopping false).walkObject path e children fields inside).Cut
      ((s.stopping true).walkObject path e children fields inside') := by
  have hopen := (Trail.Cut.of_nil (s.violations_dropMeta path fields)).andThen
    fun _ => s.cut_reportMissing path children fields
  have hw := h.after hopen fields
  have hnote : (s.noteUnlisted children fields).violations = [] := (s.clean_noteUnlisted children fields).violations
  -- the validators are asked only if nothing was wrong so far, and then about one and the same value
  have hleft := fun hv => congrArg (fun left => Value.object (left.filter fun field => !s.options.drops field.1))
    (hw.left hv)
  exact ⟨(hw.trail.andIfClean fun hv => s.cut_askAll path e (hleft hv)).andThen fun _ => .of_nil hnote,
    fun hv => hleft (Trail.violations_of_andIfClean (Trail.violations_of_andThen hv))⟩

theorem cut_walkArray (shape : ArrayShape) {inside inside' : Walk (List Value)} (h : inside.Cut inside') :
    ((s.stopping false).walkArray path e shape inside).Cut ((s.stopping true).walkArray path e shape inside') := by
  have hleft := fun hv => congrArg (Value.array shape) (h.left hv)
  exact ⟨h.trail.andIfClean fun hv => s.cut_askAll path e (hleft hv),
    fun hv => hleft (Trail.violations_of_andIfClean hv)⟩

theorem cut_walkField {path : Pointer} {children : List (String × Element)} {field : Key × Value}
    (ih : ∀ child path, ((s.stopping false).walk path child field.2).Cut ((s.stopping true).walk path child field.2)) :
    ((s.stopping false).walkField path children field).Cut ((s.stopping true).walkField path children field) := by
  unfold walkField
  cases Element.governing? children field.1 with
  | none => exact .of_nil rfl
  | some child => exact ((ih child _).map _).under _

theorem cut_walkEntry {path : Pointer} {slots : List (Kind × Element)} {ordered : List Element} {allowNull : Bool}
    {index : Nat} {v : Value}
    (ih : ∀ e path, ((s.stopping false).walk path e v).Cut ((s.stopping true).walk path e v)) :
    ((s.stopping false).walkEntry path slots ordered allowNull index v).Cut
      ((s.stopping true).walkEntry path slots ordered allowNull index v) := by
  unfold walkEntry
  cases Element.entryDemand slots ordered allowNull index v with
  | nothing => exact .of_nil rfl
  | refused cause => exact ⟨s.cut_found _ cause, fun _ => rfl⟩
  | governed e => exact (ih e _).under _

theorem cut_walkContents {path : Pointer} {slots : List (Kind × Element)} {ordered : List Element} {allowNull : Bool}
    {entries : List Value}
    (ih : ∀ v ∈ entries, ∀ e path, ((s.stopping false).walk path e v).Cut ((s.stopping true).walk path e v)) :
    ((s.stopping false).walkContents path slots ordered allowNull entries).Cut
      ((s.stopping true).walkContents path slots ordered allowNull entries) := by
  unfold walkContents
  cases ArrayMode.ofContents slots ordered with
  | any =>
    refine ⟨?_, fun _ => rfl⟩
    simp only [anyEntries]
    split
    · exact s.cut_found path _
    · exact .of_nil rfl
  | typed | ordered => exact Walk.Cut.each fun _ v hv => s.cut_walkEntry (ih v hv)

/-- **The walk that stops at its first violation cuts the walk that collects them.** -/
theorem cut_walk (e : Element) (v : Value) : ∀ path,
    ((s.stopping false).walk path e v).Cut ((s.stopping true).walk path e v) := by
  induction e, v using Element.induct with
  | null e =>
    intro path
    rw [walk_null, walk_null]
    refine ⟨?_, fun _ => rfl⟩
    unfold nullField
    split
    · exact .of_nil rfl
    · exact s.cut_found path _
  | wrong e v hv ha =>
    intro path
    rw [walk_wrong _ path hv ha, walk_wrong _ path hv ha]
    exact ⟨s.cut_found path _, fun _ => rfl⟩
  | scalar e v hv ha =>
    intro path
    rw [walk_scalar _ path hv ha, walk_scalar _ path hv ha]
    exact ⟨(s.cut_foundAll path _).andIfClean fun _ => s.cut_askAll path e rfl, fun _ => rfl⟩
  | object traits children fields ih =>
    intro path
    rw [walk_object, walk_object]
    exact s.cut_walkObject path _ children fields (Walk.Cut.each fun _ field hf => s.cut_walkField (ih field hf))
  | array traits slots ordered allowNull shape entries ih =>
    intro path
    by_cases hl : ordered = [] ∨ ordered.length = entries.length
    · rw [walk_array _ path traits slots allowNull shape hl, walk_array _ path traits slots allowNull shape hl]
      exact s.cut_walkArray path _ shape (s.cut_walkContents ih)
    · rw [walk_array_of_length_ne _ path traits slots allowNull shape hl,
        walk_array_of_length_ne _ path traits slots allowNull shape hl]
      exact ⟨s.cut_found path _, fun _ => rfl⟩

theorem cut_walkRoot (root : Element) (document : Value) :
    ((s.stopping false).walkRoot root document).Cut ((s.stopping true).walkRoot root document) := by
  unfold walkRoot
  split
  · exact ⟨s.cut_found .root _, fun _ => rfl⟩
  · split
    · exact ⟨s.cut_found .root _, fun _ => rfl⟩
    · exact s.cut_walk root document .root

end Setting

def Engine.stopping (e : Engine) (stop : Bool) : Engine := { e with setting := e.setting.stopping stop }

/-- **An engine that stops at the first violation reports the first one of the engine that collects them.**  As long as
there is none, the two runs are the same: how they end, what they leave and what happens in them. -/
theorem Engine.run_stopping (e : Engine) (document : Value) :
    match ((e.stopping false).run document).2.violations with
    | [] => ((e.stopping true).run document).1 = ((e.stopping false).run document).1
    | v :: _ => ((e.stopping true).run document).1.outcome = .error (.firstViolation v) ∧
        ((e.stopping true).run document).2.violations = [v] := by
  have hcut := e.setting.cut_walkRoot e.root document
  have hv := (e.setting.stopping false).violations_run e.root document
  simp only [Engine.run, Engine.stopping, hv]
  cases h : ((e.setting.stopping false).walkRoot e.root document).trail.violations with
  | nil =>
    simp only
    unfold Setting.run
    rw [hcut.same h]
  | cons v rest =>
    obtain ⟨hhalt, hfirst⟩ := hcut.trail.first v rest h
    simp only [Run.outcome, Setting.halt_run, Setting.violations_run, hhalt, hfirst, and_self]

end ConfigSchema
