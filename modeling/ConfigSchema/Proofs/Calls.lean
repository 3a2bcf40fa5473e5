import ConfigSchema.Loader
/-!
# Calls — the errors that a loader lists after call upon call

A call lists on its loader what its own run found, and a text that cannot be decoded leaves nothing listed.  A check that
ends by a failing validator is the exception: it leaves the list alone, so what is listed after it belongs to an earlier
call.
-/
namespace ConfigSchema

/-- What a loader can be called for. -/
inductive Request where
  | parse (text : String)
  | validate (document : Value)
  | check (document : Value)

namespace Loader

/-- The loader after a call, however the call ended. -/
def serve (l : Loader) : Request → Loader
  | .parse text => (l.parse text).loader
  | .validate document => (l.validate document).loader
  | .check document => (l.check document).loader

def serveAll (l : Loader) (rs : List Request) : Loader := rs.foldl serve l

/-- What the run of a call finds by itself; a text that cannot be decoded comes to no run. -/
def own (l : Loader) : Request → List Violation
  | .parse text =>
    match l.decode text with
    | .ok document => (l.setting.run l.root document).violations
    | .error _ => []
  | .validate document | .check document => (l.setting.run l.root document).violations

/-- Whether a call is a check that ends by a failing validator. -/
def breaksOff (l : Loader) : Request → Bool
  | .check document =>
    match (l.setting.run l.root document).halt with
    | some (.failure _) => true
    | some (.firstViolation _) | none => false
  | .parse _ | .validate _ => false

/-- What calls leave listed: what the latest of them found that did not break off, or else what was listed before. -/
def listed (l : Loader) (rs : List Request) : List Violation :=
  match (rs.filter fun r => !l.breaksOff r).getLast? with
  | some r => l.own r
  | none => l.errors

/-- **What one call does to its loader**: it lists what its own run found, or nothing changes. -/
theorem serve_eq (l : Loader) (r : Request) :
    l.serve r = { l with errors := if l.breaksOff r then l.errors else l.own r } := by
  cases r with
  | parse text =>
    cases hd : l.decode text <;> simp only [serve, parse, own, breaksOff, hd] <;> rfl
  | validate document => rfl
  | check document =>
    rcases hh : (l.setting.run l.root document).halt with _ | _ | _ <;> simp only [serve, check, breaksOff, own, hh] <;>
      rfl

theorem own_with_errors (l : Loader) (errors : List Violation) (r : Request) : { l with errors }.own r = l.own r := by
  cases r <;> rfl

theorem breaksOff_with_errors (l : Loader) (errors : List Violation) (r : Request) :
    { l with errors }.breaksOff r = l.breaksOff r := by
  cases r <;> rfl

theorem listed_cons (l : Loader) (r : Request) (rs : List Request) : (l.serve r).listed rs = l.listed (r :: rs) := by
  rw [serve_eq, listed, listed, List.filter_cons]
  simp only [own_with_errors, breaksOff_with_errors]
  cases l.breaksOff r with
  | true => rfl
  | false =>
    simp only [Bool.not_false, if_true, List.getLast?_cons]
    cases (rs.filter fun r => !l.breaksOff r).getLast? <;> rfl

theorem listed_snoc (l : Loader) (rs : List Request) (r : Request) :
    l.listed (rs ++ [r]) = if l.breaksOff r then l.listed rs else l.own r := by
  unfold listed
  cases h : l.breaksOff r <;> simp [h]

/-- **What calls do to their loader**: nothing but the list changes. -/
theorem serveAll_eq : ∀ (rs : List Request) (l : Loader), l.serveAll rs = { l with errors := l.listed rs }
  | [], l => rfl
  | r :: rs, l => by
    have hrest : l.serveAll (r :: rs) = (l.serve r).serveAll rs := rfl
    rw [hrest, serveAll_eq rs (l.serve r), listed_cons, serve_eq]

/-- **After any calls the loader lists what the last one found by itself, unless that one broke off**: then it lists what
the calls before had left, which is right only by chance. -/
theorem errors_serveAll_snoc (l : Loader) (rs : List Request) (r : Request) :
    (l.serveAll (rs ++ [r])).errors = (if l.breaksOff r then l.listed rs else l.own r) ∧
      ((l.serveAll (rs ++ [r])).errors = l.own r ↔ (l.breaksOff r = true → l.listed rs = l.own r)) := by
  have herrors : (l.serveAll (rs ++ [r])).errors = if l.breaksOff r then l.listed rs else l.own r := by
    rw [serveAll_eq, listed_snoc]
  refine ⟨herrors, ?_⟩
  rw [herrors]
  cases l.breaksOff r <;> simp

/-- A check that rejects a string leaves its error listed through the next check, whose validator fails. -/
theorem errors_serveAll_stale : ¬ ∀ (l : Loader) (rs : List Request) (r : Request),
    (l.serveAll (rs ++ [r])).errors = l.own r := by
  intro h
  have hstale := h
    { root := .object {} [("x", .number { name := some "x", validators := [⟨"explode", "explode"⟩] } {})]
      setting := ⟨{}, fun _ _ _ => .fail (.other "RuntimeError" "validator failed")⟩ }
    [.check (.object [(.name "x", .string "bad")])] (.check (.object [(.name "x", .number (.whole 1))]))
  exact absurd (congrArg List.length hstale) (by decide)

end Loader
end ConfigSchema
