import Mathlib.Data.List.Basic
import ConfigSchema.Proofs.Endpoint
import ConfigSchema.Proofs.Tokens
/-!
# Addresses — a pointer stands for one way into a document

A pointer written token by token is read back into the texts of its tokens, whatever characters these hold, so two ways are
written alike only if their texts are the same, and one pointer goes on where another one ends only if one way goes on where
the other ends (`along_decodes`).
-/
namespace ConfigSchema
namespace Pointer

/-- A text in which one character is replaced wherever it stands. -/
def substitute (c : Char) (written : List Char) (text : List Char) : List Char :=
  text.flatMap fun d => if d = c then written else [d]

/-- **A token is written by two replacements**, of the tildes first: the tildes that the slashes bring in stay. -/
theorem flatMap_escape (token : List Char) :
    token.flatMap escape = substitute '/' ['~', '1'] (substitute '~' ['~', '0'] token) := by
  rw [substitute, substitute, List.flatMap_assoc]
  refine List.flatMap_congr fun c _ => ?_
  unfold escape
  by_cases ht : c = '~'
  · subst ht
    rfl
  · by_cases hs : c = '/'
    · subst hs
      rfl
    · simp [ht, hs]

/-- Read in the other order, a token that holds a written slash would come back as a slash. -/
example : read '~' '1' '/' (read '~' '0' '~' (['~', '1'].flatMap escape)) = ['/'] := by decide

/-- A pointer leads on to another one that is the same, or goes on after it with a slash. -/
def LeadsTo (p q : Pointer) : Prop := q = p ∨ ∃ rest, q.text = p.text ++ "/" ++ rest

variable {p q : Pointer}

theorem LeadsTo.push (h : p.LeadsTo q) (token : String) : p.LeadsTo (q.push token) := by
  rcases h with rfl | ⟨rest, hrest⟩
  · exact .inr ⟨_, rfl⟩
  · refine .inr ⟨rest ++ "/" ++ String.ofList (token.toList.flatMap escape), ?_⟩
    rw [Pointer.push, hrest]
    simp only [String.append_assoc]

theorem LeadsTo.foldl_push : ∀ (ts : List String) {q : Pointer}, p.LeadsTo q → p.LeadsTo (ts.foldl Pointer.push q)
  | [], _, h => h
  | t :: ts, _, h => foldl_push ts (h.push t)

/-- Where a pointer leads on to another one, its tokens are the first of the other's. -/
theorem LeadsTo.tokens_prefix (h : p.LeadsTo q) : p.tokens <+: q.tokens := by
  rcases h with rfl | ⟨rest, hrest⟩
  · exact List.prefix_rfl
  · have htext : q.text.toList = p.text.toList ++ '/' :: rest.toList := by
      rw [hrest]
      simp [String.toList_append]
    rw [tokens_of_append htext]
    exact List.prefix_append _ _

/-- A pointer depends on the texts of its tokens only. -/
theorem along_eq_foldl_push (p : Pointer) (place : Place) : p.along place = (place.map Step.token).foldl push p := by
  rw [along, List.foldl_map]

theorem tokens_along (p : Pointer) (place : Place) : (p.along place).tokens = p.tokens ++ place.map Step.token := by
  rw [along_eq_foldl_push, tokens_foldl_push]

/-- **Tokens that are written one after the other are read back as they were**: the pointer to a place has the texts of its
steps for tokens, two places have one pointer just if their texts are the same, and the pointer to one place leads on to
that of another just if the texts of the one are the first of the other's. -/
theorem along_decodes (place place' : Place) :
    (root.along place).tokens = place.map Step.token ∧
    (root.along place = root.along place' ↔ place.map Step.token = place'.map Step.token) ∧
    ((root.along place).LeadsTo (root.along place') ↔ place.map Step.token <+: place'.map Step.token) := by
  have hread : ∀ place : Place, (root.along place).tokens = place.map Step.token := fun place => by
    rw [tokens_along, tokens_root, List.nil_append]
  refine ⟨hread place, ⟨fun h => ?_, fun h => ?_⟩, fun h => ?_, fun h => ?_⟩
  · rw [← hread place, h, hread]
  · rw [along_eq_foldl_push, h, ← along_eq_foldl_push]
  · have hprefix := h.tokens_prefix
    rwa [hread, hread] at hprefix
  · obtain ⟨ts, hts⟩ := h
    rw [along_eq_foldl_push root place', ← hts, List.foldl_append, ← along_eq_foldl_push]
    exact LeadsTo.foldl_push ts (.inl rfl)

end Pointer
end ConfigSchema
