import ConfigSchema.Proofs.Answers
import ConfigSchema.Proofs.Constructible
import ConfigSchema.Proofs.ExactOrder
import ConfigSchema.Proofs.Governed
import ConfigSchema.Proofs.Settled
/-!
# Bounds — the numbers of an accepted document and their bounds

A run refuses a number that is above its upper bound or below its lower one.  In the exact order that is to hold every
number between its bounds, with one exception: not-a-number is neither above nor below anything, and so passes whatever
the bounds are (`bounds_of_parse`).
-/
namespace ConfigSchema

/-- A number is between the bounds, as far as they are set. -/
def NumberRules.Bounds (rules : NumberRules) (n : Number) : Prop :=
  (∀ bound ∈ rules.minValue, bound.AtMost n) ∧ ∀ bound ∈ rules.maxValue, n.AtMost bound

/-- The bounds of a number element are not not-a-number, wherever in the schema it stands. -/
def Element.Measures (root : Element) : Prop := ∀ traits rules, root.Holds (.number traits rules) →
  (∀ bound ∈ rules.minValue, bound ≠ .real .nan) ∧ ∀ bound ∈ rules.maxValue, bound ≠ .real .nan

namespace NumberRules

variable {rules : NumberRules} {n : Number}

theorem bounds_iff_within (hmin : ∀ bound ∈ rules.minValue, bound ≠ .real .nan)
    (hmax : ∀ bound ∈ rules.maxValue, bound ≠ .real .nan) (hn : n ≠ .real .nan) :
    rules.Bounds n ↔ n.Within rules.minValue rules.maxValue :=
  and_congr (forall₂_congr fun bound hb => Number.atMost_iff (hmin bound hb) hn)
    (forall₂_congr fun bound hb => Number.atMost_iff hn (hmax bound hb))

theorem bounds_nan_iff : rules.Bounds (.real .nan) ↔ rules.minValue = none ∧ rules.maxValue = none := by
  simp only [Bounds, Number.not_atMost_nan, Number.not_nan_atMost, Option.mem_def, imp_false,
    Option.eq_none_iff_forall_ne_some]

/-- **A number that is not refused is between its bounds, unless it is not-a-number** and there is a bound to be between. -/
theorem bounds_iff_of_within (hmin : ∀ bound ∈ rules.minValue, bound ≠ .real .nan)
    (hmax : ∀ bound ∈ rules.maxValue, bound ≠ .real .nan) (h : n.Within rules.minValue rules.maxValue) :
    rules.Bounds n ↔ (n = .real .nan → rules.minValue = none ∧ rules.maxValue = none) := by
  by_cases hn : n = .real .nan
  · subst hn
    exact bounds_nan_iff.trans ⟨fun h _ => h, fun h => h rfl⟩
  · exact iff_of_true ((bounds_iff_within hmin hmax hn).2 h) fun hnan => absurd hnan hn

end NumberRules

namespace Element

variable {root : Element} {document : Value} {tokens : List String} {e : Element} {v : Value}

/-- An element that governs a part of a document is an element of the schema. -/
theorem Governs.holds (h : root.Governs document tokens e v) : root.Holds e := by
  induction h with
  | root => exact .root
  | field _ _ declared ih =>
    have hg : governing? _ (.name _) = some _ := declared
    exact ih.trans (holds_of_governing? hg)
  | entry _ _ _ _ asked ih => exact ih.trans <| holds_of_entry? asked

end Element

/-- **What is governed in a value that conforms conforms** to the element that governs it. -/
theorem Setting.Conforms.of_governs {s : Setting} {root : Element} {document : Value} {tokens : List String} {e : Element}
    {v : Value} (h : s.Conforms root document) (hg : root.Governs document tokens e v) : s.Conforms e v := by
  induction hg with
  | root => exact h
  | field _ held declared ih => exact (conforms_object.1 ih).2.1 _ held _ declared
  | @entry _ _ slots ordered _ _ _ _ _ _ _ fits held present asked ih =>
    have hsome : ¬ (slots = [] ∧ ordered = []) := by
      rintro ⟨rfl, rfl⟩
      cases asked
    obtain ⟨e', he, hc⟩ := ((conforms_array fits).1 ih).1.2 hsome _ _ held present
    rw [asked] at he
    cases he
    exact hc

namespace Loader

variable {root : Element} {s : Setting} {text : String} {left : Value}

/-- What is taken in comes from a run that went through without a violation. -/
theorem outcome_of_validate {l : Loader} {document : Value} (h : (l.validate document).answer = .ok left) :
    (l.setting.run l.root document).outcome = .ok [] := by
  unfold validate at h
  unfold Run.outcome
  cases hh : (l.setting.run l.root document).halt with
  | some halt =>
    simp only [hh] at h
    cases h
  | none =>
    simp only [hh] at h
    split at h
    · rename_i hv
      exact congrArg Except.ok (List.isEmpty_iff.1 hv)
    · cases h

/-- A text that is taken in is that of a document which conforms to the root. -/
theorem conforms_of_parse (h : ((root.loader s).parse text).answer = .ok left) :
    ∃ document, Value.read text = .ok document ∧ s.Conforms root document := by
  have hdecode : (root.loader s).decode text = Decoder.json text := rfl
  cases hread : Value.read text with
  | error malformed =>
    rw [parse_of_error (f := .malformed malformed) (by simp only [hdecode, Decoder.json, hread])] at h
    cases h
  | ok document =>
    have hd : (root.loader s).decode text = .ok document := by simp only [hdecode, Decoder.json, hread]
    rw [parse_of_ok hd] at h
    have hclean := Trail.clean_iff.2 ((s.outcome_run_eq_ok root document).1 (outcome_of_validate h))
    rw [s.walkRoot_of_admits root document (Setting.admits_of_clean_walkRoot hclean), s.clean_walk] at hclean
    exact ⟨document, rfl, hclean⟩

/-- **In a document that is taken in, a number is between its bounds unless it is not-a-number**, and then it is so only if
no bound is set. -/
theorem bounds_of_parse (hroot : root.Measures) (h : ((root.loader s).parse text).answer = .ok left) :
    ∃ document, Value.read text = .ok document ∧ ∀ tokens traits rules v,
      root.Governs document tokens (.number traits rules) v → v ≠ .null → ∃ n, v = .number n ∧
        (rules.Bounds n ↔ (n = .real .nan → rules.minValue = none ∧ rules.maxValue = none)) := by
  obtain ⟨document, hread, hconforms⟩ := conforms_of_parse h
  refine ⟨document, hread, fun tokens traits rules v hg hv => ?_⟩
  obtain ⟨hmin, hmax⟩ := hroot traits rules hg.holds
  cases hconforms.of_governs hg with
  | null => exact absurd rfl hv
  | @number _ _ n within => exact ⟨n, rfl, NumberRules.bounds_iff_of_within hmin hmax within⟩

end Loader

/-! ## Texts of one number in brackets -/

namespace Reader

/-- An array of one entry without parts is read as such. -/
theorem value_singleton {c : Char} {r : List Char} {x : Taken (c :: r) Value} (hblank : isBlank c = false)
    (hc : c ≠ ']' ∧ c ≠ '"' ∧ c ≠ '[' ∧ c ≠ '\x7b') (hleaf : leaf (c :: r) = .ok x) (hrest : x.rest = [']']) :
    ∃ y, value ('[' :: c :: r) = .ok y ∧ y.value = .array .list [x.value] ∧ y.rest = [] := by
  obtain ⟨hclose, hquote, hbracket, hbrace⟩ := hc
  have hskip : skipBlanks (c :: r) = c :: r := List.dropWhile_cons_of_neg (by simp [hblank])
  have hvalue : value (c :: r) = .ok x := by
    rw [value, hleaf]
    all_goals
      intro r' h
      cases h
      contradiction
  have hentries : ∃ y, entries (skipBlanks (c :: r)) = .ok y ∧ y.value = [x.value] ∧ y.rest = [] := by
    rw [hskip, entries, hvalue]
    simp only
    have hlast : skipBlanks x.rest = [']'] := by rw [hrest]; rfl
    split
    · rename_i h
      rw [hlast] at h
      cases h
      exact ⟨_, rfl, rfl, rfl⟩
    · rename_i h
      rw [hlast] at h
      cases h
    · rename_i h _
      exact absurd hlast (h _)
  obtain ⟨y, hy, hvalue, hrest⟩ := hentries
  rw [value]
  split
  · rename_i h
    rw [hskip] at h
    cases h
    contradiction
  · rw [hy]
    exact ⟨_, rfl, congrArg _ hvalue, hrest⟩

end Reader

theorem Value.read_singleton {c : Char} {r : List Char} {x : Reader.Taken (c :: r) Value}
    (hblank : Reader.isBlank c = false) (hc : c ≠ ']' ∧ c ≠ '"' ∧ c ≠ '[' ∧ c ≠ '\x7b')
    (hleaf : Reader.leaf (c :: r) = .ok x) (hrest : x.rest = [']']) :
    Value.read (String.ofList ('[' :: c :: r)) = .ok (.array .list [x.value]) := by
  obtain ⟨y, hy, hv, hr⟩ := Reader.value_singleton hblank hc hleaf hrest
  have hwhole : Reader.value (Reader.skipBlanks ('[' :: c :: r)) = .ok y := hy
  have hdocument : Reader.document ('[' :: c :: r) = .ok y.value := by
    rw [Reader.document, hwhole]
    · simp only
      rw [hr]
      rfl
    · intro r' h
      cases h
  rw [Value.read, String.toList_ofList, hdocument, hv]

theorem Element.measures_singleton {rules : NumberRules} (hmin : ∀ bound ∈ rules.minValue, bound ≠ .real .nan)
    (hmax : ∀ bound ∈ rules.maxValue, bound ≠ .real .nan) : (Element.array {} [] [.number {} rules] false).Measures := by
  intro traits rules' h
  rcases holds_iff.1 h with heq | ⟨part, hm, hp⟩
  · cases heq
  · cases List.mem_singleton.1 hm
    rcases holds_iff.1 hp with heq | ⟨part, hm, -⟩
    · cases heq
      exact ⟨hmin, hmax⟩
    · cases hm

namespace Loader

/-- A number that is just at its lower bound of zero. -/
theorem bounds_of_parse_zero :
    let rules : NumberRules := { minValue := some (.whole 0), maxValue := some (.whole 10) }
    let root := Element.array {} [] [.number {} rules] false
    let document := Value.array .list [.number (.whole 0)]
    ((root.loader ⟨{}, fun _ _ _ => .accept⟩).parse "[0]").answer = .ok document ∧ Value.read "[0]" = .ok document ∧
      root.Governs document ["0"] (.number {} rules) (.number (.whole 0)) ∧ rules.Bounds (.whole 0) := by
  intro rules root document
  have hread : Value.read "[0]" = .ok document :=
    Value.read_singleton (c := '0') rfl (by decide) (x := ⟨.number (.whole 0), [']'], by decide⟩) rfl rfl
  have hdecode : (root.loader ⟨{}, fun _ _ _ => .accept⟩).decode "[0]" = .ok document := by
    simp only [Element.loader, Decoder.json, hread]
  have hparse : ((root.loader ⟨{}, fun _ _ _ => .accept⟩).parse "[0]").answer = .ok document := by
    rw [parse_of_ok hdecode]
    unfold root document rules
    rfl
  have hmeasures : root.Measures := Element.measures_singleton nofun nofun
  have hgoverns : root.Governs document ["0"] (.number {} rules) (.number (.whole 0)) :=
    @Element.Governs.entry _ _ [] _ _ _ _ _ _ 0 _ _ .root (.inr rfl) rfl nofun rfl
  obtain ⟨document', hread', hall⟩ := bounds_of_parse hmeasures hparse
  cases hread.symm.trans hread'
  obtain ⟨n, hn, hbounds⟩ := hall _ _ _ _ hgoverns nofun
  cases hn
  exact ⟨hparse, hread, hgoverns, hbounds.2 nofun⟩

/-- Not-a-number is taken in where ten is the most. -/
theorem bounds_of_parse_nan : ¬ ∀ (root : Element) (s : Setting) (text : String) (left : Value), root.Constructible →
    root.Measures → ((root.loader s).parse text).answer = .ok left → ∃ document, Value.read text = .ok document ∧
      ∀ tokens traits rules v, root.Governs document tokens (.number traits rules) v → v ≠ .null →
        ∃ n, v = .number n ∧ rules.Bounds n := by
  intro h
  let rules : NumberRules := { maxValue := some (.whole 10) }
  let document := Value.array .list [.number (.real .nan)]
  have hread : Value.read "[NaN]" = .ok document :=
    Value.read_singleton (c := 'N') rfl (by decide) (x := ⟨.number (.real .nan), [']'], by decide⟩) rfl rfl
  let root := Element.array {} [] [.number {} rules] false
  have hroot : root.Constructible := .array (by nofun : ∀ slot ∈ [], _) (List.forall_mem_singleton.2 .number) rfl
  have hdecode : (root.loader ⟨{}, fun _ _ _ => .accept⟩).decode "[NaN]" = .ok document := by
    simp only [Element.loader, Decoder.json, hread]
  have hparse : ((root.loader ⟨{}, fun _ _ _ => .accept⟩).parse "[NaN]").answer = .ok document := by
    rw [parse_of_ok hdecode]
    unfold root document rules
    rfl
  have hgoverns : root.Governs document ["0"] (.number {} rules) (.number (.real .nan)) :=
    @Element.Governs.entry _ _ [] _ _ _ _ _ _ 0 _ _ .root (.inr rfl) rfl nofun rfl
  obtain ⟨document', hread', hall⟩ := h _ _ "[NaN]" document hroot (Element.measures_singleton nofun nofun) hparse
  cases hread.symm.trans hread'
  obtain ⟨n, hn, -, hmax⟩ := hall _ _ _ _ hgoverns nofun
  cases hn
  exact Number.not_nan_atMost _ (hmax _ rfl)

end Loader
end ConfigSchema
