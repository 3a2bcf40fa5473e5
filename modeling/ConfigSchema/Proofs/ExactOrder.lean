import ConfigSchema.Number
import Mathlib.Algebra.Order.Field.Power
import Mathlib.Algebra.Order.Ring.Rat
import Mathlib.Order.WithBot
/-!
# ExactOrder — numbers compared by their exact values

Every number but not-a-number stands on the line of the rationals with an end on either side (`Number.value?`).  What the
library computes on units and exponents is the order and the equality of that line (`lt_iff`, `same_iff`), whichever
form the two numbers have.
-/
namespace ConfigSchema

namespace Dyad

def value (d : Dyad) : ℚ := d.units * 2 ^ d.exponent

theorem unitsAt_mul (d : Dyad) {e : Int} (h : e ≤ d.exponent) : (d.unitsAt e : ℚ) * 2 ^ e = d.value := by
  have hpower : ((twoTo (d.exponent - e).toNat : Nat) : ℚ) = 2 ^ (d.exponent - e) := by
    have hnat : ((d.exponent - e).toNat : Int) = d.exponent - e := Int.toNat_of_nonneg (by omega)
    rw [← hnat, zpow_natCast]
    exact Nat.cast_pow 2 _
  rw [unitsAt, value, Int.cast_mul, Int.cast_natCast, hpower, mul_assoc, ← zpow_add₀ two_ne_zero, Int.sub_add_cancel]

/-- **Units at a common exponent are ordered as the values are.** -/
theorem lt_iff (a b : Dyad) : a.lt b = true ↔ a.value < b.value := by
  have ha := a.unitsAt_mul (e := a.common b) (Int.min_le_left _ _)
  have hb := b.unitsAt_mul (e := a.common b) (Int.min_le_right _ _)
  have hpos : (0 : ℚ) < 2 ^ a.common b := zpow_pos two_pos _
  rw [lt, decide_eq_true_iff, ← ha, ← hb, mul_lt_mul_iff_of_pos_right hpos, Int.cast_lt]

theorem same_iff (a b : Dyad) : a.same b = true ↔ a.value = b.value := by
  have ha := a.unitsAt_mul (e := a.common b) (Int.min_le_left _ _)
  have hb := b.unitsAt_mul (e := a.common b) (Int.min_le_right _ _)
  have hpos : (0 : ℚ) < 2 ^ a.common b := zpow_pos two_pos _
  rw [same, decide_eq_true_iff, ← ha, ← hb, mul_left_inj' hpos.ne', Rat.intCast_inj]

end Dyad

namespace Number

/-- The exact value of a number; not-a-number has none. -/
def value? : Number → Option (WithBot (WithTop ℚ))
  | .whole n => some ((n : ℚ) : WithTop ℚ)
  | .real (.finite negative significand exponent) =>
    some (((if negative then -significand else significand : ℚ) * 2 ^ exponent : ℚ) : WithTop ℚ)
  | .real (.infinite negative) => some (if negative then ⊥ else (⊤ : WithTop ℚ))
  | .real .nan => none

namespace Position

def value : Position → WithBot (WithTop ℚ)
  | .belowAll => ⊥
  | .at d => (d.value : WithTop ℚ)
  | .aboveAll => (⊤ : WithTop ℚ)

theorem lt_iff (p q : Position) : p.lt q = true ↔ p.value < q.value := by
  cases p with
  | belowAll | aboveAll => cases q <;> simp [lt, value]
  | «at» a =>
    cases q with
    | aboveAll => exact iff_of_true rfl (WithBot.coe_lt_coe.2 (WithTop.coe_lt_top _))
    | belowAll | «at» => simp [lt, value, Dyad.lt_iff]

theorem same_iff (p q : Position) : p.same q = true ↔ p.value = q.value := by
  cases p <;> cases q <;> simp [same, value, Dyad.same_iff]

end Position

theorem value?_eq (a : Number) : a.value? = a.position?.map Position.value := by
  cases a with
  | whole n => simp [value?, position?, Position.value, Dyad.value, Dyad.ofInt]
  | real x =>
    cases x with
    | finite negative significand exponent =>
      cases negative <;> simp [value?, position?, Binary64.toDyad?, Position.value, Dyad.value]
    | infinite negative => cases negative <;> rfl
    | nan => rfl

theorem value?_eq_none {a : Number} : a.value? = none ↔ a = .real .nan := by
  cases a with
  | whole n => simp [value?]
  | real x => cases x <;> simp [value?]

/-- **One number is below another exactly if its value is**; not-a-number is below nothing and above nothing. -/
theorem lt_iff (a b : Number) : a.lt b = true ↔ ∃ x ∈ a.value?, ∃ y ∈ b.value?, x < y := by
  rw [lt, value?_eq, value?_eq]
  cases a.position? <;> cases b.position? <;> simp [Position.lt_iff]

/-- **Two numbers are the same exactly if they have the same value**, or both have none. -/
theorem same_iff (a b : Number) : a.same b = true ↔ a.value? = b.value? := by
  rw [same, value?_eq, value?_eq]
  cases a.position? <;> cases b.position? <;> simp [Position.same_iff]

theorem same_refl (a : Number) : a.same a = true := (same_iff a a).2 rfl

theorem lt_congr {a a' b b' : Number} (ha : a.same a' = true) (hb : b.same b' = true) : a.lt b = a'.lt b' := by
  rw [same_iff] at ha hb
  rw [Bool.eq_iff_iff, lt_iff, lt_iff, ha, hb]

/-- A number is of no greater value than another; not-a-number has no value to compare. -/
def AtMost (a b : Number) : Prop := ∃ x ∈ a.value?, ∃ y ∈ b.value?, x ≤ y

/-- What is not above a number is at most that number, as long as both have a value. -/
theorem atMost_iff {a b : Number} (ha : a ≠ .real .nan) (hb : b ≠ .real .nan) : a.AtMost b ↔ b.lt a = false := by
  obtain ⟨x, hx⟩ := Option.ne_none_iff_exists'.1 (mt value?_eq_none.1 ha)
  obtain ⟨y, hy⟩ := Option.ne_none_iff_exists'.1 (mt value?_eq_none.1 hb)
  rw [Bool.eq_false_iff, ne_eq, lt_iff, AtMost, hx, hy]
  simp

theorem lt_of_lt_of_atMost {a b c : Number} (hab : a.lt b = true) (hbc : b.AtMost c) : a.lt c = true := by
  obtain ⟨x, hx, y, hy, hxy⟩ := (lt_iff a b).1 hab
  obtain ⟨y', hy', z, hz, hyz⟩ := hbc
  rw [Option.mem_unique hy' hy] at hyz
  exact (lt_iff a c).2 ⟨x, hx, z, hz, hxy.trans_le hyz⟩

theorem lt_of_atMost_of_lt {a b c : Number} (hab : a.AtMost b) (hbc : b.lt c = true) : a.lt c = true := by
  obtain ⟨x, hx, y, hy, hxy⟩ := hab
  obtain ⟨y', hy', z, hz, hyz⟩ := (lt_iff b c).1 hbc
  rw [Option.mem_unique hy' hy] at hyz
  exact (lt_iff a c).2 ⟨x, hx, z, hz, hxy.trans_lt hyz⟩

theorem not_atMost_nan (a : Number) : ¬ a.AtMost (.real .nan) := by
  rintro ⟨x, -, y, hy, -⟩
  cases hy

theorem not_nan_atMost (a : Number) : ¬ (Number.real .nan).AtMost a := by
  rintro ⟨x, hx, -⟩
  cases hx

end Number
end ConfigSchema
