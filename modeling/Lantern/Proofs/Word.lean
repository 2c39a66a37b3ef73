import Lantern.Proofs.Meaning

/-!
# Words

What the machine's operations on words amount to: reading a byte that was just set, a division whose
dividend was extended by its sign, and counting down.
-/

namespace Lantern.Meaning

open Machine

theorem lowByte_setLowByte (w : Word) (b : Bool) : lowByte (setLowByte w (truth b)) = truth b := by
  have low : (w &&& -256) &&& 255 = 0 := by
    rw [Int64.and_assoc, show (-256 : Word) &&& 255 = 0 from by decide, Int64.and_zero]
  have byte : truth b &&& 255 &&& 255 = truth b := by cases b <;> decide
  simp only [lowByte, setLowByte]
  apply Int64.toBitVec_inj.mp
  have low' := congrArg Int64.toBitVec low
  have byte' := congrArg Int64.toBitVec byte
  simp only [Int64.toBitVec_and, Int64.toBitVec_or] at *
  rw [BitVec.and_comm, BitVec.and_or_distrib_left, BitVec.and_comm, low', BitVec.and_comm, byte']
  simp

/-- The halves that a sign extension makes are the number itself. -/
theorem dividend_extended (a : Word) : dividend (if a < 0 then -1 else 0) a = a.toInt := by
  have unsigned : (a.toUInt64.toNat : Int) = if a < 0 then a.toInt + 2 ^ 64 else a.toInt := by
    have : a.toInt = a.toBitVec.toInt := rfl
    rw [← Int64.toNat_toBitVec]
    have neg : a < 0 ↔ a.toBitVec.toInt < 0 := by
      rw [Int64.lt_iff_toInt_lt]; rfl
    have := BitVec.toInt_eq_toNat_cond a.toBitVec
    have := a.toBitVec.isLt
    simp only [neg, ‹a.toInt = _›]
    split at * <;> split <;> omega
  unfold dividend
  rw [unsigned]
  split
  · have : (-1 : Word).toInt = -1 := rfl
    rw [this]; omega
  · simp

theorem divides_iff (a b : Word) :
    (b = 0 ∨ a.toInt.tdiv b.toInt < -2 ^ 63 ∨ 2 ^ 63 ≤ a.toInt.tdiv b.toInt) ↔
      (b = 0 ∨ a = Int64.minValue ∧ b = -1) := by
  constructor
  · rintro (h | h)
    · exact .inl h
    · by_cases zero : b = 0
      · exact .inl zero
      · right
        have low := a.le_toInt
        have high := a.toInt_lt
        by_contra other
        have result : (a / b).toInt = a.toInt.tdiv b.toInt := by
          rw [not_and_or] at other
          rcases other with min | neg
          · exact Int64.toInt_div_of_ne_left a b min
          · exact Int64.toInt_div_of_ne_right a b neg
        have := (a / b).le_toInt
        have := (a / b).toInt_lt
        omega
  · rintro (h | ⟨rfl, rfl⟩)
    · exact .inl h
    · right; right
      decide

theorem ofInt_quotient {a b : Word} (fits : ¬(b = 0 ∨ a = Int64.minValue ∧ b = -1)) :
    Int64.ofInt (a.toInt.tdiv b.toInt) = a / b := by
  rw [not_or, not_and_or] at fits
  have result : (a / b).toInt = a.toInt.tdiv b.toInt := by
    rcases fits.2 with min | neg
    · exact Int64.toInt_div_of_ne_left a b min
    · exact Int64.toInt_div_of_ne_right a b neg
  rw [← result, Int64.ofInt_toInt]

theorem ofInt_remainder (a b : Word) : Int64.ofInt (a.toInt.tmod b.toInt) = a % b := by
  rw [← Int64.toInt_mod, Int64.ofInt_toInt]

theorem toInt_pred {w : Word} (positive : 0 < w.toInt) :
    (w - 1).toInt.toNat + 1 = w.toInt.toNat := by
  have high := w.toInt_lt
  have : (w - 1).toInt = w.toInt - 1 := by
    rw [Int64.toInt_sub]
    have : (1 : Word).toInt = 1 := rfl
    rw [this]
    exact Int.bmod_eq_of_le (by omega) (by omega)
  omega

/-- What a comparison with zero says. -/
theorem atMost_eq_true {w : Word} : ((w == 0) || decide (w < 0)) = true ↔ w.toInt ≤ 0 := by
  have zero : w = 0 ↔ w.toInt = 0 := by rw [← Int64.toInt_inj]; rfl
  have less : w < 0 ↔ w.toInt < 0 := by rw [Int64.lt_iff_toInt_lt]; rfl
  simp only [Bool.or_eq_true, beq_iff_eq, decide_eq_true_eq, zero, less]
  omega

theorem atMost_eq_false {w : Word} : ((w == 0) || decide (w < 0)) = false ↔ 0 < w.toInt := by
  rw [← Bool.not_eq_true, atMost_eq_true, not_le]

/-- How the other comparisons come from equality and from being less. -/
theorem comparisons (a b : Word) :
    decide (b < a) = (!(a == b) && !decide (a < b)) ∧ decide (a ≤ b) = ((a == b) || decide (a < b)) ∧
      decide (b ≤ a) = !decide (a < b) := by
  have eq : a = b ↔ a.toInt = b.toInt := Int64.toInt_inj.symm
  have lt (a b : Word) : a < b ↔ a.toInt < b.toInt := Int64.lt_iff_toInt_lt
  have le (a b : Word) : a ≤ b ↔ a.toInt ≤ b.toInt := Int64.le_iff_toInt_le
  refine ⟨?_, ?_, ?_⟩ <;> rw [Bool.eq_iff_iff] <;> simp only [Bool.and_eq_true, Bool.or_eq_true,
    Bool.not_eq_true', beq_eq_false_iff_ne, beq_iff_eq, decide_eq_true_eq, decide_eq_false_iff_not,
    ne_eq, eq, lt, le] <;> omega

end Lantern.Meaning
