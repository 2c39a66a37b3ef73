import Mathlib
import Lantern.Proofs.Meaning
import Lantern.Tree.Fold

/-!
# Folding keeps the meaning

Operators are evaluated as the generated code does it: words wrap around, a power is a counted
product, a division may trap, and a choice or a connective evaluates no more than it needs. What the
operators are applied to may be anything, with effects and traps of its own. Folding an expression
changes nothing of this: neither the value nor an effect, a trap or their order.
-/

namespace Lantern

namespace Meaning

/-- A computation that may trap and changes a state. What it has done before a trap stays done. -/
abbrev Computation (Trap State : Type) := ExceptT Trap (StateM State)

section Evaluation

variable {Trap State : Type} (leaf : Expr → Computation Trap State Word) (noResult : Trap)

/-- The operators at the top of an expression, evaluated from left to right. Everything that is
    neither a literal nor an operator is left to `leaf`; a division without a result ends in the given
    trap. -/
def evaluate : Expr → Computation Trap State Word
  | .number _ v => return v
  | .bool _ v => return truth v
  | .binary _ op l r => do
    let a ← evaluate l
    match op with
    | .and => if a = 0 then return 0 else return truth ((← evaluate r) != 0)
    | .or => if a = 0 then return truth ((← evaluate r) != 0) else return 1
    | _ =>
      match operate op a (← evaluate r) with
      | some v => return v
      | none => throw noResult
  | .unary _ op e => do
    let v ← evaluate e
    match op with
    | .neg => return -v
    | .not => return truth (v == 0)
  | .ternary _ c a b => do
    if (← evaluate c) = 0 then evaluate b else evaluate a
  | e => leaf e

end Evaluation

/-! ## Powers -/

theorem power_double (base : Word) (n : Nat) : power base (2 * n) = power (base * base) n := by
  induction n with
  | zero => rfl
  | succ n ih =>
      calc power base (2 * (n + 1)) = power base (2 * n) * base * base := rfl
        _ = power (base * base) n * (base * base) := by rw [ih, Int64.mul_assoc]

/-- Squaring multiplies the same word as counting does, if all digits of the exponent are read. -/
theorem powerLoop_eq (digits : Nat) (acc base : Word) (n : Nat) (short : n < 2 ^ digits) :
    powerLoop digits acc base n = acc * power base n := by
  induction digits generalizing acc base n with
  | zero =>
      obtain rfl : n = 0 := by omega
      simp [powerLoop, power]
  | succ digits ih =>
      unfold powerLoop
      split
      · next isZero =>
          obtain rfl : n = 0 := by simpa using isZero
          simp [power]
      · rw [ih _ _ _ (by omega), ← power_double]
        have parts : n = 2 * (n / 2) + n % 2 := (Nat.div_add_mod n 2).symm
        rcases Nat.mod_two_eq_zero_or_one n with even | odd
        · rw [even] at parts
          simp only [even]
          exact congrArg (acc * power base ·) parts.symm
        · have last : power base n = power base (2 * (n / 2)) * base := by
            conv_lhs => rw [parts, odd]
            rfl
          rw [last]
          simp only [odd, beq_self_eq_true, if_true]
          rw [Int64.mul_assoc, Int64.mul_comm base]

theorem power_eq (base exp : Word) : Lantern.power base exp = power base exp.toInt.toNat := by
  have short : exp.toInt.toNat < 2 ^ 64 := by
    have := exp.toInt_lt
    omega
  rw [Lantern.power, powerLoop_eq 64 1 base _ short, Int64.one_mul]

/-! ## Operators on literals -/

/-- The word that a folded literal stands for. -/
def word : Folded → Word
  | .number v => v
  | .bool b => truth b

theorem divisionTraps_eq_true {l r : Word} :
    divisionTraps l r = true ↔ r = 0 ∨ l = Int64.minValue ∧ r = -1 := by
  simp only [divisionTraps, Bool.or_eq_true, Bool.and_eq_true, beq_iff_eq]
  tauto

/-- An operator is folded to what it gives when it is carried out. -/
theorem operate_of_fold? {op : BinaryOp} {l r : Word} {v : Folded} (folded : op.fold? l r = some v) :
    operate op l r = some (word v) := by
  cases op with
  | div | rem =>
      simp only [BinaryOp.fold?] at folded
      split at folded
      · cases folded
      · next fits =>
          obtain rfl := Option.some.inj folded
          simp only [operate, if_neg (mt divisionTraps_eq_true.mpr fits), word]
  | pow =>
      simp only [BinaryOp.fold?] at folded
      split at folded
      · cases folded
      · obtain rfl := Option.some.inj folded
        simp only [operate, word, power_eq]
  | and | or => cases folded
  | _ =>
      obtain rfl := Option.some.inj folded
      rfl

section Folding

variable {Trap State : Type} (leaf : Expr → Computation Trap State Word) (noResult : Trap)

theorem evaluate_ofFolded (span : Span) (v : Folded) :
    evaluate leaf noResult (Expr.ofFolded span v) = pure (word v) := by
  cases v <;> rfl

/-- An operator that is no connective carries out its operation on the values of its operands. -/
theorem evaluate_binary {op : BinaryOp} (strict : op ≠ .and ∧ op ≠ .or) (i : Info) (l r : Expr) :
    evaluate leaf noResult (.binary i op l r) = (do
      let a ← evaluate leaf noResult l
      let b ← evaluate leaf noResult r
      match operate op a b with
      | some v => pure v
      | none => throw noResult) := by
  cases op with
  | and => exact absurd rfl strict.1
  | or => exact absurd rfl strict.2
  | _ => rfl

theorem evaluate_foldBinary (i : Info) (op : BinaryOp) (l r : Expr) :
    evaluate leaf noResult (Expr.foldBinary i op l r) = evaluate leaf noResult (.binary i op l r) := by
  unfold Expr.foldBinary
  split
  · split
    · next j l k r v folded =>
        have strict : op ≠ .and ∧ op ≠ .or := by
          constructor <;> rintro rfl <;> cases folded
        rw [evaluate_ofFolded, evaluate_binary leaf noResult strict]
        simp only [evaluate, pure_bind, operate_of_fold? folded]
    · rfl
  · rfl

theorem evaluate_foldUnary (i : Info) (op : UnaryOp) (e : Expr) :
    evaluate leaf noResult (Expr.foldUnary i op e) = evaluate leaf noResult (.unary i op e) := by
  unfold Expr.foldUnary
  split
  · simp only [evaluate_ofFolded, evaluate, pure_bind, word]
  · next j v =>
      simp only [evaluate_ofFolded, evaluate, pure_bind, word]
      cases v <;> rfl
  · rfl

/-- Evaluating an operator depends on its operands by what evaluating them does. -/
theorem evaluate_binary_congr {l l' r r' : Expr} (i : Info) (op : BinaryOp)
    (left : evaluate leaf noResult l = evaluate leaf noResult l')
    (right : evaluate leaf noResult r = evaluate leaf noResult r') :
    evaluate leaf noResult (.binary i op l r) = evaluate leaf noResult (.binary i op l' r') := by
  simp only [evaluate, left, right]

end Folding

/-! ## Evaluation in routines -/

/-- The operators at the top of an expression never have two strings to work on. -/
def onWords : Expr → Bool
  | .binary _ _ l r => !(l.sigil.isStr && r.sigil.isStr) && onWords l && onWords r
  | .unary _ _ e => onWords e
  | .ternary _ c a b => onWords c && onWords a && onWords b
  | _ => true

/-- In a routine, too, operators on words are evaluated like this; the routine says what the leaves
    do. -/
theorem eval_eq_evaluate {W : Type} (sc : Scope W) {e : Expr} (words : onWords e) :
    eval sc e = evaluate (eval sc) .trap e := by
  induction e using onWords.induct with
  | case1 i op l r ihl ihr =>
      simp only [onWords, Bool.and_eq_true, Bool.not_eq_true'] at words
      obtain ⟨⟨noStrings, wordsl⟩, wordsr⟩ := words
      simp only [eval, evaluate, ihl wordsl, ihr wordsr, noStrings]
      cases op <;> rfl
  | case2 i op e ih =>
      cases op <;> simp only [eval, evaluate, ih words]
  | case3 i c a b ihc iha ihb =>
      simp only [onWords, Bool.and_eq_true] at words
      simp only [eval, evaluate, ihc words.1.1, iha words.1.2, ihb words.2]
  | case4 e noBinary noUnary noTernary =>
      cases e with
      | binary => exact (noBinary _ _ _ _ rfl).elim
      | unary => exact (noUnary _ _ _ rfl).elim
      | ternary => exact (noTernary _ _ _ _ rfl).elim
      | number | bool => simp only [eval, evaluate]
      | _ => simp only [evaluate]

end Meaning

namespace Expr

open Meaning

/-- A folded expression has the value of the expression it comes from, and the same effects and traps
    in the same order, whatever its variables, calls and other leaves do. -/
theorem evaluate_fold {Trap State : Type} (leaf : Expr → Computation Trap State Word) (noResult : Trap)
    (e : Expr) : evaluate leaf noResult e.fold = evaluate leaf noResult e := by
  induction e using fold.induct with
  | case1 i op l r ihl ihr =>
      rw [fold, evaluate_foldBinary]
      exact evaluate_binary_congr leaf noResult i op ihl ihr
  | case2 i op e ih =>
      rw [fold, evaluate_foldUnary]
      simp only [evaluate, ih]
  | case3 i c a b j literal ihc iha =>
      rw [literal] at ihc
      have chosen : ¬truth true = 0 := by decide
      simp only [fold, literal, evaluate, ← ihc, pure_bind, if_true, if_neg chosen]
      exact iha
  | case4 i c a b j v literal isFalse ihc ihb =>
      obtain rfl : v = false := by simpa using isFalse
      rw [literal] at ihc
      have chosen : truth false = 0 := rfl
      simp only [fold, literal, evaluate, ← ihc, pure_bind, Bool.false_eq_true, if_false, if_pos chosen]
      exact ihb
  | case5 i c a b open_ ihc iha ihb =>
      have kept : (ternary i c a b).fold = ternary i c.fold a.fold b.fold := by
        rw [fold]
        split
        · next j v literal => exact (open_ j v literal).elim
        · rfl
      simp only [kept, evaluate, ihc, iha, ihb]
  | case6 e noBinary noUnary noTernary => rw [fold] <;> assumption

end Expr

end Lantern
