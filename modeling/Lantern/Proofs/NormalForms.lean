import Lantern.Proofs.Folding

/-!
# Normal forms of expressions

Folding leaves no operator on literals that it could have computed, whatever the operands were before they
were folded. So there is nothing left for a second folding to do, and an expression stays as it is exactly
if nothing on its spine, which goes through operators and choices only, can be computed.
-/

namespace Lantern

open Meaning

/-- An operator on two literals is left alone if it is a connective, if carrying it out would trap, and if
    it is a power with a negative exponent. -/
def BinaryOp.Spares (op : BinaryOp) (l r : Word) : Prop :=
  op = .and ∨ op = .or ∨ operate op l r = none ∨ op = .pow ∧ r < 0

theorem BinaryOp.fold?_eq_none {op : BinaryOp} {l r : Word} : op.fold? l r = none ↔ op.Spares l r := by
  cases op with
  | div | rem =>
      simp only [fold?, Spares, operate, reduceCtorEq, false_and, false_or, or_false, ite_eq_left_iff,
        imp_false, divisionTraps_eq_true]
  | _ => simp [fold?, Spares, operate]

namespace Expr

/-- An operator on literals, or a choice by a literal, that folding computes. -/
inductive Redex : Expr → Prop where
  | binary {i j k : Info} {op : BinaryOp} {a b : Word} (certain : ¬op.Spares a b) :
      Redex (.binary i op (.number j a) (.number k b))
  | neg {i j : Info} {v : Word} : Redex (.unary i .neg (.number j v))
  | not {i j : Info} {v : Bool} : Redex (.unary i .not (.bool j v))
  | ternary {i j : Info} {v : Bool} {a b : Expr} : Redex (.ternary i (.bool j v) a b)

/-- The spine of an expression goes from it through operators and choices to what they are applied to. -/
inductive Spine : Expr → Expr → Prop where
  | top (e : Expr) : Spine e e
  | left {i : Info} {op : BinaryOp} {l r x : Expr} : Spine l x → Spine (.binary i op l r) x
  | right {i : Info} {op : BinaryOp} {l r x : Expr} : Spine r x → Spine (.binary i op l r) x
  | operand {i : Info} {op : UnaryOp} {e x : Expr} : Spine e x → Spine (.unary i op e) x
  | cond {i : Info} {c a b x : Expr} : Spine c x → Spine (.ternary i c a b) x
  | onTrue {i : Info} {c a b x : Expr} : Spine a x → Spine (.ternary i c a b) x
  | onFalse {i : Info} {c a b x : Expr} : Spine b x → Spine (.ternary i c a b) x

/-- Nothing on the spine can be computed. -/
def Normal (e : Expr) : Prop := ∀ x, Spine e x → ¬Redex x

/-! ## Forms of normal expressions -/

theorem normal_binary {i : Info} {op : BinaryOp} {l r : Expr} :
    Normal (binary i op l r) ↔ l.Normal ∧ r.Normal ∧ ¬Redex (binary i op l r) := by
  constructor
  · intro normal
    exact ⟨fun x on => normal x (.left on), fun x on => normal x (.right on), normal _ (.top _)⟩
  · rintro ⟨left, right, here⟩ x on
    cases on with
    | top => exact here
    | left on => exact left x on
    | right on => exact right x on

theorem normal_unary {i : Info} {op : UnaryOp} {e : Expr} :
    Normal (unary i op e) ↔ e.Normal ∧ ¬Redex (unary i op e) := by
  constructor
  · intro normal
    exact ⟨fun x on => normal x (.operand on), normal _ (.top _)⟩
  · rintro ⟨operand, here⟩ x on
    cases on with
    | top => exact here
    | operand on => exact operand x on

theorem normal_ternary {i : Info} {c a b : Expr} :
    Normal (ternary i c a b) ↔ c.Normal ∧ a.Normal ∧ b.Normal ∧ ¬Redex (ternary i c a b) := by
  constructor
  · intro normal
    exact ⟨fun x on => normal x (.cond on), fun x on => normal x (.onTrue on),
      fun x on => normal x (.onFalse on), normal _ (.top _)⟩
  · rintro ⟨cond, onTrue, onFalse, here⟩ x on
    cases on with
    | top => exact here
    | cond on => exact cond x on
    | onTrue on => exact onTrue x on
    | onFalse on => exact onFalse x on

theorem normal_ofFolded (span : Span) (v : Folded) : (ofFolded span v).Normal := by
  cases v <;>
  · intro x on redex
    cases on
    cases redex

/-! ## What folding an operator leaves -/

theorem foldBinary_eq {i : Info} {op : BinaryOp} {l r : Expr} (stuck : ¬Redex (binary i op l r)) :
    foldBinary i op l r = binary i op l r := by
  unfold foldBinary
  split
  · next j a k b =>
      have spared : op.Spares a b := not_not.mp fun certain => stuck (.binary certain)
      simp only [BinaryOp.fold?_eq_none.mpr spared]
  · rfl

theorem foldUnary_eq {i : Info} {op : UnaryOp} {e : Expr} (stuck : ¬Redex (unary i op e)) :
    foldUnary i op e = unary i op e := by
  unfold foldUnary
  split
  · exact (stuck .neg).elim
  · exact (stuck .not).elim
  · rfl

theorem normal_foldBinary (i : Info) (op : BinaryOp) {l r : Expr} (left : l.Normal) (right : r.Normal) :
    (foldBinary i op l r).Normal := by
  by_cases redex : Redex (binary i op l r)
  · cases redex with
    | binary certain =>
        obtain ⟨v, value⟩ := Option.ne_none_iff_exists'.mp (mt BinaryOp.fold?_eq_none.mp certain)
        simp only [foldBinary, value]
        exact normal_ofFolded _ v
  · rw [foldBinary_eq redex]
    exact normal_binary.mpr ⟨left, right, redex⟩

theorem normal_foldUnary (i : Info) (op : UnaryOp) {e : Expr} (operand : e.Normal) :
    (foldUnary i op e).Normal := by
  by_cases redex : Redex (unary i op e)
  · cases redex with
    | neg => exact normal_ofFolded i.span (.number _)
    | not => exact normal_ofFolded i.span (.bool _)
  · rw [foldUnary_eq redex]
    exact normal_unary.mpr ⟨operand, redex⟩

/-! ## Whole expressions -/

/-- A choice whose condition does not fold to a literal stays a choice. -/
theorem fold_ternary_of_open {i : Info} {c a b : Expr} (opens : ∀ j v, c.fold ≠ bool j v) :
    (ternary i c a b).fold = ternary i c.fold a.fold b.fold := by
  rw [fold]
  split
  · next j v literal => exact (opens j v literal).elim
  · rfl

theorem not_redex_ternary {i : Info} {c a b : Expr} (opens : ∀ j v, c ≠ bool j v) :
    ¬Redex (ternary i c a b) := by
  intro redex
  cases redex
  exact opens _ _ rfl

theorem normal_fold (e : Expr) : e.fold.Normal := by
  induction e using fold.induct with
  | case1 i op l r left right =>
      rw [fold]
      exact normal_foldBinary i op left right
  | case2 i op e operand =>
      rw [fold]
      exact normal_foldUnary i op operand
  | case3 i c a b j literal cond onTrue =>
      simpa only [fold, literal, if_true] using onTrue
  | case4 i c a b j v literal isFalse cond onFalse =>
      simpa only [fold, literal, if_neg isFalse] using onFalse
  | case5 i c a b opens cond onTrue onFalse =>
      have opens : ∀ j v, c.fold ≠ bool j v := opens
      rw [fold_ternary_of_open opens]
      exact normal_ternary.mpr ⟨cond, onTrue, onFalse, not_redex_ternary opens⟩
  | case6 e noBinary noUnary noTernary =>
      have same : e.fold = e := by rw [fold] <;> assumption
      rw [same]
      intro x on redex
      cases on with
      | top =>
          cases redex with
          | binary => exact noBinary _ _ _ _ rfl
          | neg | not => exact noUnary _ _ _ rfl
          | ternary => exact noTernary _ _ _ _ rfl
      | left | right => exact noBinary _ _ _ _ rfl
      | operand => exact noUnary _ _ _ rfl
      | cond | onTrue | onFalse => exact noTernary _ _ _ _ rfl

theorem fold_of_normal {e : Expr} (normal : e.Normal) : e.fold = e := by
  induction e using fold.induct with
  | case1 i op l r left right =>
      obtain ⟨normall, normalr, stuck⟩ := normal_binary.mp normal
      rw [fold, left normall, right normalr, foldBinary_eq stuck]
  | case2 i op e operand =>
      obtain ⟨normale, stuck⟩ := normal_unary.mp normal
      rw [fold, operand normale, foldUnary_eq stuck]
  | case3 i c a b j literal cond onTrue =>
      obtain ⟨normalc, -, -, stuck⟩ := normal_ternary.mp normal
      obtain rfl : c = bool j true := (cond normalc).symm.trans literal
      exact (stuck .ternary).elim
  | case4 i c a b j v literal isFalse cond onFalse =>
      obtain ⟨normalc, -, -, stuck⟩ := normal_ternary.mp normal
      obtain rfl : c = bool j v := (cond normalc).symm.trans literal
      exact (stuck .ternary).elim
  | case5 i c a b opens cond onTrue onFalse =>
      obtain ⟨normalc, normala, normalb, -⟩ := normal_ternary.mp normal
      rw [fold_ternary_of_open opens, cond normalc, onTrue normala, onFalse normalb]
  | case6 e noBinary noUnary noTernary => rw [fold] <;> assumption

/-- Folding an expression once more changes nothing: on the spine of a folded expression there is no choice
    by a literal, no negation of a literal and no operator on two numbers but connectives, divisions that
    would trap, and powers with a negative exponent. An expression without any of these is its own folding. -/
theorem fold_normal (e : Expr) :
    e.fold.fold = e.fold ∧ (∀ x, Spine e.fold x → ¬Redex x) ∧ (e.fold = e ↔ ∀ x, Spine e x → ¬Redex x) := by
  refine ⟨fold_of_normal e.normal_fold, e.normal_fold, fun same => ?_, fold_of_normal⟩
  exact same ▸ e.normal_fold

end Expr

end Lantern
