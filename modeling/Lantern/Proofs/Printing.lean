import Mathlib
import Lantern.Proofs.Erasure
import Lantern.Tree.Parser

/-!
# Expressions as they are written

An expression tree is written with parentheses only where the grammar needs them: around an operand
that binds looser than its place. Reading what is written gives the tree back, with constants folded
throughout, and takes no token behind it.
-/

namespace Lantern

/-! ## Writing -/

namespace BinaryOp

/-- The mark that stands for an operator. -/
def mark : BinaryOp → Punct
  | add => .plus
  | sub => .minus
  | mul => .star
  | div => .slash
  | rem => .percent
  | pow => .caret
  | eq => .eqEq
  | ne => .notEq
  | lt => .lt
  | gt => .gt
  | ge => .ge
  | le => .le
  | and => .andAnd
  | or => .orOr

/-- How tightly an operator binds. -/
def level : BinaryOp → Nat
  | or => 1
  | and => 2
  | eq | ne => 3
  | lt | gt | ge | le => 4
  | add | sub => 5
  | mul | div | rem => 6
  | pow => 8

/-- The place of the left operand: a power has none but what can be followed by calls and indices. -/
def leftPlace : BinaryOp → Nat
  | pow => 9
  | op => op.level

/-- The place of the right operand: an exponent may have prefix operators, and the other operators
    associate to the left. -/
def rightPlace : BinaryOp → Nat
  | pow => 7
  | op => op.level + 1

theorem places {op : BinaryOp} (noPower : op ≠ pow) :
    op.leftPlace = op.level ∧ op.rightPlace = op.level + 1 ∧ 1 ≤ op.level ∧ op.level ≤ 6 := by
  cases op <;> first | contradiction | decide

end BinaryOp

/-- The mark that stands for an operator. -/
def UnaryOp.mark : UnaryOp → Punct
  | .neg => .minus
  | .not => .not

/-- The mark that stands for a step. -/
def StepOp.mark : StepOp → Punct
  | .inc => .inc
  | .dec => .dec

/-- A name where an operand stands. -/
def Lexeme.ofName (name : String) : Lexeme := if name = "this" then .keyword .this_ else .ident name

/-- Lexemes in parentheses, if they are needed. -/
def enclose (needed : Bool) (ls : List Lexeme) : List Lexeme :=
  if needed then .punct .lparen :: ls ++ [.punct .rparen] else ls

namespace Expr

/-- How tightly an expression binds: choices loosest, then the binary operators, prefix operators,
    powers, and what needs no parentheses anywhere. -/
def level : Expr → Nat
  | ternary .. => 0
  | binary _ op _ _ => op.level
  | unary .. | step _ _ true _ => 7
  | _ => 9

mutual

/-- An expression as it is written. -/
def lexemes : Expr → List Lexeme
  | number _ v => [.number v]
  | bool _ true => [.keyword .true_]
  | bool _ false => [.keyword .false_]
  | str _ s => [.text s]
  | ident _ name => [.ofName name]
  | binary _ op l r =>
    enclose (l.level < op.leftPlace) l.lexemes ++
      .punct op.mark :: enclose (r.level < op.rightPlace) r.lexemes
  | unary _ op e => .punct op.mark :: enclose (e.level < 7) e.lexemes
  | ternary _ c a b =>
    enclose (c.level < 1) c.lexemes ++ .punct .question :: (a.lexemes ++ .punct .colon :: b.lexemes)
  | list _ es => .punct .lbracket :: (listed es ++ [.punct .rbracket])
  | map _ es => .punct .lbrace :: (paired es ++ [.punct .rbrace])
  | index _ b k =>
    enclose (b.level < 9) b.lexemes ++ .punct .lbracket :: (k.lexemes ++ [.punct .rbracket])
  | member _ o name => enclose (o.level < 9) o.lexemes ++ [.punct .dot, .ident name]
  | call _ callee args => .ofName callee :: .punct .lparen :: (listed args ++ [.punct .rparen])
  | method _ r name args =>
    enclose (r.level < 9) r.lexemes ++
      .punct .dot :: .ident name :: .punct .lparen :: (listed args ++ [.punct .rparen])
  | new_ _ cls args =>
    .keyword .new_ :: .ident cls :: .punct .lparen :: (listed args ++ [.punct .rparen])
  | super _ => [.keyword .super]
  | step _ op true t => .punct op.mark :: enclose (t.level < 7) t.lexemes
  | step _ op false t => enclose (t.level < 9) t.lexemes ++ [.punct op.mark]
  | funcRef _ name => [.punct .amp, .ident name]

/-- Expressions between commas. -/
def listed : List Expr → List Lexeme
  | [] => []
  | [e] => e.lexemes
  | e :: es => e.lexemes ++ .punct .comma :: listed es

/-- Keys and values between commas. -/
def paired : List (Expr × Expr) → List Lexeme
  | [] => []
  | [(k, v)] => k.lexemes ++ .punct .colon :: v.lexemes
  | (k, v) :: es => k.lexemes ++ .punct .colon :: (v.lexemes ++ .punct .comma :: paired es)

end

mutual

/-- A tree that can be written: only names, elements and members are stepped, and `super` is nothing
    but the receiver of a call. -/
def Writable : Expr → Prop
  | binary _ _ l r => l.Writable ∧ r.Writable
  | unary _ _ e => e.Writable
  | ternary _ c a b => c.Writable ∧ a.Writable ∧ b.Writable
  | list _ es | call _ _ es | new_ _ _ es => WritableAll es
  | map _ es => WritableEntries es
  | index _ b k => b.Writable ∧ k.Writable
  | member _ o _ => o.Writable
  | method _ (super _) _ args => WritableAll args
  | method _ r _ args => r.Writable ∧ WritableAll args
  | super _ => False
  | step _ _ _ t => t.isLValue ∧ t.Writable
  | number .. | bool .. | str .. | ident .. | funcRef .. => True

/-- Expressions that can be written. -/
def WritableAll : List Expr → Prop
  | [] => True
  | e :: es => e.Writable ∧ WritableAll es

/-- Entries that can be written. -/
def WritableEntries : List (Expr × Expr) → Prop
  | [] => True
  | (k, v) :: es => k.Writable ∧ v.Writable ∧ WritableEntries es

end

mutual

/-- The tree with every expression in it folded, from the leaves up. -/
def foldAll : Expr → Expr
  | binary i op l r => (binary i op l.foldAll r.foldAll).fold
  | unary i op e => (unary i op e.foldAll).fold
  | ternary i c a b => (ternary i c.foldAll a.foldAll b.foldAll).fold
  | list i es => (list i (foldEach es)).fold
  | map i es => (map i (foldEntries es)).fold
  | index i b k => (index i b.foldAll k.foldAll).fold
  | member i o name => (member i o.foldAll name).fold
  | call i callee args => (call i callee (foldEach args)).fold
  | method i r name args => (method i r.foldAll name (foldEach args)).fold
  | new_ i cls args => (new_ i cls (foldEach args)).fold
  | step i op first t => (step i op first t.foldAll).fold
  | e => e.fold

/-- Every expression of a list folded throughout. -/
def foldEach : List Expr → List Expr
  | [] => []
  | e :: es => e.foldAll :: foldEach es

/-- Every key and value folded throughout. -/
def foldEntries : List (Expr × Expr) → List (Expr × Expr)
  | [] => []
  | (k, v) :: es => (k.foldAll, v.foldAll) :: foldEntries es

end

/-! ## Folding and places -/

/-- A choice whose parts are folded. -/
def foldChoice (i : Info) (c a b : Expr) : Expr :=
  match c with
  | bool _ v => if v then a else b
  | c => ternary i c a b

theorem fold_binary (i : Info) (op : BinaryOp) (l r : Expr) :
    (binary i op l r).fold = foldBinary i op l.fold r.fold := rfl

theorem fold_unary (i : Info) (op : UnaryOp) (e : Expr) :
    (unary i op e).fold = foldUnary i op e.fold := rfl

theorem fold_ternary (i : Info) (c a b : Expr) :
    (ternary i c a b).fold = foldChoice i c.fold a.fold b.fold := rfl

theorem fold_ofFolded (s : Span) (v : Folded) : (ofFolded s v).fold = ofFolded s v := by
  cases v <;> rfl

theorem foldBinary_cases (i : Info) (op : BinaryOp) (l r : Expr) :
    (∃ v, foldBinary i op l r = ofFolded i.span v) ∨ foldBinary i op l r = binary i op l r := by
  unfold foldBinary
  split
  · split
    · exact .inl ⟨_, rfl⟩
    · exact .inr rfl
  · exact .inr rfl

theorem foldUnary_cases (i : Info) (op : UnaryOp) (e : Expr) :
    (∃ v, foldUnary i op e = ofFolded i.span v) ∨ foldUnary i op e = unary i op e := by
  unfold foldUnary
  split
  · exact .inl ⟨_, rfl⟩
  · exact .inl ⟨_, rfl⟩
  · exact .inr rfl

theorem fold_foldBinary {l r : Expr} (left : l.fold = l) (right : r.fold = r) (i : Info)
    (op : BinaryOp) : (foldBinary i op l r).fold = foldBinary i op l r := by
  rcases foldBinary_cases i op l r with ⟨v, computed⟩ | kept
  · rw [computed, fold_ofFolded]
  · rw [kept, fold_binary, left, right, kept]

theorem fold_foldUnary {e : Expr} (operand : e.fold = e) (i : Info) (op : UnaryOp) :
    (foldUnary i op e).fold = foldUnary i op e := by
  rcases foldUnary_cases i op e with ⟨v, computed⟩ | kept
  · rw [computed, fold_ofFolded]
  · rw [kept, fold_unary, operand, kept]

theorem fold_foldChoice {c a b : Expr} (cond : c.fold = c) (onTrue : a.fold = a)
    (onFalse : b.fold = b) (i : Info) : (foldChoice i c a b).fold = foldChoice i c a b := by
  have kept : (ternary i c a b).fold = foldChoice i c a b := by
    rw [fold_ternary, cond, onTrue, onFalse]
  unfold foldChoice at kept ⊢
  split
  · split
    · exact onTrue
    · exact onFalse
  · simpa using kept

/-- Folding twice is folding once: no operator is left that could be computed. -/
theorem fold_fold : (e : Expr) → e.fold.fold = e.fold
  | binary i op l r => fold_foldBinary (fold_fold l) (fold_fold r) i op
  | unary i op e => fold_foldUnary (fold_fold e) i op
  | ternary i c a b => fold_foldChoice (fold_fold c) (fold_fold a) (fold_fold b) i
  | number .. | bool .. | str .. | ident .. | list .. | map .. | index .. | member .. | call ..
  | method .. | new_ .. | super _ | step .. | funcRef .. => rfl

theorem fold_foldAll (e : Expr) : e.foldAll.fold = e.foldAll := by
  cases e with
  | _ => simp only [foldAll, fold_fold]

theorem erase_ofFolded (s : Span) (v : Folded) : (ofFolded s v).erase = ofFolded Span.nowhere v := by
  cases v <;> rfl

theorem erase_foldBinary (i : Info) (op : BinaryOp) (l r : Expr) :
    (foldBinary i op l r).erase = foldBinary default op l.erase r.erase := by
  cases l with
  | number _ v =>
      cases r with
      | number _ w =>
          simp only [foldBinary, erase]
          cases op.fold? v w with
          | none => rfl
          | some f => exact erase_ofFolded _ _
      | _ => rfl
  | _ => rfl

theorem erase_foldUnary (i : Info) (op : UnaryOp) (e : Expr) :
    (foldUnary i op e).erase = foldUnary default op e.erase := by
  cases op <;> cases e <;> rfl

theorem erase_foldChoice (i : Info) (c a b : Expr) :
    (foldChoice i c a b).erase = foldChoice default c.erase a.erase b.erase := by
  cases c with
  | bool _ v => cases v <;> rfl
  | _ => rfl

theorem erase_foldAll_binary (i : Info) (op : BinaryOp) (l r : Expr) :
    (binary i op l r).foldAll.erase = foldBinary default op l.foldAll.erase r.foldAll.erase := by
  rw [foldAll, fold_binary, fold_foldAll, fold_foldAll, erase_foldBinary]

theorem erase_foldAll_unary (i : Info) (op : UnaryOp) (e : Expr) :
    (unary i op e).foldAll.erase = foldUnary default op e.foldAll.erase := by
  rw [foldAll, fold_unary, fold_foldAll, erase_foldUnary]

theorem erase_foldAll_ternary (i : Info) (c a b : Expr) :
    (ternary i c a b).foldAll.erase =
      foldChoice default c.foldAll.erase a.foldAll.erase b.foldAll.erase := by
  rw [foldAll, fold_ternary, fold_foldAll, fold_foldAll, fold_foldAll, erase_foldChoice]

/-- No part of a tree that can be written becomes a lone `super`. -/
theorem foldAll_ne_super (e : Expr) (writable : e.Writable) (j : Info) : e.foldAll ≠ super j := by
  cases e with
  | binary i op l r =>
      rw [foldAll, fold_binary]
      rcases foldBinary_cases i op l.foldAll.fold r.foldAll.fold with ⟨v, computed⟩ | kept
      · rw [computed]
        cases v <;> exact Expr.noConfusion
      · rw [kept]
        exact Expr.noConfusion
  | unary i op e =>
      rw [foldAll, fold_unary]
      rcases foldUnary_cases i op e.foldAll.fold with ⟨v, computed⟩ | kept
      · rw [computed]
        cases v <;> exact Expr.noConfusion
      · rw [kept]
        exact Expr.noConfusion
  | ternary i c a b =>
      rw [foldAll, fold_ternary, fold_foldAll, fold_foldAll, fold_foldAll]
      unfold foldChoice
      split
      · split
        · exact foldAll_ne_super a writable.2.1 j
        · exact foldAll_ne_super b writable.2.2 j
      · exact Expr.noConfusion
  | super i => exact writable.elim
  | _ => exact Expr.noConfusion

theorem erase_foldAll_ne_super {e : Expr} (writable : e.Writable) : e.foldAll.erase ≠ super default := by
  have := foldAll_ne_super e writable
  cases folded : e.foldAll <;> first | exact Expr.noConfusion | exact absurd folded (this _)

theorem writable_of_method {i : Info} {r : Expr} {name : String} {args : List Expr}
    (writable : (method i r name args).Writable) (own : ¬∃ j, r = super j) :
    r.Writable ∧ WritableAll args := by
  cases r <;> first | exact writable | exact absurd ⟨_, rfl⟩ own

theorem level_of_isLValue {e : Expr} (target : e.isLValue) : e.level = 9 := by
  cases e <;> first | rfl | cases target

theorem isLValue_foldAll {e : Expr} (target : e.isLValue) : e.foldAll.isLValue := by
  cases e <;> first | rfl | cases target

end Expr

/-! ## Steps of parsing -/

namespace Parser

/-- The token that is looked at next. -/
def front (ts : List Token) : Token := ts.head?.getD ⟨.endOfFile, Span.nowhere⟩

@[simp] theorem front_cons (t : Token) (ts : List Token) : front (t :: ts) = t := rfl

theorem bind_run {α β : Type} (p : Parse α) (f : α → Parse β) (ts : List Token) :
    (p >>= f) ts = match p ts with
      | .ok (a, us) => f a us
      | .error e => .error e := by
  cases h : p ts <;> simp [bind, StateT.bind, h, Except.bind]

theorem pure_run {α : Type} (a : α) (ts : List Token) : (pure a : Parse α) ts = .ok (a, ts) := rfl

theorem peek_run (ts : List Token) : peek ts = .ok (front ts, ts) := by cases ts <;> rfl

theorem advance_run (ts : List Token) : advance ts = .ok ((), ts.tail) := rfl

theorem nextIs_run (l : Lexeme) (ts : List Token) :
    nextIs l ts = .ok ((front ts).lexeme == l, ts) := by
  simp only [nextIs, bind_run, peek_run, pure_run]

theorem nextIs_of_ne {l : Lexeme} {ts : List Token} (other : (front ts).lexeme ≠ l) :
    nextIs l ts = .ok (false, ts) := by rw [nextIs_run, beq_eq_false_iff_ne.mpr other]

theorem accept_run (l : Lexeme) (ts : List Token) :
    accept l ts = .ok (if (front ts).lexeme = l then (true, ts.tail) else (false, ts)) := by
  simp only [accept, bind_run, nextIs_run]
  split <;> simp_all [bind_run, advance_run, pure_run]

theorem accept_of_eq {l : Lexeme} {t : Token} (here : t.lexeme = l) (ts : List Token) :
    accept l (t :: ts) = .ok (true, ts) := by rw [accept_run, front_cons, if_pos here, List.tail_cons]

theorem accept_of_ne {l : Lexeme} {ts : List Token} (other : (front ts).lexeme ≠ l) :
    accept l ts = .ok (false, ts) := by rw [accept_run, if_neg other]

theorem expect_run {l : Lexeme} {t : Token} (here : t.lexeme = l) (message : String)
    (ts : List Token) : expect l message (t :: ts) = .ok ((), ts) := by
  simp [expect, bind_run, accept_run, here, pure_run]

theorem expectName_run {name : String} {t : Token} (here : t.lexeme = .ident name) (message : String)
    (ts : List Token) : expectName message (t :: ts) = .ok (name, ts) := by
  simp only [expectName, bind_run, peek_run, front_cons, here, advance_run, List.tail_cons, pure_run]

/-! ## What may follow -/

/-- The level at which a lexeme goes on with the expression before it, if it can. -/
def joins? : Lexeme → Option Nat
  | .punct .question => some 0
  | .punct .orOr => some 1
  | .punct .andAnd => some 2
  | .punct .eqEq | .punct .notEq => some 3
  | .punct .lt | .punct .gt | .punct .ge | .punct .le => some 4
  | .punct .plus | .punct .minus => some 5
  | .punct .star | .punct .slash | .punct .percent => some 6
  | .punct .caret => some 8
  | .punct .lparen | .punct .dot | .punct .lbracket | .punct .inc | .punct .dec => some 9
  | _ => none

/-- What follows does not go on with an expression of the given level or a tighter one. -/
def Ends (level : Nat) (rest : List Token) : Prop :=
  ∀ k, joins? (front rest).lexeme = some k → k < level

theorem Ends.mono {a b : Nat} {rest : List Token} (ends : Ends a rest) (le : a ≤ b) : Ends b rest :=
  fun k joins => (ends k joins).trans_le le

theorem ends_of_none {t : Token} (none_ : joins? t.lexeme = none) (level : Nat) (ts : List Token) :
    Ends level (t :: ts) := fun k joins => by simp [none_] at joins

theorem joins?_of_binaryOp? {l : Lexeme} {op : BinaryOp} {p : Nat} (is : binaryOp? l = some (op, p)) :
    joins? l = some p := by
  unfold binaryOp? at is
  split at is <;> cases is <;> rfl

theorem binaryOp?_mark {op : BinaryOp} (noPower : op ≠ .pow) :
    binaryOp? (.punct op.mark) = some (op, op.level) := by
  cases op <;> first | rfl | contradiction

theorem joins?_mark (op : BinaryOp) : joins? (.punct op.mark) = some op.level := by
  cases op <;> rfl

/-! ## What is read

Each level of the grammar has a predicate: the tokens `ts` are read as an expression of that level
which, folded and without places, is `x`. The call depth that reading takes grows with the number of
tokens. Where the source goes on in a loop behind what it has read, the predicate says what the loop is
entered with. -/

/-- A lexeme that an operand starts with. -/
def startsOperand : Lexeme → Bool
  | .number _ | .text _ | .ident _ | .keyword .true_ | .keyword .false_ | .keyword .this_
  | .keyword .super | .keyword .new_ | .punct .amp | .punct .lparen | .punct .lbracket
  | .punct .lbrace => true
  | _ => false

/-- A lexeme that an expression starts with. -/
def startsExpr : Lexeme → Bool
  | .punct .not | .punct .minus | .punct .inc | .punct .dec => true
  | l => startsOperand l

theorem startsExpr_of_startsOperand {l : Lexeme} (starts : startsOperand l) : startsExpr l := by
  unfold startsExpr
  split <;> first | rfl | exact starts

/-- Tokens of an operand and the calls, members, indices and steps behind it. An opening parenthesis
    would make a call of a name or a member. -/
structure Operand (ts : List Token) (x : Expr) : Prop where
  starts : ∃ t us, ts = t :: us ∧ startsOperand t.lexeme
  reads : ∃ e : Expr, e.fold = e ∧ e.erase = x ∧
    ∀ rest depth result, (front rest).lexeme ≠ .punct .lparen →
      (∀ n, depth ≤ n → postfixRest n e rest = result) →
      ∀ n, depth + 10 * ts.length ≤ n + 7 → postfixExpr n (ts ++ rest) = result

/-- Tokens of an operand with prefix operators or an exponent. -/
structure Prefixed (ts : List Token) (x : Expr) : Prop where
  starts : ∃ t us, ts = t :: us ∧ startsExpr t.lexeme
  reads : ∃ e : Expr, e.fold.erase = x ∧
    ∀ rest, Ends 7 rest → ∀ n, 10 * ts.length ≤ n + 4 → unary n (ts ++ rest) = .ok (e, rest)

/-- Tokens of operands joined by operators of at least the given level. -/
structure Joined (level : Nat) (ts : List Token) (x : Expr) : Prop where
  starts : ∃ t us, ts = t :: us ∧ startsExpr t.lexeme
  reads : ∃ e : Expr, e.fold.erase = x ∧
    ∀ least rest depth result, least ≤ level → Ends 7 rest → Ends (level + 1) rest →
      (∀ n, depth ≤ n → binaryRest n least e rest = result) →
      ∀ n, depth + 10 * ts.length ≤ n + 3 → binary n least (ts ++ rest) = result

/-- Tokens of a choice or anything tighter. -/
structure Choice (ts : List Token) (x : Expr) : Prop where
  starts : ∃ t us, ts = t :: us ∧ startsExpr t.lexeme
  reads : ∃ e : Expr, e.fold.erase = x ∧
    ∀ rest, Ends 0 rest → ∀ n, 10 * ts.length ≤ n + 1 → ternary n (ts ++ rest) = .ok (e, rest)

/-- Tokens of a whole expression. -/
structure Whole (ts : List Token) (x : Expr) : Prop where
  starts : ∃ t us, ts = t :: us ∧ startsExpr t.lexeme
  reads : ∃ e : Expr, e.fold = e ∧ e.erase = x ∧
    ∀ rest, Ends 0 rest → ∀ n, 10 * ts.length ≤ n → expr n (ts ++ rest) = .ok (e, rest)

/-! ### From tight to loose -/

theorem postfixRest_ends {e : Expr} {rest : List Token} (ends : Ends 9 rest) {n : Nat} (pos : 1 ≤ n) :
    postfixRest n e rest = .ok (e, rest) := by
  obtain ⟨n, rfl⟩ := Nat.exists_eq_add_of_le' pos
  simp only [postfixRest, bind_run, peek_run]
  cases lexeme : (front rest).lexeme with
  | punct mark =>
      cases mark with
      | lparen | dot | lbracket | inc | dec =>
          exact absurd (ends 9 (by rw [lexeme]; rfl)) (lt_irrefl 9)
      | _ => rfl
  | _ => rfl

theorem binaryRest_ends {e : Expr} {least : Nat} {rest : List Token} (ends : Ends least rest) {n : Nat}
    (pos : 1 ≤ n) : binaryRest n least e rest = .ok (e, rest) := by
  obtain ⟨n, rfl⟩ := Nat.exists_eq_add_of_le' pos
  simp only [binaryRest, bind_run, peek_run]
  cases is : binaryOp? (front rest).lexeme with
  | none => rfl
  | some found =>
      have loose : found.2 < least := ends _ (joins?_of_binaryOp? is)
      simp only [if_pos loose, pure_run]

theorem unary_operand {t : Token} (starts : startsOperand t.lexeme) (n : Nat) (ts : List Token) :
    unary (n + 1) (t :: ts) = powerExpr n (t :: ts) := by
  simp only [unary, bind_run, peek_run, front_cons]
  cases lexeme : t.lexeme with
  | punct mark =>
      cases mark with
      | not | minus | plus | inc | dec =>
          rw [lexeme] at starts
          cases starts
      | _ => rfl
  | _ => rfl

/-- An operand with nothing behind it. -/
theorem Operand.unary {ts : List Token} {x : Expr} (operand : Operand ts x) :
    ∃ e : Expr, e.fold = e ∧ e.erase = x ∧
      ∀ rest, Ends 7 rest → ∀ n, 10 * ts.length ≤ n + 4 → unary n (ts ++ rest) = .ok (e, rest) := by
  obtain ⟨e, folded, erased, reads⟩ := operand.reads
  obtain ⟨t, us, rfl, starts⟩ := operand.starts
  refine ⟨e, folded, erased, fun rest ends n enough => ?_⟩
  rw [List.length_cons] at enough
  obtain ⟨n, rfl⟩ : ∃ m, n = m + 2 := ⟨n - 2, by omega⟩
  have noCall : (front rest).lexeme ≠ .punct .lparen := fun h => by
    simpa using ends 9 (by rw [h]; rfl)
  have alone := reads rest 1 _ noCall (fun n pos => postfixRest_ends (ends.mono (by omega)) pos) n
    (by rw [List.length_cons]; omega)
  have noPower : (front rest).lexeme ≠ .punct .caret := fun h => by
    simpa using ends 8 (by rw [h]; rfl)
  rw [List.cons_append, unary_operand starts, powerExpr]
  rw [List.cons_append] at alone
  simp only [bind_run, alone, peek_run, acceptPunct, accept_of_ne noPower]
  rfl

theorem Operand.prefixed {ts : List Token} {x : Expr} (operand : Operand ts x) : Prefixed ts x := by
  obtain ⟨e, folded, erased, reads⟩ := operand.unary
  obtain ⟨t, us, first, starts⟩ := operand.starts
  exact ⟨⟨t, us, first, startsExpr_of_startsOperand starts⟩, e, by rw [folded, erased], reads⟩

theorem Prefixed.joined {ts : List Token} {x : Expr} (prefixed : Prefixed ts x) (level : Nat) :
    Joined level ts x := by
  obtain ⟨e, folded, reads⟩ := prefixed.reads
  refine ⟨prefixed.starts, e, folded, fun least rest depth result _ ends _ go n enough => ?_⟩
  obtain ⟨t, us, rfl, -⟩ := prefixed.starts
  rw [List.length_cons] at enough
  obtain ⟨n, rfl⟩ : ∃ m, n = m + 1 := ⟨n - 1, by omega⟩
  rw [binary, bind_run, reads rest ends n (by rw [List.length_cons]; omega)]
  exact go n (by omega)

theorem Joined.loosen {a b : Nat} {ts : List Token} {x : Expr} (joined : Joined b ts x) (le : a ≤ b) :
    Joined a ts x := by
  obtain ⟨e, folded, reads⟩ := joined.reads
  exact ⟨joined.starts, e, folded, fun least rest depth result small ends below =>
    reads least rest depth result (small.trans le) ends (below.mono (by omega))⟩

/-- Joined operands with no operator behind them. -/
theorem Joined.alone {level : Nat} {ts : List Token} {x : Expr} (joined : Joined level ts x) :
    ∃ e : Expr, e.fold.erase = x ∧ ∀ rest, Ends 7 rest → Ends level rest →
      ∀ n, 10 * ts.length ≤ n + 2 → binary n level (ts ++ rest) = .ok (e, rest) := by
  obtain ⟨e, folded, reads⟩ := joined.reads
  refine ⟨e, folded, fun rest ends below n enough => ?_⟩
  exact reads level rest 1 _ le_rfl ends (below.mono (by omega))
    (fun n pos => binaryRest_ends below pos) n (by omega)

theorem Joined.choice {ts : List Token} {x : Expr} (joined : Joined 1 ts x) : Choice ts x := by
  obtain ⟨e, folded, reads⟩ := joined.alone
  refine ⟨joined.starts, e, folded, fun rest ends n enough => ?_⟩
  obtain ⟨t, us, rfl, -⟩ := joined.starts
  rw [List.length_cons] at enough
  obtain ⟨n, rfl⟩ : ∃ m, n = m + 1 := ⟨n - 1, by omega⟩
  have alone := reads rest (ends.mono (by omega)) (ends.mono (by omega)) n
    (by rw [List.length_cons]; omega)
  have noChoice : (front rest).lexeme ≠ .punct .question := fun h => by
    simpa using ends 0 (by rw [h]; rfl)
  rw [ternary]
  simp only [bind_run, alone, peek_run, acceptPunct, accept_of_ne noChoice]
  rfl

theorem Choice.whole {ts : List Token} {x : Expr} (choice : Choice ts x) : Whole ts x := by
  obtain ⟨e, folded, reads⟩ := choice.reads
  refine ⟨choice.starts, e.fold, Expr.fold_fold e, folded, fun rest ends n enough => ?_⟩
  obtain ⟨t, us, rfl, -⟩ := choice.starts
  rw [List.length_cons] at enough
  obtain ⟨n, rfl⟩ : ∃ m, n = m + 1 := ⟨n - 1, by omega⟩
  rw [expr, bind_run, reads rest ends n (by rw [List.length_cons]; omega)]
  rfl

/-! ### Operands -/

theorem primary_paren {t : Token} (here : t.lexeme = .punct .lparen) (n : Nat) (ts : List Token) :
    primary (n + 1) (t :: ts) = (do
      let e ← expr n
      expectPunct .rparen "Expected ')' after expression."
      return e : Parse Expr) ts := by
  obtain ⟨_, span⟩ := t
  cases here
  rfl

theorem primary_list {t : Token} (here : t.lexeme = .punct .lbracket) (n : Nat) (ts : List Token) :
    primary (n + 1) (t :: ts) = (do
      let es ← exprsUntil n .rbracket
      expectPunct .rbracket "Expected ']' after list elements."
      return .list (at_ t.span) es : Parse Expr) ts := by
  obtain ⟨_, span⟩ := t
  cases here
  rfl

theorem primary_map {t : Token} (here : t.lexeme = .punct .lbrace) (n : Nat) (ts : List Token) :
    primary (n + 1) (t :: ts) = (do
      let es ← entriesUntil n
      expectPunct .rbrace "Expected '\x7d' after map entries."
      return .map (at_ t.span) es : Parse Expr) ts := by
  obtain ⟨_, span⟩ := t
  cases here
  rfl

theorem primary_new {t : Token} (here : t.lexeme = .keyword .new_) (n : Nat) (ts : List Token) :
    primary (n + 1) (t :: ts) = (do
      let cls ← expectName "Expected class name after 'new'."
      expectPunct .lparen "Expected '(' after class name."
      return .new_ (at_ t.span) cls (← args n) : Parse Expr) ts := by
  obtain ⟨_, span⟩ := t
  cases here
  rfl

theorem primary_funcRef {t : Token} (here : t.lexeme = .punct .amp) (n : Nat) (ts : List Token) :
    primary (n + 1) (t :: ts) = (do
      return .funcRef (at_ t.span) (← expectName "Expected function name after '&'.") : Parse Expr)
      ts := by
  obtain ⟨_, span⟩ := t
  cases here
  rfl

theorem primary_super {t d : Token} (here : t.lexeme = .keyword .super)
    (dot : d.lexeme = .punct .dot) (n : Nat) (ts : List Token) :
    primary (n + 1) (t :: d :: ts) = .ok (.super (at_ t.span), d :: ts) := by
  obtain ⟨_, span⟩ := t
  obtain ⟨_, after⟩ := d
  cases here
  cases dot
  rfl

theorem primary_number {t : Token} {v : Int64} (here : t.lexeme = .number v) (n : Nat)
    (ts : List Token) : primary (n + 1) (t :: ts) = .ok (.number (at_ t.span) v, ts) := by
  obtain ⟨_, span⟩ := t
  cases here
  rfl

theorem primary_str {t : Token} {s : String} (here : t.lexeme = .text s) (n : Nat) (ts : List Token) :
    primary (n + 1) (t :: ts) = .ok (.str (at_ t.span) s, ts) := by
  obtain ⟨_, span⟩ := t
  cases here
  rfl

theorem primary_true {t : Token} (here : t.lexeme = .keyword .true_) (n : Nat) (ts : List Token) :
    primary (n + 1) (t :: ts) = .ok (.bool (at_ t.span) true, ts) := by
  obtain ⟨_, span⟩ := t
  cases here
  rfl

theorem primary_false {t : Token} (here : t.lexeme = .keyword .false_) (n : Nat) (ts : List Token) :
    primary (n + 1) (t :: ts) = .ok (.bool (at_ t.span) false, ts) := by
  obtain ⟨_, span⟩ := t
  cases here
  rfl

theorem startsOperand_ofName {l : Lexeme} {name : String} (here : l = .ofName name) :
    startsOperand l := by
  rw [here, Lexeme.ofName]
  split <;> rfl

theorem primary_ident {t : Token} {name : String} (here : t.lexeme = .ofName name) (n : Nat)
    (ts : List Token) : primary (n + 1) (t :: ts) = .ok (.ident (at_ t.span) name, ts) := by
  obtain ⟨_, span⟩ := t
  simp only [Lexeme.ofName] at here
  split at here <;> subst here
  · next isThis => subst isThis; rfl
  · rfl

theorem Operand.of_primary {ts : List Token} {e : Expr}
    (starts : ∃ t us, ts = t :: us ∧ startsOperand t.lexeme) (folded : e.fold = e)
    (reads : ∀ rest n, 10 * ts.length ≤ n + 9 → primary (n + 1) (ts ++ rest) = .ok (e, rest)) :
    Operand ts e.erase := by
  refine ⟨starts, e, folded, rfl, fun rest depth result _ go n enough => ?_⟩
  have pos : 1 ≤ ts.length := by
    obtain ⟨t, us, rfl, -⟩ := starts
    simp
  obtain ⟨n, rfl⟩ : ∃ m, n = m + 2 := ⟨n - 2, by omega⟩
  rw [postfixExpr, bind_run, reads rest n (by omega)]
  exact go (n + 1) (by omega)

/-- An operand of one token. -/
theorem Operand.of_token {t : Token} {e x : Expr}
    (reads : ∀ n rest, primary (n + 1) (t :: rest) = .ok (e, rest)) (starts : startsOperand t.lexeme)
    (folded : e.fold = e) (erased : e.erase = x) : Operand [t] x :=
  erased ▸ .of_primary ⟨t, [], rfl, starts⟩ folded fun rest n _ => reads n rest

/-- A whole expression in parentheses. -/
theorem Whole.enclosed {ts : List Token} {x : Expr} (whole : Whole ts x) {l r : Token}
    (left : l.lexeme = .punct .lparen) (right : r.lexeme = .punct .rparen) :
    Operand (l :: (ts ++ [r])) x := by
  obtain ⟨e, folded, rfl, reads⟩ := whole.reads
  refine .of_primary ⟨l, ts ++ [r], rfl, by rw [left]; rfl⟩ folded fun rest n enough => ?_
  simp only [List.length_cons, List.length_append, List.length_nil] at enough
  have inside := reads (r :: rest) (ends_of_none (by rw [right]; rfl) 0 rest) n (by omega)
  rw [List.cons_append, primary_paren left]
  simp only [bind_run, List.append_assoc, List.cons_append, List.nil_append, inside, expectPunct,
    expect_run right, pure_run]

/-- What follows an operand directly makes a longer operand of it. -/
theorem Operand.extend {ts more : List Token} {x : Expr} {next : Expr → Expr} (operand : Operand ts x)
    (some_ : more ≠ []) (noCall : (front more).lexeme ≠ .punct .lparen)
    (folded : ∀ e, (next e).fold = next e)
    (reads : ∀ e : Expr, e.erase = x → ∀ rest n, (front rest).lexeme ≠ .punct .lparen →
      10 * more.length ≤ n + 1 →
      postfixRest (n + 1) e (more ++ rest) = postfixRest n (next e) rest) :
    ∃ e : Expr, e.erase = x ∧ Operand (ts ++ more) (next e).erase := by
  obtain ⟨e, -, erased, continues⟩ := operand.reads
  obtain ⟨t, us, rfl, starts⟩ := operand.starts
  obtain ⟨m, ms, rfl⟩ := List.exists_cons_of_ne_nil some_
  refine ⟨e, erased, ⟨t, us ++ m :: ms, rfl, starts⟩, next e, folded e, rfl, ?_⟩
  intro rest depth result open_ go n enough
  rw [List.length_append] at enough
  rw [List.append_assoc]
  refine continues (m :: ms ++ rest) (depth + 10 * (m :: ms).length) result noCall (fun n deep => ?_) n
    (by omega)
  rw [List.length_cons] at deep
  obtain ⟨n, rfl⟩ : ∃ m, n = m + 1 := ⟨n - 1, by omega⟩
  rw [reads e erased rest n open_ (by rw [List.length_cons]; omega)]
  exact go n (by omega)

theorem Operand.member {ts : List Token} {x : Expr} (operand : Operand ts x) (free : x ≠ .super default)
    {dot id : Token} {name : String} (isDot : dot.lexeme = .punct .dot)
    (isName : id.lexeme = .ident name) : Operand (ts ++ [dot, id]) (.member default x name) := by
  have step (e : Expr) (erased : e.erase = x) (rest : List Token) (n : Nat)
      (open_ : (front rest).lexeme ≠ .punct .lparen) (_ : 10 * [dot, id].length ≤ n + 1) :
      postfixRest (n + 1) e ([dot, id] ++ rest) =
        postfixRest n (.member (at_ dot.span) e name) rest := by
    simp only [postfixRest, bind_run, peek_run, List.cons_append, front_cons, isDot, advance_run,
      List.tail_cons, expectName_run isName, acceptPunct, List.nil_append, accept_of_ne open_]
    cases e <;> first | rfl | exact absurd erased.symm free
  obtain ⟨e, erased, extended⟩ := operand.extend (by simp) (by simp [isDot]) (fun _ => rfl) step
  simpa [Expr.erase, erased] using extended

theorem Operand.index {ts us : List Token} {x y : Expr} (operand : Operand ts x) (key : Whole us y)
    {l r : Token} (left : l.lexeme = .punct .lbracket) (right : r.lexeme = .punct .rbracket) :
    Operand (ts ++ l :: (us ++ [r])) (.index default x y) := by
  obtain ⟨k, -, keyErased, keyReads⟩ := key.reads
  have step (e : Expr) (_ : e.erase = x) (rest : List Token) (n : Nat)
      (_ : (front rest).lexeme ≠ .punct .lparen) (enough : 10 * (l :: (us ++ [r])).length ≤ n + 1) :
      postfixRest (n + 1) e (l :: (us ++ [r]) ++ rest) =
        postfixRest n (.index (at_ l.span) e k) rest := by
    simp only [List.length_cons, List.length_append, List.length_nil] at enough
    have inside := keyReads (r :: rest) (ends_of_none (by rw [right]; rfl) 0 rest) n (by omega)
    simp only [postfixRest, bind_run, peek_run, List.cons_append, front_cons, left, advance_run,
      List.tail_cons, List.append_assoc, List.nil_append, inside, expectPunct, expect_run right]
  obtain ⟨e, erased, extended⟩ := operand.extend (by simp) (by simp [left]) (fun _ => rfl) step
  simpa [Expr.erase, erased, keyErased] using extended

theorem Operand.stepped {ts : List Token} {x : Expr} (operand : Operand ts x) (target : x.isLValue)
    {t : Token} {op : StepOp} (here : t.lexeme = .punct op.mark) :
    Operand (ts ++ [t]) (.step default op false x) := by
  have step (e : Expr) (erased : e.erase = x) (rest : List Token) (n : Nat)
      (_ : (front rest).lexeme ≠ .punct .lparen) (_ : 10 * [t].length ≤ n + 1) :
      postfixRest (n + 1) e ([t] ++ rest) = postfixRest n (.step (at_ t.span) op false e) rest := by
    have lvalue : e.isLValue := by rw [← Expr.isLValue_erase, erased, target]
    cases op <;>
      simp only [postfixRest, bind_run, peek_run, List.cons_append, front_cons, here, StepOp.mark,
        stepOp?, lvalue, if_true, advance_run, List.tail_cons, List.nil_append]
  obtain ⟨e, erased, extended⟩ :=
    operand.extend (by simp) (by rw [front_cons, here]; cases op <;> simp [StepOp.mark]) (fun _ => rfl)
      step
  simpa [Expr.erase, erased] using extended

/-! ### Lists of expressions -/

/-- The marks that end a list. -/
def closes : Punct → Bool
  | .rparen | .rbracket | .rbrace => true
  | _ => false

theorem ends_of_closes {close : Punct} (is : closes close) {t : Token} (here : t.lexeme = .punct close)
    (level : Nat) (ts : List Token) : Ends level (t :: ts) := by
  refine ends_of_none ?_ level ts
  rw [here]
  cases close <;> first | rfl | cases is

/-- An expression does not start with what ends a list. -/
theorem Whole.front_ne {ts : List Token} {x : Expr} (whole : Whole ts x) {close : Punct}
    (is : closes close) (rest : List Token) : (front (ts ++ rest)).lexeme ≠ .punct close := by
  obtain ⟨t, us, rfl, starts⟩ := whole.starts
  intro here
  rw [List.cons_append, front_cons] at here
  rw [here] at starts
  cases close <;> first | exact Bool.noConfusion is | exact Bool.noConfusion starts

/-- Tokens between an opening mark and the given closing mark, read as expressions. -/
def Items (close : Punct) (us : List Token) (xs : List Expr) : Prop :=
  ∃ es, eraseExprs es = xs ∧ ∀ (t : Token) rest, t.lexeme = .punct close → ∀ n, 10 * us.length < n →
    exprsUntil n close (us ++ t :: rest) = .ok (es, t :: rest)

theorem items_nil (close : Punct) : Items close [] [] := by
  refine ⟨[], rfl, fun t rest here n enough => ?_⟩
  obtain ⟨n, rfl⟩ : ∃ m, n = m + 1 := ⟨n - 1, by omega⟩
  simp [exprsUntil, bind_run, nextIsPunct, nextIs_run, here, pure_run]

theorem Whole.items {ts : List Token} {x : Expr} (whole : Whole ts x) {close : Punct}
    (is : closes close) : Items close ts [x] := by
  obtain ⟨e, -, erased, reads⟩ := whole.reads
  refine ⟨[e], by simp [eraseExprs, erased], fun c rest here n enough => ?_⟩
  obtain ⟨n, rfl⟩ : ∃ m, n = m + 1 := ⟨n - 1, by omega⟩
  have first := reads (c :: rest) (ends_of_closes is here 0 rest) n (by omega)
  have goesOn := whole.front_ne is (c :: rest)
  have noComma : (front (c :: rest)).lexeme ≠ .punct .comma := by
    rw [front_cons, here]
    cases close <;> simp [closes] at is ⊢
  simp only [exprsUntil, bind_run, nextIsPunct, nextIs_of_ne goesOn, Bool.false_eq_true, if_false, first,
    acceptPunct, accept_of_ne noComma, pure_run]

theorem Whole.items_cons {ts us : List Token} {x : Expr} {xs : List Expr} (whole : Whole ts x)
    {close : Punct} (is : closes close) (rest : Items close us xs) {comma : Token}
    (isComma : comma.lexeme = .punct .comma) : Items close (ts ++ comma :: us) (x :: xs) := by
  obtain ⟨e, -, erased, reads⟩ := whole.reads
  obtain ⟨es, othersErased, others⟩ := rest
  refine ⟨e :: es, by simp [eraseExprs, erased, othersErased], fun c rest here n enough => ?_⟩
  simp only [List.length_append, List.length_cons] at enough
  obtain ⟨n, rfl⟩ : ∃ m, n = m + 1 := ⟨n - 1, by omega⟩
  have first := reads (comma :: (us ++ c :: rest)) (ends_of_none (by rw [isComma]; rfl) 0 _) n (by omega)
  have goesOn := whole.front_ne is (comma :: (us ++ c :: rest))
  simp only [List.cons_append, List.append_assoc]
  simp only [exprsUntil, bind_run, nextIsPunct, nextIs_of_ne goesOn, Bool.false_eq_true, if_false, first,
    acceptPunct, accept_of_eq isComma, if_true, others c rest here n (by omega), pure_run]

/-- Tokens between the braces of a map literal, read as its entries. -/
def Entries (us : List Token) (xs : List (Expr × Expr)) : Prop :=
  ∃ es, eraseEntries es = xs ∧ ∀ (t : Token) rest, t.lexeme = .punct .rbrace →
    ∀ n, 10 * us.length < n → entriesUntil n (us ++ t :: rest) = .ok (es, t :: rest)

theorem entries_nil : Entries [] [] := by
  refine ⟨[], rfl, fun t rest here n enough => ?_⟩
  obtain ⟨n, rfl⟩ : ∃ m, n = m + 1 := ⟨n - 1, by omega⟩
  simp [entriesUntil, bind_run, nextIsPunct, nextIs_run, here, pure_run]

theorem Whole.entries {ts us : List Token} {x y : Expr} (key : Whole ts x) (value : Whole us y)
    {colon : Token} (isColon : colon.lexeme = .punct .colon) :
    Entries (ts ++ colon :: us) [(x, y)] := by
  obtain ⟨k, -, keyErased, readsKey⟩ := key.reads
  obtain ⟨v, -, valueErased, readsValue⟩ := value.reads
  refine ⟨[(k, v)], by simp [eraseEntries, keyErased, valueErased], fun c rest here n enough => ?_⟩
  simp only [List.length_append, List.length_cons] at enough
  obtain ⟨n, rfl⟩ : ∃ m, n = m + 1 := ⟨n - 1, by omega⟩
  have first := readsKey (colon :: (us ++ c :: rest)) (ends_of_none (by rw [isColon]; rfl) 0 _) n
    (by omega)
  have second := readsValue (c :: rest) (ends_of_none (by rw [here]; rfl) 0 _) n (by omega)
  have goesOn := key.front_ne (show closes .rbrace from rfl) (colon :: (us ++ c :: rest))
  simp only [List.cons_append, List.append_assoc]
  have noComma : (front (c :: rest)).lexeme ≠ .punct .comma := by simp [here]
  simp only [entriesUntil, bind_run, nextIsPunct, nextIs_of_ne goesOn, Bool.false_eq_true, if_false,
    first, expectPunct, expect_run isColon, second, acceptPunct, accept_of_ne noComma, pure_run]

theorem Whole.entries_cons {ts us vs : List Token} {x y : Expr} {xs : List (Expr × Expr)}
    (key : Whole ts x) (value : Whole us y) (rest : Entries vs xs) {colon comma : Token}
    (isColon : colon.lexeme = .punct .colon) (isComma : comma.lexeme = .punct .comma) :
    Entries (ts ++ colon :: (us ++ comma :: vs)) ((x, y) :: xs) := by
  obtain ⟨k, -, keyErased, readsKey⟩ := key.reads
  obtain ⟨v, -, valueErased, readsValue⟩ := value.reads
  obtain ⟨es, othersErased, others⟩ := rest
  refine ⟨(k, v) :: es, by simp [eraseEntries, keyErased, valueErased, othersErased],
    fun c rest here n enough => ?_⟩
  simp only [List.length_append, List.length_cons] at enough
  obtain ⟨n, rfl⟩ : ∃ m, n = m + 1 := ⟨n - 1, by omega⟩
  have first := readsKey (colon :: (us ++ comma :: (vs ++ c :: rest)))
    (ends_of_none (by rw [isColon]; rfl) 0 _) n (by omega)
  have second := readsValue (comma :: (vs ++ c :: rest)) (ends_of_none (by rw [isComma]; rfl) 0 _) n
    (by omega)
  have goesOn := key.front_ne (show closes .rbrace from rfl) (colon :: (us ++ comma :: (vs ++ c :: rest)))
  simp only [List.cons_append, List.append_assoc]
  simp only [entriesUntil, bind_run, nextIsPunct, nextIs_of_ne goesOn, Bool.false_eq_true, if_false,
    first, expectPunct, expect_run isColon, second, acceptPunct, accept_of_eq isComma, if_true,
    others c rest here n (by omega), pure_run]

/-- Arguments with their closing parenthesis. -/
theorem Items.args {us : List Token} {xs : List Expr} (items : Items .rparen us xs) :
    ∃ es, eraseExprs es = xs ∧ ∀ (r : Token) rest, r.lexeme = .punct .rparen →
      ∀ n, 10 * us.length + 1 < n → args n (us ++ r :: rest) = .ok (es, rest) := by
  obtain ⟨es, erased, reads⟩ := items
  refine ⟨es, erased, fun r rest right n enough => ?_⟩
  obtain ⟨n, rfl⟩ : ∃ m, n = m + 1 := ⟨n - 1, by omega⟩
  simp only [Parser.args, bind_run, reads r rest right n (by omega), expectPunct, expect_run right,
    pure_run]

theorem Operand.call {id l r : Token} {callee : String} (isName : id.lexeme = .ofName callee)
    (left : l.lexeme = .punct .lparen) (right : r.lexeme = .punct .rparen) {us : List Token}
    {xs : List Expr} (items : Items .rparen us xs) :
    Operand (id :: l :: (us ++ [r])) (.call default callee xs) := by
  obtain ⟨es, rfl, reads⟩ := items.args
  refine ⟨⟨id, _, rfl, startsOperand_ofName isName⟩, .call (at_ id.span) callee es, rfl, rfl, ?_⟩
  intro rest depth result _ go n enough
  simp only [List.length_cons, List.length_append, List.length_nil] at enough
  obtain ⟨n, rfl⟩ : ∃ m, n = m + 3 := ⟨n - 3, by omega⟩
  have inside := reads r rest right (n + 1) (by omega)
  rw [postfixExpr, bind_run, List.cons_append, primary_ident isName]
  dsimp only
  rw [postfixRest]
  simp only [bind_run, peek_run, List.cons_append, front_cons, left, advance_run, List.tail_cons,
    List.append_assoc, List.nil_append, inside]
  exact go (n + 1) (by omega)

theorem Operand.method {ts : List Token} {x : Expr} (operand : Operand ts x) {dot id l r : Token}
    {name : String} (isDot : dot.lexeme = .punct .dot) (isName : id.lexeme = .ident name)
    (left : l.lexeme = .punct .lparen) (right : r.lexeme = .punct .rparen) {us : List Token}
    {xs : List Expr} (items : Items .rparen us xs) :
    Operand (ts ++ dot :: id :: l :: (us ++ [r])) (.method default x name xs) := by
  obtain ⟨es, argsErased, reads⟩ := items.args
  have step (e : Expr) (_ : e.erase = x) (rest : List Token) (n : Nat)
      (_ : (front rest).lexeme ≠ .punct .lparen)
      (enough : 10 * (dot :: id :: l :: (us ++ [r])).length ≤ n + 1) :
      postfixRest (n + 1) e (dot :: id :: l :: (us ++ [r]) ++ rest) =
        postfixRest n (.method (at_ dot.span) e name es) rest := by
    simp only [List.length_cons, List.length_append, List.length_nil] at enough
    simp only [postfixRest, bind_run, peek_run, List.cons_append, front_cons, isDot, advance_run,
      List.tail_cons, expectName_run isName, acceptPunct, accept_of_eq left, if_true, List.append_assoc,
      List.nil_append, reads r rest right n (by omega)]
  obtain ⟨e, erased, extended⟩ := operand.extend (by simp) (by simp [isDot]) (fun _ => rfl) step
  simpa [Expr.erase, erased, argsErased] using extended

/-- A call of an inherited method. The receiver is no operand of its own. -/
theorem Operand.inherited {sup dot id l r : Token} {name : String} (isSuper : sup.lexeme = .keyword .super)
    (isDot : dot.lexeme = .punct .dot) (isName : id.lexeme = .ident name)
    (left : l.lexeme = .punct .lparen) (right : r.lexeme = .punct .rparen) {us : List Token}
    {xs : List Expr} (items : Items .rparen us xs) :
    Operand (sup :: dot :: id :: l :: (us ++ [r])) (.method default (.super default) name xs) := by
  obtain ⟨es, rfl, reads⟩ := items.args
  refine ⟨⟨sup, _, rfl, by rw [isSuper]; rfl⟩, .method (at_ dot.span) (.super (at_ sup.span)) name es,
    rfl, rfl, ?_⟩
  intro rest depth result _ go n enough
  simp only [List.length_cons, List.length_append, List.length_nil] at enough
  obtain ⟨n, rfl⟩ : ∃ m, n = m + 3 := ⟨n - 3, by omega⟩
  have inside := reads r rest right (n + 1) (by omega)
  rw [postfixExpr, bind_run, List.cons_append, List.cons_append, primary_super isSuper isDot]
  dsimp only
  rw [postfixRest]
  simp only [bind_run, peek_run, List.cons_append, front_cons, isDot, advance_run, List.tail_cons,
    expectName_run isName, acceptPunct, accept_of_eq left, if_true, List.append_assoc, List.nil_append,
    inside]
  exact go (n + 1) (by omega)

theorem Operand.new_ {word id l r : Token} {cls : String} (isNew : word.lexeme = .keyword .new_)
    (isName : id.lexeme = .ident cls) (left : l.lexeme = .punct .lparen)
    (right : r.lexeme = .punct .rparen) {us : List Token} {xs : List Expr}
    (items : Items .rparen us xs) :
    Operand (word :: id :: l :: (us ++ [r])) (.new_ default cls xs) := by
  obtain ⟨es, rfl, reads⟩ := items.args
  have read (rest : List Token) (n : Nat)
      (enough : 10 * (word :: id :: l :: (us ++ [r])).length ≤ n + 9) :
      primary (n + 1) (word :: id :: l :: (us ++ [r]) ++ rest) =
        .ok (.new_ (at_ word.span) cls es, rest) := by
    simp only [List.length_cons, List.length_append, List.length_nil] at enough
    rw [List.cons_append, primary_new isNew]
    simp only [bind_run, List.cons_append, expectName_run isName, expectPunct, expect_run left,
      List.append_assoc, List.nil_append, reads r rest right n (by omega), pure_run]
  exact .of_primary ⟨word, _, rfl, by rw [isNew]; rfl⟩ rfl read

theorem Operand.list {l r : Token} (left : l.lexeme = .punct .lbracket)
    (right : r.lexeme = .punct .rbracket) {us : List Token} {xs : List Expr}
    (items : Items .rbracket us xs) : Operand (l :: (us ++ [r])) (.list default xs) := by
  obtain ⟨es, rfl, reads⟩ := items
  have read (rest : List Token) (n : Nat) (enough : 10 * (l :: (us ++ [r])).length ≤ n + 9) :
      primary (n + 1) (l :: (us ++ [r]) ++ rest) = .ok (.list (at_ l.span) es, rest) := by
    simp only [List.length_cons, List.length_append, List.length_nil] at enough
    rw [List.cons_append, primary_list left]
    simp only [bind_run, List.append_assoc, List.cons_append, List.nil_append,
      reads r rest right n (by omega), expectPunct, expect_run right, pure_run]
  exact .of_primary ⟨l, _, rfl, by rw [left]; rfl⟩ rfl read

theorem Operand.map {l r : Token} (left : l.lexeme = .punct .lbrace)
    (right : r.lexeme = .punct .rbrace) {us : List Token} {xs : List (Expr × Expr)}
    (entries : Entries us xs) : Operand (l :: (us ++ [r])) (.map default xs) := by
  obtain ⟨es, rfl, reads⟩ := entries
  have read (rest : List Token) (n : Nat) (enough : 10 * (l :: (us ++ [r])).length ≤ n + 9) :
      primary (n + 1) (l :: (us ++ [r]) ++ rest) = .ok (.map (at_ l.span) es, rest) := by
    simp only [List.length_cons, List.length_append, List.length_nil] at enough
    rw [List.cons_append, primary_map left]
    simp only [bind_run, List.append_assoc, List.cons_append, List.nil_append,
      reads r rest right n (by omega), expectPunct, expect_run right, pure_run]
  exact .of_primary ⟨l, _, rfl, by rw [left]; rfl⟩ rfl read

theorem Operand.funcRef {amp id : Token} {name : String} (isAmp : amp.lexeme = .punct .amp)
    (isName : id.lexeme = .ident name) : Operand [amp, id] (.funcRef default name) := by
  have read (rest : List Token) (n : Nat) (_ : 10 * [amp, id].length ≤ n + 9) :
      primary (n + 1) ([amp, id] ++ rest) = .ok (.funcRef (at_ amp.span) name, rest) := by
    rw [List.cons_append, primary_funcRef isAmp]
    simp only [bind_run, List.cons_append, List.nil_append, expectName_run isName, pure_run]
  exact .of_primary ⟨amp, _, rfl, by rw [isAmp]; rfl⟩ rfl read

/-! ### Operators -/

theorem Prefixed.unary {ts : List Token} {x : Expr} (prefixed : Prefixed ts x) {t : Token} {op : UnaryOp}
    (here : t.lexeme = .punct op.mark) : Prefixed (t :: ts) (Expr.foldUnary default op x) := by
  obtain ⟨e, rfl, reads⟩ := prefixed.reads
  refine ⟨⟨t, ts, rfl, by rw [here]; cases op <;> rfl⟩, .unary (at_ t.span) op e, ?_, ?_⟩
  · rw [Expr.fold_unary, Expr.erase_foldUnary]
  · intro rest ends n enough
    rw [List.length_cons] at enough
    obtain ⟨n, rfl⟩ : ∃ m, n = m + 1 := ⟨n - 1, by omega⟩
    have operand := reads rest ends n (by omega)
    cases op <;>
      simp only [UnaryOp.mark] at here <;>
      simp only [Parser.unary, bind_run, peek_run, List.cons_append, front_cons, here, advance_run,
        List.tail_cons, operand, pure_run]

theorem Operand.prestepped {ts : List Token} {x : Expr} (operand : Operand ts x) (target : x.isLValue)
    {t : Token} {op : StepOp} (here : t.lexeme = .punct op.mark) :
    Prefixed (t :: ts) (.step default op true x) := by
  obtain ⟨e, -, rfl, reads⟩ := operand.unary
  rw [Expr.isLValue_erase] at target
  refine ⟨⟨t, ts, rfl, by rw [here]; cases op <;> rfl⟩, .step (at_ t.span) op true e, rfl, ?_⟩
  intro rest ends n enough
  rw [List.length_cons] at enough
  obtain ⟨n, rfl⟩ : ∃ m, n = m + 1 := ⟨n - 1, by omega⟩
  have operand := reads rest ends n (by omega)
  cases op <;>
    simp only [StepOp.mark] at here <;>
    simp only [Parser.unary, bind_run, peek_run, List.cons_append, front_cons, here, stepOp?,
      advance_run, List.tail_cons, operand, target, if_true, pure_run]

theorem Operand.power {ts us : List Token} {x y : Expr} (base : Operand ts x) (exponent : Prefixed us y)
    {t : Token} (here : t.lexeme = .punct .caret) :
    Prefixed (ts ++ t :: us) (Expr.foldBinary default .pow x y) := by
  obtain ⟨b, baseFolded, rfl, readsBase⟩ := base.reads
  obtain ⟨e, rfl, readsExponent⟩ := exponent.reads
  obtain ⟨first, others, rfl, starts⟩ := base.starts
  refine ⟨⟨first, _, rfl, startsExpr_of_startsOperand starts⟩, .binary (at_ t.span) .pow b e, ?_, ?_⟩
  · rw [Expr.fold_binary, Expr.erase_foldBinary, baseFolded]
  · intro rest ends n enough
    simp only [List.length_cons, List.length_append] at enough
    obtain ⟨n, rfl⟩ : ∃ m, n = m + 2 := ⟨n - 2, by omega⟩
    have ends9 : Ends 9 (t :: (us ++ rest)) := fun k joins => by
      simp only [front_cons, here, joins?, Option.some.injEq] at joins
      omega
    have left := readsBase (t :: (us ++ rest)) 1 _ (by simp [here])
      (fun n pos => postfixRest_ends ends9 pos) n (by rw [List.length_cons]; omega)
    have right := readsExponent rest ends n (by omega)
    rw [List.append_assoc, List.cons_append, unary_operand starts, powerExpr]
    rw [List.cons_append] at left
    simp only [bind_run, List.cons_append, left, peek_run, acceptPunct, accept_of_eq here, if_true,
      right, pure_run, front_cons]

theorem Joined.binary {op : BinaryOp} (noPower : op ≠ .pow) {ts us : List Token} {x y : Expr}
    (left : Joined op.level ts x) (right : Joined (op.level + 1) us y) {t : Token}
    (here : t.lexeme = .punct op.mark) :
    Joined op.level (ts ++ t :: us) (Expr.foldBinary default op x y) := by
  obtain ⟨l, rfl, readsLeft⟩ := left.reads
  obtain ⟨r, rfl, readsRight⟩ := right.alone
  obtain ⟨first, others, rfl, starts⟩ := left.starts
  refine ⟨⟨first, _, rfl, starts⟩, .binary (at_ t.span) op l r, ?_, ?_⟩
  · rw [Expr.fold_binary, Expr.erase_foldBinary]
  · intro least rest depth result small ends below go n enough
    simp only [List.length_cons, List.length_append] at enough
    have joinsHere (k : Nat) (joins : joins? (front (t :: (us ++ rest))).lexeme = some k) :
        k = op.level := by
      rw [front_cons, here, joins?_mark] at joins
      exact (Option.some.inj joins).symm
    have ends7 : Ends 7 (t :: (us ++ rest)) := fun k joins => by
      rw [joinsHere k joins]
      cases op <;> first | contradiction | decide
    rw [List.append_assoc]
    refine readsLeft least (t :: us ++ rest) (depth + 10 * (us.length + 1)) result small ends7
      (fun k joins => by rw [joinsHere k joins]; omega) (fun n deep => ?_) n
      (by rw [List.length_cons]; omega)
    obtain ⟨n, rfl⟩ : ∃ m, n = m + 1 := ⟨n - 1, by omega⟩
    have operand := readsRight rest ends below n (by omega)
    rw [binaryRest, bind_run, peek_run]
    simp only [List.cons_append, front_cons, here, binaryOp?_mark noPower, if_neg (not_lt.mpr small),
      bind_run, advance_run, List.tail_cons, operand]
    exact go n (by omega)

theorem Choice.ternary {ts us vs : List Token} {x y z : Expr} (cond : Joined 1 ts x)
    (onTrue : Whole us y) (onFalse : Choice vs z) {q c : Token} (question : q.lexeme = .punct .question)
    (colon : c.lexeme = .punct .colon) :
    Choice (ts ++ q :: (us ++ c :: vs)) (Expr.foldChoice default x y z) := by
  obtain ⟨e, rfl, readsCond⟩ := cond.alone
  obtain ⟨a, aFolded, rfl, readsTrue⟩ := onTrue.reads
  obtain ⟨b, rfl, readsFalse⟩ := onFalse.reads
  obtain ⟨first, others, rfl, starts⟩ := cond.starts
  refine ⟨⟨first, _, rfl, starts⟩, .ternary (at_ q.span) e a b, ?_, ?_⟩
  · rw [Expr.fold_ternary, Expr.erase_foldChoice, aFolded]
  · intro rest ends n enough
    simp only [List.length_cons, List.length_append] at enough
    obtain ⟨n, rfl⟩ : ∃ m, n = m + 1 := ⟨n - 1, by omega⟩
    have ends1 : Ends 1 (q :: (us ++ c :: (vs ++ rest))) := fun k joins => by
      simp only [front_cons, question, joins?, Option.some.injEq] at joins
      omega
    have first := readsCond (q :: (us ++ c :: (vs ++ rest))) (ends1.mono (by omega)) ends1 n
      (by rw [List.length_cons]; omega)
    have second := readsTrue (c :: (vs ++ rest)) (ends_of_none (by rw [colon]; rfl) 0 _) n (by omega)
    have third := readsFalse rest ends n (by omega)
    rw [Parser.ternary]
    simp only [List.append_assoc, List.cons_append] at first ⊢
    simp only [bind_run, first, peek_run, acceptPunct, accept_of_eq question, if_true, second,
      expectPunct, expect_run colon, third, pure_run, front_cons]

/-! ## Reading what is written -/

/-- The tokens are read as an expression of the given level. -/
def ReadsAt (level : Nat) (ts : List Token) (x : Expr) : Prop :=
  if level = 0 then Choice ts x
  else if level ≤ 6 then Joined level ts x
  else if level ≤ 8 then Prefixed ts x
  else Operand ts x

namespace ReadsAt

variable {level : Nat} {ts : List Token} {x : Expr}

theorem operand (reads : ReadsAt level ts x) (tight : 9 ≤ level) : Operand ts x := by
  rwa [ReadsAt, if_neg (by omega), if_neg (by omega), if_neg (by omega)] at reads

theorem prefixed (reads : ReadsAt level ts x) (tight : 7 ≤ level) : Prefixed ts x := by
  by_cases le : level ≤ 8
  · rwa [ReadsAt, if_neg (by omega), if_neg (by omega), if_pos le] at reads
  · exact (reads.operand (by omega)).prefixed

theorem joined (reads : ReadsAt level ts x) {least : Nat} (pos : 1 ≤ least) (tight : least ≤ level) :
    Joined least ts x := by
  by_cases le : level ≤ 6
  · rw [ReadsAt, if_neg (by omega), if_pos le] at reads
    exact reads.loosen tight
  · exact (reads.prefixed (by omega)).joined least

theorem choice (reads : ReadsAt level ts x) : Choice ts x := by
  by_cases zero : level = 0
  · rwa [ReadsAt, if_pos zero] at reads
  · exact (reads.joined le_rfl (by omega)).choice

end ReadsAt

theorem ReadsAt.of_joined {level : Nat} {ts : List Token} {x : Expr} (pos : 1 ≤ level) (le : level ≤ 6)
    (joined : Joined level ts x) : ReadsAt level ts x := by
  rwa [ReadsAt, if_neg (by omega), if_pos le]

theorem map_eq_snoc {ts : List Token} {ls : List Lexeme} {l : Lexeme}
    (written : ts.map Token.lexeme = ls ++ [l]) :
    ∃ (us : List Token) (t : Token), ts = us ++ [t] ∧ us.map Token.lexeme = ls ∧ t.lexeme = l := by
  obtain ⟨us, vs, rfl, init, last⟩ := List.map_eq_append_iff.mp written
  obtain ⟨t, rfl, here⟩ := List.map_eq_singleton_iff.mp last
  exact ⟨us, t, rfl, init, here⟩

/-- Parentheses, where they are written, make an operand that fits every place. -/
theorem readsAt_enclose {level place : Nat} {ls : List Lexeme} {x : Expr} (fits : place ≤ 9)
    (reads : ∀ ts : List Token, ts.map Token.lexeme = ls → ReadsAt level ts x) {ts : List Token}
    (written : ts.map Token.lexeme = enclose (level < place) ls) :
    ∃ tight, place ≤ tight ∧ ReadsAt tight ts x := by
  by_cases loose : level < place
  · simp only [enclose, loose, decide_true, if_true] at written
    obtain ⟨us, vs, rfl, inner, last⟩ := List.map_eq_append_iff.mp written
    obtain ⟨l, us, rfl, left, inner⟩ := List.map_eq_cons_iff.mp inner
    obtain ⟨r, vs, rfl, right, nil⟩ := List.map_eq_cons_iff.mp last
    obtain rfl := List.map_eq_nil_iff.mp nil
    exact ⟨9, fits, (reads us inner).choice.whole.enclosed left right⟩
  · simp only [enclose, loose, decide_false, Bool.false_eq_true, if_false] at written
    exact ⟨level, by omega, reads ts written⟩

mutual

theorem readsAt_lexemes : (e : Expr) → e.Writable → ∀ ts : List Token,
    ts.map Token.lexeme = e.lexemes → ReadsAt e.level ts e.foldAll.erase
  | .number i v, _, ts, written => by
      obtain ⟨t, rfl, here⟩ := List.map_eq_singleton_iff.mp written
      exact .of_token (primary_number here) (by rw [here]; rfl) rfl rfl
  | .bool i true, _, ts, written => by
      obtain ⟨t, rfl, here⟩ := List.map_eq_singleton_iff.mp written
      exact .of_token (primary_true here) (by rw [here]; rfl) rfl rfl
  | .bool i false, _, ts, written => by
      obtain ⟨t, rfl, here⟩ := List.map_eq_singleton_iff.mp written
      exact .of_token (primary_false here) (by rw [here]; rfl) rfl rfl
  | .str i v, _, ts, written => by
      obtain ⟨t, rfl, here⟩ := List.map_eq_singleton_iff.mp written
      exact .of_token (primary_str here) (by rw [here]; rfl) rfl rfl
  | .ident i name, _, ts, written => by
      obtain ⟨t, rfl, here⟩ := List.map_eq_singleton_iff.mp written
      exact .of_token (primary_ident here) (startsOperand_ofName here) rfl rfl
  | .binary i op l r, writable, ts, written => by
      obtain ⟨us, vs, rfl, left, rest⟩ := List.map_eq_append_iff.mp written
      obtain ⟨t, vs, rfl, here, right⟩ := List.map_eq_cons_iff.mp rest
      rw [Expr.erase_foldAll_binary]
      by_cases power : op = .pow
      · subst power
        obtain ⟨a, tight, first⟩ := readsAt_enclose (by decide) (readsAt_lexemes l writable.1) left
        obtain ⟨b, tight', second⟩ := readsAt_enclose (by decide) (readsAt_lexemes r writable.2) right
        exact (first.operand tight).power (second.prefixed tight') here
      · obtain ⟨leftPlace, rightPlace, pos, le⟩ := BinaryOp.places power
        obtain ⟨a, tight, first⟩ :=
          readsAt_enclose (by omega) (readsAt_lexemes l writable.1) left
        obtain ⟨b, tight', second⟩ :=
          readsAt_enclose (by omega) (readsAt_lexemes r writable.2) right
        exact ReadsAt.of_joined pos le (.binary power (first.joined pos (by omega))
          (second.joined (by omega) (by omega)) here)
  | .unary i op e, writable, ts, written => by
      obtain ⟨t, ts, rfl, here, operand⟩ := List.map_eq_cons_iff.mp written
      obtain ⟨a, tight, reads⟩ := readsAt_enclose (by decide) (readsAt_lexemes e writable) operand
      rw [Expr.erase_foldAll_unary]
      exact (reads.prefixed tight).unary here
  | .ternary i c a b, writable, ts, written => by
      obtain ⟨ts, us, rfl, cond, rest⟩ := List.map_eq_append_iff.mp written
      obtain ⟨q, us, rfl, question, rest⟩ := List.map_eq_cons_iff.mp rest
      obtain ⟨us, vs, rfl, onTrue, rest⟩ := List.map_eq_append_iff.mp rest
      obtain ⟨t, vs, rfl, colon, onFalse⟩ := List.map_eq_cons_iff.mp rest
      obtain ⟨k, tight, reads⟩ := readsAt_enclose (by decide) (readsAt_lexemes c writable.1) cond
      rw [Expr.erase_foldAll_ternary]
      exact .ternary (reads.joined le_rfl tight)
        (readsAt_lexemes a writable.2.1 us onTrue).choice.whole
        (readsAt_lexemes b writable.2.2 vs onFalse).choice question colon
  | .list i es, writable, ts, written => by
      obtain ⟨l, ts, rfl, left, rest⟩ := List.map_eq_cons_iff.mp written
      obtain ⟨us, r, rfl, elems, right⟩ := map_eq_snoc rest
      exact .list left right (items_listed es writable us elems .rbracket rfl)
  | .map i es, writable, ts, written => by
      obtain ⟨l, ts, rfl, left, rest⟩ := List.map_eq_cons_iff.mp written
      obtain ⟨us, r, rfl, entries, right⟩ := map_eq_snoc rest
      exact .map left right (entries_paired es writable us entries)
  | .index i b k, writable, ts, written => by
      obtain ⟨ts, us, rfl, base, rest⟩ := List.map_eq_append_iff.mp written
      obtain ⟨l, us, rfl, left, rest⟩ := List.map_eq_cons_iff.mp rest
      obtain ⟨us, r, rfl, key, right⟩ := map_eq_snoc rest
      obtain ⟨a, tight, reads⟩ := readsAt_enclose le_rfl (readsAt_lexemes b writable.1) base
      exact (reads.operand tight).index (readsAt_lexemes k writable.2 us key).choice.whole left right
  | .member i o name, writable, ts, written => by
      obtain ⟨ts, us, rfl, object, rest⟩ := List.map_eq_append_iff.mp written
      obtain ⟨dot, us, rfl, isDot, rest⟩ := List.map_eq_cons_iff.mp rest
      obtain ⟨id, rfl, isName⟩ := List.map_eq_singleton_iff.mp rest
      obtain ⟨a, tight, reads⟩ := readsAt_enclose le_rfl (readsAt_lexemes o writable) object
      exact (reads.operand tight).member (Expr.erase_foldAll_ne_super writable) isDot isName
  | .call i callee es, writable, ts, written => by
      obtain ⟨id, ts, rfl, isName, rest⟩ := List.map_eq_cons_iff.mp written
      obtain ⟨l, ts, rfl, left, rest⟩ := List.map_eq_cons_iff.mp rest
      obtain ⟨us, r, rfl, items, right⟩ := map_eq_snoc rest
      exact .call isName left right (items_listed es writable us items .rparen rfl)
  | .method i o name es, writable, ts, written => by
      obtain ⟨ts, us, rfl, object, rest⟩ := List.map_eq_append_iff.mp written
      obtain ⟨dot, us, rfl, isDot, rest⟩ := List.map_eq_cons_iff.mp rest
      obtain ⟨id, us, rfl, isName, rest⟩ := List.map_eq_cons_iff.mp rest
      obtain ⟨l, us, rfl, left, rest⟩ := List.map_eq_cons_iff.mp rest
      obtain ⟨us, r, rfl, items, right⟩ := map_eq_snoc rest
      by_cases inherited : ∃ j, o = .super j
      · obtain ⟨j, rfl⟩ := inherited
        obtain ⟨sup, rfl, isSuper⟩ := List.map_eq_singleton_iff.mp object
        exact .inherited isSuper isDot isName left right
          (items_listed es writable us items .rparen rfl)
      · have parts := Expr.writable_of_method writable inherited
        obtain ⟨a, tight, reads⟩ := readsAt_enclose le_rfl (readsAt_lexemes o parts.1) object
        exact (reads.operand tight).method isDot isName left right
          (items_listed es parts.2 us items .rparen rfl)
  | .new_ i cls es, writable, ts, written => by
      obtain ⟨word, ts, rfl, isNew, rest⟩ := List.map_eq_cons_iff.mp written
      obtain ⟨id, ts, rfl, isName, rest⟩ := List.map_eq_cons_iff.mp rest
      obtain ⟨l, ts, rfl, left, rest⟩ := List.map_eq_cons_iff.mp rest
      obtain ⟨us, r, rfl, items, right⟩ := map_eq_snoc rest
      exact .new_ isNew isName left right (items_listed es writable us items .rparen rfl)
  | .super _, writable, _, _ => writable.elim
  | .step i op true t, writable, ts, written => by
      obtain ⟨m, ts, rfl, here, target⟩ := List.map_eq_cons_iff.mp written
      have level := Expr.level_of_isLValue writable.1
      have reads := readsAt_lexemes t writable.2 ts (by simpa [enclose, level] using target)
      exact (reads.operand level.ge).prestepped
        (by rw [Expr.isLValue_erase, Expr.isLValue_foldAll writable.1]) here
  | .step i op false t, writable, ts, written => by
      obtain ⟨ts, us, rfl, target, rest⟩ := List.map_eq_append_iff.mp written
      obtain ⟨m, rfl, here⟩ := List.map_eq_singleton_iff.mp rest
      obtain ⟨a, tight, reads⟩ := readsAt_enclose le_rfl (readsAt_lexemes t writable.2) target
      exact (reads.operand tight).stepped
        (by rw [Expr.isLValue_erase, Expr.isLValue_foldAll writable.1]) here
  | .funcRef i name, _, ts, written => by
      obtain ⟨amp, ts, rfl, isAmp, rest⟩ := List.map_eq_cons_iff.mp written
      obtain ⟨id, rfl, isName⟩ := List.map_eq_singleton_iff.mp rest
      exact .funcRef isAmp isName

theorem items_listed : (es : List Expr) → Expr.WritableAll es → ∀ us : List Token,
    us.map Token.lexeme = Expr.listed es → ∀ close, closes close →
    Items close us (eraseExprs (Expr.foldEach es))
  | [], _, us, written, close, _ => by
      obtain rfl := List.map_eq_nil_iff.mp written
      exact items_nil close
  | [e], writable, us, written, close, is =>
      (readsAt_lexemes e writable.1 us written).choice.whole.items is
  | e :: f :: es, writable, us, written, close, is => by
      obtain ⟨ts, vs, rfl, first, rest⟩ := List.map_eq_append_iff.mp written
      obtain ⟨comma, vs, rfl, isComma, rest⟩ := List.map_eq_cons_iff.mp rest
      exact (readsAt_lexemes e writable.1 ts first).choice.whole.items_cons is
        (items_listed (f :: es) writable.2 vs rest close is) isComma

theorem entries_paired : (es : List (Expr × Expr)) → Expr.WritableEntries es → ∀ us : List Token,
    us.map Token.lexeme = Expr.paired es → Entries us (eraseEntries (Expr.foldEntries es))
  | [], _, us, written => by
      obtain rfl := List.map_eq_nil_iff.mp written
      exact entries_nil
  | [(k, v)], writable, us, written => by
      obtain ⟨ts, vs, rfl, key, rest⟩ := List.map_eq_append_iff.mp written
      obtain ⟨colon, vs, rfl, isColon, value⟩ := List.map_eq_cons_iff.mp rest
      exact (readsAt_lexemes k writable.1 ts key).choice.whole.entries
        (readsAt_lexemes v writable.2.1 vs value).choice.whole isColon
  | (k, v) :: e :: es, writable, us, written => by
      obtain ⟨ts, vs, rfl, key, rest⟩ := List.map_eq_append_iff.mp written
      obtain ⟨colon, vs, rfl, isColon, rest⟩ := List.map_eq_cons_iff.mp rest
      obtain ⟨vs, ws, rfl, value, rest⟩ := List.map_eq_append_iff.mp rest
      obtain ⟨comma, ws, rfl, isComma, rest⟩ := List.map_eq_cons_iff.mp rest
      exact (readsAt_lexemes k writable.1 ts key).choice.whole.entries_cons
        (readsAt_lexemes v writable.2.1 vs value).choice.whole
        (entries_paired (e :: es) writable.2.2 ws rest) isColon isComma

end

/-- Reading inverts writing: whatever tokens an expression is written with, as long as nothing behind
    them goes on with it, exactly these tokens are read, and as the expression with constants folded
    throughout. -/
theorem expr_lexemes (e : Expr) (writable : e.Writable) (ts rest : List Token)
    (written : ts.map Token.lexeme = e.lexemes) (ends : joins? (front rest).lexeme = none) (n : Nat)
    (deep : 10 * ts.length ≤ n) :
    ∃ e', expr n (ts ++ rest) = .ok (e', rest) ∧ e'.erase = e.foldAll.erase := by
  obtain ⟨e', -, erased, reads⟩ := (readsAt_lexemes e writable ts written).choice.whole.reads
  exact ⟨e', reads rest (fun k joins => by simp [ends] at joins) n deep, erased⟩

/-- `c ? -a ^ -2 : (1 + 2) * this.f(i++)[3 - (4 - 1)]`, before a semicolon. -/
theorem expr_lexemes_choice :
    let e : Expr := .ternary default (.ident default "c")
      (.unary default .neg
        (.binary default .pow (.ident default "a") (.unary default .neg (.number default 2))))
      (.binary default .mul (.binary default .add (.number default 1) (.number default 2))
        (.index default
          (.method default (.ident default "this") "f"
            [.step default .inc false (.ident default "i")])
          (.binary default .sub (.number default 3)
            (.binary default .sub (.number default 4) (.number default 1)))))
    let ts : List Token := List.map (⟨·, Span.nowhere⟩)
      [.ident "c", .punct .question, .punct .minus, .ident "a", .punct .caret, .punct .minus, .number 2,
        .punct .colon, .punct .lparen, .number 1, .punct .plus, .number 2, .punct .rparen, .punct .star,
        .keyword .this_, .punct .dot, .ident "f", .punct .lparen, .ident "i", .punct .inc,
        .punct .rparen, .punct .lbracket, .number 3, .punct .minus, .punct .lparen, .number 4,
        .punct .minus, .number 1, .punct .rparen, .punct .rbracket]
    let rest : List Token := [⟨.punct .semi, Span.nowhere⟩]
    e.Writable ∧ ts.map Token.lexeme = e.lexemes ∧ joins? (front rest).lexeme = none ∧
      10 * ts.length ≤ 300 ∧ ∃ e', expr 300 (ts ++ rest) = .ok (e', rest) ∧
      e'.erase = .ternary default (.ident default "c")
        (.unary default .neg (.binary default .pow (.ident default "a") (.number default (-2))))
        (.binary default .mul (.number default 3)
          (.index default
            (.method default (.ident default "this") "f"
              [.step default .inc false (.ident default "i")])
            (.number default 0))) := by
  intro e ts rest
  have writable : e.Writable := by simp [e, Expr.Writable, Expr.WritableAll, Expr.isLValue]
  have written : ts.map Token.lexeme = e.lexemes := rfl
  exact ⟨writable, written, rfl, by decide, expr_lexemes e writable ts rest written rfl 300 (by decide)⟩

end Parser

end Lantern
