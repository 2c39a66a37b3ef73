import Lantern.Proofs.Lookups
import Lantern.Proofs.Progress

/-!
# Compound assignments

A compound assignment is read as a plain one whose value reads a copy of the target, so the parts of the target
are evaluated twice. Where they are only looked up, the copy is the target itself, node by node, and the second
evaluation changes nothing. A target with anything else in it is refused.
-/

namespace Lantern

/-- Nothing is known about the nodes of an expression but where they stand. -/
def Expr.IsFresh (e : Expr) : Prop := ∀ x, e.Contains x → x.info = Parser.at_ x.span

/-- The plain assignment of a value, whose operator stands at a place: to a variable, to an element, or to a field,
    which is the element under its name. -/
inductive Stmt.Assigns (span : Span) (value : Expr) : Expr → Stmt → Prop where
  | variable (i : Info) (name : String) : Assigns span value (.ident i name) (.assign span name value)
  | element (i : Info) (base key : Expr) :
      Assigns span value (.index i base key) (.indexAssign span base key value)
  | field (i : Info) (object : Expr) (name : String) :
      Assigns span value (.member i object name)
        (.indexAssign span object (.str (Parser.at_ i.span) name) value)

/-! ## Fresh expressions -/

namespace Expr

theorem isFresh_of_parts {e : Expr} (own : e.info = Parser.at_ e.span) (parts : ∀ e' ∈ e.parts, e'.IsFresh) :
    e.IsFresh :=
  forall_contains.mpr ⟨own, parts⟩

theorem IsFresh.info_eq {e : Expr} (fresh : e.IsFresh) : e.info = Parser.at_ e.span := fresh e (.self e)

theorem IsFresh.part {e e' : Expr} (fresh : e.IsFresh) (mem : e' ∈ e.parts) : e'.IsFresh :=
  fun x below => fresh x (.part mem below)

theorem isFresh_ofFolded (span : Span) (v : Folded) : (ofFolded span v).IsFresh := by
  cases v <;> exact isFresh_of_parts rfl (List.forall_mem_nil _)

theorem isFresh_foldChoice {i : Info} {c a b : Expr} (own : i = Parser.at_ i.span) (cond : c.IsFresh)
    (onTrue : a.IsFresh) (onFalse : b.IsFresh) : (foldChoice i c a b).IsFresh := by
  unfold foldChoice
  split
  · split <;> assumption
  · exact isFresh_of_parts own (by simp [parts, cond, onTrue, onFalse])

theorem isFresh_fold : (e : Expr) → e.IsFresh → e.fold.IsFresh
  | binary i op l r, fresh => by
      have left := isFresh_fold l (fresh.part (by simp [parts]))
      have right := isFresh_fold r (fresh.part (by simp [parts]))
      rw [fold_binary]
      rcases foldBinary_cases i op l.fold r.fold with ⟨v, computed⟩ | kept
      · rw [computed]
        exact isFresh_ofFolded _ v
      · rw [kept]
        exact isFresh_of_parts fresh.info_eq (by simp [parts, left, right])
  | unary i op e, fresh => by
      have operand := isFresh_fold e (fresh.part (by simp [parts]))
      rw [fold_unary]
      rcases foldUnary_cases i op e.fold with ⟨v, computed⟩ | kept
      · rw [computed]
        exact isFresh_ofFolded _ v
      · rw [kept]
        exact isFresh_of_parts fresh.info_eq (by simp [parts, operand])
  | ternary i c a b, fresh => by
      have cond := isFresh_fold c (fresh.part (by simp [parts]))
      have onTrue := isFresh_fold a (fresh.part (by simp [parts]))
      have onFalse := isFresh_fold b (fresh.part (by simp [parts]))
      rw [fold_ternary]
      exact isFresh_foldChoice fresh.info_eq cond onTrue onFalse
  | number .., fresh | bool .., fresh | str .., fresh | ident .., fresh | list .., fresh | map .., fresh
  | index .., fresh | member .., fresh | call .., fresh | method .., fresh | new_ .., fresh | super _, fresh
  | step .., fresh | funcRef .., fresh => fresh

end Expr

namespace Parser

/-! ## What is read is fresh -/

/-- Whatever a step of parsing results in has a property. -/
def Ensures {α : Type} (P : α → Prop) (x : Parse α) : Prop := ∀ ts a rest, x ts = .ok (a, rest) → P a

section Ensures

variable {α β : Type} {P : α → Prop} {Q : β → Prop} {x : Parse α} {f : α → Parse β}

theorem ensures_pure {a : α} (holds : P a) : Ensures P (pure a) := by
  intro ts b rest eq
  cases eq
  exact holds

theorem ensures_throw (s : Stop) : Ensures P (throw s) := fun ts a rest eq => by cases eq

theorem ensures_fail (at_ : Span) (message : String) : Ensures P (fail at_ message) := ensures_throw _

theorem Ensures.bind (first : Ensures P x) (next : ∀ a, P a → Ensures Q (f a)) : Ensures Q (x >>= f) := by
  intro ts b rest eq
  rw [bind_run] at eq
  cases one : x ts with
  | error e =>
      rw [one] at eq
      cases eq
  | ok r =>
      rw [one] at eq
      exact next r.1 (first ts r.1 r.2 one) r.2 b rest eq

theorem ensures_after (next : ∀ a, Ensures Q (f a)) : Ensures Q (x >>= f) := by
  have first : Ensures (fun _ => True) x := fun _ _ _ _ => trivial
  exact first.bind fun a _ => next a

end Ensures

/-- The functions that read expressions, each with the given bound on the depth of calls. -/
structure ExprsFresh (n : Nat) : Prop where
  expr : Ensures Expr.IsFresh (expr n)
  ternary : Ensures Expr.IsFresh (ternary n)
  binary : ∀ least, Ensures Expr.IsFresh (binary n least)
  binaryRest : ∀ least left, left.IsFresh → Ensures Expr.IsFresh (binaryRest n least left)
  unary : Ensures Expr.IsFresh (unary n)
  powerExpr : Ensures Expr.IsFresh (powerExpr n)
  postfixExpr : Ensures Expr.IsFresh (postfixExpr n)
  postfixRest : ∀ e, e.IsFresh → Ensures Expr.IsFresh (postfixRest n e)
  args : Ensures (fun es => ∀ e ∈ es, e.IsFresh) (args n)
  exprsUntil : ∀ close, Ensures (fun es => ∀ e ∈ es, e.IsFresh) (exprsUntil n close)
  entriesUntil : Ensures (fun es => ∀ e ∈ es, e.1.IsFresh ∧ e.2.IsFresh) (entriesUntil n)
  primary : Ensures Expr.IsFresh (primary n)

theorem exprsFresh (n : Nat) : ExprsFresh n := by
  induction n with
  | zero => constructor <;> intros <;> exact ensures_throw _
  | succ n ih =>
      constructor
      case expr =>
        unfold expr
        exact ih.ternary.bind fun e fresh => ensures_pure (e.isFresh_fold fresh)
      case ternary =>
        unfold ternary
        refine (ih.binary 1).bind fun cond fresh => ensures_after fun t => ensures_after fun taken => ?_
        split
        · refine ih.expr.bind fun a first => ensures_after fun _ => ih.ternary.bind fun b second => ?_
          exact ensures_pure (Expr.isFresh_of_parts rfl (by simp [Expr.parts, fresh, first, second]))
        · exact ensures_pure fresh
      case binary =>
        intro least
        unfold binary
        exact ih.unary.bind fun left fresh => ih.binaryRest least left fresh
      case binaryRest =>
        intro least left fresh
        unfold binaryRest
        refine ensures_after fun t => ?_
        split
        · exact ensures_pure fresh
        · split
          · exact ensures_pure fresh
          · refine ensures_after fun _ => (ih.binary _).bind fun right own => ih.binaryRest _ _ ?_
            exact Expr.isFresh_of_parts rfl (by simp [Expr.parts, fresh, own])
      case unary =>
        have operator (span : Span) (op : UnaryOp) : Ensures Expr.IsFresh (do
            advance
            return .unary (at_ span) op (← Parser.unary n)) :=
          ensures_after fun _ => ih.unary.bind fun e fresh =>
            ensures_pure (Expr.isFresh_of_parts rfl (by simp [Expr.parts, fresh]))
        unfold unary
        refine ensures_after fun t => ?_
        split
        · exact operator _ _
        · exact operator _ _
        · exact ensures_after fun _ => ih.unary
        · split
          · refine ensures_after fun _ => ih.unary.bind fun e fresh => ?_
            have step (op : StepOp) : (Expr.step (at_ t.span) op true e).IsFresh :=
              Expr.isFresh_of_parts rfl fun e' mem => fresh.part mem
            dsimp only
            split
            · exact ensures_pure (step _)
            · exact ensures_after fun _ => ensures_pure (step _)
          · exact ih.powerExpr
      case powerExpr =>
        unfold powerExpr
        refine ih.postfixExpr.bind fun base fresh => ensures_after fun t => ensures_after fun taken => ?_
        split
        · refine ih.unary.bind fun e own => ensures_pure ?_
          exact Expr.isFresh_of_parts rfl (by simp [Expr.parts, fresh, own])
        · exact ensures_pure fresh
      case postfixExpr =>
        unfold postfixExpr
        exact ih.primary.bind fun e fresh => ih.postfixRest e fresh
      case postfixRest =>
        intro e fresh
        unfold postfixRest
        refine ensures_after fun t => ?_
        split
        · refine ensures_after fun _ => ?_
          split
          · refine ih.args.bind fun es own => ih.postfixRest _ ?_
            exact Expr.isFresh_of_parts rfl own
          · exact ensures_fail _ _
        · refine ensures_after fun _ => ensures_after fun name => ensures_after fun called => ?_
          split
          · refine ih.args.bind fun es own => ih.postfixRest _ ?_
            exact Expr.isFresh_of_parts rfl (List.forall_mem_cons.mpr ⟨fresh, own⟩)
          · split
            · exact ensures_fail _ _
            · exact ih.postfixRest _ (Expr.isFresh_of_parts rfl (by simp [Expr.parts, fresh]))
        · refine ensures_after fun _ => ih.expr.bind fun key own => ensures_after fun _ => ih.postfixRest _ ?_
          exact Expr.isFresh_of_parts rfl (by simp [Expr.parts, fresh, own])
        · split
          · have step (op : StepOp) : (Expr.step (at_ t.span) op false e).IsFresh :=
              Expr.isFresh_of_parts rfl fun e' mem => fresh.part mem
            dsimp only
            split
            · exact ensures_after fun _ => ih.postfixRest _ (step _)
            · exact ensures_after fun _ => ensures_after fun _ => ih.postfixRest _ (step _)
          · exact ensures_pure fresh
      case args =>
        unfold args
        exact (ih.exprsUntil _).bind fun es fresh => ensures_after fun _ => ensures_pure fresh
      case exprsUntil =>
        intro close
        unfold exprsUntil
        refine ensures_after fun closed => ?_
        split
        · exact ensures_pure (List.forall_mem_nil _)
        · refine ih.expr.bind fun e fresh => ensures_after fun more => ?_
          split
          · refine (ih.exprsUntil close).bind fun es own => ensures_pure ?_
            exact List.forall_mem_cons.mpr ⟨fresh, own⟩
          · exact ensures_pure (List.forall_mem_singleton.mpr fresh)
      case entriesUntil =>
        unfold entriesUntil
        refine ensures_after fun closed => ?_
        split
        · exact ensures_pure (List.forall_mem_nil _)
        · refine ih.expr.bind fun key freshKey => ensures_after fun _ => ?_
          refine ih.expr.bind fun value freshValue => ensures_after fun more => ?_
          split
          · refine ih.entriesUntil.bind fun es own => ensures_pure ?_
            exact List.forall_mem_cons.mpr ⟨⟨freshKey, freshValue⟩, own⟩
          · exact ensures_pure (List.forall_mem_singleton.mpr ⟨freshKey, freshValue⟩)
      case primary =>
        refine ensures_after (x := peek) fun t => ?_
        have leaf (e : Expr) (own : e.info = at_ e.span) (none : e.parts = []) :
            Ensures Expr.IsFresh (do advance; return e) :=
          ensures_after fun _ => ensures_pure (Expr.isFresh_of_parts own (by simp [none]))
        dsimp only
        generalize t.lexeme = l
        cases l with
        | ident name => exact leaf _ rfl rfl
        | number v => exact leaf _ rfl rfl
        | text s => exact leaf _ rfl rfl
        | keyword w =>
            cases w
            case true_ => exact leaf _ rfl rfl
            case false_ => exact leaf _ rfl rfl
            case this_ => exact leaf _ rfl rfl
            case super =>
              refine ensures_after fun _ => ensures_after fun dotted => ?_
              split
              · exact ensures_pure (Expr.isFresh_of_parts rfl (List.forall_mem_nil _))
              · exact ensures_after fun _ => ensures_pure (Expr.isFresh_of_parts rfl (List.forall_mem_nil _))
            case new_ =>
              refine ensures_after fun _ => ensures_after fun cls => ensures_after fun _ => ?_
              exact ih.args.bind fun es fresh => ensures_pure (Expr.isFresh_of_parts rfl fresh)
            all_goals exact ensures_fail _ _
        | punct p =>
            cases p
            case amp =>
              refine ensures_after fun _ => ensures_after fun name => ensures_pure ?_
              exact Expr.isFresh_of_parts rfl (List.forall_mem_nil _)
            case lparen =>
              exact ensures_after fun _ => ih.expr.bind fun e fresh => ensures_after fun _ => ensures_pure fresh
            case lbracket =>
              refine ensures_after fun _ => (ih.exprsUntil _).bind fun es fresh => ensures_after fun _ => ?_
              exact ensures_pure (Expr.isFresh_of_parts rfl fresh)
            case lbrace =>
              refine ensures_after fun _ => ih.entriesUntil.bind fun es fresh => ensures_after fun _ => ensures_pure ?_
              refine Expr.isFresh_of_parts rfl fun e mem => ?_
              obtain ⟨entry, inside, which⟩ := List.mem_flatMap.mp mem
              have both := fresh entry inside
              simp only [List.mem_cons, List.not_mem_nil, or_false] at which
              rcases which with rfl | rfl
              · exact both.1
              · exact both.2
            all_goals exact ensures_fail _ _
        | _ => exact ensures_fail _ _

/-! ## Copies -/

/-- What refuses a target that may not be evaluated twice, at the node that is in the way. -/
def tooComplex (e : Expr) : Diagnostic :=
  ⟨.error, e.span, "Compound assignment target is too complex; assign through a variable."⟩

/-- A copy is the expression itself; an expression that may not be repeated is refused at a node in it. -/
theorem copy_run (e : Expr) (fresh : e.IsFresh) (ts : List Token) :
    e.isRepeatable ∧ copy e ts = .ok (e, ts) ∨
      ∃ x, e.Contains x ∧ x.isLookup = false ∧ copy e ts = .error (.reject (tooComplex x)) := by
  have own := fresh.info_eq
  cases e with
  | number i v | str i v | bool i v | ident i v =>
      refine .inl ⟨rfl, ?_⟩
      rw [copy, pure_run, ← show i = at_ i.span from own]
  | index i base key =>
      rcases copy_run base (fresh.part (by simp [Expr.parts])) ts with ⟨first, eq⟩ | ⟨x, below, other, eq⟩
      · rcases copy_run key (fresh.part (by simp [Expr.parts])) ts with ⟨second, eq'⟩ | ⟨x, below, other, eq'⟩
        · refine .inl ⟨by rw [Expr.isRepeatable, first, second, Bool.and_self], ?_⟩
          simp only [copy, bind_run, eq, eq', pure_run]
          rw [← show i = at_ i.span from own]
        · exact .inr ⟨x, .part (by simp [Expr.parts]) below, other, by simp only [copy, bind_run, eq, eq']⟩
      · exact .inr ⟨x, .part (by simp [Expr.parts]) below, other, by simp only [copy, bind_run, eq]⟩
  | member i object name =>
      rcases copy_run object (fresh.part (by simp [Expr.parts])) ts with ⟨first, eq⟩ | ⟨x, below, other, eq⟩
      · refine .inl ⟨first, ?_⟩
        simp only [copy, bind_run, eq, pure_run]
        rw [← show i = at_ i.span from own]
      · exact .inr ⟨x, .part (by simp [Expr.parts]) below, other, by simp only [copy, bind_run, eq]⟩
  | _ => exact .inr ⟨_, .self _, rfl, rfl⟩
termination_by sizeOf e

/-! ## Assignments -/

theorem assignTo_eq_ok {span : Span} {target value : Expr} {s : Stmt} {ts ts' : List Token} :
    assignTo span target value ts = .ok (s, ts') ↔ Stmt.Assigns span value target s ∧ ts' = ts := by
  constructor
  · intro eq
    unfold assignTo at eq
    split at eq
    · cases eq
      exact ⟨.variable _ _, rfl⟩
    · cases eq
      exact ⟨.element _ _ _, rfl⟩
    · cases eq
      exact ⟨.field _ _ _, rfl⟩
    · cases eq
  · rintro ⟨assigns, rfl⟩
    cases assigns <;> rfl

theorem isLValue_of_assigns {span : Span} {target value : Expr} {s : Stmt}
    (assigns : Stmt.Assigns span value target s) : target.isLValue := by
  cases assigns <;> rfl

section Compound

variable {n : Nat} {ts rest : List Token} {target : Expr} {t : Token} {op : BinaryOp}

/-- Behind the operator the value is read first; the target is copied afterwards. -/
theorem simple_run (reads : expr n ts = .ok (target, t :: rest)) (compound : assignOp? t.lexeme = some (some op)) :
    simple n ts = (do
      let value ← expr n
      let read ← copyTarget target
      assignTo t.span target (.binary (at_ t.span) op read value)) rest := by
  simp only [simple, bind_run, peek_run, reads, front_cons, compound, advance_run, List.tail_cons]

theorem copyTarget_run {e : Expr} (lvalue : e.isLValue) (fresh : e.IsFresh) (us : List Token) :
    e.isRepeatable ∧ copyTarget e us = .ok (e, us) ∨
      ∃ x, e.Contains x ∧ x.isLookup = false ∧ copyTarget e us = .error (.reject (tooComplex x)) := by
  rw [copyTarget, if_pos lvalue]
  exact copy_run e fresh us

theorem simple_eq_ok (reads : expr n ts = .ok (target, t :: rest)) (compound : assignOp? t.lexeme = some (some op))
    {s : Stmt} {ts' : List Token} :
    simple n ts = .ok (s, ts') ↔ target.isRepeatable ∧ ∃ value, expr n rest = .ok (value, ts') ∧
      Stmt.Assigns t.span (.binary (at_ t.span) op target value) target s := by
  rw [simple_run reads compound, bind_run]
  cases given : expr n rest with
  | error e => simp
  | ok r =>
      obtain ⟨value, mid⟩ := r
      simp only [bind_run]
      by_cases lvalue : target.isLValue
      · rcases copyTarget_run lvalue ((exprsFresh n).expr _ _ _ reads) mid with ⟨all, eq⟩ | ⟨x, below, other, eq⟩
        · simp only [eq, assignTo_eq_ok]
          constructor
          · rintro ⟨assigns, rfl⟩
            exact ⟨all, value, rfl, assigns⟩
          · rintro ⟨-, v, same, assigns⟩
            cases same
            exact ⟨assigns, rfl⟩
        · simp only [eq, reduceCtorEq, false_iff]
          rintro ⟨all, -⟩
          have looked := (Expr.isRepeatable_iff target).mp all x below
          rw [other] at looked
          cases looked
      · have copied : copyTarget target mid = .ok (target, mid) := by
          rw [copyTarget, if_neg lvalue]
          rfl
        simp only [copied, assignTo_eq_ok]
        constructor
        · rintro ⟨assigns, -⟩
          exact absurd (isLValue_of_assigns assigns) lvalue
        · rintro ⟨-, v, -, assigns⟩
          exact absurd (isLValue_of_assigns assigns) lvalue

/-- A compound assignment is accepted exactly if its target is a variable, an element or a field in which there are
    only literals, names, elements and fields, and its value can be read. It is then the plain assignment to the
    target of the operation on the target itself and the value. A target with anything else in it is refused, with
    the depth of calls that its tokens need: for a node in it, unless the value could not be read. Whatever later
    passes record in it, evaluating the target or a part of it once more only looks things up. -/
theorem simple_compound (reads : expr n ts = .ok (target, t :: rest))
    (compound : assignOp? t.lexeme = some (some op)) :
    (∀ s ts', simple n ts = .ok (s, ts') ↔
      (∀ x, target.Contains x → x.isLookup) ∧ ∃ value, expr n rest = .ok (value, ts') ∧
        Stmt.Assigns t.span (.binary (at_ t.span) op target value) target s) ∧
    (∀ x, target.Contains x → x.isLookup = false → 16 * ts.length + 7 ≤ n → ∃ d, simple n ts = .error (.reject d) ∧
      d.severity = .error ∧ ∀ value ts', expr n rest = .ok (value, ts') → target.isLValue →
        ∃ y, target.Contains y ∧ y.isLookup = false ∧ d = tooComplex y) ∧
    ∀ s ts', simple n ts = .ok (s, ts') → ∀ x, target.Contains x → ∀ e : Expr,
      e.erase = x.erase → e.OnlyLooks := by
  refine ⟨fun s ts' => ?_, fun x below other enough => ?_, fun s ts' eq x below e same => ?_⟩
  · rw [simple_eq_ok reads compound, Expr.isRepeatable_iff]
  · have refused (s : Stmt) (ts' : List Token) : simple n ts ≠ .ok (s, ts') := by
      intro eq
      have looked := (Expr.isRepeatable_iff target).mp ((simple_eq_ok reads compound).mp eq).1 x below
      rw [other] at looked
      cases looked
    have moves := simple_moves n ts
    unfold Moves Comes at moves
    cases ends : simple n ts with
    | ok r => exact absurd ends (refused r.1 r.2)
    | error e =>
        rw [ends] at moves
        cases e with
        | bound => exact absurd enough moves
        | reject d =>
            refine ⟨d, rfl, moves, fun value ts' given lvalue => ?_⟩
            rw [simple_run reads compound, bind_run, given] at ends
            simp only [bind_run] at ends
            rcases copyTarget_run lvalue ((exprsFresh n).expr _ _ _ reads) ts' with ⟨all, -⟩ | ⟨y, inside, node, eq⟩
            · have looked := (Expr.isRepeatable_iff target).mp all x below
              rw [other] at looked
              cases looked
            · simp only [eq, Except.error.injEq, Stop.reject.injEq] at ends
              exact ⟨y, inside, node, ends.symm⟩
  · have all := ((simple_eq_ok reads compound).mp eq).1
    refine Expr.onlyLooks ?_
    rw [← Expr.isRepeatable_erase, same, Expr.isRepeatable_erase]
    exact Expr.isRepeatable_of_contains all below

end Compound

/-- A token in the first line of the first file. -/
def tokenAt (column length : Int) (lexeme : Lexeme) : Token := ⟨lexeme, ⟨0, 1, column, length⟩⟩

/-- The tokens of `+= 4`, from a column on. -/
def addsFour (column : Int) : List Token :=
  [tokenAt column 2 (.punct .plusAssign), tokenAt (column + 3) 1 (.number 4)]

/-- The tokens of `xs[1 + 2].n += 4`. -/
def fieldOfElement : List Token :=
  [tokenAt 1 2 (.ident "xs"), tokenAt 3 1 (.punct .lbracket), tokenAt 4 1 (.number 1), tokenAt 6 1 (.punct .plus),
   tokenAt 8 1 (.number 2), tokenAt 9 1 (.punct .rbracket), tokenAt 10 1 (.punct .dot), tokenAt 11 1 (.ident "n")] ++
    addsFour 13

/-- The tokens of `xs[f()] += 4`. -/
def elementOfCall : List Token :=
  [tokenAt 1 2 (.ident "xs"), tokenAt 3 1 (.punct .lbracket), tokenAt 4 1 (.ident "f"), tokenAt 5 1 (.punct .lparen),
   tokenAt 6 1 (.punct .rparen), tokenAt 7 1 (.punct .rbracket)] ++ addsFour 9

/-- The sum in the index is folded before the target is copied; a call in its place is refused. -/
theorem simple_compound_folded :
    let place (column length : Int) : Info := at_ ⟨0, 1, column, length⟩
    let element : Expr := .index (place 3 1) (.ident (place 1 2) "xs") (.number (place 6 1) 3)
    simple 200 fieldOfElement = .ok (.indexAssign ⟨0, 1, 13, 2⟩ element (.str (place 10 1) "n")
      (.binary (place 13 2) .add (.member (place 10 1) element "n") (.number (place 16 1) 4)), []) ∧
    (∀ e : Expr, e.erase = (Expr.member (place 10 1) element "n").erase → e.OnlyLooks) ∧
    ∃ d, simple 200 elementOfCall = .error (.reject d) ∧ d.severity = .error := by
  intro place element
  have reads : expr 200 fieldOfElement = .ok (.member (place 10 1) element "n", addsFour 13) := rfl
  have plus : assignOp? (tokenAt 13 2 (.punct .plusAssign)).lexeme = some (some .add) := rfl
  obtain ⟨accepts, -, looks⟩ := simple_compound reads plus
  have accepted := (accepts _ []).mpr ⟨(Expr.isRepeatable_iff _).mp rfl, .number (place 16 1) 4, rfl, .field _ _ _⟩
  refine ⟨accepted, looks _ _ accepted _ (.self _), ?_⟩
  have call : expr 200 elementOfCall = .ok (.index (place 3 1) (.ident (place 1 2) "xs") (.call (place 4 1) "f" []),
      addsFour 9) := rfl
  obtain ⟨-, refuses, -⟩ := simple_compound call rfl
  obtain ⟨d, eq, severity, -⟩ := refuses (.call (place 4 1) "f" []) (.part (by simp [Expr.parts]) (.self _)) rfl
    (by decide)
  exact ⟨d, eq, severity⟩

end Parser

end Lantern
