import Mathlib
import Lantern.Proofs.Printing

/-!
# Parsing comes to an end

A step of parsing only looks at the next token and takes it. Whatever is read and may be repeated
takes at least one token, and the end of the text is never taken. So the depth of calls that the number
of tokens allows is never used up, whatever the tokens are.
-/

namespace Lantern.Parser

/-! ## What a step takes -/

/-- Run on `ts`, a step of parsing takes the tokens `taken` one after the other, each when it is the
    first that is left, gives `a` and leaves `rest`. -/
inductive Takes : {α : Type} → Parse α → (ts taken : List Token) → α → (rest : List Token) → Prop where
  | pure {α : Type} (a : α) (ts : List Token) : Takes (pure a) ts [] a ts
  | peek (ts : List Token) : Takes peek ts [] (front ts) ts
  | advance (t : Token) (ts : List Token) : Takes advance (t :: ts) [t] () ts
  | bind {α β : Type} {x : Parse α} {f : α → Parse β} {ts mid rest us vs : List Token} {a : α} {b : β} :
      Takes x ts us a mid → Takes (f a) mid vs b rest → Takes (x >>= f) ts (us ++ vs) b rest

/-- A step of parsing that takes at least one token whenever it succeeds, and never the end of the
    text. -/
def Advances {α : Type} (x : Parse α) : Prop :=
  ∀ ts a rest, x ts = .ok (a, rest) →
    ∃ taken, taken ≠ [] ∧ (∀ t ∈ taken, t.lexeme ≠ .endOfFile) ∧ Takes x ts taken a rest

/-- What a step of parsing may come to on `ts`: a result and a rest with a property, behind tokens that
    it took, or an error. It reaches the bound on the depth of calls only where that is not `enough`. -/
def Comes {α : Type} (enough : Prop) (x : Parse α) (ts : List Token) (Q : α → List Token → Prop) :
    Prop :=
  match x ts with
  | .ok (a, rest) => (∃ taken, Takes x ts taken a rest ∧ ∀ t ∈ taken, t.lexeme ≠ .endOfFile) ∧ Q a rest
  | .error (.reject d) => d.severity = .error
  | .error .bound => ¬enough

/-- The step takes a token. -/
abbrev Moves {α : Type} (enough : Prop) (x : Parse α) (ts : List Token) : Prop :=
  Comes enough x ts fun _ rest => rest.length < ts.length

/-- The step may take tokens. -/
abbrev Keeps {α : Type} (enough : Prop) (x : Parse α) (ts : List Token) : Prop :=
  Comes enough x ts fun _ rest => rest.length ≤ ts.length

section Steps

variable {α β : Type} {enough : Prop} {ts : List Token} {Q : α → List Token → Prop}

theorem Takes.split {x : Parse α} {taken rest : List Token} {a : α} (takes : Takes x ts taken a rest) :
    ts = taken ++ rest := by
  induction takes with
  | pure | peek | advance => rfl
  | bind _ _ first second => rw [first, second, List.append_assoc]

theorem Takes.run {x : Parse α} {taken rest : List Token} {a : α} (takes : Takes x ts taken a rest) :
    x ts = .ok (a, rest) := by
  induction takes with
  | pure => rfl
  | peek ts => exact peek_run ts
  | advance => rfl
  | bind _ _ first second => rw [bind_run, first, ← second]

theorem Comes.advances {x : Parse α} {enough : List Token → Prop}
    (moves : ∀ ts, Moves (enough ts) x ts) : Advances x := by
  intro ts a rest eq
  have moved := moves ts
  unfold Moves Comes at moved
  rw [eq] at moved
  obtain ⟨⟨taken, takes, real⟩, shorter⟩ := moved
  refine ⟨taken, ?_, real, takes⟩
  rintro rfl
  exact shorter.ne (congrArg List.length takes.split).symm

theorem Comes.mono {x : Parse α} {P : α → List Token → Prop} {other : Prop} (comes : Comes other x ts P)
    (le : enough → other) (weaker : ∀ a rest, P a rest → Q a rest) : Comes enough x ts Q := by
  unfold Comes at comes ⊢
  split at comes
  · exact ⟨comes.1, weaker _ _ comes.2⟩
  · exact comes
  · exact fun e => comes (le e)

theorem comes_pure {a : α} (holds : Q a ts) : Comes enough (pure a) ts Q :=
  ⟨⟨[], .pure a ts, List.forall_mem_nil _⟩, holds⟩

theorem comes_fail (at_ : Span) (message : String) : Comes enough (fail at_ message : Parse α) ts Q :=
  rfl

theorem comes_bound (few : ¬enough) : Comes enough (throw .bound : Parse α) ts Q := few

theorem Comes.bind {x : Parse β} {f : β → Parse α} {P : β → List Token → Prop} {other : Prop}
    (first : Comes other x ts P) (le : enough → other)
    (next : ∀ b rest, P b rest → Comes enough (f b) rest Q) : Comes enough (x >>= f) ts Q := by
  unfold Comes at first
  unfold Comes
  rw [bind_run]
  cases one : x ts with
  | error e =>
      rw [one] at first
      cases e with
      | reject d => exact first
      | bound => exact fun e => first (le e)
  | ok r =>
      obtain ⟨b, mid⟩ := r
      rw [one] at first
      obtain ⟨⟨us, takes, real⟩, holds⟩ := first
      have second := next b mid holds
      unfold Comes at second
      dsimp only
      cases two : f b mid with
      | error e =>
          rw [two] at second
          cases e <;> exact second
      | ok r =>
          obtain ⟨a, rest⟩ := r
          rw [two] at second
          obtain ⟨⟨vs, takes', real'⟩, holds'⟩ := second
          exact ⟨⟨us ++ vs, takes.bind takes', List.forall_mem_append.mpr ⟨real, real'⟩⟩, holds'⟩

theorem comes_refused {at_ : Span} {message : String} {f : β → Parse α} :
    Comes enough (fail at_ message >>= f) ts Q := by
  have refused : Comes True (fail at_ message : Parse β) ts fun _ _ => False := comes_fail at_ message
  exact refused.bind (fun _ => trivial) fun _ _ => False.elim

theorem comes_peek {f : Token → Parse α} (next : Comes enough (f (front ts)) ts Q) :
    Comes enough (peek >>= f) ts Q := by
  have looked : Comes enough peek ts fun t rest => t = front ts ∧ rest = ts := by
    unfold Comes
    rw [peek_run]
    exact ⟨⟨[], .peek ts, List.forall_mem_nil _⟩, rfl, rfl⟩
  exact looked.bind id fun _ _ ⟨same, left⟩ => same ▸ left ▸ next

theorem advance_comes (real : (front ts).lexeme ≠ .endOfFile) :
    Comes enough advance ts fun _ rest => rest.length + 1 = ts.length := by
  cases ts with
  | nil => exact absurd rfl real
  | cons t ts =>
      exact ⟨⟨[t], .advance t ts, List.forall_mem_singleton.mpr real⟩, rfl⟩

theorem comes_advance {f : Unit → Parse α} (real : (front ts).lexeme ≠ .endOfFile)
    (next : ∀ rest, rest.length + 1 = ts.length → Comes enough (f ()) rest Q) :
    Comes enough (advance >>= f) ts Q :=
  (advance_comes real).bind id fun _ => next

theorem comes_nextIs {l : Lexeme} {f : Bool → Parse α}
    (yes : (front ts).lexeme = l → Comes enough (f true) ts Q)
    (no : (front ts).lexeme ≠ l → Comes enough (f false) ts Q) : Comes enough (nextIs l >>= f) ts Q := by
  have looked : Comes enough (nextIs l) ts fun b rest => b = decide ((front ts).lexeme = l) ∧ rest = ts :=
    comes_peek (comes_pure ⟨rfl, rfl⟩)
  refine looked.bind id fun _ _ ⟨same, left⟩ => ?_
  rw [same, left]
  by_cases here : (front ts).lexeme = l
  · rw [decide_eq_true here]
    exact yes here
  · rw [decide_eq_false here]
    exact no here

theorem comes_accept {l : Lexeme} {f : Bool → Parse α} (real : l ≠ .endOfFile)
    (yes : ∀ rest, rest.length + 1 = ts.length → Comes enough (f true) rest Q)
    (no : Comes enough (f false) ts Q) : Comes enough (accept l >>= f) ts Q := by
  have taken : Comes enough (accept l) ts fun b rest =>
      b = true ∧ rest.length + 1 = ts.length ∨ b = false ∧ rest = ts :=
    comes_nextIs (fun here => comes_advance (here ▸ real) fun _ less => comes_pure (.inl ⟨rfl, less⟩))
      fun _ => comes_pure (.inr ⟨rfl, rfl⟩)
  refine taken.bind id fun _ rest result => ?_
  rcases result with ⟨rfl, less⟩ | ⟨rfl, rfl⟩
  · exact yes rest less
  · exact no

theorem comes_expect {l : Lexeme} {message : String} {f : Unit → Parse α} (real : l ≠ .endOfFile)
    (next : ∀ rest, rest.length + 1 = ts.length → Comes enough (f ()) rest Q) :
    Comes enough (expect l message >>= f) ts Q := by
  have taken : Comes enough (expect l message) ts fun _ rest => rest.length + 1 = ts.length :=
    comes_accept real (fun _ less => comes_pure less) (comes_peek (comes_fail _ _))
  exact taken.bind id fun _ => next

theorem comes_expectName {message : String} {f : String → Parse α}
    (next : ∀ name rest, rest.length + 1 = ts.length → Comes enough (f name) rest Q) :
    Comes enough (expectName message >>= f) ts Q := by
  have taken : Comes enough (expectName message) ts fun _ rest => rest.length + 1 = ts.length := by
    refine comes_peek ?_
    split
    · next here => exact comes_advance (by simp [here]) fun _ less => comes_pure less
    · exact comes_fail _ _
  exact taken.bind id next

theorem comes_some {x : Parse β} {f : Option β → Parse α} {other : Prop} (some_ : Keeps other x ts)
    (le : enough → other)
    (next : ∀ o rest, rest.length ≤ ts.length → Comes enough (f o) rest Q) :
    Comes enough (some <$> x >>= f) ts Q :=
  Comes.bind (P := fun _ rest => rest.length ≤ ts.length)
    (some_.bind id fun _ _ le => comes_pure le) le next

theorem comes_unless {l : Lexeme} {x : Parse β} {f : Option β → Parse α} {other : Prop}
    (some_ : Keeps other x ts) (le : enough → other)
    (next : ∀ o rest, rest.length ≤ ts.length → Comes enough (f o) rest Q) :
    Comes enough (do f (← if ← nextIs l then pure none else some <$> x)) ts Q :=
  comes_nextIs (fun _ => next none ts le_rfl) fun _ => comes_some some_ le next

end Steps

/-! ## Expressions -/

theorem ne_endOfFile_of_binaryOp? {l : Lexeme} {r : BinaryOp × Nat} (is : binaryOp? l = some r) :
    l ≠ .endOfFile := by
  rintro rfl
  cases is

theorem ne_endOfFile_of_stepOp? {l : Lexeme} {op : StepOp} (is : stepOp? l = some op) :
    l ≠ .endOfFile := by
  rintro rfl
  cases is

/-- What the functions that read expressions come to, each with the given bound on the depth of calls.
    A call that has taken a token has sixteen levels more than one that has not. -/
structure ExprsMove (n : Nat) : Prop where
  expr : ∀ ts, Moves (16 * ts.length + 7 ≤ n) (expr n) ts
  ternary : ∀ ts, Moves (16 * ts.length + 6 ≤ n) (ternary n) ts
  binary : ∀ least ts, Moves (16 * ts.length + 5 ≤ n) (binary n least) ts
  binaryRest : ∀ least left ts, Keeps (16 * ts.length + 1 ≤ n) (binaryRest n least left) ts
  unary : ∀ ts, Moves (16 * ts.length + 4 ≤ n) (unary n) ts
  powerExpr : ∀ ts, Moves (16 * ts.length + 3 ≤ n) (powerExpr n) ts
  postfixExpr : ∀ ts, Moves (16 * ts.length + 2 ≤ n) (postfixExpr n) ts
  postfixRest : ∀ e ts, Keeps (16 * ts.length + 1 ≤ n) (postfixRest n e) ts
  args : ∀ ts, Moves (16 * ts.length + 9 ≤ n) (args n) ts
  exprsUntil : ∀ close ts, Keeps (16 * ts.length + 8 ≤ n) (exprsUntil n close) ts
  entriesUntil : ∀ ts, Keeps (16 * ts.length + 8 ≤ n) (entriesUntil n) ts
  primary : ∀ ts, Moves (16 * ts.length + 1 ≤ n) (primary n) ts

theorem exprsMove (n : Nat) : ExprsMove n := by
  induction n with
  | zero => constructor <;> intros <;> exact comes_bound (by omega)
  | succ n ih =>
      constructor
      case expr =>
        intro ts
        unfold expr
        exact (ih.ternary ts).bind (by omega) fun _ _ less => comes_pure less
      case ternary =>
        intro ts
        unfold ternary
        refine (ih.binary 1 ts).bind (by omega) fun cond rest less => comes_peek ?_
        refine comes_accept (by simp) (fun mid less' => ?_) (comes_pure less)
        refine (ih.expr mid).bind (by omega) fun _ _ less' => comes_expect (by simp) fun _ _ => ?_
        exact (ih.ternary _).bind (by omega) fun _ _ _ => comes_pure (by omega)
      case binary =>
        intro least ts
        unfold binary
        refine (ih.unary ts).bind (by omega) fun left rest less => ?_
        exact (ih.binaryRest least left rest).mono (by omega) fun _ _ le => by omega
      case binaryRest =>
        intro least left ts
        unfold binaryRest
        refine comes_peek ?_
        split
        · exact comes_pure le_rfl
        · next is =>
            split
            · exact comes_pure le_rfl
            · refine comes_advance (ne_endOfFile_of_binaryOp? is) fun rest less => ?_
              refine (ih.binary _ rest).bind (by omega) fun right rest' less' => ?_
              exact (ih.binaryRest least _ rest').mono (by omega) fun _ _ le => by omega
      case unary =>
        intro ts
        unfold unary
        refine comes_peek ?_
        split
        case h_1 | h_2 =>
          next here =>
          refine comes_advance (by simp [here]) fun rest less => ?_
          exact (ih.unary rest).bind (by omega) fun _ _ _ => comes_pure (by omega)
        case h_3 here =>
          refine comes_advance (by simp [here]) fun rest less => ?_
          exact (ih.unary rest).mono (by omega) fun _ _ _ => by omega
        case h_4 =>
          split
          · next is =>
              refine comes_advance (ne_endOfFile_of_stepOp? is) fun rest less => ?_
              refine (ih.unary rest).bind (by omega) fun operand rest' less' => ?_
              dsimp only
              split
              · exact comes_pure (by omega)
              · exact comes_refused
          · exact (ih.powerExpr ts).mono (by omega) fun _ _ => id
      case powerExpr =>
        intro ts
        unfold powerExpr
        refine (ih.postfixExpr ts).bind (by omega) fun base rest less => comes_peek ?_
        refine comes_accept (by simp) (fun mid less' => ?_) (comes_pure less)
        exact (ih.unary mid).bind (by omega) fun _ _ _ => comes_pure (by omega)
      case postfixExpr =>
        intro ts
        unfold postfixExpr
        refine (ih.primary ts).bind (by omega) fun e rest less => ?_
        exact (ih.postfixRest e rest).mono (by omega) fun _ _ le => by omega
      case postfixRest =>
        intro e ts
        have behind {rest : List Token} (less : rest.length < ts.length) (e' : Expr) :
            Comes (16 * ts.length + 1 ≤ n + 1) (postfixRest n e') rest fun _ rest =>
              rest.length ≤ ts.length :=
          (ih.postfixRest e' rest).mono (by omega) fun _ _ le => by omega
        unfold postfixRest
        refine comes_peek ?_
        split
        case h_1 here =>
          refine comes_advance (by simp [here]) fun rest less => ?_
          split
          · exact (ih.args rest).bind (by omega) fun _ _ _ => behind (by omega) _
          · exact comes_fail _ _
        case h_2 here =>
          refine comes_advance (by simp [here]) fun rest less => comes_expectName fun name rest' less' => ?_
          refine comes_accept (by simp) (fun mid _ => ?_) ?_
          · exact (ih.args mid).bind (by omega) fun _ _ _ => behind (by omega) _
          · simp only [Bool.false_eq_true, if_false]
            split
            · exact comes_fail _ _
            · exact behind (by omega) _
        case h_3 here =>
          refine comes_advance (by simp [here]) fun rest less => ?_
          exact (ih.expr rest).bind (by omega) fun _ _ _ => comes_expect (by simp) fun _ _ =>
            behind (by omega) _
        case h_4 =>
          split
          · next is =>
              dsimp only
              split
              · exact comes_advance (ne_endOfFile_of_stepOp? is) fun _ _ => behind (by omega) _
              · exact comes_refused
          · exact comes_pure le_rfl
      case args =>
        intro ts
        unfold args
        exact (ih.exprsUntil .rparen ts).bind (by omega) fun _ _ _ => comes_expect (by simp) fun _ _ =>
          comes_pure (by omega)
      case exprsUntil =>
        intro close ts
        unfold exprsUntil
        refine comes_nextIs (fun _ => comes_pure le_rfl) fun _ => ?_
        refine (ih.expr ts).bind (by omega) fun e rest less => ?_
        refine comes_accept (by simp) (fun mid _ => ?_) (comes_pure (by omega))
        exact (ih.exprsUntil close mid).bind (by omega) fun _ _ _ => comes_pure (by omega)
      case entriesUntil =>
        intro ts
        unfold entriesUntil
        refine comes_nextIs (fun _ => comes_pure le_rfl) fun _ => ?_
        refine (ih.expr ts).bind (by omega) fun key rest less => comes_expect (by simp) fun rest' _ => ?_
        refine (ih.expr rest').bind (by omega) fun value rest less => ?_
        refine comes_accept (by simp) (fun mid _ => ?_) (comes_pure (by omega))
        exact (ih.entriesUntil mid).bind (by omega) fun _ _ _ => comes_pure (by omega)
      case primary =>
        intro ts
        refine comes_peek ?_
        dsimp only
        generalize here : (front ts).lexeme = l
        cases l with
        | endOfFile => exact comes_fail _ _
        | number | text | ident =>
            exact comes_advance (by simp [here]) fun _ _ => comes_pure (by omega)
        | keyword w =>
            cases w
            case true_ | false_ | this_ =>
              exact comes_advance (by simp [here]) fun _ _ => comes_pure (by omega)
            case super =>
              refine comes_advance (by simp [here]) fun rest less => ?_
              exact comes_nextIs (fun _ => comes_pure (by omega)) fun _ => comes_refused
            case new_ =>
              refine comes_advance (by simp [here]) fun rest less => ?_
              refine comes_expectName fun _ _ _ => comes_expect (by simp) fun mid _ => ?_
              exact (ih.args mid).bind (by omega) fun _ _ _ => comes_pure (by omega)
            all_goals exact comes_fail _ _
        | punct p =>
            cases p
            case amp =>
              refine comes_advance (by simp [here]) fun rest less => ?_
              exact comes_expectName fun _ _ _ => comes_pure (by omega)
            case lparen =>
              refine comes_advance (by simp [here]) fun rest less => ?_
              exact (ih.expr rest).bind (by omega) fun _ _ _ => comes_expect (by simp) fun _ _ =>
                comes_pure (by omega)
            case lbracket =>
              refine comes_advance (by simp [here]) fun rest less => ?_
              exact (ih.exprsUntil .rbracket rest).bind (by omega) fun _ _ _ =>
                comes_expect (by simp) fun _ _ => comes_pure (by omega)
            case lbrace =>
              refine comes_advance (by simp [here]) fun rest less => ?_
              exact (ih.entriesUntil rest).bind (by omega) fun _ _ _ => comes_expect (by simp) fun _ _ =>
                comes_pure (by omega)
            all_goals exact comes_fail _ _

/-! ## Statements -/

section Parts

variable {α : Type} {enough : Prop} {ts : List Token} {Q : α → List Token → Prop}

theorem copy_comes (e : Expr) (ts : List Token) : Comes enough (copy e) ts fun _ rest => rest = ts := by
  cases e with
  | index i base key =>
      unfold copy
      refine (copy_comes base ts).bind id fun _ _ same => ?_
      refine (copy_comes key _).bind id fun _ _ same' => ?_
      exact comes_pure (same'.trans same)
  | member i object name =>
      unfold copy
      exact (copy_comes object ts).bind id fun _ _ same => comes_pure same
  | number | str | bool | ident => exact comes_pure rfl
  | _ => exact comes_fail _ _
termination_by sizeOf e

theorem copyTarget_comes (e : Expr) (ts : List Token) :
    Comes enough (copyTarget e) ts fun _ rest => rest = ts := by
  unfold copyTarget
  split
  · exact copy_comes e ts
  · exact comes_pure rfl

theorem assignTo_comes (span : Span) (target value : Expr) (ts : List Token) :
    Comes enough (assignTo span target value) ts fun _ rest => rest = ts := by
  unfold assignTo
  split
  · exact comes_pure rfl
  · exact comes_pure rfl
  · exact comes_pure rfl
  · exact comes_fail _ _

theorem ne_endOfFile_of_assignOp? {l : Lexeme} {op : Option BinaryOp} (is : assignOp? l = some op) :
    l ≠ .endOfFile := by
  rintro rfl
  cases is

theorem simple_moves (n : Nat) (ts : List Token) : Moves (16 * ts.length + 7 ≤ n) (simple n) ts := by
  have value (rest : List Token) := (exprsMove n).expr rest
  unfold simple
  refine comes_peek ((value ts).bind id fun target rest less => comes_peek ?_)
  split
  · exact comes_pure less
  · next is =>
      refine comes_advance (ne_endOfFile_of_assignOp? is) fun mid less' => ?_
      refine (value mid).bind (by omega) fun value rest less => ?_
      exact (assignTo_comes _ _ _ _).mono id fun _ _ same => by subst same; omega
  · next is =>
      refine comes_advance (ne_endOfFile_of_assignOp? is) fun mid less' => ?_
      refine (value mid).bind (by omega) fun value rest less => ?_
      refine (copyTarget_comes target rest).bind id fun _ _ same => ?_
      exact (assignTo_comes _ _ _ _).mono id fun _ _ same' => by subst same same'; omega

theorem typeName_moves (ts : List Token) : Moves enough typeName ts := by
  unfold typeName
  refine comes_expectName fun name rest less => ?_
  refine comes_accept (by simp) (fun mid _ => ?_) (comes_pure (by omega))
  exact comes_expectName fun _ _ _ => comes_expect (by simp) fun _ _ => comes_pure (by omega)

theorem optionalType_keeps (ts : List Token) : Keeps enough optionalType ts := by
  unfold optionalType
  refine comes_accept (by simp) (fun mid _ => ?_) (comes_pure le_rfl)
  exact (typeName_moves mid).bind id fun _ _ _ => comes_pure (by omega)

theorem paramsUntil_keeps (n : Nat) (ts : List Token) :
    Keeps (16 * ts.length + 1 ≤ n) (paramsUntil n) ts := by
  induction n generalizing ts with
  | zero => exact comes_bound (by omega)
  | succ n ih =>
      unfold paramsUntil
      refine comes_nextIs (fun _ => comes_pure le_rfl) fun _ => comes_expectName fun name rest less => ?_
      refine (optionalType_keeps rest).bind id fun type mid less' => ?_
      refine comes_accept (by simp) (fun rest less => ?_) (comes_pure (by omega))
      exact (ih rest).bind (by omega) fun _ _ _ => comes_pure (by omega)

theorem params_moves (n : Nat) (ts : List Token) : Moves (16 * ts.length + 1 ≤ n) (params n) ts := by
  unfold params
  refine comes_expect (by simp) fun rest less => ?_
  exact (paramsUntil_keeps n rest).bind (by omega) fun _ _ _ => comes_expect (by simp) fun _ _ =>
    comes_pure (by omega)

theorem optionalInit_keeps (n : Nat) (ts : List Token) :
    Keeps (16 * ts.length + 1 ≤ n) (optionalInit n) ts := by
  unfold optionalInit
  refine comes_accept (by simp) (fun mid _ => ?_) (comes_pure le_rfl)
  exact ((exprsMove n).expr mid).bind (by omega) fun _ _ _ => comes_pure (by omega)

theorem varDecl_moves (n : Nat) (span : Span) (ts : List Token) :
    Moves (16 * ts.length + 1 ≤ n) (varDecl n span) ts := by
  unfold varDecl
  refine comes_expectName fun name rest less => ?_
  refine (optionalType_keeps rest).bind id fun type mid less' => ?_
  exact (optionalInit_keeps n mid).bind (by omega) fun _ _ _ => comes_pure (by omega)

theorem condition_moves (n : Nat) (before after : String) (ts : List Token) :
    Moves (16 * ts.length + 1 ≤ n) (condition n before after) ts := by
  unfold condition
  refine comes_expect (by simp) fun rest less => ?_
  exact ((exprsMove n).expr rest).bind (by omega) fun _ _ _ => comes_expect (by simp) fun _ _ =>
    comes_pure (by omega)

end Parts

/-- A label of a switch: the value of a case, or nothing for the default. -/
def clauseLabel (n : Nat) (seen : Bool) : Parse (Option Expr) := do
  let t ← peek
  match t.lexeme with
  | .keyword .case_ =>
    advance
    let value ← expr n
    expectPunct .colon "Expected ':' after case label."
    return some value
  | .keyword .default_ =>
    advance
    if seen then fail t.span "Multiple 'default' labels in one switch."
    expectPunct .colon "Expected ':' after case label."
    return none
  | _ => fail t.span "Expected 'case' or 'default' in switch body."

/-- The clause behind a label. -/
def labelled (span : Span) : Option Expr → List Stmt → Clause
  | some value, body => .case_ span value body
  | none, body => .default_ span body

theorem peek_peek {α : Type} (f : Token → Token → Parse α) :
    (peek >>= fun t => peek >>= f t) = peek >>= fun t => f t t := by
  funext ts
  simp only [bind_run, peek_run]

theorem fail_bind {α β : Type} (at_ : Span) (message : String) (f : α → Parse β) :
    fail at_ message >>= f = fail at_ message := rfl

theorem clauses_succ (n : Nat) (seen : Bool) : clauses (n + 1) seen = (do
    if ← nextIsPunct .rbrace then return []
    if ← atEnd then return []
    let t ← peek
    let label ← clauseLabel n seen
    let body ← stmtsUntil n true
    return labelled t.span label body :: (← clauses n (seen || label.isNone))) := by
  conv => lhs; unfold clauses
  refine bind_congr fun _ => ?_
  split
  · rfl
  · refine bind_congr fun _ => ?_
    split
    · rfl
    · simp only [clauseLabel, bind_assoc, peek_peek]
      refine bind_congr fun t => ?_
      split
      case h_1 => simp [*, labelled]
      case h_2 => cases seen <;> simp [*, labelled, fail_bind]
      case h_3 => simp only [fail_bind]

/-- One member of a class. -/
def member (n : Nat) : Parse Members := do
  let first ← peek
  let isStatic ← acceptWord .static_
  let isOverride ← if isStatic then pure false else acceptWord .override
  let t ← peek
  match t.lexeme with
  | .keyword .var_ =>
    advance
    if isOverride then fail first.span "Fields cannot be marked 'override'."
    let name ← expectName "Expected field name after 'var'."
    let type ← optionalType
    let init ← optionalInit n
    expectPunct .semi "Expected ';' after field declaration."
    return ⟨[⟨first.span, name, type, init, isStatic⟩], [], []⟩
  | .keyword .func =>
    advance
    let name ← expectName "Expected method name after 'func'."
    let ps ← params n
    let result ← optionalType
    let body ← block n
    return ⟨[], [⟨first.span, name, ps, result, body, isStatic, isOverride⟩], []⟩
  | .keyword .constructor_ =>
    advance
    if isStatic || isOverride then
      fail first.span "Constructors cannot be 'static' or 'override'."
    let ps ← params n
    let body ← block n
    return ⟨[], [], [⟨first.span, ps, body⟩]⟩
  | _ => fail t.span "Expected a field, method or constructor in class body."

/-- Members in front of others. -/
def Members.before (ms rest : Members) : Members :=
  ⟨ms.fields ++ rest.fields, ms.methods ++ rest.methods, ms.ctors ++ rest.ctors⟩

theorem membersUntil_succ (n : Nat) : membersUntil (n + 1) = (do
    if ← nextIsPunct .rbrace then return ⟨[], [], []⟩
    if ← atEnd then return ⟨[], [], []⟩
    let m ← member n
    let rest ← membersUntil n
    return m.before rest) := by
  conv => lhs; unfold membersUntil
  unfold member
  refine bind_congr fun _ => ?_
  split
  · rfl
  · refine bind_congr fun _ => ?_
    split
    · rfl
    · simp only [bind_assoc]
      refine bind_congr fun first => bind_congr fun isStatic => ?_
      cases isStatic
      case true =>
        simp only [if_true, pure_bind, bind_assoc]
        refine bind_congr fun t => ?_
        split
        case h_1 | h_2 => simp [*, Members.before]
        case h_3 => simp [*, fail_bind]
        case h_4 => simp only [fail_bind]
      case false =>
        simp only [Bool.false_eq_true, if_false, bind_assoc]
        refine bind_congr fun isOverride => bind_congr fun t => ?_
        split
        case h_1 => cases isOverride <;> simp [*, Members.before, fail_bind]
        case h_2 => simp [*, Members.before]
        case h_3 => cases isOverride <;> simp [*, Members.before, fail_bind]
        case h_4 => simp only [fail_bind]

/-! ## A statement takes a token -/

/-- What the functions that read statements come to, each with the given bound on the depth of calls. -/
structure StmtsMove (n : Nat) : Prop where
  stmt : ∀ ts, Moves (16 * ts.length + 8 ≤ n) (stmt n) ts
  block : ∀ ts, Moves (16 * ts.length + 1 ≤ n) (block n) ts
  stmtsUntil : ∀ labels ts, Keeps (16 * ts.length + 9 ≤ n) (stmtsUntil n labels) ts
  forStmt : ∀ span ts, Moves (16 * ts.length + 1 ≤ n) (forStmt n span) ts
  clauses : ∀ seen ts, Keeps (16 * ts.length + 1 ≤ n) (clauses n seen) ts
  tryStmt : ∀ span ts, Moves (16 * ts.length + 3 ≤ n) (tryStmt n span) ts
  catches : ∀ ts, Keeps (16 * ts.length + 1 ≤ n) (catches n) ts

theorem clauseLabel_moves (n : Nat) (seen : Bool) (ts : List Token) :
    Moves (16 * ts.length ≤ n) (clauseLabel n seen) ts := by
  unfold clauseLabel
  refine comes_peek ?_
  split
  case h_1 here =>
    refine comes_advance (by simp [here]) fun rest less => ?_
    exact ((exprsMove n).expr rest).bind (by omega) fun _ _ _ => comes_expect (by simp) fun _ _ =>
      comes_pure (by omega)
  case h_2 here =>
    refine comes_advance (by simp [here]) fun rest less => ?_
    cases seen
    case false => exact comes_expect (by simp) fun _ _ => comes_pure (by omega)
    case true => exact comes_refused
  case h_3 => exact comes_fail _ _

theorem stmtsMove (n : Nat) : StmtsMove n := by
  induction n with
  | zero => constructor <;> intros <;> exact comes_bound (by omega)
  | succ n ih =>
      have inner := exprsMove n
      constructor
      case stmt =>
        intro ts
        refine comes_peek ?_
        dsimp only
        generalize here : (front ts).lexeme = l
        have other : Moves (16 * ts.length + 8 ≤ n + 1) (do
            let s ← simple n
            expectPunct .semi "Expected ';' after statement."
            return s) ts :=
          (simple_moves n ts).bind (by omega) fun _ _ _ => comes_expect (by simp) fun _ _ =>
            comes_pure (by omega)
        cases l with
        | endOfFile | number | text | ident => exact other
        | keyword w =>
            cases w
            case var_ =>
              refine comes_advance (by simp [here]) fun rest less => ?_
              exact (varDecl_moves n _ rest).bind (by omega) fun _ _ _ => comes_expect (by simp) fun _ _ =>
                comes_pure (by omega)
            case print =>
              refine comes_advance (by simp [here]) fun rest less => ?_
              exact (condition_moves n _ _ rest).bind (by omega) fun _ _ _ =>
                comes_expect (by simp) fun _ _ => comes_pure (by omega)
            case if_ =>
              refine comes_advance (by simp [here]) fun rest less => ?_
              refine (condition_moves n _ _ rest).bind (by omega) fun cond mid _ => ?_
              refine (ih.stmt mid).bind (by omega) fun onTrue mid _ => ?_
              refine comes_accept (by simp) (fun rest _ => ?_) (comes_pure (by omega))
              exact (ih.stmt rest).bind (by omega) fun _ _ _ => comes_pure (by omega)
            case while_ =>
              refine comes_advance (by simp [here]) fun rest less => ?_
              refine (condition_moves n _ _ rest).bind (by omega) fun cond mid _ => ?_
              exact (ih.stmt mid).bind (by omega) fun _ _ _ => comes_pure (by omega)
            case do_ =>
              refine comes_advance (by simp [here]) fun rest less => ?_
              refine (ih.stmt rest).bind (by omega) fun body mid _ => comes_expect (by simp) fun rest _ => ?_
              exact (condition_moves n _ _ rest).bind (by omega) fun _ _ _ =>
                comes_expect (by simp) fun _ _ => comes_pure (by omega)
            case for_ =>
              refine comes_advance (by simp [here]) fun rest less => ?_
              exact (ih.forStmt _ rest).mono (by omega) fun _ _ _ => by omega
            case switch =>
              refine comes_advance (by simp [here]) fun rest less => ?_
              refine (condition_moves n _ _ rest).bind (by omega) fun _ _ _ =>
                comes_expect (by simp) fun mid _ => ?_
              exact (ih.clauses false mid).bind (by omega) fun _ _ _ => comes_expect (by simp) fun _ _ =>
                comes_pure (by omega)
            case break_ | continue_ =>
              refine comes_advance (by simp [here]) fun rest less => ?_
              exact comes_expect (by simp) fun _ _ => comes_pure (by omega)
            case return_ =>
              refine comes_advance (by simp [here]) fun rest less => ?_
              refine comes_unless ((inner.expr rest).mono id fun _ _ => le_of_lt) (by omega) fun _ mid _ => ?_
              exact comes_expect (by simp) fun _ _ => comes_pure (by omega)
            case throw_ =>
              refine comes_advance (by simp [here]) fun rest less => ?_
              exact (inner.expr rest).bind (by omega) fun _ _ _ => comes_expect (by simp) fun _ _ =>
                comes_pure (by omega)
            case try_ =>
              refine comes_advance (by simp [here]) fun rest less => ?_
              exact (ih.tryStmt _ rest).mono (by omega) fun _ _ _ => by omega
            case func | class_ => exact comes_fail _ _
            all_goals exact other
        | punct p =>
            cases p
            case lbrace => exact (ih.block ts).mono (by omega) fun _ _ => id
            case semi => exact comes_advance (by simp [here]) fun _ _ => comes_pure (by omega)
            all_goals exact other
      case block =>
        intro ts
        unfold block
        refine comes_peek (comes_expect (by simp) fun rest less => ?_)
        exact (ih.stmtsUntil false rest).bind (by omega) fun _ _ _ => comes_expect (by simp) fun _ _ =>
          comes_pure (by omega)
      case stmtsUntil =>
        intro labels ts
        have more : Keeps (16 * ts.length + 9 ≤ n + 1) (do
            let s ← stmt n
            return s :: (← stmtsUntil n labels)) ts := by
          refine (ih.stmt ts).bind (by omega) fun s rest less => ?_
          exact (ih.stmtsUntil labels rest).bind (by omega) fun _ _ _ => comes_pure (by omega)
        unfold stmtsUntil
        refine comes_nextIs (fun _ => comes_pure le_rfl) fun _ => ?_
        refine comes_nextIs (fun _ => comes_pure le_rfl) fun _ => ?_
        cases labels
        case false => exact more
        case true =>
          refine comes_nextIs (fun _ => comes_pure le_rfl) fun _ => ?_
          exact comes_nextIs (fun _ => comes_pure le_rfl) fun _ => more
      case forStmt =>
        intro span ts
        have behind (init : Option Stmt) {mid : List Token} (le : mid.length < ts.length) :
            Comes (16 * ts.length + 1 ≤ n + 1) (do
              expectPunct .semi "Expected ';' after for initializer."
              let cond ← if ← nextIsPunct .semi then pure none else some <$> expr n
              expectPunct .semi "Expected ';' after for condition."
              let post ← if ← nextIsPunct .rparen then pure none else some <$> simple n
              expectPunct .rparen "Expected ')' after for clauses."
              return Stmt.for_ span init cond post (← stmt n)) mid fun _ rest =>
                rest.length < ts.length := by
          refine comes_expect (by simp) fun rest _ => ?_
          refine comes_unless ((inner.expr rest).mono id fun _ _ => le_of_lt) (by omega) fun cond mid _ => ?_
          refine comes_expect (by simp) fun rest _ => ?_
          refine comes_unless ((simple_moves n rest).mono id fun _ _ => le_of_lt) (by omega)
            fun post mid _ => ?_
          refine comes_expect (by simp) fun rest _ => ?_
          exact (ih.stmt rest).bind (by omega) fun _ _ _ => comes_pure (by omega)
        unfold forStmt
        refine comes_expect (by simp) fun rest _ => comes_peek ?_
        refine comes_nextIs (fun here => ?_) fun _ => ?_
        · refine comes_accept (by simp) (fun mid _ => ?_) ?_
          · exact behind none (by omega)
          · exact behind none (by omega)
        · refine comes_accept (by simp) (fun mid _ => ?_) ?_
          · exact comes_some ((varDecl_moves n _ mid).mono id fun _ _ => le_of_lt) (by omega)
              fun init rest _ => behind init (by omega)
          · exact comes_some ((simple_moves n rest).mono id fun _ _ => le_of_lt) (by omega)
              fun init rest _ => behind init (by omega)
      case clauses =>
        intro seen ts
        rw [clauses_succ]
        refine comes_nextIs (fun _ => comes_pure le_rfl) fun _ => ?_
        refine comes_nextIs (fun _ => comes_pure le_rfl) fun _ => comes_peek ?_
        refine (clauseLabel_moves n seen ts).bind (by omega) fun label rest _ => ?_
        refine (ih.stmtsUntil true rest).bind (by omega) fun body rest _ => ?_
        exact (ih.clauses _ rest).bind (by omega) fun _ _ _ => comes_pure (by omega)
      case tryStmt =>
        intro span ts
        unfold tryStmt
        refine (ih.block ts).bind (by omega) fun body rest _ => ?_
        refine (ih.catches rest).bind (by omega) fun cs rest _ => ?_
        have behind (last : Option Stmt) {mid : List Token} (le : mid.length < ts.length) :
            Comes (16 * ts.length + 3 ≤ n + 1) (do
              if cs.isEmpty && last.isNone then
                fail span "'try' requires at least one 'catch' or a 'finally' block."
              return Stmt.try_ span body cs last) mid fun _ rest => rest.length < ts.length := by
          dsimp only
          split
          · exact comes_refused
          · exact comes_pure le
        refine comes_accept (by simp) (fun mid _ => ?_) (behind none (by omega))
        exact comes_some ((ih.block mid).mono id fun _ _ => le_of_lt) (by omega)
          fun last rest _ => behind last (by omega)
      case catches =>
        intro ts
        unfold catches
        refine comes_peek (comes_accept (by simp) (fun rest _ => ?_) (comes_pure le_rfl))
        refine comes_expect (by simp) fun rest _ => comes_expectName fun first rest _ => ?_
        have behind (type name : String) {mid : List Token} (le : mid.length < ts.length) :
            Comes (16 * ts.length + 1 ≤ n + 1) (do
              expectPunct .rparen "Expected ')' after catch clause."
              let body ← block n
              return (⟨(front ts).span, type, name, body⟩ : Catch) :: (← catches n)) mid fun _ rest =>
                rest.length ≤ ts.length := by
          refine comes_expect (by simp) fun rest _ => (ih.block rest).bind (by omega) fun body rest _ => ?_
          exact (ih.catches rest).bind (by omega) fun _ _ _ => comes_pure (by omega)
        refine comes_peek ?_
        dsimp only
        split
        case h_1 here => exact comes_advance (by simp [here]) fun _ _ => behind _ _ (by omega)
        case h_2 => exact behind _ _ (by omega)

/-! ## Declarations and programs -/

theorem funcDecl_moves (n : Nat) (span : Span) (ts : List Token) :
    Moves (16 * ts.length + 1 ≤ n) (funcDecl n span) ts := by
  unfold funcDecl
  refine comes_expectName fun name rest _ => (params_moves n rest).bind (by omega) fun ps rest _ => ?_
  refine (optionalType_keeps rest).bind id fun result rest _ => ?_
  exact ((stmtsMove n).block rest).bind (by omega) fun _ _ _ => comes_pure (by omega)

theorem member_moves (n : Nat) (ts : List Token) : Moves (16 * ts.length + 1 ≤ n) (member n) ts := by
  have inner := stmtsMove n
  have behind (first : Token) (isStatic isOverride : Bool) {mid : List Token} (le : mid.length ≤ ts.length) :
      Comes (16 * ts.length + 1 ≤ n) (do
        let t ← peek
        match t.lexeme with
        | .keyword .var_ =>
          advance
          if isOverride then fail first.span "Fields cannot be marked 'override'."
          let name ← expectName "Expected field name after 'var'."
          let type ← optionalType
          let init ← optionalInit n
          expectPunct .semi "Expected ';' after field declaration."
          return (⟨[⟨first.span, name, type, init, isStatic⟩], [], []⟩ : Members)
        | .keyword .func =>
          advance
          let name ← expectName "Expected method name after 'func'."
          let ps ← params n
          let result ← optionalType
          let body ← block n
          return ⟨[], [⟨first.span, name, ps, result, body, isStatic, isOverride⟩], []⟩
        | .keyword .constructor_ =>
          advance
          if isStatic || isOverride then
            fail first.span "Constructors cannot be 'static' or 'override'."
          let ps ← params n
          let body ← block n
          return ⟨[], [], [⟨first.span, ps, body⟩]⟩
        | _ => fail t.span "Expected a field, method or constructor in class body.") mid fun _ rest =>
          rest.length < ts.length := by
    refine comes_peek ?_
    split
    case h_1 here =>
      refine comes_advance (by simp [here]) fun rest _ => ?_
      have field : Comes (16 * ts.length + 1 ≤ n) (do
          let name ← expectName "Expected field name after 'var'."
          let type ← optionalType
          let init ← optionalInit n
          expectPunct .semi "Expected ';' after field declaration."
          return (⟨[⟨first.span, name, type, init, isStatic⟩], [], []⟩ : Members)) rest fun _ rest =>
            rest.length < ts.length := by
        refine comes_expectName fun name rest _ => (optionalType_keeps rest).bind id fun type rest _ => ?_
        refine (optionalInit_keeps n rest).bind (by omega) fun init rest _ => ?_
        exact comes_expect (by simp) fun _ _ => comes_pure (by omega)
      cases isOverride
      case false => exact field
      case true => exact comes_refused
    case h_2 here =>
      refine comes_advance (by simp [here]) fun rest _ => comes_expectName fun name rest _ => ?_
      refine (params_moves n rest).bind (by omega) fun ps rest _ => ?_
      refine (optionalType_keeps rest).bind id fun result rest _ => ?_
      exact (inner.block rest).bind (by omega) fun _ _ _ => comes_pure (by omega)
    case h_3 here =>
      refine comes_advance (by simp [here]) fun rest _ => ?_
      dsimp only
      split
      · exact comes_refused
      · refine (params_moves n rest).bind (by omega) fun ps rest _ => ?_
        exact (inner.block rest).bind (by omega) fun _ _ _ => comes_pure (by omega)
    case h_4 => exact comes_fail _ _
  unfold member
  refine comes_peek (comes_accept (by simp) (fun rest _ => ?_) ?_)
  · exact behind _ true false (by omega)
  · refine comes_accept (by simp) (fun rest _ => ?_) ?_
    · exact behind _ false true (by omega)
    · exact behind _ false false le_rfl

theorem membersUntil_keeps (n : Nat) (ts : List Token) :
    Keeps (16 * ts.length + 2 ≤ n) (membersUntil n) ts := by
  induction n generalizing ts with
  | zero => exact comes_bound (by omega)
  | succ n ih =>
      rw [membersUntil_succ]
      refine comes_nextIs (fun _ => comes_pure le_rfl) fun _ => ?_
      refine comes_nextIs (fun _ => comes_pure le_rfl) fun _ => ?_
      refine (member_moves n ts).bind (by omega) fun m rest _ => ?_
      exact (ih rest).bind (by omega) fun _ _ _ => comes_pure (by omega)

theorem classDecl_moves (n : Nat) (span : Span) (ts : List Token) :
    Moves (16 * ts.length + 2 ≤ n) (classDecl n span) ts := by
  have behind (name base : String) {mid : List Token} (le : mid.length < ts.length) :
      Comes (16 * ts.length + 2 ≤ n) (do
        expectPunct .lbrace "Expected '\x7b' to start class body."
        let ms ← membersUntil n
        expectPunct .rbrace "Expected '\x7d' after class body."
        return Stmt.class_ ⟨span, name, base, ms.fields, ms.methods, ms.ctors⟩) mid fun _ rest =>
          rest.length < ts.length := by
    refine comes_expect (by simp) fun rest _ => (membersUntil_keeps n rest).bind (by omega) fun ms rest _ => ?_
    exact comes_expect (by simp) fun _ _ => comes_pure (by omega)
  unfold classDecl
  refine comes_expectName fun name rest _ => comes_accept (by simp) (fun rest _ => ?_) ?_
  · exact comes_expectName fun base rest _ => behind name base (by omega)
  · exact behind name "" (by omega)

/-- The items of a program are read up to the end of the text, and no further. -/
theorem items_come (n : Nat) (ts : List Token) :
    Comes (16 * ts.length + 9 ≤ n) (items n) ts fun _ rest => (front rest).lexeme = .endOfFile := by
  induction n generalizing ts with
  | zero => exact comes_bound (by omega)
  | succ n ih =>
      refine comes_peek ?_
      generalize here : (front ts).lexeme = l
      have more (s : Stmt) {rest : List Token} (less : rest.length < ts.length) :
          Comes (16 * ts.length + 9 ≤ n + 1) (do return s :: (← items n)) rest fun _ rest =>
            (front rest).lexeme = .endOfFile :=
        (ih rest).bind (by omega) fun _ _ done => comes_pure done
      have other : Comes (16 * ts.length + 9 ≤ n + 1) (do
          let s ← stmt n
          return s :: (← items n)) ts fun _ rest => (front rest).lexeme = .endOfFile :=
        ((stmtsMove n).stmt ts).bind (by omega) fun s _ => more s
      cases l with
      | endOfFile => exact comes_pure here
      | number | text | ident => exact other
      | keyword w =>
          cases w
          case func =>
            refine comes_advance (by simp [here]) fun rest _ => ?_
            exact (funcDecl_moves n _ rest).bind (by omega) fun f _ _ => more f (by omega)
          case class_ =>
            refine comes_advance (by simp [here]) fun rest _ => ?_
            exact (classDecl_moves n _ rest).bind (by omega) fun c _ _ => more c (by omega)
          all_goals exact other
      | punct p =>
          cases p
          case semi =>
            refine comes_advance (by simp [here]) fun rest _ => ?_
            exact (ih rest).mono (by omega) fun _ _ => id
          all_goals exact other

theorem program_comes (n : Nat) (ts : List Token) :
    Comes (16 * ts.length + 9 ≤ n) (program n) ts fun _ rest => (front rest).lexeme = .endOfFile :=
  comes_peek ((items_come n ts).bind id fun _ _ done => comes_pure done)

theorem expr_advances (n : Nat) : Advances (expr n) := Comes.advances (exprsMove n).expr

theorem stmt_advances (n : Nat) : Advances (stmt n) := Comes.advances (stmtsMove n).stmt

theorem member_advances (n : Nat) : Advances (member n) := Comes.advances (member_moves n)

theorem clauseLabel_advances (n : Nat) (seen : Bool) : Advances (clauseLabel n seen) :=
  Comes.advances (clauseLabel_moves n seen)

end Lantern.Parser

open Lantern.Parser

namespace Lantern

/-- What is taken off a text, up to its end and not with it, is all of the text. -/
theorem eq_of_taken {text taken rest : List Token} {last : Token}
    (split : text ++ [last] = taken ++ rest) (whole : ∀ t ∈ text, t.lexeme ≠ .endOfFile)
    (ends : last.lexeme = .endOfFile) (real : ∀ t ∈ taken, t.lexeme ≠ .endOfFile)
    (done : (front rest).lexeme = .endOfFile) : taken = text ∧ rest = [last] := by
  obtain ⟨more, rfl, left⟩ | ⟨more, rfl, left⟩ := List.append_eq_append_iff.mp split
  · cases more with
    | nil => exact ⟨List.append_nil text, left.symm⟩
    | cons t more =>
        have same : t = last := (List.cons.inj left).1.symm
        exact absurd ends (same ▸ real t (by simp))
  · cases more with
    | nil => exact ⟨(List.append_nil taken).symm, left⟩
    | cons t more =>
        subst left
        exact absurd done (whole t (by simp))

/-- Parsing a text of which only the last token is the end comes to an error that it reports or to a
    program, and on the way to a program it takes every other token once and in order. Every statement,
    expression, member of a class and label of a switch that it reads takes a token, so none of its loops
    stands still. -/
theorem Program.parse_ends {text : List Token} {last : Token}
    (whole : ∀ t ∈ text, t.lexeme ≠ .endOfFile) (ends : last.lexeme = .endOfFile) :
    ((∃ d, Program.parse (text ++ [last]) = .error (.reject d) ∧ d.severity = .error) ∨
      ∃ p, Program.parse (text ++ [last]) = .ok p ∧
        Takes (program (depthBound (text ++ [last]))) (text ++ [last]) text p [last]) ∧
    ∀ n, Advances (stmt n) ∧ Advances (expr n) ∧ Advances (member n) ∧
      ∀ seen, Advances (clauseLabel n seen) := by
  refine ⟨?_, fun n => ⟨stmt_advances n, expr_advances n, member_advances n, clauseLabel_advances n⟩⟩
  have comes := program_comes (depthBound (text ++ [last])) (text ++ [last])
  unfold Comes at comes
  unfold Program.parse
  split at comes
  · next p rest run =>
      obtain ⟨⟨taken, takes, real⟩, done⟩ := comes
      obtain ⟨rfl, rfl⟩ := eq_of_taken takes.split whole ends real done
      exact .inr ⟨p, by rw [run]; rfl, takes⟩
  · next d run => exact .inl ⟨d, by rw [run]; rfl, comes⟩
  · exact absurd (by unfold depthBound; omega) comes

/-- `{ break ; }` is read from its first token to its last. -/
theorem Program.parse_ends_block :
    let at_ := Span.nowhere
    let text : List Token := [⟨.punct .lbrace, at_⟩, ⟨.keyword .break_, at_⟩, ⟨.punct .semi, at_⟩,
      ⟨.punct .rbrace, at_⟩]
    Takes (program (depthBound (text ++ [⟨.endOfFile, at_⟩]))) (text ++ [⟨.endOfFile, at_⟩]) text
      ⟨at_, [.block at_ [.break_ at_]]⟩ [⟨.endOfFile, at_⟩] := by
  intro at_ text
  have run : Program.parse (text ++ [⟨.endOfFile, at_⟩]) = .ok ⟨at_, [.block at_ [.break_ at_]]⟩ := rfl
  have whole : ∀ t ∈ text, t.lexeme ≠ .endOfFile := by simp [text]
  obtain ⟨d, eq, -⟩ | ⟨p, eq, takes⟩ :=
    (Program.parse_ends whole (rfl : (⟨.endOfFile, at_⟩ : Token).lexeme = .endOfFile)).1
  · cases run.symm.trans eq
  · cases run.symm.trans eq
    exact takes

end Lantern
