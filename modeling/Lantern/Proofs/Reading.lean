import Mathlib
import Lantern.Proofs.Scanning
import Lantern.Tree.Parser

/-!
# What is read from source text

Names in a program come from tokens, and tokens from text: every name that declares something is made
of letters, digits and underscores and is no reserved word. Trees are read in certain shapes only: the
clauses of a counted loop declare nothing behind the first, and what is stepped may be assigned to.
-/

namespace Lantern

/-! ## Names -/

/-- A name as programs have them. -/
structure Identifier (s : String) : Prop where
  nonempty : s ≠ ""
  chars : ∀ c ∈ s.toList, Token.continuesName c
  free : Keyword.ofName? s = none

namespace Token

/-- The name a token holds is one. -/
def Named (t : Token) : Prop := ∀ name, t.lexeme = .ident name → Identifier name

theorem Spells.identifier {text : List Char} {name : String} (spells : Spells text (.ident name)) :
    Identifier name := by
  cases spells with
  | ident starts continues free =>
      refine ⟨fun empty => ?_, by simpa using continues, free⟩
      obtain ⟨c, first, -⟩ := starts
      have : text = [] := by simpa using congrArg String.toList empty
      simp [this] at first

theorem gives_readAll (file : Nat) (source : String) :
    (readAll file source).Gives fun ts => ∀ t ∈ ts, t.Named := by
  refine (gives_readFrom file _ [] _ (Nat.lt_succ_self _)).mono fun ts ⟨tokens, map, tiled⟩ t mem => ?_
  obtain ⟨q, own, rfl⟩ := List.mem_map.mp (map ▸ mem)
  intro name isName
  have spells := ((tiled.standing q own).spells (by simp [isName])).2
  exact (isName ▸ spells).identifier

end Token

/-! ## Trees as they are read -/

mutual

/-- An expression as it is read from source text: only what may be assigned to is stepped. -/
def Expr.Proper : Expr → Prop
  | .number .. | .bool .. | .str .. | .ident .. | .super _ | .funcRef .. => True
  | .binary _ _ l r => l.Proper ∧ r.Proper
  | .unary _ _ e => e.Proper
  | .ternary _ c a b => c.Proper ∧ a.Proper ∧ b.Proper
  | .list _ es => properExprs es
  | .map _ es => properEntries es
  | .index _ b k => b.Proper ∧ k.Proper
  | .member _ o _ => o.Proper
  | .call _ _ args | .new_ _ _ args => properExprs args
  | .method _ r _ args => r.Proper ∧ properExprs args
  | .step _ _ _ t => t.isLValue ∧ t.Proper

/-- Expressions as they are read from source text. -/
def properExprs : List Expr → Prop
  | [] => True
  | e :: es => e.Proper ∧ properExprs es

/-- Entries of a map literal as they are read from source text. -/
def properEntries : List (Expr × Expr) → Prop
  | [] => True
  | (k, v) :: es => k.Proper ∧ v.Proper ∧ properEntries es

end

/-- A statement without a condition or a body. -/
def Stmt.isSimple : Stmt → Bool
  | .expr .. | .assign .. | .indexAssign .. => true
  | _ => false

mutual

/-- A statement as it is read from source text. -/
def Stmt.Proper : Stmt → Prop
  | .bare _ | .printStmt .. => False
  | .print _ e | .expr _ e | .assign _ _ e | .throw_ _ _ e => e.Proper
  | .indexAssign _ b k e => b.Proper ∧ k.Proper ∧ e.Proper
  | .return_ _ o => ∀ e ∈ o, e.Proper
  | .block _ body => properAll body
  | .ifElse _ c a b => c.Proper ∧ a.Proper ∧ (match b with
    | some b => b.Proper
    | none => True)
  | .while_ _ c body | .doWhile _ body c => c.Proper ∧ body.Proper
  | .for_ _ init cond post body => (match init with
    | some i => i.Proper
    | none => True) ∧ (∀ e ∈ cond, e.Proper) ∧ (match post with
    | some p => p.isSimple ∧ p.Proper
    | none => True) ∧ body.Proper
  | .switch _ e cs => e.Proper ∧ properClauses cs
  | .try_ _ body cs last => body.Proper ∧ properCatches cs ∧ (match last with
    | some l => l.Proper
    | none => True)
  | .varDecl _ name _ init => Identifier name ∧ ∀ e ∈ init, e.Proper
  | .func ⟨_, name, ps, _, body⟩ => Identifier name ∧ (∀ p ∈ ps, Identifier p.name) ∧ body.Proper
  | .class_ ⟨_, name, _, fields, methods, ctors⟩ => Identifier name ∧
      (∀ f ∈ fields, Identifier f.name ∧ ∀ e ∈ f.init, e.Proper) ∧ properMethods methods ∧
      properCtors ctors
  | .break_ _ | .continue_ _ => True

/-- Statements as they are read from source text. -/
def properAll : List Stmt → Prop
  | [] => True
  | s :: ss => s.Proper ∧ properAll ss

/-- Clauses as they are read from source text. -/
def properClauses : List Clause → Prop
  | [] => True
  | .case_ _ v body :: cs => v.Proper ∧ properAll body ∧ properClauses cs
  | .default_ _ body :: cs => properAll body ∧ properClauses cs

/-- Handlers as they are read from source text. -/
def properCatches : List Catch → Prop
  | [] => True
  | ⟨_, _, name, body⟩ :: cs => Identifier name ∧ body.Proper ∧ properCatches cs

/-- Methods as they are read from source text. -/
def properMethods : List Method → Prop
  | [] => True
  | ⟨_, name, ps, _, body, _, _⟩ :: ms =>
    Identifier name ∧ (∀ p ∈ ps, Identifier p.name) ∧ body.Proper ∧ properMethods ms

/-- Constructors as they are read from source text. -/
def properCtors : List Ctor → Prop
  | [] => True
  | ⟨_, ps, body⟩ :: ks => (∀ p ∈ ps, Identifier p.name) ∧ body.Proper ∧ properCtors ks

end

namespace Parser

/-- What is known of a result of parsing by its type. -/
class Proper (α : Type) where
  holds : α → Prop

instance : Proper Unit := ⟨fun _ => True⟩
instance : Proper Bool := ⟨fun _ => True⟩
instance : Proper Expr := ⟨Expr.Proper⟩
instance : Proper Sigil := ⟨fun _ => True⟩
instance : Proper String := ⟨Identifier⟩
instance : Proper Param := ⟨fun p => Identifier p.name⟩
instance : Proper (String × String) := ⟨fun p => Identifier p.2⟩
instance : Proper Token := ⟨Token.Named⟩
instance : Proper Stmt := ⟨Stmt.Proper⟩
instance : Proper (List Stmt) := ⟨properAll⟩
instance : Proper (List Clause) := ⟨properClauses⟩
instance : Proper (List Catch) := ⟨properCatches⟩
instance : Proper (List Expr) := ⟨properExprs⟩
instance : Proper (List (Expr × Expr)) := ⟨properEntries⟩
instance : Proper (List Param) := ⟨fun ps => ∀ p ∈ ps, Identifier p.name⟩
instance : Proper Members :=
  ⟨fun m => (∀ f ∈ m.fields, Identifier f.name ∧ ∀ e ∈ f.init, e.Proper) ∧ properMethods m.methods ∧ properCtors m.ctors⟩
instance {α : Type} [Proper α] : Proper (Option α) := ⟨fun o => ∀ a ∈ o, Proper.holds a⟩

/-- A step of parsing whose result is as its type says, and that leaves only named tokens. -/
class Yields {α : Type} [Proper α] (x : Parse α) : Prop where
  yields : ∀ ts : List Token, (∀ t ∈ ts, t.Named) → ∀ a ts', x.run ts = .ok (a, ts') →
    Proper.holds a ∧ ∀ t ∈ ts', t.Named

section Yields

variable {α β : Type} [Proper α] [Proper β]

theorem yields_pure {a : α} (holds : Proper.holds a) : Yields (pure a : Parse α) := by
  refine ⟨fun ts named b ts' eq => ?_⟩
  obtain ⟨rfl, rfl⟩ := Prod.mk.inj (Except.ok.inj eq)
  exact ⟨holds, named⟩

theorem yields_bind {x : Parse α} {f : α → Parse β} (first : Yields x)
    (rest : ∀ a, Proper.holds a → Yields (f a)) : Yields (x >>= f) := by
  refine ⟨fun ts named b ts' eq => ?_⟩
  rw [StateT.run_bind] at eq
  cases h : x.run ts with
  | error e => rw [h] at eq; cases eq
  | ok r =>
      obtain ⟨a, mid⟩ := r
      obtain ⟨holds, named'⟩ := first.yields ts named a mid h
      rw [h] at eq
      exact (rest a holds).yields mid named' b ts' eq

instance (x : Parse α) (f : α → Parse β) [first : Yields x]
    [rest : ∀ a : { a : α // Proper.holds a }, Yields (f a.1)] : Yields (x >>= f) :=
  yields_bind first fun a holds => rest ⟨a, holds⟩

instance (c : Prop) [Decidable c] (x y : Parse α) [Yields x] [Yields y] :
    Yields (if c then x else y) := by
  split <;> infer_instance

instance (e : Stop) : Yields (throw e : Parse α) := ⟨fun _ _ _ _ eq => by cases eq⟩

instance (at_ : Span) (message : String) : Yields (fail at_ message : Parse α) :=
  inferInstanceAs (Yields (throw _ : Parse α))

omit [Proper β] in
theorem yields_refused {at_ : Span} {message : String} {f : β → Parse α} :
    Yields (fail at_ message >>= f) := ⟨fun _ _ _ _ eq => by cases eq⟩

/-- A result that is as its type says. -/
class Free (a : α) : Prop where
  free : Proper.holds a

instance (a : { a : α // Proper.holds a }) : Free a.1 := ⟨a.2⟩
instance (u : Unit) : Free u := ⟨trivial⟩
instance (b : Bool) : Free b := ⟨trivial⟩
instance (s : Sigil) : Free s := ⟨trivial⟩
instance : Free ([] : List Param) := ⟨nofun⟩
instance (name : { s : String // Identifier s }) (type : Option Sigil) (ps : { ps : List Param // ∀ p ∈ ps, Identifier p.name }) :
    Free (⟨name.1, type⟩ :: ps.1 : List Param) := ⟨List.forall_mem_cons.mpr ⟨name.2, ps.2⟩⟩
instance (name : { s : String // Identifier s }) (type : Option Sigil) : Free ([⟨name.1, type⟩] : List Param) :=
  ⟨List.forall_mem_singleton.mpr name.2⟩
instance : Free (none : Option α) := ⟨nofun⟩
instance (a : α) [free : Free a] : Free (some a) := ⟨fun b own => by cases own; exact free.free⟩

instance (a : α) [free : Free a] : Yields (pure a : Parse α) := yields_pure free.free

instance (f : α → β) (x : Parse α) [Yields x] [∀ a : { a : α // Proper.holds a }, Free (f a.1)] :
    Yields (f <$> x) := by
  rw [← bind_pure_comp]
  infer_instance

instance : Yields peek := by
  refine ⟨fun ts named t ts' eq => ?_⟩
  cases ts with
  | nil =>
      obtain ⟨rfl, rfl⟩ := Prod.mk.inj (Except.ok.inj eq)
      exact ⟨nofun, named⟩
  | cons u us =>
      obtain ⟨rfl, rfl⟩ := Prod.mk.inj (Except.ok.inj eq)
      exact ⟨named _ List.mem_cons_self, named⟩

instance : Yields advance := by
  refine ⟨fun ts named u ts' eq => ⟨trivial, ?_⟩⟩
  obtain ⟨-, rfl⟩ := Prod.mk.inj (Except.ok.inj eq)
  exact fun t mem => named t (List.mem_of_mem_tail mem)

instance (l : Lexeme) : Yields (nextIs l) := by
  unfold nextIs
  infer_instance

instance (p : Punct) : Yields (nextIsPunct p) := inferInstanceAs (Yields (nextIs _))

instance (w : Keyword) : Yields (nextIsWord w) := inferInstanceAs (Yields (nextIs _))

instance : Yields atEnd := inferInstanceAs (Yields (nextIs _))

instance (l : Lexeme) : Yields (accept l) := by
  unfold accept
  infer_instance

instance (p : Punct) : Yields (acceptPunct p) := inferInstanceAs (Yields (accept _))

instance (w : Keyword) : Yields (acceptWord w) := inferInstanceAs (Yields (accept _))

instance (l : Lexeme) (message : String) : Yields (expect l message) := by
  unfold expect
  infer_instance

instance (p : Punct) (message : String) : Yields (expectPunct p message) :=
  inferInstanceAs (Yields (expect _ _))

instance (message : String) : Yields (expectName message) := by
  refine yields_bind inferInstance fun t named => ?_
  split
  · next name isName =>
      have : Free name := ⟨named name isName⟩
      infer_instance
  · infer_instance

end Yields

/-! ### Expressions -/

section

-- What is made of parts that are as they should be is so itself.
variable (i : Info) (a b c : Expr) [first : Free a] [second : Free b] [third : Free c] (es : List Expr)
  [all : Free es] (entries : List (Expr × Expr)) [each : Free entries]

instance (v : Int64) : Free (Expr.number i v) := ⟨trivial⟩
instance (v : Bool) : Free (Expr.bool i v) := ⟨trivial⟩
instance (v : String) : Free (Expr.str i v) := ⟨trivial⟩
instance (name : String) : Free (Expr.ident i name) := ⟨trivial⟩
instance : Free (Expr.super i) := ⟨trivial⟩
instance (name : String) : Free (Expr.funcRef i name) := ⟨trivial⟩
instance (op : BinaryOp) : Free (Expr.binary i op a b) := ⟨first.free, second.free⟩
instance (op : UnaryOp) : Free (Expr.unary i op a) := ⟨first.free⟩
instance : Free (Expr.ternary i a b c) := ⟨first.free, second.free, third.free⟩
instance : Free (Expr.list i es) := ⟨all.free⟩
instance : Free (Expr.map i entries) := ⟨each.free⟩
instance : Free (Expr.index i a b) := ⟨first.free, second.free⟩
instance (name : String) : Free (Expr.member i a name) := ⟨first.free⟩
instance (name : String) : Free (Expr.call i name es) := ⟨all.free⟩
instance (name : String) : Free (Expr.method i a name es) := ⟨first.free, all.free⟩
instance (name : String) : Free (Expr.new_ i name es) := ⟨all.free⟩
instance : Free ([] : List Expr) := ⟨trivial⟩
instance : Free (a :: es) := ⟨first.free, all.free⟩
instance : Free ([] : List (Expr × Expr)) := ⟨trivial⟩
instance : Free ((a, b) :: entries) := ⟨first.free, second.free, each.free⟩

end

theorem proper_ofFolded (span : Span) (v : Folded) : (Expr.ofFolded span v).Proper := by
  cases v <;> trivial

theorem proper_fold (e : Expr) (proper : e.Proper) : e.fold.Proper := by
  induction e using Expr.fold.induct with
  | case1 i op l r left right =>
      have parts : l.fold.Proper ∧ r.fold.Proper := ⟨left proper.1, right proper.2⟩
      rw [Expr.fold]
      unfold Expr.foldBinary
      split
      · split
        · exact proper_ofFolded _ _
        · exact parts
      · exact parts
  | case2 i op e operand =>
      rw [Expr.fold]
      unfold Expr.foldUnary
      split
      · exact proper_ofFolded _ _
      · exact proper_ofFolded _ _
      · exact operand proper
  | case3 i c a b info isBool _ first =>
      rw [Expr.fold, isBool]
      exact first proper.2.1
  | case4 i c a b info v isBool isFalse _ second =>
      rw [Expr.fold, isBool]
      dsimp only
      rw [if_neg isFalse]
      exact second proper.2.2
  | case5 i c a b open_ cond first second =>
      rw [Expr.fold]
      split
      · next isBool => exact (open_ _ _ isBool).elim
      · exact ⟨cond proper.1, first proper.2.1, second proper.2.2⟩
  | case6 e noBinary noUnary noTernary =>
      have same : e.fold = e := by
        unfold Expr.fold
        split
        · exact (noBinary _ _ _ _ rfl).elim
        · exact (noUnary _ _ _ rfl).elim
        · exact (noTernary _ _ _ _ rfl).elim
        · rfl
      rwa [same]

instance (e : Expr) [free : Free e] : Free e.fold := ⟨proper_fold e free.free⟩

/-- The functions that read expressions, each with the given bound on the depth of calls. -/
structure ExprsYield (n : Nat) : Prop where
  expr : Yields (expr n)
  ternary : Yields (ternary n)
  binary : ∀ least, Yields (binary n least)
  binaryRest : ∀ least left [Free left], Yields (binaryRest n least left)
  unary : Yields (unary n)
  powerExpr : Yields (powerExpr n)
  postfixExpr : Yields (postfixExpr n)
  postfixRest : ∀ e [Free e], Yields (postfixRest n e)
  args : Yields (args n)
  exprsUntil : ∀ close, Yields (exprsUntil n close)
  entriesUntil : Yields (entriesUntil n)
  primary : Yields (primary n)

theorem exprsYield (n : Nat) : ExprsYield n := by
  induction n with
  | zero => constructor <;> intros <;> exact inferInstanceAs (Yields (throw _))
  | succ n ih =>
      obtain ⟨_, _, _, _, _, _, _, _, _, _, _, _⟩ := ih
      constructor
      case expr => unfold expr; infer_instance
      case ternary => unfold ternary; infer_instance
      case binary => intro least; unfold binary; infer_instance
      case binaryRest =>
        intro least left _
        unfold binaryRest
        refine yields_bind inferInstance fun t _ => ?_
        split <;> infer_instance
      case unary =>
        unfold unary
        refine yields_bind inferInstance fun t _ => ?_
        split
        case h_4 =>
          split
          · refine yields_bind inferInstance fun _ _ => yields_bind inferInstance fun e proper => ?_
            dsimp only
            split
            · next place => exact yields_pure ⟨place, proper⟩
            · exact yields_refused
          · infer_instance
        all_goals infer_instance
      case powerExpr => unfold powerExpr; infer_instance
      case postfixExpr => unfold postfixExpr; infer_instance
      case postfixRest =>
        intro e own
        unfold postfixRest
        refine yields_bind inferInstance fun t _ => ?_
        split
        case h_1 =>
          refine yields_bind inferInstance fun _ _ => ?_
          split <;> infer_instance
        case h_2 =>
          refine yields_bind inferInstance fun _ _ => yields_bind inferInstance fun name _ =>
            yields_bind inferInstance fun called _ => ?_
          split
          · infer_instance
          · split <;> infer_instance
        case h_3 => infer_instance
        case h_4 =>
          split
          · next op _ =>
              dsimp only
              split
              · next place =>
                  have : Free (Expr.step (at_ t.span) op false e) := ⟨place, own.free⟩
                  infer_instance
              · exact yields_refused
          · infer_instance
      case args => unfold args; infer_instance
      case exprsUntil => intro close; unfold exprsUntil; infer_instance
      case entriesUntil =>
        unfold entriesUntil
        refine yields_bind inferInstance fun _ _ => ?_
        split
        · infer_instance
        · refine yields_bind inferInstance fun key _ => yields_bind inferInstance fun _ _ =>
            yields_bind inferInstance fun value _ => ?_
          have : Free key := ⟨‹_›⟩
          have : Free value := ⟨‹_›⟩
          infer_instance
      case primary =>
        refine yields_bind (x := peek) inferInstance fun t _ => ?_
        dsimp only
        generalize t.lexeme = l
        cases l with
        | keyword w => cases w <;> infer_instance
        | punct p => cases p <;> infer_instance
        | _ => infer_instance

instance (n : Nat) : Yields (expr n) := (exprsYield n).expr

/-! ### Statements -/

theorem yields_copy (e : Expr) (proper : e.Proper) : Yields (copy e) := by
  cases e with
  | index i base key =>
      have := yields_copy base proper.1
      have := yields_copy key proper.2
      unfold copy
      infer_instance
  | member i object name =>
      have := yields_copy object proper
      unfold copy
      infer_instance
  | _ => unfold copy; infer_instance
termination_by sizeOf e

instance (e : Expr) [free : Free e] : Yields (copyTarget e) := by
  have := yields_copy e free.free
  unfold copyTarget
  infer_instance

/-- A step of parsing that leaves only named tokens and whose result is a statement without a condition
    or a body. -/
def YieldsSimple (x : Parse Stmt) : Prop :=
  ∀ ts : List Token, (∀ t ∈ ts, t.Named) → ∀ s ts', x.run ts = .ok (s, ts') →
    (s.isSimple ∧ s.Proper) ∧ ∀ t ∈ ts', t.Named

theorem YieldsSimple.bind {α : Type} [Proper α] {x : Parse α} {f : α → Parse Stmt} (first : Yields x)
    (rest : ∀ a, Proper.holds a → YieldsSimple (f a)) : YieldsSimple (x >>= f) := by
  intro ts named s ts' eq
  rw [StateT.run_bind] at eq
  cases h : x.run ts with
  | error e => rw [h] at eq; cases eq
  | ok r =>
      rw [h] at eq
      obtain ⟨holds, named'⟩ := first.yields ts named r.1 r.2 h
      exact rest r.1 holds r.2 named' s ts' eq

theorem yieldsSimple_pure {s : Stmt} (simple : s.isSimple) (proper : s.Proper) :
    YieldsSimple (pure s) := by
  intro ts named s' ts' eq
  obtain ⟨rfl, rfl⟩ := Prod.mk.inj (Except.ok.inj eq)
  exact ⟨⟨simple, proper⟩, named⟩

theorem yieldsSimple_assignTo (span : Span) {target value : Expr} (place : target.Proper)
    (proper : value.Proper) : YieldsSimple (assignTo span target value) := by
  unfold assignTo
  split
  · exact yieldsSimple_pure rfl proper
  · exact yieldsSimple_pure rfl ⟨place.1, place.2, proper⟩
  · exact yieldsSimple_pure rfl ⟨place, trivial, proper⟩
  · exact fun _ _ _ _ eq => by cases eq

theorem yieldsSimple_simple (n : Nat) : YieldsSimple (simple n) := by
  unfold simple
  refine .bind inferInstance fun first _ => .bind inferInstance fun target place =>
    .bind inferInstance fun t _ => ?_
  split
  · exact yieldsSimple_pure rfl place
  · exact .bind inferInstance fun _ _ => .bind inferInstance fun _ value =>
      yieldsSimple_assignTo _ place value
  · have : Free target := ⟨place⟩
    exact .bind inferInstance fun _ _ => .bind inferInstance fun _ value =>
      .bind inferInstance fun _ read => yieldsSimple_assignTo _ place ⟨read, value⟩

instance (n : Nat) : Yields (simple n) :=
  ⟨fun ts named s ts' eq => (yieldsSimple_simple n ts named s ts' eq).imp_left And.right⟩

instance : Yields typeName := by
  unfold typeName
  infer_instance

instance : Yields optionalType := by
  unfold optionalType
  infer_instance

instance (n : Nat) : Yields (paramsUntil n) := by
  induction n with
  | zero => unfold paramsUntil; infer_instance
  | succ n ih => unfold paramsUntil; infer_instance

instance (n : Nat) : Yields (params n) := by
  unfold params
  infer_instance

instance (n : Nat) : Yields (optionalInit n) := by
  unfold optionalInit
  infer_instance

instance (span : Span) (name : { s : String // Identifier s }) (type : Option Sigil)
    (init : { o : Option Expr // ∀ e ∈ o, e.Proper }) : Free (Stmt.varDecl span name.1 type init.1) :=
  ⟨name.2, init.2⟩

instance (n : Nat) (span : Span) : Yields (varDecl n span) := by
  unfold varDecl
  infer_instance

instance (n : Nat) (before after : String) : Yields (condition n before after) := by
  unfold condition
  infer_instance

/-- The functions that read statements, each with the given bound on the depth of calls. -/
structure StmtsYield (n : Nat) : Prop where
  stmt : Yields (stmt n)
  block : Yields (block n)
  stmtsUntil : ∀ labels, Yields (stmtsUntil n labels)
  forStmt : ∀ s, Yields (forStmt n s)
  clauses : ∀ seen, Yields (clauses n seen)
  tryStmt : ∀ s, Yields (tryStmt n s)
  catches : Yields (catches n)

section

-- What is made of parts that are as they should be is so itself.
variable (s : Span) (e : { e : Expr // e.Proper }) (a : { s : Stmt // s.Proper })
  (b : { ss : List Stmt // properAll ss })

instance : Free (Stmt.print s e.1) := ⟨e.2⟩
instance : Free (Stmt.break_ s) := ⟨trivial⟩
instance : Free (Stmt.continue_ s) := ⟨trivial⟩
instance (o : { o : Option Expr // ∀ e ∈ o, e.Proper }) : Free (Stmt.return_ s o.1) := ⟨o.2⟩
instance : Free (Stmt.while_ s e.1 a.1) := ⟨e.2, a.2⟩
instance : Free (Stmt.doWhile s a.1 e.1) := ⟨e.2, a.2⟩
instance : Free (Stmt.ifElse s e.1 a.1 none) := ⟨e.2, a.2, trivial⟩
instance (c : { s : Stmt // s.Proper }) : Free (Stmt.ifElse s e.1 a.1 (some c.1)) := ⟨e.2, a.2, c.2⟩
instance : Free (Stmt.block s b.1) := ⟨b.2⟩
instance : Free (Stmt.block s []) := ⟨trivial⟩
instance (cs : { cs : List Clause // properClauses cs }) : Free (Stmt.switch s e.1 cs.1) := ⟨e.2, cs.2⟩
instance : Free ([] : List Stmt) := ⟨trivial⟩
instance : Free (a.1 :: b.1) := ⟨a.2, b.2⟩
instance : Free ([] : List Clause) := ⟨trivial⟩
instance (cs : { cs : List Clause // properClauses cs }) : Free (Clause.case_ s e.1 b.1 :: cs.1) :=
  ⟨e.2, b.2, cs.2⟩
instance (cs : { cs : List Clause // properClauses cs }) : Free (Clause.default_ s b.1 :: cs.1) :=
  ⟨b.2, cs.2⟩
instance : Free ([] : List Catch) := ⟨trivial⟩
instance (cs : { cs : List Catch // properCatches cs })
    (last : { o : Option Stmt // ∀ l ∈ o, l.Proper }) : Free (Stmt.try_ s a.1 cs.1 last.1) := by
  obtain ⟨_ | l, proper⟩ := last
  · exact ⟨a.2, cs.2, trivial⟩
  · exact ⟨a.2, cs.2, proper l rfl⟩

theorem proper_thrown {e : Expr} (proper : e.Proper) : (thrown e).2.Proper := by
  unfold thrown
  split
  · split
    · exact proper.1
    · exact proper
  · exact proper

instance : Free (Stmt.throw_ s (thrown e.1).1 (thrown e.1).2) := ⟨proper_thrown e.2⟩

end

theorem proper_for (s : Span) {init : Option Stmt} {cond : Option Expr} {post : Option Stmt}
    {body : Stmt} (properInit : ∀ i ∈ init, i.Proper) (properCond : ∀ e ∈ cond, e.Proper)
    (simplePost : ∀ p ∈ post, p.isSimple ∧ p.Proper) (properBody : body.Proper) :
    (Stmt.for_ s init cond post body).Proper := by
  unfold Stmt.Proper
  refine ⟨?_, properCond, ?_, properBody⟩
  · cases init with
    | none => trivial
    | some i => exact properInit i rfl
  · cases post with
    | none => trivial
    | some p => exact simplePost p rfl

/-- The last clause of a counted loop is a statement without a condition or a body. -/
theorem yields_post {α : Type} [Proper α] (b : Bool) (n : Nat) {f : Option Stmt → Parse α}
    (rest : ∀ o, (∀ p ∈ o, p.isSimple ∧ p.Proper) → Yields (f o)) :
    Yields (if b then pure none >>= f else (some <$> simple n) >>= f) := by
  split
  · exact rest none nofun
  · refine ⟨fun ts named a ts' eq => ?_⟩
    rw [bind_map_left, StateT.run_bind] at eq
    cases h : (simple n).run ts with
    | error e => rw [h] at eq; cases eq
    | ok r =>
        rw [h] at eq
        obtain ⟨isSimple, named'⟩ := yieldsSimple_simple n ts named r.1 r.2 h
        have one : ∀ p ∈ some r.1, p.isSimple ∧ p.Proper := fun p own => by cases own; exact isSimple
        exact (rest (some r.1) one).yields r.2 named' a ts' eq

theorem yields_if {α β : Type} [Proper α] [Proper β] (b : Bool) {x y : Parse α} {f : α → Parse β}
    [Yields x] [Yields y] (rest : ∀ a, Proper.holds a → Yields (f a)) :
    Yields (if b then x >>= f else y >>= f) := by
  split
  · exact yields_bind inferInstance rest
  · exact yields_bind inferInstance rest

theorem stmtsYield (n : Nat) : StmtsYield n := by
  induction n with
  | zero => constructor <;> intros <;> exact inferInstanceAs (Yields (throw _))
  | succ n ih =>
      obtain ⟨_, _, _, _, _, _, _⟩ := ih
      constructor
      case stmt =>
        refine yields_bind (x := peek) inferInstance fun t _ => ?_
        dsimp only
        generalize t.lexeme = l
        cases l with
        | keyword w => cases w <;> infer_instance
        | punct p => cases p <;> infer_instance
        | _ => infer_instance
      case block => unfold block; infer_instance
      case stmtsUntil =>
        intro labels
        unfold stmtsUntil
        refine yields_bind inferInstance fun _ _ => ?_
        split
        · infer_instance
        · refine yields_bind inferInstance fun _ _ => ?_
          split
          · infer_instance
          · cases labels <;> infer_instance
      case forStmt =>
        intro s
        unfold forStmt
        refine yields_bind inferInstance fun _ _ => yields_bind inferInstance fun first _ =>
          yields_bind inferInstance fun _ _ => yields_bind inferInstance fun _ _ => ?_
        extract_lets behindInit
        have stepInit (init : Option Stmt) (proper : ∀ i ∈ init, i.Proper) : Yields (behindInit init) := by
          refine yields_bind inferInstance fun _ _ => yields_bind inferInstance fun _ _ => ?_
          extract_lets behindCond
          refine yields_if _ fun cond properCond => yields_bind inferInstance fun _ _ =>
            yields_bind inferInstance fun _ _ => ?_
          extract_lets behindPost
          refine yields_post _ n fun post simple => ?_
          have (body : { s : Stmt // s.Proper }) : Free (Stmt.for_ s init cond post body.1) :=
            ⟨proper_for s proper properCond simple body.2⟩
          exact yields_bind inferInstance fun _ _ => inferInstance
        split
        · exact yields_bind inferInstance stepInit
        · exact yields_if _ stepInit
      case clauses =>
        intro seen
        unfold clauses
        refine yields_bind inferInstance fun _ _ => ?_
        split
        · infer_instance
        · refine yields_bind inferInstance fun _ _ => ?_
          split
          · infer_instance
          · refine yields_bind inferInstance fun t _ => ?_
            split <;> infer_instance
      case tryStmt => intro s; unfold tryStmt; infer_instance
      case catches =>
        unfold catches
        refine yields_bind inferInstance fun t _ => yields_bind inferInstance fun _ _ => ?_
        split
        · refine yields_bind inferInstance fun _ _ => yields_bind inferInstance fun first isName =>
            yields_bind inferInstance fun t' named => ?_
          extract_lets behindName
          have step (p : String × String) (named : Identifier p.2) : Yields (behindName p) := by
            have (a : { s : Stmt // s.Proper }) (cs : { cs : List Catch // properCatches cs }) :
                Free (Catch.mk t.span p.1 p.2 a.1 :: cs.1) := ⟨named, a.2, cs.2⟩
            exact yields_bind inferInstance fun _ _ => inferInstance
          split
          · next second own =>
              exact yields_bind inferInstance fun _ _ => step (first, second) (named second own)
          · exact step ("", first) isName
        · infer_instance

instance (n : Nat) : Yields (stmt n) := (stmtsYield n).stmt
instance (n : Nat) : Yields (block n) := (stmtsYield n).block

/-! ### Declarations -/

instance (n : Nat) (span : Span) : Yields (funcDecl n span) := by
  unfold funcDecl
  refine yields_bind inferInstance fun name isName => yields_bind inferInstance fun ps named =>
    yields_bind inferInstance fun _ _ => yields_bind inferInstance fun body proper => ?_
  exact yields_pure ⟨isName, named, proper⟩

theorem yields_membersUntil (n : Nat) : Yields (membersUntil n) := by
  induction n with
  | zero => unfold membersUntil; infer_instance
  | succ n ih =>
      unfold membersUntil
      refine yields_bind inferInstance fun _ _ => ?_
      split
      · exact yields_pure ⟨List.forall_mem_nil _, trivial, trivial⟩
      · refine yields_bind inferInstance fun _ _ => ?_
        split
        · exact yields_pure ⟨List.forall_mem_nil _, trivial, trivial⟩
        · refine yields_bind inferInstance fun first _ => yields_bind inferInstance fun isStatic _ => ?_
          extract_lets afterField afterCtor behindWords
          have field : Yields (afterField ()) := by
            refine yields_bind inferInstance fun name isName => yields_bind inferInstance fun _ _ =>
              yields_bind inferInstance fun init own => yields_bind inferInstance fun _ _ =>
              yields_bind ih fun rest proper => ?_
            exact yields_pure ⟨List.forall_mem_cons.mpr ⟨⟨isName, own⟩, proper.1⟩, proper.2⟩
          have ctor : Yields (afterCtor ()) := by
            refine yields_bind inferInstance fun ps named => yields_bind inferInstance fun body own =>
              yields_bind ih fun rest proper => ?_
            exact yields_pure ⟨proper.1, proper.2.1, named, own, proper.2.2⟩
          have step (isOverride : Bool) : Yields (behindWords isOverride) := by
            refine yields_bind inferInstance fun t _ => ?_
            split
            · refine yields_bind inferInstance fun _ _ => ?_
              split
              · infer_instance
              · exact field
            · refine yields_bind inferInstance fun _ _ => yields_bind inferInstance fun name isName =>
                yields_bind inferInstance fun ps named => yields_bind inferInstance fun _ _ =>
                yields_bind inferInstance fun body own => yields_bind ih fun rest proper => ?_
              exact yields_pure ⟨proper.1, ⟨isName, named, own, proper.2.1⟩, proper.2.2⟩
            · refine yields_bind inferInstance fun _ _ => ?_
              split
              · infer_instance
              · exact ctor
            · infer_instance
          split
          · exact step false
          · exact yields_bind inferInstance fun o _ => step o

instance (n : Nat) (span : Span) : Yields (classDecl n span) := by
  unfold classDecl
  refine yields_bind inferInstance fun name isName => yields_bind inferInstance fun _ _ => ?_
  extract_lets behindBase
  have step (base : String) : Yields (behindBase base) := by
    refine yields_bind inferInstance fun _ _ => yields_bind (yields_membersUntil n) fun ms proper =>
      yields_bind inferInstance fun _ _ => ?_
    exact yields_pure ⟨isName, proper⟩
  split
  · exact yields_bind inferInstance fun base _ => step base
  · exact step ""

theorem yields_items (n : Nat) : Yields (items n) := by
  induction n with
  | zero => unfold items; infer_instance
  | succ n ih =>
      unfold items
      refine yields_bind inferInstance fun t _ => ?_
      have more {x : Parse Stmt} (first : Yields x) : Yields (do return (← x) :: (← items n)) :=
        yields_bind first fun s proper => yields_bind ih fun ss others => yields_pure ⟨proper, others⟩
      split
      · infer_instance
      · exact yields_bind inferInstance fun _ _ => ih
      · exact yields_bind inferInstance fun _ _ => more inferInstance
      · exact yields_bind inferInstance fun _ _ => more inferInstance
      · exact more inferInstance

instance : Proper Program := ⟨fun p => properAll p.items⟩

theorem yields_program (n : Nat) : Yields (program n) :=
  yields_bind inferInstance fun _ _ => yields_bind (yields_items n) fun _ proper => yields_pure proper

end Parser

/-- What is parsed from tokens has proper statements only. -/
theorem Program.proper_of_parse {tokens : List Token} (named : ∀ t ∈ tokens, t.Named) {p : Program}
    (parsed : Program.parse tokens = .ok p) : properAll p.items := by
  unfold Program.parse at parsed
  cases run : Parser.program (Parser.depthBound tokens) tokens with
  | error e =>
      rw [run] at parsed
      cases parsed
  | ok r =>
      rw [run] at parsed
      obtain rfl := Except.ok.inj parsed
      exact ((Parser.yields_program _).yields tokens named r.1 r.2 run).1

theorem Program.gives_ofTokens {tokens : List Token} (named : ∀ t ∈ tokens, t.Named) :
    (Program.ofTokens tokens).Gives fun p => properAll p.items := by
  unfold Program.ofTokens
  split
  · next p parsed => exact Checked.gives_pure (Program.proper_of_parse named parsed)
  · exact fun _ _ eq => by cases eq
  · exact Checked.gives_fail

end Lantern
