import Lantern.Proofs.CompoundAssignments
import Lantern.Proofs.Scopes

/-!
# Declarations stand at the top level

Functions and classes are read as items of a program and nowhere else: no statement has one in it. Nor is an expression
ever read in the place of a statement, or a statement in the place of an expression.
-/

namespace Lantern

/-! ## Statements without declarations -/

mutual

/-- Whether a statement may stand in a body, and so everything in it. -/
def Stmt.isInner : Stmt → Bool
  | .func _ | .class_ _ | .bare _ | .printStmt .. => false
  | .block _ body => areInner body
  | .ifElse _ _ a b => a.isInner && (match b with
    | some b => b.isInner
    | none => true)
  | .while_ _ _ body | .doWhile _ body _ => body.isInner
  | .for_ _ init _ post body => (match init with
    | some i => i.isInner
    | none => true) && (match post with
    | some p => p.isInner
    | none => true) && body.isInner
  | .switch _ _ cs => clausesInner cs
  | .try_ _ body cs last => body.isInner && catchesInner cs && (match last with
    | some l => l.isInner
    | none => true)
  | .print .. | .expr .. | .assign .. | .indexAssign .. | .varDecl .. | .break_ _ | .continue_ _ | .return_ ..
  | .throw_ .. => true

/-- Whether all statements may stand in a body. -/
def areInner : List Stmt → Bool
  | [] => true
  | s :: ss => s.isInner && areInner ss

/-- Whether all statements in clauses may stand in a body. -/
def clausesInner : List Clause → Bool
  | [] => true
  | .case_ _ _ body :: cs | .default_ _ body :: cs => areInner body && clausesInner cs

/-- Whether all statements in handlers may stand in a body. -/
def catchesInner : List Catch → Bool
  | [] => true
  | ⟨_, _, _, body⟩ :: cs => body.isInner && catchesInner cs

end

namespace Stmt

theorem isInner_ifElse (s : Span) (c : Expr) (a : Stmt) (b : Option Stmt) :
    (ifElse s c a b).isInner = (a.isInner && b.all isInner) := by
  cases b <;> rfl

theorem isInner_for (s : Span) (init : Option Stmt) (cond : Option Expr) (post : Option Stmt) (body : Stmt) :
    (for_ s init cond post body).isInner = (init.all isInner && post.all isInner && body.isInner) := by
  cases init <;> cases post <;> rfl

theorem isInner_try (s : Span) (body : Stmt) (cs : List Catch) (last : Option Stmt) :
    (try_ s body cs last).isInner = (body.isInner && catchesInner cs && last.all isInner) := by
  cases last <;> rfl

/-- Whether an item of a program declares nothing in its statements. -/
def isItem : Stmt → Bool
  | func f => f.body.isInner
  | class_ c => c.methods.all (·.body.isInner) && c.ctors.all (·.body.isInner)
  | s => s.isInner

theorem isItem_of_isInner {s : Stmt} (inner : s.isInner) : s.isItem := by
  cases s <;> first | exact inner | cases inner

theorem isItem_of_plain {s : Stmt} (plain : ¬s.isDecl = true) : s.isItem = s.isInner := by
  cases s <;> first | rfl | exact absurd rfl plain

end Stmt

mutual

theorem Stmt.isInner_erase (s : Stmt) : s.erase.isInner = s.isInner := by
  cases s with
  | block s body => exact areInner_erase body
  | ifElse s c a b =>
      rw [Stmt.erase_ifElse, Stmt.isInner_ifElse, Stmt.isInner_ifElse, Stmt.isInner_erase a]
      cases b with
      | none => rfl
      | some b => exact congrArg (_ && ·) (Stmt.isInner_erase b)
  | while_ s c body => exact Stmt.isInner_erase body
  | doWhile s body c => exact Stmt.isInner_erase body
  | for_ s init cond post body =>
      rw [Stmt.erase_for, Stmt.isInner_for, Stmt.isInner_for, Stmt.isInner_erase body]
      congr 2
      · cases init with
        | none => rfl
        | some i => exact Stmt.isInner_erase i
      · cases post with
        | none => rfl
        | some p => exact Stmt.isInner_erase p
  | switch s e cs => exact clausesInner_erase cs
  | try_ s body cs last =>
      rw [Stmt.erase_try, Stmt.isInner_try, Stmt.isInner_try, Stmt.isInner_erase body, catchesInner_erase cs]
      cases last with
      | none => rfl
      | some l => exact congrArg (_ && ·) (Stmt.isInner_erase l)
  | func f => cases f; rfl
  | class_ c => cases c; rfl
  | print | expr | throw_ | assign | indexAssign | varDecl | return_ | break_ | continue_ | bare | printStmt => rfl

theorem areInner_erase (ss : List Stmt) : areInner (eraseStmts ss) = areInner ss := by
  cases ss with
  | nil => rfl
  | cons s ss => rw [eraseStmts, areInner, areInner, Stmt.isInner_erase s, areInner_erase ss]

theorem clausesInner_erase (cs : List Clause) : clausesInner (eraseClauses cs) = clausesInner cs := by
  match cs with
  | [] => rfl
  | .case_ s v body :: cs => rw [eraseClauses, clausesInner, clausesInner, areInner_erase body, clausesInner_erase cs]
  | .default_ s body :: cs => rw [eraseClauses, clausesInner, clausesInner, areInner_erase body, clausesInner_erase cs]

theorem catchesInner_erase (cs : List Catch) : catchesInner (eraseCatches cs) = catchesInner cs := by
  match cs with
  | [] => rfl
  | ⟨s, type, name, body⟩ :: cs =>
      rw [eraseCatches, catchesInner, catchesInner, Stmt.isInner_erase body, catchesInner_erase cs]

end

theorem Stmt.isItem_erase (s : Stmt) : s.erase.isItem = s.isItem := by
  by_cases isDecl : s.isDecl
  · cases s with
    | func f => rw [erase_func]; exact f.body.isInner_erase
    | class_ c =>
        rw [erase_class]
        simp only [isItem, ClassDecl.erase, List.all_map, Function.comp_def, Method.erase, Ctor.erase, isInner_erase]
    | _ => cases isDecl
  · rw [isItem_of_plain isDecl, isItem_of_plain (by rwa [isDecl_erase]), isInner_erase]

theorem all_isItem_of_erase {ss ss' : List Stmt} (same : eraseStmts ss' = eraseStmts ss) (items : ss.all Stmt.isItem) :
    ss'.all Stmt.isItem := by
  have erased (ss : List Stmt) : (eraseStmts ss).all Stmt.isItem = ss.all Stmt.isItem := by
    rw [eraseStmts_eq, List.all_map]
    exact congrArg ss.all (funext Stmt.isItem_erase)
  rwa [← erased, same, erased]

namespace Parser

variable {α : Type}

/-! ## Statements as they are read -/

/-- The functions that read statements, each with the given bound on the depth of calls. -/
structure StmtsInner (n : Nat) : Prop where
  stmt : Ensures (fun s => s.isInner) (stmt n)
  block : Ensures (fun s => s.isInner) (block n)
  stmtsUntil : ∀ labels, Ensures (fun ss => areInner ss) (stmtsUntil n labels)
  forStmt : ∀ s, Ensures (fun s => s.isInner) (forStmt n s)
  clauses : ∀ seen, Ensures (fun cs => clausesInner cs) (clauses n seen)
  tryStmt : ∀ s, Ensures (fun s => s.isInner) (tryStmt n s)
  catches : Ensures (fun cs => catchesInner cs) (catches n)

theorem Ensures.some {p : α → Bool} {x : Parse α} (ensures : Ensures (fun a => p a) x) :
    Ensures (fun o : Option α => o.all p) (some <$> x) := by
  rw [← bind_pure_comp]
  exact ensures.bind fun a holds => ensures_pure holds

theorem inner_assignTo (span : Span) (target value : Expr) :
    Ensures (fun s => s.isInner) (assignTo span target value) := by
  unfold assignTo
  split
  · exact ensures_pure rfl
  · exact ensures_pure rfl
  · exact ensures_pure rfl
  · exact ensures_fail _ _

theorem inner_simple (n : Nat) : Ensures (fun s => s.isInner) (simple n) := by
  unfold simple
  refine ensures_after fun first => ensures_after fun target => ensures_after fun t => ?_
  split
  · exact ensures_pure rfl
  · exact ensures_after fun _ => ensures_after fun value => inner_assignTo _ _ _
  · exact ensures_after fun _ => ensures_after fun value => ensures_after fun read => inner_assignTo _ _ _

theorem inner_varDecl (n : Nat) (span : Span) : Ensures (fun s => s.isInner) (varDecl n span) := by
  unfold varDecl
  exact ensures_after fun name => ensures_after fun type => ensures_after fun init => ensures_pure rfl

section Below

variable {n : Nat}

theorem inner_stmt (ih : StmtsInner n) : Ensures (fun s => s.isInner) (stmt (n + 1)) := by
  refine ensures_after (x := peek) fun t => ?_
  have plain : Ensures (fun s : Stmt => s.isInner) (do
      let s ← simple n
      expectPunct .semi "Expected ';' after statement."
      return s) :=
    (inner_simple n).bind fun s inner => ensures_after fun _ => ensures_pure inner
  dsimp only
  generalize t.lexeme = l
  cases l with
  | keyword w =>
      cases w
      case var_ =>
        exact ensures_after fun _ => (inner_varDecl n _).bind fun decl inner => ensures_after fun _ =>
          ensures_pure inner
      case print => exact ensures_after fun _ => ensures_after fun e => ensures_after fun _ => ensures_pure rfl
      case if_ =>
        refine ensures_after fun _ => ensures_after fun cond => ih.stmt.bind fun a inner => ?_
        refine ensures_after fun more => ?_
        split
        · refine ih.stmt.bind fun b inner' => ensures_pure ?_
          rw [Stmt.isInner_ifElse, inner, Option.all_some, inner']
          rfl
        · exact ensures_pure (by rw [Stmt.isInner_ifElse, inner]; rfl)
      case while_ =>
        exact ensures_after fun _ => ensures_after fun cond => ih.stmt.bind fun body inner => ensures_pure inner
      case do_ =>
        refine ensures_after fun _ => ih.stmt.bind fun body inner => ensures_after fun _ => ?_
        exact ensures_after fun cond => ensures_after fun _ => ensures_pure inner
      case for_ => exact ensures_after fun _ => ih.forStmt _
      case switch =>
        refine ensures_after fun _ => ensures_after fun subject => ensures_after fun _ => ?_
        exact (ih.clauses false).bind fun cs inner => ensures_after fun _ => ensures_pure inner
      case break_ | continue_ => exact ensures_after fun _ => ensures_after fun _ => ensures_pure rfl
      case return_ =>
        refine ensures_after fun _ => ensures_after fun ends => ?_
        split
        · exact ensures_after fun value => ensures_after fun _ => ensures_pure rfl
        · exact ensures_after fun value => ensures_after fun _ => ensures_pure rfl
      case throw_ => exact ensures_after fun _ => ensures_after fun e => ensures_after fun _ => ensures_pure rfl
      case try_ => exact ensures_after fun _ => ih.tryStmt _
      case func | class_ => exact ensures_fail _ _
      all_goals exact plain
  | punct p =>
      cases p
      case lbrace => exact ih.block
      case semi => exact ensures_after fun _ => ensures_pure rfl
      all_goals exact plain
  | _ => exact plain

theorem inner_blockBelow (ih : StmtsInner n) : Ensures (fun s => s.isInner) (block (n + 1)) := by
  unfold block
  refine ensures_after fun t => ensures_after fun _ => (ih.stmtsUntil false).bind fun body inner => ?_
  exact ensures_after fun _ => ensures_pure inner

theorem inner_stmtsUntil (ih : StmtsInner n) (labels : Bool) :
    Ensures (fun ss => areInner ss) (stmtsUntil (n + 1) labels) := by
  unfold stmtsUntil
  have more : Ensures (fun ss => areInner ss) (do
      let s ← stmt n
      return s :: (← stmtsUntil n labels)) :=
    ih.stmt.bind fun s inner => (ih.stmtsUntil labels).bind fun ss rest =>
      ensures_pure (Bool.and_eq_true_iff.mpr ⟨inner, rest⟩)
  refine ensures_after fun closed => ?_
  split
  · exact ensures_pure rfl
  · refine ensures_after fun ended => ?_
    split
    · exact ensures_pure rfl
    · cases labels with
      | false => exact more
      | true =>
          refine ensures_after fun isCase => ?_
          split
          · exact ensures_pure rfl
          · refine ensures_after fun isDefault => ?_
            split
            · exact ensures_pure rfl
            · exact more

theorem inner_forStmt (ih : StmtsInner n) (s : Span) : Ensures (fun s => s.isInner) (forStmt (n + 1) s) := by
  unfold forStmt
  refine ensures_after fun _ => ensures_after fun first => ensures_after fun none_ => ?_
  extract_lets behindInit
  have stepInit (init : Option Stmt) (innerInit : init.all Stmt.isInner) :
      Ensures (fun s => s.isInner) (behindInit init) := by
    refine ensures_after fun _ => ensures_after fun empty => ?_
    extract_lets behindCond
    have stepCond (cond : Option Expr) : Ensures (fun s => s.isInner) (behindCond cond) := by
      refine ensures_after fun _ => ensures_after fun last => ?_
      extract_lets behindPost
      have stepPost (post : Option Stmt) (innerPost : post.all Stmt.isInner) :
          Ensures (fun s => s.isInner) (behindPost post) := by
        refine ensures_after fun _ => ih.stmt.bind fun body inner => ensures_pure ?_
        rw [Stmt.isInner_for, innerInit, innerPost, inner]
        rfl
      split
      · exact stepPost none rfl
      · exact (inner_simple n).some.bind stepPost
    split
    · exact ensures_after stepCond
    · exact ensures_after stepCond
  refine ensures_after fun declares => ?_
  split
  · exact stepInit none rfl
  · split
    · exact (inner_varDecl n _).some.bind stepInit
    · exact (inner_simple n).some.bind stepInit

theorem inner_clauses (ih : StmtsInner n) (seen : Bool) :
    Ensures (fun cs => clausesInner cs) (clauses (n + 1) seen) := by
  unfold clauses
  refine ensures_after fun closed => ?_
  split
  · exact ensures_pure rfl
  · refine ensures_after fun ended => ?_
    split
    · exact ensures_pure rfl
    · refine ensures_after fun t => ?_
      split
      · refine ensures_after fun _ => ensures_after fun value => ensures_after fun _ => ?_
        refine (ih.stmtsUntil true).bind fun body inner => (ih.clauses seen).bind fun cs rest => ?_
        exact ensures_pure (Bool.and_eq_true_iff.mpr ⟨inner, rest⟩)
      · refine ensures_after fun _ => ?_
        have others : Ensures (fun cs => clausesInner cs) (do
            expectPunct .colon "Expected ':' after case label."
            let body ← stmtsUntil n true
            return Clause.default_ t.span body :: (← clauses n true)) := by
          refine ensures_after fun _ => (ih.stmtsUntil true).bind fun body inner => ?_
          refine (ih.clauses true).bind fun cs rest => ?_
          exact ensures_pure (Bool.and_eq_true_iff.mpr ⟨inner, rest⟩)
        split
        · exact ensures_after fun _ => others
        · exact others
      · exact ensures_fail _ _

theorem inner_tryStmt (ih : StmtsInner n) (s : Span) : Ensures (fun s => s.isInner) (tryStmt (n + 1) s) := by
  unfold tryStmt
  refine ih.block.bind fun body inner => ih.catches.bind fun cs others => ensures_after fun guarded => ?_
  extract_lets behindLast
  have step (last : Option Stmt) (innerLast : last.all Stmt.isInner) :
      Ensures (fun s => s.isInner) (behindLast last) := by
    have whole : (Stmt.try_ s body cs last).isInner := by
      rw [Stmt.isInner_try, inner, others, innerLast]
      rfl
    dsimp only [behindLast]
    split
    · exact ensures_after fun _ => ensures_pure whole
    · exact ensures_pure whole
  split
  · exact ih.block.some.bind step
  · exact step none rfl

theorem inner_catches (ih : StmtsInner n) : Ensures (fun cs => catchesInner cs) (catches (n + 1)) := by
  unfold catches
  refine ensures_after fun t => ensures_after fun caught => ?_
  split
  · refine ensures_after fun _ => ensures_after fun first => ensures_after fun next => ?_
    extract_lets behindName
    have step (p : String × String) : Ensures (fun cs => catchesInner cs) (behindName p) := by
      refine ensures_after fun _ => ih.block.bind fun body inner => ih.catches.bind fun cs others => ?_
      exact ensures_pure (Bool.and_eq_true_iff.mpr ⟨inner, others⟩)
    split
    · exact ensures_after fun _ => ensures_after step
    · exact ensures_after step
  · exact ensures_pure rfl

end Below

theorem stmtsInner (n : Nat) : StmtsInner n := by
  induction n with
  | zero => constructor <;> intros <;> exact ensures_throw _
  | succ n ih =>
      exact ⟨inner_stmt ih, inner_blockBelow ih, inner_stmtsUntil ih, inner_forStmt ih, inner_clauses ih,
        inner_tryStmt ih, inner_catches ih⟩

/-! ## Items as they are read -/

theorem inner_block (n : Nat) : Ensures (fun s => s.isInner) (block n) := (stmtsInner n).block

theorem items_funcDecl (n : Nat) (span : Span) : Ensures (fun s => s.isItem) (funcDecl n span) := by
  unfold funcDecl
  refine ensures_after fun name => ensures_after fun ps => ensures_after fun result => ?_
  exact (inner_block n).bind fun body inner => ensures_pure inner

/-- Whether the bodies of all methods and constructors declare nothing. -/
def Members.areInner (ms : Members) : Prop := (∀ m ∈ ms.methods, m.body.isInner) ∧ ∀ k ∈ ms.ctors, k.body.isInner

theorem inner_membersUntil (n : Nat) : Ensures Members.areInner (membersUntil n) := by
  have none_ : Ensures Members.areInner (pure ⟨[], [], []⟩) :=
    ensures_pure ⟨List.forall_mem_nil _, List.forall_mem_nil _⟩
  induction n with
  | zero => exact ensures_throw _
  | succ n ih =>
      unfold membersUntil
      refine ensures_after fun closed => ?_
      split
      · exact none_
      · refine ensures_after fun ended => ?_
        split
        · exact none_
        · refine ensures_after fun first => ensures_after fun isStatic => ?_
          extract_lets afterField afterCtor behindWords
          have field : Ensures Members.areInner (afterField ()) := by
            refine ensures_after fun name => ensures_after fun type => ensures_after fun init => ?_
            exact ensures_after fun _ => ih.bind fun rest inner => ensures_pure inner
          have ctor : Ensures Members.areInner (afterCtor ()) := by
            refine ensures_after fun ps => (inner_block n).bind fun body own => ih.bind fun rest inner => ?_
            exact ensures_pure ⟨inner.1, List.forall_mem_cons.mpr ⟨own, inner.2⟩⟩
          have step (isOverride : Bool) : Ensures Members.areInner (behindWords isOverride) := by
            refine ensures_after fun t => ?_
            split
            · refine ensures_after fun _ => ?_
              split
              · exact ensures_after fun _ => field
              · exact field
            · refine ensures_after fun _ => ensures_after fun name => ensures_after fun ps => ?_
              refine ensures_after fun result => (inner_block n).bind fun body own => ih.bind fun rest inner => ?_
              exact ensures_pure ⟨List.forall_mem_cons.mpr ⟨own, inner.1⟩, inner.2⟩
            · refine ensures_after fun _ => ?_
              split
              · exact ensures_after fun _ => ctor
              · exact ctor
            · exact ensures_fail _ _
          split
          · exact ensures_after step
          · exact ensures_after step

theorem items_classDecl (n : Nat) (span : Span) : Ensures (fun s => s.isItem) (classDecl n span) := by
  have behind (name base : String) : Ensures (fun s : Stmt => s.isItem) (do
      expectPunct .lbrace "Expected '\x7b' to start class body."
      let ms ← membersUntil n
      expectPunct .rbrace "Expected '\x7d' after class body."
      return .class_ ⟨span, name, base, ms.fields, ms.methods, ms.ctors⟩) := by
    refine ensures_after fun _ => (inner_membersUntil n).bind fun ms inner => ensures_after fun _ => ensures_pure ?_
    rw [Stmt.isItem, Bool.and_eq_true, List.all_eq_true, List.all_eq_true]
    exact inner
  unfold classDecl
  refine ensures_after fun name => ensures_after fun extended => ?_
  split
  · exact ensures_after (behind name)
  · exact ensures_after (behind name)

theorem items_items (n : Nat) : Ensures (fun xs => xs.all Stmt.isItem) (items n) := by
  induction n with
  | zero => exact ensures_throw _
  | succ n ih =>
      have more {x : Parse Stmt} (first : Ensures (fun s => s.isItem) x) :
          Ensures (fun xs : List Stmt => xs.all Stmt.isItem) (do
            let s ← x
            return s :: (← items n)) :=
        first.bind fun s own => ih.bind fun xs others => ensures_pure (Bool.and_eq_true_iff.mpr ⟨own, others⟩)
      have plain : Ensures (fun s => s.isItem) (stmt n) := by
        intro ts s rest eq
        exact Stmt.isItem_of_isInner ((stmtsInner n).stmt ts s rest eq)
      unfold items
      refine ensures_after fun t => ?_
      split
      · exact ensures_pure rfl
      · exact ensures_after fun _ => ih
      · exact ensures_after fun _ => more (items_funcDecl n _)
      · exact ensures_after fun _ => more (items_classDecl n _)
      · exact more plain

end Parser

/-- Whatever is read as a program declares functions and classes among its items only. -/
theorem Program.items_of_parse {tokens : List Token} {p : Program} (parsed : Program.parse tokens = .ok p) :
    p.items.all Stmt.isItem := by
  have whole : Parser.Ensures (fun p => p.items.all Stmt.isItem) (Parser.program (Parser.depthBound tokens)) :=
    Parser.ensures_after fun t => (Parser.items_items _).bind fun xs all => Parser.ensures_pure all
  unfold Program.parse at parsed
  cases run : Parser.program (Parser.depthBound tokens) tokens with
  | error e =>
      rw [run] at parsed
      cases parsed
  | ok r =>
      rw [run] at parsed
      cases parsed
      exact whole tokens r.1 r.2 run

end Lantern
