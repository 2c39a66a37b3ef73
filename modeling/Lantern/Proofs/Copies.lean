import Lantern.Proofs.Arithmetic
import Lantern.Proofs.Declared

/-!
# Copies of last blocks

The last block of a guarded statement is generated once more wherever something leaves the statement,
under the loops of that place. These are the loops around the statement unless the place is inside of
a loop or switch of its own; then a jump in the copy may go elsewhere than in the others. To say that
the copies do not differ otherwise, the statement is compared with one whose pending block takes no
notice of the loops.
-/

namespace Lantern.Emit

open Assembly

/-! ## Where no last block is pending -/

namespace Env

/-- With no pending last block. -/
def clear (env : Env) : Env := { env with lasts := [] }

end Env

section Clear

variable {env : Env}

theorem raise_clear (settled : env.Settled) : raise env = raise env.clear := by
  have none_ : ¬env.target.depth < env.lasts.length := Nat.not_lt.mpr settled
  simp only [raise, none_, if_false]
  rfl

theorem checkException_clear (settled : env.Settled) : checkException env = checkException env.clear := by
  have direct : env.lasts.length ≤ env.target.depth := settled
  simp only [checkException, direct, if_true]
  rfl

theorem callRoutine_clear (settled : env.Settled) (target : Operand) (args : List Operand) :
    callRoutine env target args = callRoutine env.clear target args := by
  simp only [callRoutine, checkException_clear settled]

theorem callAddress_clear (settled : env.Settled) (address : Operand) (args : List Operand) :
    callAddress env address args = callAddress env.clear address args := by
  simp only [callAddress, checkException_clear settled]

theorem evalArgs_clear (env : Env) (args : List Value) : evalArgs env args = evalArgs env.clear args := by
  induction args with
  | nil => rfl
  | cons v vs ih =>
      unfold evalArgs
      rw [ih]
      rfl

theorem putEntries_clear (env : Env) (place : Operand) (entries : List (Value × Value)) :
    putEntries env place entries = putEntries env.clear place entries := by
  induction entries with
  | nil => rfl
  | cons entry rest ih =>
      unfold putEntries
      rw [ih]
      rfl

theorem callMethod_clear (settled : env.Settled) (receiver : Operand) (args : List Operand) :
    callMethod env receiver args = callMethod env.clear receiver args := by
  simp only [callMethod, callAddress_clear settled]
  rfl

theorem superCall_clear (settled : env.Settled) (at_ : Span) (name : String) (args : List Value) :
    superCall env at_ name args = superCall env.clear at_ name args := by
  simp only [superCall, evalArgs_clear env, callMethod_clear settled]
  rfl

theorem staticCall_clear (settled : env.Settled) (at_ : Span) (cls name : String) (args : List Value) :
    staticCall env at_ cls name args = staticCall env.clear at_ cls name args := by
  simp only [staticCall, evalArgs_clear env, callRoutine_clear settled]
  rfl

theorem dispatch_clear (settled : env.Settled) (receiver : Value) (name : String) (args : List Value) :
    dispatch env receiver name args = dispatch env.clear receiver name args := by
  simp only [dispatch, evalArgs_clear env, callMethod_clear settled]
  rfl

theorem methodCall_clear (settled : env.Settled) (at_ : Span) (receiver : Value) (name : String) (args : List Value) :
    methodCall env at_ receiver name args = methodCall env.clear at_ receiver name args := by
  simp only [methodCall, superCall_clear settled, staticCall_clear settled, dispatch_clear settled]
  rfl

theorem construct_clear (settled : env.Settled) (at_ : Span) (c : ClassDecl) (obj : Operand) (args : List Value) :
    construct env at_ c obj args = construct env.clear at_ c obj args := by
  simp only [construct, evalArgs_clear env, callRoutine_clear settled]

theorem newObject_clear (settled : env.Settled) (initial : Expr → Emitting Unit) (at_ : Span) (cls : String)
    (args : List Value) : newObject env initial at_ cls args = newObject env.clear initial at_ cls args := by
  simp only [newObject, construct_clear settled]
  rfl

theorem libraryCall_clear (env : Env) (at_ : Span) (f : LibFunc) (readStr : Bool) (args : List Value) :
    libraryCall env at_ f readStr args = libraryCall env.clear at_ f readStr args := by
  simp only [libraryCall, evalArgs_clear env]
  rfl

theorem callByName_clear (settled : env.Settled) (at_ : Span) (name : String) (args : List Value) :
    callByName env at_ name args = callByName env.clear at_ name args := by
  simp only [callByName, evalArgs_clear env, callRoutine_clear settled, callAddress_clear settled,
    libraryCall_clear env]
  rfl

mutual

theorem exprWith_clear {env : Env} (settled : env.Settled) (initial : Expr → Emitting Unit) (e : Expr) :
    exprWith initial env e = exprWith initial env.clear e := by
  cases e with
  | number | bool | str | ident | super | funcRef => rfl
  | binary i op l r =>
      unfold exprWith
      rw [exprWith_clear settled initial l, exprWith_clear settled initial r]
      rfl
  | unary i op e =>
      unfold exprWith
      rw [exprWith_clear settled initial e]
  | ternary i c a b =>
      unfold exprWith
      rw [exprWith_clear settled initial c, exprWith_clear settled initial a, exprWith_clear settled initial b]
  | list i es =>
      unfold exprWith
      rw [valuesWith_clear settled initial es]
      rfl
  | map i es =>
      unfold exprWith
      simp only [mapLit, entriesWith_clear settled initial es, putEntries_clear env]
      rfl
  | index i b k =>
      unfold exprWith
      rw [exprWith_clear settled initial b, exprWith_clear settled initial k]
      rfl
  | member i o name =>
      unfold exprWith
      rw [exprWith_clear settled initial o]
      rfl
  | call i callee args =>
      unfold exprWith
      rw [valuesWith_clear settled initial args, callByName_clear settled]
  | method i r name args =>
      unfold exprWith
      rw [exprWith_clear settled initial r, valuesWith_clear settled initial args, methodCall_clear settled]
  | new_ i cls args =>
      unfold exprWith
      rw [valuesWith_clear settled initial args, newObject_clear settled]
  | step i op first t =>
      cases t with
      | index j b k =>
          unfold exprWith
          simp only [exprWith_clear settled initial b, exprWith_clear settled initial k]
          rfl
      | member j o name =>
          unfold exprWith
          simp only [exprWith_clear settled initial o]
          rfl
      | _ => rfl

theorem valuesWith_clear {env : Env} (settled : env.Settled) (initial : Expr → Emitting Unit) (es : List Expr) :
    valuesWith initial env es = valuesWith initial env.clear es := by
  cases es with
  | nil => rfl
  | cons e es => simp only [valuesWith, exprWith_clear settled initial e, valuesWith_clear settled initial es]

theorem entriesWith_clear {env : Env} (settled : env.Settled) (initial : Expr → Emitting Unit)
    (es : List (Expr × Expr)) : entriesWith initial env es = entriesWith initial env.clear es := by
  match es with
  | [] => rfl
  | (k, v) :: es =>
      simp only [entriesWith, exprWith_clear settled initial k, exprWith_clear settled initial v,
        entriesWith_clear settled initial es]

end

theorem exprAt_clear (settled : env.Settled) (depth : Nat) (e : Expr) :
    exprAt depth env e = exprAt depth env.clear e := by
  induction depth generalizing e with
  | zero => exact exprWith_clear settled _ e
  | succ depth ih =>
      have initial : exprAt depth env = exprAt depth env.clear := funext ih
      unfold exprAt
      rw [initial]
      exact exprWith_clear settled _ e

/-- The code of an expression does not depend on last blocks that no exception runs on its way. -/
theorem expr_clear (settled : env.Settled) (e : Expr) : expr env e = expr env.clear e :=
  exprAt_clear settled _ e

theorem value_clear (settled : env.Settled) : value env = value env.clear := by
  funext e
  rw [value, expr_clear settled]
  rfl

theorem valueFor_clear (settled : env.Settled) (target : Sigil) (e : Expr) :
    valueFor env target e = valueFor env.clear target e := by
  simp only [valueFor, libraryCall_clear env, value_clear settled, expr_clear settled]
  rfl

theorem print_clear (settled : env.Settled) (e : Expr) : print env e = print env.clear e := by
  simp only [print, value_clear settled]
  rfl

theorem throwStmt_clear (settled : env.Settled) (type : String) (e : Expr) :
    throwStmt env type e = throwStmt env.clear type e := by
  simp only [throwStmt, expr_clear settled, raise_clear settled]

theorem indexAssign_clear (settled : env.Settled) (at_ : Span) (base k e : Expr) :
    indexAssign env at_ base k e = indexAssign env.clear at_ base k e := by
  simp only [indexAssign, expr_clear settled, value_clear settled, valueFor_clear settled]
  rfl

theorem compareClauses_clear (settled : env.Settled) (strSubject : Bool) (subject : Operand) (cs : List Clause) :
    compareClauses env strSubject subject cs = compareClauses env.clear strSubject subject cs := by
  induction cs with
  | nil => rfl
  | cons c cs ih =>
      unfold compareClauses
      cases c <;> simp only [ih, expr_clear settled]

theorem loopTest_clear (settled : env.Settled) (endL : String) (cond : Option Expr) :
    loopTest env endL cond = loopTest env.clear endL cond := by
  cases cond with
  | none => rfl
  | some c => simp only [loopTest, expr_clear settled]

end Clear

/-! ## What leaves a guarded statement -/

/-- What there is between a statement and the guarded statement around it: neither loops nor switches, only
    switches, or a loop. -/
inductive Nest where
  | none
  | switch
  | loop
  deriving Repr, DecidableEq

/-- Inside of one more switch. -/
def Nest.inSwitch : Nest → Nest
  | .none | .switch => .switch
  | .loop => .loop

mutual

/-- Nothing leaves the guarded statement around from inside of a loop or switch that is in there. -/
def leavesOpenly (at_ : Nest) : Stmt → Bool
  | .block _ body => leaveOpenly at_ body
  | .ifElse _ _ a b => leavesOpenly at_ a && (match b with
    | some b => leavesOpenly at_ b
    | none => true)
  | .while_ _ _ body => leavesOpenly .loop body
  | .doWhile _ body _ => leavesOpenly .loop body
  | .for_ _ init _ post body =>
    (match init with
    | some i => leavesOpenly at_ i
    | none => true) &&
    (match post with
    | some p => leavesOpenly at_ p
    | none => true) && leavesOpenly .loop body
  | .switch _ _ cs => clausesLeaveOpenly at_.inSwitch cs
  | .continue_ _ => at_ != .switch
  | .return_ _ _ => at_ == .none
  | .try_ _ body cs last => leavesOpenly at_ body && catchesLeaveOpenly at_ cs && (match last with
    | some l => leavesOpenly at_ l
    | none => true)
  | _ => true

/-- Nothing in statements does. -/
def leaveOpenly (at_ : Nest) : List Stmt → Bool
  | [] => true
  | s :: ss => leavesOpenly at_ s && leaveOpenly at_ ss

/-- Nothing in the clauses of a switch does. -/
def clausesLeaveOpenly (at_ : Nest) : List Clause → Bool
  | [] => true
  | .case_ _ _ body :: cs => leaveOpenly at_ body && clausesLeaveOpenly at_ cs
  | .default_ _ body :: cs => leaveOpenly at_ body && clausesLeaveOpenly at_ cs

/-- Nothing in handlers does. -/
def catchesLeaveOpenly (at_ : Nest) : List Catch → Bool
  | [] => true
  | ⟨_, _, _, body⟩ :: cs => leavesOpenly at_ body && catchesLeaveOpenly at_ cs

end

/-! ## Last blocks that are generated alike -/

/-- The last blocks above a depth have the same code under some loops. -/
def Agree (loops : List LoopFrame) (depth : Nat) (lasts lasts' : List LastBlock) : Prop :=
  List.Forall₂ (fun b b' => b.run loops = b'.run loops) (lasts.take (lasts.length - depth))
    (lasts'.take (lasts'.length - depth))

section Agree

variable {loops : List LoopFrame} {depth : Nat} {lasts lasts' : List LastBlock}

theorem agree_refl (loops : List LoopFrame) (depth : Nat) (lasts : List LastBlock) : Agree loops depth lasts lasts :=
  List.forall₂_same.mpr fun _ _ => rfl

theorem agree_of_le (length : lasts'.length = lasts.length) (above : lasts.length ≤ depth) :
    Agree loops depth lasts lasts' := by
  unfold Agree
  rw [length, Nat.sub_eq_zero_of_le above, List.take_zero, List.take_zero]
  exact .nil

theorem Agree.above (all : Agree loops 0 lasts lasts') (length : lasts'.length = lasts.length) :
    Agree loops depth lasts lasts' := by
  unfold Agree at all ⊢
  rw [Nat.sub_zero, Nat.sub_zero, List.take_length, List.take_length] at all
  rw [length]
  exact List.forall₂_take _ all

theorem Agree.cons {b b' : LastBlock} (own : b.run loops = b'.run loops) (rest : Agree loops depth lasts lasts')
    (length : lasts'.length = lasts.length) : Agree loops depth (b :: lasts) (b' :: lasts') := by
  rcases Nat.lt_or_ge lasts.length depth with above | below
  · exact agree_of_le (by simp [length]) (by simpa using above)
  · unfold Agree at rest ⊢
    rw [length] at rest
    rw [List.length_cons, List.length_cons, length, Nat.succ_sub below, List.take_succ_cons, List.take_succ_cons]
    exact .cons own rest

theorem Agree.forM (agree : Agree loops depth lasts lasts') :
    (lasts.take (lasts.length - depth)).forM (fun l => l.run loops) =
      (lasts'.take (lasts'.length - depth)).forM fun l => l.run loops := by
  unfold Agree at agree
  generalize lasts.take (lasts.length - depth) = above at agree ⊢
  generalize lasts'.take (lasts'.length - depth) = above' at agree ⊢
  induction agree with
  | nil => rfl
  | cons own _ ih => exact congrArg₂ (· >>= ·) own (funext fun _ => ih)

end Agree

/-- Switches that were entered where at least `depth` last blocks were pending are put around. -/
def Extends (depth : Nat) (loops wider : List LoopFrame) : Prop :=
  ∃ switches : List LoopFrame, wider = switches ++ loops ∧ ∀ l ∈ switches, l.isSwitch = true ∧ depth ≤ l.depth

theorem find?_extended {depth : Nat} {switches loops : List LoopFrame}
    (later : ∀ l ∈ switches, l.isSwitch = true ∧ depth ≤ l.depth) :
    (switches ++ loops).find? (!·.isSwitch) = loops.find? (!·.isSwitch) := by
  have none_ : switches.find? (!·.isSwitch) = none :=
    List.find?_eq_none.mpr fun l mem => by simp [(later l mem).1]
  rw [List.find?_append, none_, Option.none_or]

/-- Two environments inside of a guarded statement that differ in pending last blocks only, and not in those
    that may be run from here. -/
structure Alike (at_ : Nest) (env env' : Env) : Prop where
  clear : env.clear = env'.clear
  settled : env.Settled
  length : env'.lasts.length = env.lasts.length
  out : at_ = .none → Agree env.loops 0 env.lasts env'.lasts
  broken : at_ ≠ .none → ∀ l, env.loops.head? = some l → Agree env.loops l.depth env.lasts env'.lasts
  continued : at_ = .loop → ∀ wider, Extends env.lasts.length env.loops wider →
    ∀ l, env.loops.find? (!·.isSwitch) = some l → Agree wider l.depth env.lasts env'.lasts

namespace Alike

variable {at_ : Nest} {env env' : Env} (alike : Alike at_ env env')

include alike

/-- What does not depend on pending last blocks is the same. -/
theorem same {α : Type} (f : Env → α) (blind : ∀ env : Env, f env = f env.clear) : f env = f env' := by
  rw [blind env, blind env', alike.clear]

theorem loops : env'.loops = env.loops := (alike.same Env.loops fun _ => rfl).symm

theorem settled' : env'.Settled := by
  unfold Env.Settled
  rw [alike.length, ← alike.same Env.target fun _ => rfl]
  exact alike.settled

theorem expr (e : Expr) : expr env e = Emit.expr env' e := by
  rw [expr_clear alike.settled, expr_clear alike.settled', alike.clear]

theorem valueFor (target : Sigil) (e : Expr) : valueFor env target e = Emit.valueFor env' target e := by
  rw [valueFor_clear alike.settled, valueFor_clear alike.settled', alike.clear]

theorem print (e : Expr) : print env e = Emit.print env' e := by
  rw [print_clear alike.settled, print_clear alike.settled', alike.clear]

theorem throwStmt (type : String) (e : Expr) : throwStmt env type e = Emit.throwStmt env' type e := by
  rw [throwStmt_clear alike.settled, throwStmt_clear alike.settled', alike.clear]

theorem indexAssign (at_ : Span) (base k e : Expr) : indexAssign env at_ base k e = Emit.indexAssign env' at_ base k e := by
  rw [indexAssign_clear alike.settled, indexAssign_clear alike.settled', alike.clear]

theorem compareClauses (strSubject : Bool) (subject : Operand) (cs : List Clause) :
    compareClauses env strSubject subject cs = Emit.compareClauses env' strSubject subject cs := by
  rw [compareClauses_clear alike.settled, compareClauses_clear alike.settled', alike.clear]

theorem loopTest (endL : String) (cond : Option Expr) : loopTest env endL cond = Emit.loopTest env' endL cond := by
  rw [loopTest_clear alike.settled, loopTest_clear alike.settled', alike.clear]

theorem raise : raise env = Emit.raise env' := by
  rw [raise_clear alike.settled, raise_clear alike.settled', alike.clear]

theorem store : store env = Emit.store env' := alike.same Emit.store fun _ => rfl

theorem spill : spill env = Emit.spill env' := alike.same Emit.spill fun _ => rfl

theorem pushTemp : pushTemp env = Emit.pushTemp env' := alike.same Emit.pushTemp fun _ => rfl

theorem var (name : String) : env.facts.var env.routine name = env'.facts.var env'.routine name :=
  alike.same (fun env => env.facts.var env.routine name) fun _ => rfl

theorem replay {depth : Nat} (agree : Agree env.loops depth env.lasts env'.lasts) :
    replay env depth = Emit.replay env' depth := by
  unfold Emit.replay
  rw [alike.loops]
  exact agree.forM

theorem leave (at' : Span) (goOn : Bool) (allowed : goOn = true → at_ ≠ .switch) :
    leave env at' goOn = Emit.leave env' at' goOn := by
  unfold Emit.leave
  rw [alike.loops]
  split
  · next l found =>
      have agree : Agree env.loops l.depth env.lasts env'.lasts := by
        cases inside : decide (at_ = .none) with
        | true => exact (alike.out (of_decide_eq_true inside)).above alike.length
        | false =>
            have inside := of_decide_eq_false inside
            cases goOn with
            | false =>
                refine alike.broken inside l ?_
                cases loops : env.loops <;> simp_all
            | true =>
                have loop : at_ = .loop := by
                  have := allowed rfl
                  cases at_ <;> simp_all
                exact alike.continued loop _ ⟨[], rfl, List.forall_mem_nil _⟩ l (by simpa using found)
      rw [alike.replay agree]
  · rfl

theorem returnStmt (e : Option Expr) (none_ : at_ = .none) : returnStmt env e = Emit.returnStmt env' e := by
  have empty : env.lasts.isEmpty = env'.lasts.isEmpty := by
    have length := alike.length
    cases lasts : env.lasts <;> cases lasts' : env'.lasts <;> simp_all
  have slot : env.retSlot = env'.retSlot := alike.same Env.retSlot fun _ => rfl
  have label : env.retLabel = env'.retLabel := alike.same Env.retLabel fun _ => rfl
  unfold Emit.returnStmt
  simp only [empty, slot, label, alike.replay (alike.out none_), alike.expr]

theorem inLoop (exit next : String) : Alike .loop (env.inFrame exit next false) (env'.inFrame exit next false) where
  clear := by
    show { env.clear with loops := ⟨exit, next, false, env.lasts.length⟩ :: env.clear.loops } =
      { env'.clear with loops := ⟨exit, next, false, env'.lasts.length⟩ :: env'.clear.loops }
    rw [alike.length, alike.clear]
  settled := alike.settled
  length := alike.length
  out := nofun
  broken := by
    rintro - l head
    obtain rfl := Option.some.inj head
    exact agree_of_le alike.length le_rfl
  continued := by
    rintro - wider - l found
    obtain rfl := Option.some.inj found
    exact agree_of_le alike.length le_rfl

theorem inSwitch (exit : String) : Alike at_.inSwitch (env.inFrame exit "" true) (env'.inFrame exit "" true) where
  clear := by
    show { env.clear with loops := ⟨exit, "", true, env.lasts.length⟩ :: env.clear.loops } =
      { env'.clear with loops := ⟨exit, "", true, env'.lasts.length⟩ :: env'.clear.loops }
    rw [alike.length, alike.clear]
  settled := alike.settled
  length := alike.length
  out none_ := by cases at_ <;> cases none_
  broken := by
    rintro - l head
    obtain rfl := Option.some.inj head
    exact agree_of_le alike.length le_rfl
  continued loop wider extends_ l found := by
    have loop : at_ = .loop := by cases at_ <;> first | rfl | cases loop
    obtain ⟨switches, rfl, later⟩ := extends_
    refine alike.continued loop _ ⟨switches ++ [⟨exit, "", true, env.lasts.length⟩], ?_, ?_⟩ l found
    · exact (List.append_cons _ _ _)
    · exact List.forall_mem_append.mpr ⟨later, List.forall_mem_singleton.mpr ⟨rfl, le_rfl⟩⟩

theorem widen (loop : at_ = .loop) {wider : List LoopFrame} (extends_ : Extends env.lasts.length env.loops wider) :
    Alike at_ { env with loops := wider } { env' with loops := wider } where
  clear := by
    show { env.clear with loops := wider } = { env'.clear with loops := wider }
    rw [alike.clear]
  settled := alike.settled
  length := alike.length
  out none_ := by cases loop.symm.trans none_
  broken inside l head := by
    obtain ⟨switches, rfl, later⟩ := extends_
    cases switches with
    | nil => exact alike.broken inside l head
    | cons f switches =>
        obtain rfl := Option.some.inj head
        exact agree_of_le alike.length (later f List.mem_cons_self).2
  continued := by
    rintro - wider' ⟨switches', rfl, later'⟩ l found
    obtain ⟨switches, rfl, later⟩ := extends_
    refine alike.continued loop _ ⟨switches' ++ switches, ?_, ?_⟩ l ?_
    · exact (List.append_assoc _ _ _).symm
    · exact List.forall_mem_append.mpr ⟨later', later⟩
    · rw [← found]
      exact (find?_extended later).symm

theorem guarded (label : String) {last : Option Stmt}
    (own : ∀ l ∈ last, ∀ env env' : Env, Alike at_ env env' → stmt env l = stmt env' l) :
    Alike at_ (env.guarded label (lastBlock? env last)) (env'.guarded label (lastBlock? env' last)) := by
  have clear (block block' : Option LastBlock) (same : block'.toList.length = block.toList.length) :
      (env.guarded label block).clear = (env'.guarded label block').clear := by
    show { env.clear with unwind := ⟨label, (block.toList ++ env.lasts).length⟩ :: env.clear.unwind } =
      { env'.clear with unwind := ⟨label, (block'.toList ++ env'.lasts).length⟩ :: env'.clear.unwind }
    rw [List.length_append, List.length_append, same, alike.length, alike.clear]
  cases last with
  | none => exact ⟨clear none none rfl, le_rfl, alike.length, alike.out, alike.broken, alike.continued⟩
  | some l =>
      have own := own l rfl
      have here : stmt env l = stmt { env' with loops := env.loops } l := by
        rw [← alike.loops]
        exact own env env' alike
      refine ⟨clear _ _ rfl, le_rfl, congrArg (· + 1) alike.length, fun none_ => ?_, fun inside f head => ?_,
        fun loop wider extends_ f found => ?_⟩
      · exact (alike.out none_).cons here alike.length
      · exact (alike.broken inside f head).cons here alike.length
      · obtain ⟨switches, rfl, later⟩ := extends_
        have extends_ : Extends env.lasts.length env.loops (switches ++ env.loops) :=
          ⟨switches, rfl, fun f mem => ⟨(later f mem).1, (Nat.le_succ _).trans (later f mem).2⟩⟩
        exact (alike.continued loop _ extends_ f found).cons (own _ _ (alike.widen loop extends_)) alike.length

end Alike

/-! ## Statements in environments that are alike -/

section Storing

variable {at_ : Nest} {env env' : Env} (alike : Alike at_ env env') (s : Span) (name : String)

include alike

theorem assign_alike (e : Expr) : stmt env (.assign s name e) = stmt env' (.assign s name e) := by
  show (do valueFor env (env.facts.var env.routine name) e; store env s name) =
    (do valueFor env' (env'.facts.var env'.routine name) e; store env' s name)
  rw [alike.var, alike.valueFor, alike.store]

theorem varDecl_alike (type : Option Sigil) (init : Option Expr) :
    stmt env (.varDecl s name type init) = stmt env' (.varDecl s name type init) := by
  cases init with
  | none =>
      show (do defaultValue type; store env s name) = (do defaultValue type; store env' s name)
      rw [alike.store]
  | some e => exact assign_alike alike s name e

end Storing

theorem clauseBodies_congr {env env' : Env} {cs : List Clause}
    (bodies : ∀ c ∈ cs, stmts env (clauseBody c) = stmts env' (clauseBody c)) (ls : List String) :
    clauseBodies env cs ls = clauseBodies env' cs ls := by
  induction cs generalizing ls with
  | nil => cases ls <;> rfl
  | cons c cs ih =>
      obtain ⟨own, others⟩ := List.forall_mem_cons.mp bodies
      cases ls with
      | nil => cases c <;> rfl
      | cons l ls => rw [clauseBodies_cons, clauseBodies_cons, own, ih others]

theorem handlers_congr {env env' : Env} (store : store env = Emit.store env') {cs : List Catch}
    (bodies : ∀ c ∈ cs, stmt env c.body = stmt env' c.body) (exc : Operand) (lastL : String) :
    handlers env exc lastL cs = handlers env' exc lastL cs := by
  induction cs with
  | nil => rfl
  | cons c cs ih =>
      obtain ⟨own, others⟩ := List.forall_mem_cons.mp bodies
      rw [handlers_cons, handlers_cons, store, own, ih others]

mutual

theorem stmt_alike {at_ : Nest} {env env' : Env} (alike : Alike at_ env env') (s : Stmt)
    (openly : leavesOpenly at_ s = true) : stmt env s = stmt env' s := by
  cases s with
  | block s body => exact stmts_alike alike body openly
  | print s e => exact alike.print e
  | expr s e => exact alike.expr e
  | printStmt | bare | func | class_ => rfl
  | assign s name e => exact assign_alike alike s name e
  | varDecl s name type init => exact varDecl_alike alike s name type init
  | indexAssign s b k e => exact alike.indexAssign s b k e
  | ifElse s c a b =>
      unfold leavesOpenly at openly
      obtain ⟨yes, no⟩ := (Bool.and_eq_true _ _).mp openly
      rw [stmt_ifElse, stmt_ifElse, alike.expr, stmt_alike alike a yes, stmt?_alike alike b fun s mem => by cases mem; exact no]
  | while_ s c body =>
      have inner (exit next : String) := stmt_alike (alike.inLoop exit next) body openly
      simp only [stmt_while, alike.expr, inner]
  | doWhile s body c =>
      have inner (exit next : String) := stmt_alike (alike.inLoop exit next) body openly
      simp only [stmt_doWhile, alike.expr, inner]
  | for_ s init cond post body =>
      unfold leavesOpenly at openly
      obtain ⟨both, inside⟩ := (Bool.and_eq_true _ _).mp openly
      obtain ⟨first, next⟩ := (Bool.and_eq_true _ _).mp both
      have inner (exit next : String) := stmt_alike (alike.inLoop exit next) body inside
      have first := stmt?_alike alike init fun s mem => by cases mem; exact first
      have next := stmt?_alike alike post fun s mem => by cases mem; exact next
      simp only [stmt_for, alike.loopTest, inner, first, next]
  | switch s e cs =>
      have inner (exit : String) (ls : List String) :=
        clauseBodies_congr (clauses_alike (alike.inSwitch exit) cs openly) ls
      simp only [stmt_switch, alike.expr, alike.spill, alike.compareClauses, inner]
  | break_ s => exact alike.leave s false nofun
  | continue_ s =>
      refine alike.leave s true fun _ => ?_
      simpa [leavesOpenly] using openly
  | return_ s e => exact alike.returnStmt e (by simpa [leavesOpenly] using openly)
  | throw_ s type e => exact alike.throwStmt type e
  | try_ s body cs last =>
      unfold leavesOpenly at openly
      obtain ⟨both, ending⟩ := (Bool.and_eq_true _ _).mp openly
      obtain ⟨inBody, inHandlers⟩ := (Bool.and_eq_true _ _).mp both
      have ending : ∀ l ∈ last, leavesOpenly at_ l = true := fun l mem => by cases mem; exact ending
      have own : ∀ l ∈ last, ∀ env env' : Env, Alike at_ env env' → stmt env l = stmt env' l := by
        intro l isLast env env' alike
        cases last with
        | none => cases isLast
        | some last =>
            obtain rfl := Option.some.inj isLast
            exact stmt_alike alike last (ending last rfl)
      have guarded (label : String) := alike.guarded label own
      have inner (label : String) := stmt_alike (guarded label) body inBody
      have handled (label : String) (exc : Operand) (lastL : String) :=
        handlers_congr (guarded label).store (catches_alike (guarded label) cs inHandlers) exc lastL
      simp only [stmt_try, alike.pushTemp, inner, handled, stmt?_alike alike last ending, alike.raise]

theorem stmt?_alike {at_ : Nest} {env env' : Env} (alike : Alike at_ env env') (o : Option Stmt)
    (openly : ∀ s ∈ o, leavesOpenly at_ s = true) : stmt? env o = stmt? env' o := by
  cases o with
  | none => rfl
  | some s => exact stmt_alike alike s (openly s rfl)

theorem stmts_alike {at_ : Nest} {env env' : Env} (alike : Alike at_ env env') (ss : List Stmt)
    (openly : leaveOpenly at_ ss = true) : stmts env ss = stmts env' ss := by
  cases ss with
  | nil => rfl
  | cons s ss =>
      obtain ⟨own, others⟩ := (Bool.and_eq_true _ _).mp openly
      unfold stmts
      rw [stmt_alike alike s own, stmts_alike alike ss others]

theorem clauses_alike {at_ : Nest} {env env' : Env} (alike : Alike at_ env env') (cs : List Clause)
    (openly : clausesLeaveOpenly at_ cs = true) :
    ∀ c ∈ cs, stmts env (clauseBody c) = stmts env' (clauseBody c) := by
  match cs with
  | [] => exact nofun
  | .case_ s v body :: cs =>
      obtain ⟨own, others⟩ := (Bool.and_eq_true _ _).mp openly
      exact List.forall_mem_cons.mpr ⟨stmts_alike alike body own, clauses_alike alike cs others⟩
  | .default_ s body :: cs =>
      obtain ⟨own, others⟩ := (Bool.and_eq_true _ _).mp openly
      exact List.forall_mem_cons.mpr ⟨stmts_alike alike body own, clauses_alike alike cs others⟩

theorem catches_alike {at_ : Nest} {env env' : Env} (alike : Alike at_ env env') (cs : List Catch)
    (openly : catchesLeaveOpenly at_ cs = true) : ∀ c ∈ cs, stmt env c.body = stmt env' c.body := by
  match cs with
  | [] => exact nofun
  | ⟨s, type, name, body⟩ :: cs =>
      obtain ⟨own, others⟩ := (Bool.and_eq_true _ _).mp openly
      exact List.forall_mem_cons.mpr ⟨stmt_alike alike body own, catches_alike alike cs others⟩

end

/-! ## Copies -/

/-- The code of a guarded statement with a last block, which is generated as given where something leaves
    the statement. -/
def tryCode (env : Env) (pending : LastBlock) (body : Stmt) (cs : List Catch) (last : Stmt) : Emitting Unit := do
  let catchL ← newLabel "catch"
  let catchExit ← newLabel "catchexit"
  let rethrow ← newLabel "rethrow"
  let lastL ← newLabel "finally"
  let endL ← newLabel "endtry"
  let exc ← pushTemp env
  stmt (env.guarded catchL (some pending)) body
  jump .jmp lastL
  place catchL
  emit .mov [exc, rdx]
  let caughtAll ← handlers (env.guarded catchExit (some pending)) exc lastL cs
  jumpUnless caughtAll rethrow
  place catchExit
  emit .mov [exc, rdx]
  place rethrow
  stmt env last
  emit .mov [rdx, exc]
  raise env
  place lastL
  stmt env last
  place endL
  popTemps 1

/-- A statement is part of another, with neither a loop nor a switch between them; the environments are
    those in which the code of the two is generated. -/
inductive Bare : Env → Stmt → Env → Stmt → Prop where
  | here (env : Env) (s : Stmt) : Bare env s env s
  | block {env env' : Env} {s t : Stmt} {at_ : Span} {body : List Stmt} :
      s ∈ body → Bare env s env' t → Bare env (.block at_ body) env' t
  | yes {env env' : Env} {t a : Stmt} {at_ : Span} {c : Expr} {b : Option Stmt} :
      Bare env a env' t → Bare env (.ifElse at_ c a b) env' t
  | no {env env' : Env} {t a b : Stmt} {at_ : Span} {c : Expr} :
      Bare env b env' t → Bare env (.ifElse at_ c a (some b)) env' t
  | guarded {env env' : Env} {t body : Stmt} {at_ : Span} {cs : List Catch} {last : Option Stmt} {label : String} :
      Bare (env.guarded label (lastBlock? env last)) body env' t → Bare env (.try_ at_ body cs last) env' t
  | handler {env env' : Env} {t body : Stmt} {at_ : Span} {c : Catch} {cs : List Catch} {last : Option Stmt}
      {label : String} : c ∈ cs → Bare (env.guarded label (lastBlock? env last)) c.body env' t →
      Bare env (.try_ at_ body cs last) env' t
  | last {env env' : Env} {t body l : Stmt} {at_ : Span} {cs : List Catch} :
      Bare env l env' t → Bare env (.try_ at_ body cs (some l)) env' t

theorem Bare.loops {env env' : Env} {s t : Stmt} (bare : Bare env s env' t) : env'.loops = env.loops := by
  induction bare with
  | here => rfl
  | block _ _ ih | yes _ ih | no _ ih | last _ ih => exact ih
  | guarded _ ih | handler _ _ ih => exact ih

theorem alike_guarded (env : Env) (label : String) {b b' : LastBlock} (same : b.run env.loops = b'.run env.loops) :
    Alike .none (env.guarded label (some b)) (env.guarded label (some b')) where
  clear := rfl
  settled := le_rfl
  length := rfl
  out _ := (agree_refl env.loops 0 env.lasts).cons same rfl
  broken inside := absurd rfl inside
  continued := nofun

/-- All copies of a last block are generated as the block itself where the guarded statement stands, unless
    something leaves the statement from inside of a loop or switch in there. So what breaks out of the
    block or goes on with a round, from no loop or switch of the block itself, gets in every copy to the
    innermost loop, or switch, around the guarded statement. -/
theorem stmt_try_copies (env : Env) (at_ : Span) (body : Stmt) (cs : List Catch) (last : Stmt)
    (inBody : leavesOpenly .none body = true) (inHandlers : catchesLeaveOpenly .none cs = true) :
    stmt env (.try_ at_ body cs (some last)) = tryCode env ⟨fun _ => stmt env last⟩ body cs last ∧
    ∀ (env' : Env) (at' : Span),
      (Bare env last env' (.break_ at') → stmt env' (.break_ at') =
        match env.loops.head? with
        | some l => do
          replay env' l.depth
          jump .jmp l.exit
        | none => warn at' "'break' or 'continue' outside of a loop is ignored") ∧
      (Bare env last env' (.continue_ at') → stmt env' (.continue_ at') =
        match env.loops.find? (!·.isSwitch) with
        | some l => do
          replay env' l.depth
          jump .jmp l.next
        | none => warn at' "'break' or 'continue' outside of a loop is ignored") := by
  refine ⟨?_, fun env' at' => ⟨fun bare => ?_, fun bare => ?_⟩⟩
  · have guarded (label : String) : Alike .none (env.guarded label (lastBlock? env (some last)))
        (env.guarded label (some ⟨fun _ => stmt env last⟩)) := alike_guarded env label rfl
    have inner (label : String) := stmt_alike (guarded label) body inBody
    have handled (label : String) (exc : Operand) (lastL : String) :=
      handlers_congr (guarded label).store (catches_alike (guarded label) cs inHandlers) exc lastL
    simp only [stmt_try, inner, handled]
    rfl
  · show leave env' at' false = _
    unfold leave
    rw [bare.loops]
    cases env.loops <;> rfl
  · show leave env' at' true = _
    unfold leave
    rw [bare.loops]
    simp only [Bool.true_and]
    rfl

/-- Statements that return from a branch and go on with a loop of their own. -/
def branching : Stmt :=
  .block default [.ifElse default (.ident default "x") (.return_ default none) none,
    .while_ default (.ident default "x") (.continue_ default)]

/-- A handler that goes on with the loop around. -/
def goingOn : List Catch := [⟨default, "", "x", .continue_ default⟩]

/-- The surroundings of a statement in a loop. -/
def looping : Env := Meaning.twoVariables.inFrame "Lout" "Lnext" false

/-- The labels of the jumps in code. -/
def jumps (code : List Instr) : List String :=
  code.filterMap fun i => match i.op, i.args with
    | .jmp, [.label l] => some l
    | _, _ => none

/-- Four copies of a last block that breaks: for the return, the handler, exceptions and the normal end. -/
theorem stmt_try_copies_looping :
    leavesOpenly .none branching = true ∧ catchesLeaveOpenly .none goingOn = true ∧
    stmt looping (.try_ default branching goingOn (some (.break_ default))) =
      tryCode looping ⟨fun _ => stmt looping (.break_ default)⟩ branching goingOn (.break_ default) ∧
    jumps ((stmt looping (.try_ default branching goingOn (some (.break_ default)))).run Meaning.blank).2.code.toList =
      ["Lout", "", "Lendif6", "Lcont8", "Lloop7", "Lfinally3", "Lout", "Lnext", "Lfinally3", "Lout", "", "Lout"] :=
  ⟨rfl, rfl, (stmt_try_copies looping default branching goingOn (.break_ default) rfl rfl).1, by decide +kernel⟩

end Lantern.Emit

namespace Lantern

open Assembly

/-- A guarded statement in a loop that returns from a loop of its own, with a last block that breaks. -/
def nestedReturn : String :=
  "func f() \x7b while (1) \x7b try \x7b while (1) \x7b return; \x7d \x7d finally \x7b break; \x7d \x7d \x7d"

/-- The copy for the return breaks out of the inner loop, the others out of the outer one. -/
theorem Program.copies_differ : ∃ p p' hints, Program.accept? 0 nestedReturn = some (p, p', hints) ∧
    ∃ r ∈ (p'.generate hints 0).1.routines, r.name = "fn_f" ∧
      r.code[5]? = some ⟨.jz, [.label "Lendloop5"], ""⟩ ∧ r.code[10]? = some ⟨.jz, [.label "Lendloop13"], ""⟩ ∧
      Emit.jumps r.code = ["Lendloop13", "Lret0", "Lloop11", "Lfinally9", "Lrethrow8", "Lendloop5", "Lunwind1",
        "Lendloop5", "Lloop3", "Lepi2"] := by
  have code : (Program.accept? 0 nestedReturn).any (fun (_, p', hints) =>
      (p'.generate hints 0).1.routines.any fun r => decide (r.name = "fn_f" ∧
        r.code[5]? = some ⟨.jz, [.label "Lendloop5"], ""⟩ ∧ r.code[10]? = some ⟨.jz, [.label "Lendloop13"], ""⟩ ∧
        Emit.jumps r.code = ["Lendloop13", "Lret0", "Lloop11", "Lfinally9", "Lrethrow8", "Lendloop5", "Lunwind1",
          "Lendloop5", "Lloop3", "Lepi2"])) = true := by
    rewrite [show Program.accept? 0 nestedReturn = _ from Program.accept?_ofList 0 _]
    decide +kernel
  obtain ⟨⟨p, p', hints⟩, accepted, code⟩ := (Option.any_eq_true _ _).mp code
  dsimp only at code
  obtain ⟨r, mem, code⟩ := List.any_eq_true.mp code
  exact ⟨p, p', hints, accepted, r, mem, of_decide_eq_true code⟩

end Lantern
