import Lantern.Emit

/-!
# Stacks of a routine

While code for a routine is generated, three stacks change with it: the loops that `break` and `continue` search, the
last blocks that whatever leaves a guarded statement runs, and the targets of exceptions. Statements push onto them,
overwrite and cut them back, and copies of last blocks are generated with the stacks cut back to where their statement
stood. `Lantern.Emit` hands the same down as part of an environment; here it is state, and generation that would not
end stops at a given number of jumps to code that is not below.
-/

namespace Lantern.Stacked

open Assembly Emit

/-- A pending last block. -/
structure Pending where
  /-- The block. -/
  body : Stmt
  /-- Number of targets of exceptions outside of its statement. -/
  targets : Nat

/-- The stacks, innermost first. -/
structure Stacks where
  /-- Loops and switches. -/
  loops : List LoopFrame
  /-- Pending last blocks. -/
  lasts : List Pending
  /-- Targets of exceptions. -/
  unwind : List UnwindTarget

/-- A node code is generated for. -/
inductive Node where
  /-- An expression. -/
  | expr (e : Expr)
  /-- A statement. -/
  | stmt (s : Stmt)

/-- A point of a run: the stacks at a step, and the node if the step is the entry of one. -/
structure Point where
  /-- The stacks. -/
  around : Stacks
  /-- The node that is entered. -/
  node? : Option Node

/-- The state of the generator. -/
structure Site where
  /-- What is generated so far. -/
  gen : Gen
  /-- The stacks of the routine. -/
  around : Stacks
  /-- The points of the run so far, latest first. -/
  points : List Point

/-- Why generation stops. -/
inductive Stop where
  /-- Jumps nest deeper than allowed. -/
  | deep
  /-- There is no target of exceptions. -/
  | noTarget
  deriving Repr, DecidableEq

/-- A step of code generation. -/
abbrev Stacking := EStateM Stop Site

variable {α : Type}

/-- Notes a point of the run. -/
def note (node? : Option Node) : Stacking Unit :=
  modify fun s => { s with points := ⟨s.around, node?⟩ :: s.points }

/-- The stacks. -/
def look : Stacking Stacks := do
  note none
  return (← get).around

/-- Changes the stacks. -/
def change (f : Stacks → Stacks) : Stacking Unit := modify fun s => { s with around := f s.around }

/-- A step that leaves the stacks alone. -/
def act (x : Emitting α) : Stacking α := do
  note none
  modifyGet fun s => ((x.run s.gen).1, { s with gen := (x.run s.gen).2 })

instance : MonadLift Emitting Stacking := ⟨act⟩

/-- The outermost elements of a stack, so many of them. -/
def cutTo {β : Type} (size : Nat) (stack : List β) : List β := stack.drop (stack.length - size)

namespace Stacks

/-- The stacks of a routine that has not begun. -/
def empty : Stacks := ⟨[], [], []⟩

/-- Enters a loop or switch. -/
def pushLoop (σ : Stacks) (exit next : String) (isSwitch : Bool) : Stacks :=
  { σ with loops := ⟨exit, next, isSwitch, σ.lasts.length⟩ :: σ.loops }

/-- Leaves a loop or switch. -/
def popLoop (σ : Stacks) : Stacks := { σ with loops := σ.loops.tail }

/-- Adds a target of exceptions. -/
def pushTarget (σ : Stacks) (label : String) (depth : Nat) : Stacks :=
  { σ with unwind := ⟨label, depth⟩ :: σ.unwind }

/-- Puts another target in the place of the innermost one. -/
def setTarget (σ : Stacks) (label : String) (depth : Nat) : Stacks :=
  { σ with unwind := ⟨label, depth⟩ :: σ.unwind.tail }

/-- Leaves so many targets. -/
def cutTargets (σ : Stacks) (size : Nat) : Stacks := { σ with unwind := cutTo size σ.unwind }

/-- Adds the last block of a statement that has one. -/
def pushLast (σ : Stacks) (last : Option Stmt) (targets : Nat) : Stacks :=
  { σ with lasts := last.toList.map (⟨·, targets⟩) ++ σ.lasts }

/-- Takes away the last block of a statement that has one. -/
def popLast (σ : Stacks) (last : Option Stmt) : Stacks :=
  { σ with lasts := σ.lasts.drop last.toList.length }

end Stacks

/-- What generation goes on to that is not below. -/
structure Knot where
  /-- Generates the initial value of a field. -/
  initial : Expr → Stacking Unit
  /-- Generates a pending last block. -/
  last : Stmt → Stacking Unit

/-- Generates last blocks, innermost first, while `depth` or more of them are outside of the block. Each is generated
    as if its statement had been left: under the last blocks outside of it, and the targets that were there. -/
def replayFrom (k : Knot) (saved : Stacks) (depth : Nat) : List Pending → Stacking Unit
  | [] => pure ()
  | e :: outer =>
    if depth ≤ outer.length then do
      change fun σ => { σ with lasts := outer, unwind := cutTo e.targets saved.unwind }
      k.last e.body
      replayFrom k saved depth outer
    else pure ()

/-- Generates the pending last blocks above `depth`, and restores the stacks. The loops stay as they are. -/
def replay (k : Knot) (depth : Nat) : Stacking Unit := do
  let saved ← look
  replayFrom k saved depth saved.lasts
  change fun σ => { σ with lasts := saved.lasts, unwind := saved.unwind }

/-- The innermost target of exceptions. -/
def target : Stacking UnwindTarget := do
  match (← look).unwind with
  | u :: _ => return u
  | [] => throw .noTarget

/-- Delivers the exception in `rdx` to the innermost target, after the last blocks that the target
    does not run itself. -/
def raise (k : Knot) (env : Env) : Stacking Unit := do
  let u ← target
  let σ ← look
  if u.depth < σ.lasts.length then
    let exc ← pushTemp env
    emit .mov [exc, rdx]
    replay k u.depth
    emit .mov [rdx, exc]
    popTemps 1
  jump .jmp u.label

/-- Behind a call of a routine of the program: a non-zero `rdx` is an exception. -/
def checkException (k : Knot) (env : Env) : Stacking Unit := do
  let u ← target
  emit .test [rdx, rdx]
  let σ ← look
  if σ.lasts.length ≤ u.depth then jump .jnz u.label
  else
    let skip ← newLabel "noexc"
    jump .jz skip
    raise k env
    place skip

end Lantern.Stacked
