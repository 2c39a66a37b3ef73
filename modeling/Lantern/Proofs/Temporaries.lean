import Lantern.Proofs.Delivery
import Lantern.Proofs.Ending
import Lantern.Proofs.Licences

/-!
# Temporaries

Temporaries are handed out like a stack above the named locals and the slot of returned values. A frame says
what code may do with these words; the code of a form keeps to it where the code of its parts does, and gives
back what it takes. So an expression writes nothing below the temporaries in use where it starts but variables
it steps, and a routine uses only words and argument places that it has made room for.
-/

namespace Lantern

open Assembly

/-- The code of an expression steps a variable: itself, in an expression below, or in an initial value of an
    object it creates. -/
inductive ClassTable.Steps (t : ClassTable) : Expr → String → Prop
  /-- A step of the variable. -/
  | own (i j : Info) (op : StepOp) (first : Bool) (name : String) : Steps t (.step i op first (.ident j name)) name
  /-- A step below. -/
  | part {e e' : Expr} {name : String} (mem : e' ∈ e.parts) (steps : Steps t e' name) : Steps t e name
  /-- A step in an initial value of a new object. -/
  | initial {i : Info} {cls name : String} {args : List Expr} {f : Field} {e : Expr} (mem : f ∈ t.flatFields cls)
      (init : f.init = some e) (steps : Steps t e name) : Steps t (.new_ i cls args) name

namespace Emit

/-- What code may do with the frame of its routine. -/
structure Frame where
  /-- Number of named locals. -/
  locals : Nat
  /-- Slots it may write besides temporaries. -/
  writes : Int → Prop
  /-- Number of temporaries it does not write. -/
  floor : Nat

namespace Frame

variable (F : Frame)

/-- The place of a temporary. -/
def temp (n : Nat) : Operand := .slot (F.locals + 1 + n)

/-- An instruction uses named locals, the slot of returned values and so many temporaries, changes only what the
    frame lets it, and places only so many arguments. -/
structure Allows (temps args : Nat) (i : Instr) : Prop where
  uses : ∀ s : Int, .slot s ∈ i.args → 0 ≤ s ∧ s < F.locals + 1 + temps
  changes : ∀ s : Int, target? i = some (.slot s) → F.writes s ∨ F.locals + 1 + F.floor ≤ s
  places : i.op = .setarg → ∃ a : Nat, i.args.head? = some (.arg a) ∧ a < args

/-- The generator goes from `n` temporaries in use to `k` fewer. -/
structure Step (n k : Nat) (g g' : Gen) : Prop where
  temps : g'.temps = n - k
  maxTemps : g.maxTemps ≤ g'.maxTemps
  maxCallArgs : g.maxCallArgs ≤ g'.maxCallArgs
  code : ∃ added, g'.code.toList = g.code.toList ++ added ∧
    ∀ i ∈ added, F.Allows (max n g'.maxTemps) g'.maxCallArgs i

/-- An operand is among what may be used where `n` temporaries are in use. -/
class Reads (n : Nat) (o : Operand) : Prop where
  below : ∀ s : Int, o = .slot s → 0 ≤ s ∧ s < F.locals + 1 + n

/-- All of them are. -/
class ReadsAll (n : Nat) (os : List Operand) : Prop where
  each : ∀ o ∈ os, F.Reads n o

/-- An operand may be changed. -/
class Writes (o : Operand) : Prop where
  free : ∀ s : Int, o = .slot s → F.writes s ∨ F.locals + 1 + F.floor ≤ s

/-- A temporary may be written. -/
class Above (n : Nat) : Prop where
  le : F.floor ≤ n

/-- Every slot may be written. -/
class Open : Prop where
  all : ∀ s, F.writes s

end Frame

/-- A step of code generation that keeps to a frame where `n` temporaries are in use, and takes `k` of them away. -/
class Framed (F : Frame) (n k : Nat) {α : Type} (x : Emitting α) : Prop where
  step : ∀ g : Gen, g.temps = n → F.Step n k g (x.run g).2

namespace Frame

variable (F : Frame)

/-- Code keeps to a frame wherever it stands, and gives back the temporaries it takes. -/
class Keeps (x : Emitting Unit) : Prop where
  framed : ∀ (n : Nat) [F.Above n], Framed F n 0 x

/-- The code of each operand does. -/
class AllKeep (vs : List Value) : Prop where
  each : ∀ v ∈ vs, F.Keeps v.code

/-- The code of each entry does. -/
class EntriesKeep (es : List (Value × Value)) : Prop where
  each : ∀ e ∈ es, F.Keeps e.1.code ∧ F.Keeps e.2.code

end Frame

/-- Whether an operation passes arguments. -/
@[reducible] def passes : Op → Bool
  | .loadparam | .setarg => true
  | _ => false

/-! ## Steps -/

section Steps

variable {F : Frame} {n k : Nat} {α β : Type}

theorem Frame.Allows.mono {temps temps' args args' : Nat} {i : Instr} (allows : F.Allows temps args i)
    (room : temps ≤ temps') (places : args ≤ args') : F.Allows temps' args' i := by
  refine ⟨fun s mem => ?_, allows.changes, fun isSetarg => ?_⟩
  · have := allows.uses s mem
    omega
  · obtain ⟨a, first, below⟩ := allows.places isSetarg
    exact ⟨a, first, below.trans_le places⟩

theorem Frame.Step.trans {g g' g'' : Gen} (first : F.Step n 0 g g') (second : F.Step n k g' g'') : F.Step n k g g'' := by
  obtain ⟨added, own, allowed⟩ := first.code
  obtain ⟨added', later, allowed'⟩ := second.code
  refine ⟨second.temps, first.maxTemps.trans second.maxTemps, first.maxCallArgs.trans second.maxCallArgs,
    added ++ added', by rw [later, own, List.append_assoc], List.forall_mem_append.mpr ⟨fun i mem => ?_, allowed'⟩⟩
  exact (allowed i mem).mono (max_le_max_left n second.maxTemps) second.maxCallArgs

theorem framed_quiet {x : Emitting α} (temps : ∀ g : Gen, (x.run g).2.temps = g.temps - k)
    (maxTemps : ∀ g : Gen, g.maxTemps ≤ (x.run g).2.maxTemps)
    (maxCallArgs : ∀ g : Gen, g.maxCallArgs ≤ (x.run g).2.maxCallArgs) (code : ∀ g : Gen, (x.run g).2.code = g.code) :
    Framed F n k x :=
  ⟨fun g start => ⟨start ▸ temps g, maxTemps g, maxCallArgs g, [], by simp [code g], nofun⟩⟩

theorem framed_emit {op : Op} {args : List Operand} (allowed : F.Allows n 0 ⟨op, args, ""⟩) :
    Framed F n 0 (emit op args) :=
  ⟨fun _ start => ⟨start, le_rfl, le_rfl, [_], Array.toList_push,
    List.forall_mem_singleton.mpr (allowed.mono (le_max_left _ _) (Nat.zero_le _))⟩⟩

theorem Framed.seq_of {R : α → Prop} {x : Emitting α} {f : α → Emitting β} (first : Framed F n 0 x)
    (gives : ∀ g : Gen, R (x.run g).1) (rest : ∀ a, R a → Framed F n k (f a)) : Framed F n k (x >>= f) :=
  ⟨fun g start => (first.step g start).trans ((rest _ (gives g)).step _ (first.step g start).temps)⟩

theorem Framed.seq {x : Emitting α} {f : α → Emitting β} (first : Framed F n 0 x) (rest : ∀ a, Framed F n k (f a)) :
    Framed F n k (x >>= f) :=
  first.seq_of (R := fun _ => True) (fun _ => trivial) fun a _ => rest a

instance (priority := low) (x : Emitting Unit) [keeps : F.Keeps x] [F.Above n] : Framed F n 0 x := keeps.framed n

instance (a : α) : Framed F n 0 (pure a : Emitting α) :=
  framed_quiet (fun _ => rfl) (fun _ => le_rfl) (fun _ => le_rfl) fun _ => rfl

instance (x : Emitting α) (f : α → Emitting β) [first : Framed F n 0 x] [rest : ∀ a, Framed F n k (f a)] :
    Framed F n k (x >>= f) := first.seq rest

instance (priority := 2000) (x : Emitting α) (y : Emitting β) [first : Framed F n 0 x] [rest : Framed F n k y] :
    Framed F n k (x >>= fun _ => y) := first.seq fun _ => rest

instance (c : Prop) [Decidable c] (x y : Emitting α) [Framed F n k x] [Framed F n k y] :
    Framed F n k (if c then x else y) := by
  split <;> infer_instance

theorem framed_forM {xs : List α} {f : α → Emitting PUnit} (each : ∀ x ∈ xs, Framed F n 0 (f x)) :
    Framed F n 0 (xs.forM f) := by
  induction xs with
  | nil => exact inferInstanceAs (Framed F n 0 (pure ()))
  | cons x xs ih =>
      obtain ⟨first, others⟩ := List.forall_mem_cons.mp each
      exact first.seq fun _ => ih others

/-! ### Operands -/

/-- An operand is not a word of the frame. -/
class Outside (o : Operand) : Prop where
  outside : ∀ s, o ≠ .slot s

instance (v : Int64) : Outside (.imm v) := ⟨nofun⟩
instance (v : Int) : Outside (imm v) := ⟨nofun⟩
instance (l : String) : Outside (.label l) := ⟨nofun⟩
instance (s : String) : Outside (.data s) := ⟨nofun⟩
instance (s : String) : Outside (.addr s) := ⟨nofun⟩
instance (s : String) : Outside (fixedAddr s) := ⟨nofun⟩
instance (isStr : Bool) : Outside (strFlag isStr) := ⟨nofun⟩
instance : Outside inputBuffer := ⟨nofun⟩
instance : Outside rax := ⟨nofun⟩
instance : Outside rbx := ⟨nofun⟩
instance : Outside rdx := ⟨nofun⟩
instance : Outside r11 := ⟨nofun⟩
instance : Outside al := ⟨nofun⟩
instance : Outside eax := ⟨nofun⟩
instance : Outside edx := ⟨nofun⟩

instance (o : Operand) [out : Outside o] : F.Reads n o := ⟨fun s same => absurd same (out.outside s)⟩
instance (o : Operand) [out : Outside o] : F.Writes o := ⟨fun s same => absurd same (out.outside s)⟩
instance (o : Operand) [open_ : F.Open] : F.Writes o := ⟨fun s _ => .inl (open_.all s)⟩

instance (l : Nat) [above : F.Above n] : F.Above (n + l) := ⟨above.le.trans (Nat.le_add_right n l)⟩

instance (o : Operand) (l : Nat) [reads : F.Reads n o] : F.Reads (n + l) o := by
  refine ⟨fun s same => ?_⟩
  have := reads.below s same
  omega

instance : F.Reads (n + 1) (F.temp n) := by
  refine ⟨fun s same => ?_⟩
  have := Operand.slot.inj same
  omega

instance [above : F.Above n] : F.Writes (F.temp n) := by
  refine ⟨fun s same => .inr ?_⟩
  have := Operand.slot.inj same
  have := above.le
  omega

instance (c : Prop) [Decidable c] (a b : Operand) [F.Reads n a] [F.Reads n b] : F.Reads n (if c then a else b) := by
  split <;> infer_instance

instance : F.ReadsAll n [] := ⟨nofun⟩

instance (o : Operand) (os : List Operand) [own : F.Reads n o] [others : F.ReadsAll n os] : F.ReadsAll n (o :: os) :=
  ⟨List.forall_mem_cons.mpr ⟨own, others.each⟩⟩

instance (os : List Operand) (l : Nat) [all : F.ReadsAll n os] : F.ReadsAll (n + l) os :=
  ⟨fun o mem => have := all.each o mem; inferInstance⟩

/-! ### Small steps -/

instance (op : Op) (o : Operand) (os : List Operand) [plain : Unset (passes op)] [writes : F.Writes o]
    [reads : F.ReadsAll n (o :: os)] : Framed F n 0 (emit op (o :: os)) := by
  refine framed_emit ⟨fun s mem => (reads.each _ mem).below s rfl, fun s same => ?_, fun isSetarg => ?_⟩
  · have noFetch : fetches op = false := by
      cases op <;> first | rfl | cases plain.unset
    exact writes.free s (Option.some.inj ((target?_cons noFetch o os).symm.trans same))
  · cases isSetarg
    cases plain.unset

instance (op : Op) [plain : Unset (passes op)] : Framed F n 0 (emit op []) := by
  refine framed_emit ⟨nofun, fun s same => ?_, fun isSetarg => ?_⟩
  · unfold target? at same
    split at same <;> cases same
  · cases isSetarg
    cases plain.unset

instance (c : Prop) [Decidable c] (a b : Op) [Unset (passes a)] [Unset (passes b)] :
    Unset (passes (if c then a else b)) := by
  split <;> infer_instance

instance (l : String) : Framed F n 0 (place l) := inferInstanceAs (Framed F n 0 (emit _ _))
instance (op : Op) (l : String) [Unset (passes op)] : Framed F n 0 (jump op l) :=
  inferInstanceAs (Framed F n 0 (emit _ _))
instance : Framed F n 0 testResult := inferInstanceAs (Framed F n 0 (emit _ _))
instance : Framed F n 0 zero := inferInstanceAs (Framed F n 0 (emit _ _))
instance (base : String) : Framed F n 0 (newLabel base) :=
  framed_quiet (fun _ => rfl) (fun _ => le_rfl) (fun _ => le_rfl) fun _ => rfl
instance (at_ : Span) (message : String) : Framed F n 0 (warn at_ message) :=
  framed_quiet (fun _ => rfl) (fun _ => le_rfl) (fun _ => le_rfl) fun _ => rfl
instance (k : Nat) : Framed F n k (popTemps k) :=
  framed_quiet (fun _ => rfl) (fun _ => le_rfl) (fun _ => le_rfl) fun _ => rfl
instance (s : String) : Framed F n 0 (str s) :=
  framed_quiet (fun _ => rfl) (fun _ => le_rfl) (fun _ => le_rfl) fun _ => rfl

instance (priority := 3000) (s : String) (f : Operand → Emitting α) [rest : ∀ l, Framed F n k (f (.addr l))] :
    Framed F n k (str s >>= f) :=
  Framed.seq_of (R := fun o => ∃ l, o = .addr l) inferInstance (fun _ => ⟨_, rfl⟩) fun _ isAddr =>
    have ⟨l, same⟩ := isAddr
    same ▸ rest l

instance (priority := 3000) (l : Nat) (y : Emitting α) [rest : Framed F n k y] :
    Framed F (n + l) (k + l) (popTemps l >>= fun _ => y) := by
  refine ⟨fun g start => ?_⟩
  have after := rest.step (g.drop l) (by simp [Gen.drop, start])
  refine ⟨by rw [Nat.add_sub_add_right]; exact after.temps, after.maxTemps, after.maxCallArgs, ?_⟩
  obtain ⟨added, own, allowed⟩ := after.code
  exact ⟨added, own, fun i mem => (allowed i mem).mono (max_le_max_right _ (Nat.le_add_right n l)) le_rfl⟩

/-- Placing arguments adds an instruction for each. -/
theorem setArgsFrom_run (i : Nat) (os : List Operand) (g : Gen) : ∃ added : List Instr,
    ((setArgsFrom i os).run g).2 = { g with code := g.code ++ added.toArray } ∧
    ∀ j ∈ added, ∃ (a : Nat) (o : Operand), a < i + os.length ∧ o ∈ os ∧ j = ⟨.setarg, [.arg a, o], ""⟩ := by
  induction os generalizing i g with
  | nil => exact ⟨[], by simp [setArgsFrom]; rfl, nofun⟩
  | cons o os ih =>
      obtain ⟨added, run, each⟩ := ih (i + 1) (g.push .setarg [.arg i, o])
      refine ⟨⟨.setarg, [.arg i, o], ""⟩ :: added, ?_, List.forall_mem_cons.mpr ⟨⟨i, o, ?_, List.mem_cons_self, rfl⟩, ?_⟩⟩
      · show ((setArgsFrom (i + 1) os).run (g.push .setarg [.arg i, o])).2 = _
        rw [run]
        simp [Gen.push]
      · simp
      · intro j mem
        obtain ⟨a, o', below, held, same⟩ := each j mem
        refine ⟨a, o', ?_, List.mem_cons_of_mem _ held, same⟩
        rw [List.length_cons]
        omega

instance (os : List Operand) [reads : F.ReadsAll n os] : Framed F n 0 (setArgs os) := by
  refine ⟨fun g start => ?_⟩
  obtain ⟨added, run, each⟩ := setArgsFrom_run 0 os g
  have run : ((setArgs os).run g).2 =
      { g with code := g.code ++ added.toArray, maxCallArgs := max g.maxCallArgs os.length } :=
    congrArg (fun g : Gen => { g with maxCallArgs := max g.maxCallArgs os.length }) run
  rw [run]
  refine ⟨start, le_rfl, le_max_left _ _, added, by simp, fun i mem => ?_⟩
  obtain ⟨a, o, below, held, rfl⟩ := each i mem
  refine ⟨fun s used => ?_, nofun, fun _ => ⟨a, rfl, ?_⟩⟩
  · obtain rfl : Operand.slot s = o := by simpa using used
    have := (reads.each _ held).below s rfl
    dsimp only
    omega
  · exact (Nat.zero_add os.length ▸ below).trans_le (le_max_right _ _)

instance (name : String) (os : List Operand) [F.ReadsAll n os] : Framed F n 0 (call name os) := by
  have : Framed F n 0 (modify fun g => { g with externs := addNew g.externs name } : Emitting Unit) :=
    framed_quiet (fun _ => rfl) (fun _ => le_rfl) (fun _ => le_rfl) fun _ => rfl
  unfold call
  dsimp only
  infer_instance

end Steps

/-! ## Environments -/

/-- The frame is that of the routine. No exception has to run last blocks on its way to its target, so that code of
    expressions runs none. -/
class Env.Fits (F : Frame) (env : Env) : Prop where
  locals : env.locals.length = F.locals
  settled : env.Settled

/-- Pending last blocks keep to the frame too. -/
class Env.Holds (F : Frame) (env : Env) : Prop extends env.Fits F where
  lasts : ∀ l ∈ env.lasts, ∀ loops, F.Keeps (l.run loops)

section Places

variable {F : Frame} {n k : Nat} {α : Type} (env : Env) [fits : env.Fits F]

instance (priority := 3000) (f : Operand → Emitting α) [rest : Framed F (n + 1) (k + 1) (f (F.temp n))] :
    Framed F n k (pushTemp env >>= f) := by
  refine ⟨fun g start => ?_⟩
  have pushed : (pushTemp env).run g = (F.temp n, g.lift) := by
    rw [Frame.temp, ← start, ← fits.locals]
    rfl
  have run : (pushTemp env >>= f).run g = (f (F.temp n)).run g.lift := by
    show (let p := (pushTemp env).run g; (f p.1).run p.2) = _
    rw [pushed]
  rw [run]
  have after := rest.step g.lift (congrArg (· + 1) start)
  have room : n + 1 ≤ g.lift.maxTemps := start ▸ le_max_right _ _
  obtain ⟨added, own, allowed⟩ := after.code
  refine ⟨by rw [after.temps, Nat.add_sub_add_right], (le_max_left _ _).trans after.maxTemps, after.maxCallArgs,
    added, own, fun i mem => (allowed i mem).mono ?_ le_rfl⟩
  have := after.maxTemps
  omega

instance (priority := 3000) (f : Operand → Emitting α) [F.Above n] [rest : Framed F (n + 1) (k + 1) (f (F.temp n))] :
    Framed F n k (spill env >>= f) := by
  simp only [spill, bind_assoc, pure_bind]
  infer_instance

omit fits in
theorem lookup_slot {name : String} {s : Int} (found : env.lookup? name = some (.slot s)) :
    0 ≤ s ∧ s < env.locals.length := by
  unfold Env.lookup? at found
  split at found
  · next i slot =>
      have below := (List.findIdx?_eq_some_iff_getElem.mp slot).1
      have := Operand.slot.inj (Option.some.inj found)
      omega
  · split at found <;> cases found

theorem reads_of_lookup {name : String} {o : Operand} (found : env.lookup? name = some o) : F.Reads n o := by
  refine ⟨?_⟩
  rintro s rfl
  have := lookup_slot env found
  have := fits.locals
  omega

instance : F.Reads n env.retSlot := by
  refine ⟨fun s same => ?_⟩
  have := Operand.slot.inj same
  have := fits.locals
  omega

instance : Framed F n 0 (raise env) := by
  rw [fits.settled.raise]
  infer_instance

instance : Framed F n 0 (checkException env) := by
  rw [fits.settled.checkException]
  infer_instance

instance (target : Operand) (os : List Operand) [F.ReadsAll n os] [Outside target] :
    Framed F n 0 (callRoutine env target os) := by
  unfold callRoutine
  infer_instance

instance (address : Operand) (os : List Operand) [F.Reads n address] [F.ReadsAll n os] :
    Framed F n 0 (callAddress env address os) := by
  unfold callAddress
  infer_instance

instance (receiver : Operand) (os : List Operand) [F.Above n] [F.Reads n receiver] [F.ReadsAll n os] :
    Framed F n 0 (callMethod env receiver os) := by
  unfold callMethod
  infer_instance

end Places

/-! ## Forms of expressions -/

section Operands

-- The search for instances comes to the operands of each instruction.
set_option synthInstance.maxSize 1000

variable {F : Frame} {n : Nat} [F.Above n] (env : Env) [env.Fits F] (at_ : Span) (c a b k l r v x d : Value)
  [F.Keeps c.code] [F.Keeps a.code] [F.Keeps b.code] [F.Keeps k.code] [F.Keeps l.code] [F.Keeps r.code]
  [F.Keeps v.code] [F.Keeps x.code] [F.Keeps d.code]

omit [F.Above n] [env.Fits F] in
theorem Frame.AllKeep.head {v : Value} {vs : List Value} (all : F.AllKeep (v :: vs)) : F.Keeps v.code :=
  all.each v List.mem_cons_self

theorem Frame.AllKeep.tail {v : Value} {vs : List Value} (all : F.AllKeep (v :: vs)) : F.AllKeep vs :=
  ⟨fun v' mem => all.each v' (List.mem_cons_of_mem _ mem)⟩

instance (op : Op) [Unset (passes op)] : Framed F n 0 (flagValue op) := by
  unfold flagValue
  infer_instance

instance (op : UnaryOp) : Framed F n 0 (unary op v) := by
  unfold unary
  split <;> infer_instance

instance : Framed F n 0 (ternary c a b) := by
  unfold ternary
  infer_instance

instance (isOr : Bool) : Framed F n 0 (shortCircuit isOr l r) := by
  cases isOr <;> dsimp only [shortCircuit] <;> infer_instance

instance : Framed F n 0 (powerForm env l r) := by
  unfold powerForm
  infer_instance

instance (op : BinaryOp) : Framed F n 0 (wordOp op) := by
  cases op <;> dsimp only [wordOp, compareOp?] <;> infer_instance

instance (op : BinaryOp) : Framed F n 0 (strictBinary env op l r) := by
  unfold strictBinary
  dsimp only
  infer_instance

instance (op : BinaryOp) : Framed F n 0 (binary env op l r) := by
  unfold binary
  split <;> infer_instance

instance : Framed F n 0 (key v) := by
  unfold key
  split <;> infer_instance

omit [env.Fits F] in
theorem framed_pushElems (list : Operand) [F.Reads n list] (vs : List Value) (all : F.AllKeep vs) :
    Framed F n 0 (pushElems list vs) := by
  induction vs with
  | nil => exact inferInstanceAs (Framed F n 0 (pure ()))
  | cons v vs ih =>
      have := all.head
      have := ih all.tail
      unfold pushElems
      infer_instance

instance (vs : List Value) [all : F.AllKeep vs] : Framed F n 0 (listLit env vs) := by
  have := framed_pushElems (n := n + 1) (F.temp n) vs all
  unfold listLit
  infer_instance

theorem framed_putEntries (map : Operand) [F.Reads n map] (es : List (Value × Value)) (all : F.EntriesKeep es) :
    Framed F n 0 (putEntries env map es) := by
  induction es with
  | nil => exact inferInstanceAs (Framed F n 0 (pure ()))
  | cons e es ih =>
      obtain ⟨_, _⟩ := all.each e List.mem_cons_self
      have := ih ⟨fun e' mem => all.each e' (List.mem_cons_of_mem _ mem)⟩
      unfold putEntries
      infer_instance

instance (es : List (Value × Value)) [all : F.EntriesKeep es] : Framed F n 0 (mapLit env es) := by
  have := framed_putEntries (n := n + 1) env (F.temp n) es all
  unfold mapLit
  infer_instance

omit [env.Fits F] in
instance (kind : NodeKind) : Framed F n 0 (unsupported at_ kind) := by
  unfold unsupported
  infer_instance

instance (name : String) : Framed F n 0 (ident env at_ name) := by
  unfold ident
  split
  · next found =>
      have := reads_of_lookup (F := F) (n := n) env found
      infer_instance
  · infer_instance

instance (name : String) : Framed F n 0 (funcRef env at_ name) := by
  unfold funcRef
  infer_instance

instance (op : StepOp) : Unset (passes (stepInstr op)) := by
  cases op <;> exact ⟨rfl⟩

instance (op : StepOp) (first : Bool) (place : Operand) [F.Reads n place] [F.Writes place] :
    Framed F n 0 (stepPlace op first place) := by
  unfold stepPlace
  infer_instance

omit [F.Above n] in
theorem framed_stepVar (op : StepOp) (first : Bool) {name : String}
    (free : ∀ s, env.lookup? name = some (.slot s) → F.writes s) : Framed F n 0 (stepVar env at_ op first name) := by
  unfold stepVar
  split
  · next place found =>
      have := reads_of_lookup (F := F) (n := n) env found
      have : F.Writes place := ⟨fun s same => .inl (free s (same ▸ found))⟩
      infer_instance
  · infer_instance

instance (cls field : String) : Framed F n 0 (loadStatic env at_ cls field) := by
  unfold loadStatic
  split <;> infer_instance

instance : Framed F n 0 (index env at_ b k) := by
  unfold index
  dsimp only
  split <;> infer_instance

instance (name : String) : Framed F n 0 (member env at_ v name) := by
  unfold member
  split <;> infer_instance

instance (op : StepOp) (first : Bool) : Framed F n 0 (stepElement env at_ op first b k) := by
  unfold stepElement
  split
  · split <;> infer_instance
  · dsimp only
    infer_instance

instance : Framed F n 0 boolWord := by
  unfold boolWord
  infer_instance

instance (format : String) : Framed F n 0 (readString format) := by
  unfold readString
  infer_instance

instance : Framed F n 0 (lenForm v) := by
  unfold lenForm
  infer_instance

instance : Framed F n 0 (strForm v) := by
  unfold strForm
  split <;> infer_instance

instance : Framed F n 0 (numForm v) := by
  unfold numForm
  infer_instance

instance : Framed F n 0 (containsForm env v x) := by
  dsimp only [containsForm]
  infer_instance

instance : Framed F n 0 (deleteForm env v k) := by
  unfold deleteForm
  infer_instance

instance : Framed F n 0 (getOrForm env v k d) := by
  unfold getOrForm
  infer_instance

instance : Framed F n 0 (freeForm v) := by
  unfold freeForm
  infer_instance

instance (readStr : Bool) : Framed F n 0 (inputForm readStr) := by
  unfold inputForm
  infer_instance

end Operands

section Calls

variable {F : Frame} {n k : Nat} [F.Above n] (env : Env) [fits : env.Fits F] (at_ : Span) (args : List Value)
  [all : F.AllKeep args]

instance (os : { os : List Operand // F.ReadsAll (n + os.length) os }) : F.ReadsAll (n + os.1.length) os.1 := os.2

omit all in
/-- Arguments take a temporary each. -/
theorem framed_evalArgs {α : Type} (vs : List Value) (all : F.AllKeep vs) (f : List Operand → Emitting α)
    (rest : ∀ os : List Operand, F.ReadsAll (n + os.length) os → Framed F (n + os.length) (os.length + k) (f os)) :
    Framed F n k (evalArgs env vs >>= f) := by
  induction vs generalizing n k f with
  | nil =>
      have := rest [] inferInstance
      rw [evalArgs, pure_bind]
      simpa using this
  | cons v vs ih =>
      have := all.head
      have : Framed F (n + 1) (k + 1) (evalArgs env vs >>= fun os => f (F.temp n :: os)) := by
        refine ih all.tail _ fun os reads => ?_
        have shift : n + 1 + os.length = n + (F.temp n :: os).length := by
          rw [List.length_cons]
          omega
        have := rest (F.temp n :: os) (shift ▸ inferInstance)
        rw [shift]
        rwa [List.length_cons, Nat.add_right_comm, Nat.add_assoc os.length k 1] at this
      simp only [evalArgs, bind_assoc, pure_bind]
      infer_instance

instance (priority := 3000) {α : Type} (f : List Operand → Emitting α)
    [rest : ∀ os : { os : List Operand // F.ReadsAll (n + os.length) os },
      Framed F (n + os.1.length) (os.1.length + k) (f os.1)] : Framed F n k (evalArgs env args >>= f) :=
  framed_evalArgs env args all f fun os reads => rest ⟨os, reads⟩

instance (f : LibFunc) (readStr : Bool) : Framed F n 0 (libraryCall env at_ f readStr args) := by
  unfold libraryCall
  split
  · infer_instance
  · split
    case h_1 | h_9 | h_10 | h_11 => infer_instance
    case h_2 | h_3 | h_4 | h_8 =>
      have := all.head
      infer_instance
    case h_5 | h_6 =>
      have := all.head
      have := all.tail.head
      infer_instance
    case h_7 =>
      have := all.head
      have := all.tail.head
      have := all.tail.tail.head
      infer_instance

instance (name : String) : Framed F n 0 (callByName env at_ name args) := by
  unfold callByName
  split
  · next place found =>
      have (n : Nat) : F.Reads n place := reads_of_lookup env found
      infer_instance
  · split <;> infer_instance

instance (cls name : String) : Framed F n 0 (staticCall env at_ cls name args) := by
  unfold staticCall
  split <;> infer_instance

instance (name : String) : Framed F n 0 (superCall env at_ name args) := by
  unfold superCall
  split
  · next i named _ =>
      have found : env.lookup? "this" = some (.slot i) := by simp [Env.lookup?, named]
      have (n : Nat) : F.Reads n (.slot i) := reads_of_lookup env found
      infer_instance
  · infer_instance

instance (receiver : Value) [F.Keeps receiver.code] (name : String) : Framed F n 0 (dispatch env receiver name args) := by
  unfold dispatch
  infer_instance

instance (receiver : Value) [F.Keeps receiver.code] (name : String) :
    Framed F n 0 (methodCall env at_ receiver name args) := by
  unfold methodCall
  split
  · infer_instance
  · split <;> infer_instance

instance (c : ClassDecl) (obj : Operand) [F.Reads n obj] : Framed F n 0 (construct env at_ c obj args) := by
  unfold construct
  infer_instance

omit fits all in
instance (type : Option Sigil) : Framed F n 0 (defaultValue type) := by
  unfold defaultValue
  split <;> infer_instance

omit fits all in
theorem framed_setFields (obj : Operand) [F.Reads n obj] (initial : Expr → Emitting Unit) (fs : List Field)
    (each : ∀ f ∈ fs, ∀ e, f.init = some e → F.Keeps (initial e)) : Framed F n 0 (setFields obj initial fs) := by
  induction fs with
  | nil => exact inferInstanceAs (Framed F n 0 (pure ()))
  | cons f fs ih =>
      obtain ⟨own, others⟩ := List.forall_mem_cons.mp each
      have := ih others
      unfold setFields
      dsimp only
      split
      · next e isInit =>
          have := own e isInit
          infer_instance
      · infer_instance

theorem framed_newObject (initial : Expr → Emitting Unit) (cls : String)
    (each : ∀ f ∈ env.classes.flatFields cls, ∀ e, f.init = some e → F.Keeps (initial e)) :
    Framed F n 0 (newObject env initial at_ cls args) := by
  unfold newObject
  split
  · infer_instance
  · have := framed_setFields (n := n + 1) (F.temp n) initial _ each
    dsimp only
    infer_instance

end Calls

/-! ## Expressions -/

/-- The frame lets code write the variables that an expression steps. -/
def Frame.Frees (F : Frame) (env : Env) (e : Expr) : Prop :=
  ∀ name, env.classes.Steps e name → ∀ s, env.lookup? name = some (.slot s) → F.writes s

theorem Frame.Frees.part {F : Frame} {env : Env} {e e' : Expr} (free : F.Frees env e) (mem : e' ∈ e.parts) :
    F.Frees env e' := fun name steps => free name (.part mem steps)

section Expressions

-- The linter looks at each theorem of the block below by itself.
set_option linter.unusedSectionVars false

variable {F : Frame} {env : Env} [fits : env.Fits F] (initial : Expr → Emitting Unit)
  (each : ∀ e, F.Frees env e → F.Keeps (initial e))

include each

mutual

theorem keeps_exprWith (e : Expr) (free : F.Frees env e) : F.Keeps (exprWith initial env e) := by
  refine ⟨fun n _ => ?_⟩
  cases e with
  | number | str | ident | super | funcRef => unfold exprWith; infer_instance
  | bool i v => unfold exprWith; infer_instance
  | binary i op l r =>
      have := keeps_exprWith l (free.part (by simp [Expr.parts]))
      have := keeps_exprWith r (free.part (by simp [Expr.parts]))
      unfold exprWith
      infer_instance
  | unary i op e =>
      have := keeps_exprWith e (free.part (by simp [Expr.parts]))
      unfold exprWith
      infer_instance
  | ternary i c a b =>
      have := keeps_exprWith c (free.part (by simp [Expr.parts]))
      have := keeps_exprWith a (free.part (by simp [Expr.parts]))
      have := keeps_exprWith b (free.part (by simp [Expr.parts]))
      unfold exprWith
      infer_instance
  | list i es =>
      have := keeps_valuesWith es fun e mem => free.part mem
      unfold exprWith
      infer_instance
  | map i es =>
      have := keeps_entriesWith es fun e mem => free.part (e := .map i es) mem
      unfold exprWith
      infer_instance
  | index i b k =>
      have := keeps_exprWith b (free.part (by simp [Expr.parts]))
      have := keeps_exprWith k (free.part (by simp [Expr.parts]))
      unfold exprWith
      infer_instance
  | member i o name =>
      have := keeps_exprWith o (free.part (by simp [Expr.parts]))
      unfold exprWith
      infer_instance
  | call i callee args =>
      have := keeps_valuesWith args fun e mem => free.part mem
      unfold exprWith
      infer_instance
  | method i r name args =>
      have := keeps_exprWith r (free.part List.mem_cons_self)
      have := keeps_valuesWith args fun e mem => free.part (List.mem_cons_of_mem _ mem)
      unfold exprWith
      infer_instance
  | new_ i cls args =>
      have := keeps_valuesWith args fun e mem => free.part mem
      unfold exprWith
      exact framed_newObject env i.span _ initial cls fun f mem e init =>
        each e fun name steps => free name (.initial mem init steps)
  | step i op first t =>
      cases t with
      | ident j name =>
          unfold exprWith
          exact framed_stepVar env i.span op first (free name (.own i j op first name))
      | index j b k =>
          have := keeps_exprWith b (free.part (by simp [Expr.parts]))
          have := keeps_exprWith k (free.part (by simp [Expr.parts]))
          unfold exprWith
          infer_instance
      | member j o name =>
          have := keeps_exprWith o (free.part (by simp [Expr.parts]))
          have : F.Keeps (do emit .lea [rax, ← str name]) := ⟨fun n _ => inferInstance⟩
          unfold exprWith
          infer_instance
      | _ => unfold exprWith; infer_instance

theorem keeps_valuesWith (es : List Expr) (free : ∀ e ∈ es, F.Frees env e) :
    F.AllKeep (valuesWith initial env es) := by
  cases es with
  | nil => exact ⟨nofun⟩
  | cons e es =>
      obtain ⟨own, others⟩ := List.forall_mem_cons.mp free
      exact ⟨List.forall_mem_cons.mpr ⟨keeps_exprWith e own, (keeps_valuesWith es others).each⟩⟩

theorem keeps_entriesWith (es : List (Expr × Expr)) (free : ∀ e ∈ es.flatMap fun e => [e.1, e.2], F.Frees env e) :
    F.EntriesKeep (entriesWith initial env es) := by
  match es with
  | [] => exact ⟨nofun⟩
  | (k, v) :: es =>
      obtain ⟨key, rest⟩ := List.forall_mem_cons.mp free
      obtain ⟨value, others⟩ := List.forall_mem_cons.mp rest
      exact ⟨List.forall_mem_cons.mpr ⟨⟨keeps_exprWith k key, keeps_exprWith v value⟩,
        (keeps_entriesWith es others).each⟩⟩

end

end Expressions

section Values

variable {F : Frame} (env : Env) [fits : env.Fits F]

theorem keeps_exprAt (depth : Nat) {e : Expr} (free : F.Frees env e) : F.Keeps (exprAt depth env e) := by
  induction depth generalizing e with
  | zero => exact keeps_exprWith _ (fun _ _ => ⟨fun _ _ => inferInstance⟩) e free
  | succ depth ih => exact keeps_exprWith _ (fun _ => ih) e free

/-- The code of an expression writes no variable but those it steps. -/
theorem keeps_expr {e : Expr} (free : F.Frees env e) : F.Keeps (expr env e) := keeps_exprAt env _ free

variable [open_ : F.Open]

instance (e : Expr) : F.Keeps (expr env e) := keeps_expr env fun _ _ s _ => open_.all s

instance (e : Expr) : F.Keeps (value env e).code := inferInstanceAs (F.Keeps (expr env e))

instance (es : List Expr) : F.AllKeep (es.map (value env)) := by
  refine ⟨fun v mem => ?_⟩
  obtain ⟨e, -, rfl⟩ := List.mem_map.mp mem
  infer_instance

instance (target : Sigil) (e : Expr) : F.Keeps (valueFor env target e) := by
  refine ⟨fun n _ => ?_⟩
  unfold valueFor
  split <;> infer_instance

end Values

/-! ## Statements -/

section Forms

-- As above: the code that prints a map is one long block.
set_option synthInstance.maxSize 1000

variable {F : Frame} {n : Nat} [F.Above n] [F.Open] (env : Env) [holds : env.Holds F]

instance (format : String) (os : List Operand) [F.ReadsAll n os] : Framed F n 0 (printf format os) := by
  unfold printf
  infer_instance

instance (o : Operand) [F.Reads n o] : Framed F n 0 (increment o) := by
  unfold increment
  infer_instance

instance (loop endL skip : String) (i m : Operand) [F.Reads n i] [F.Reads n m] :
    Framed F n 0 (loopHead loop endL skip i m) := by
  unfold loopHead
  infer_instance

instance (s : Sigil) : Framed F n 0 (printList env s) := by
  unfold printList
  infer_instance

instance : Framed F n 0 (printMap env) := by
  unfold printMap
  infer_instance

instance (b k : Value) [F.Keeps b.code] [F.Keeps k.code] : Framed F n 0 (printEntry env b k) := by
  unfold printEntry
  infer_instance

instance (v : Value) [F.Keeps v.code] : Framed F n 0 (printValue env v) := by
  unfold printValue
  split <;> infer_instance

instance (e : Expr) : Framed F n 0 (print env e) := by
  unfold print
  split <;> infer_instance

instance (at_ : Span) (name : String) : Framed F n 0 (store env at_ name) := by
  unfold store
  split
  · next place found =>
      have := reads_of_lookup (F := F) (n := n) env found
      infer_instance
  · infer_instance

instance (depth : Nat) : Framed F n 0 (replay env depth) :=
  framed_forM fun l mem => (holds.lasts l (List.mem_of_mem_take mem) env.loops).framed n

instance (at_ : Span) (goOn : Bool) : Framed F n 0 (leave env at_ goOn) := by
  unfold leave
  split <;> infer_instance

instance (o : Option Expr) : Framed F n 0 (returnStmt env o) := by
  unfold returnStmt
  dsimp only
  split <;> infer_instance

instance (type : String) (e : Expr) : Framed F n 0 (throwStmt env type e) := by
  unfold throwStmt
  dsimp only
  infer_instance

instance (at_ : Span) (base k e : Expr) : Framed F n 0 (indexAssign env at_ base k e) := by
  unfold indexAssign
  split
  · split <;> infer_instance
  · dsimp only
    infer_instance

instance (known : Bool) (label : String) : Framed F n 0 (jumpUnless known label) := by
  unfold jumpUnless
  infer_instance

instance (strSubject : Bool) (subject : Operand) [F.Reads n subject] (v : Expr) :
    Framed F n 0 (compareValue strSubject subject v) := by
  unfold compareValue
  infer_instance

instance (exc : Operand) [F.Reads n exc] (type next : String) : Framed F n 0 (testCatch exc type next) := by
  unfold testCatch
  infer_instance

instance (endL : String) (o : Option Expr) : Framed F n 0 (loopTest env endL o) := by
  unfold loopTest
  split <;> infer_instance

theorem framed_compareClauses (strSubject : Bool) (subject : Operand) [F.Reads n subject] (cs : List Clause) :
    Framed F n 0 (compareClauses env strSubject subject cs) := by
  induction cs with
  | nil => exact inferInstanceAs (Framed F n 0 (pure []))
  | cons c cs ih =>
      cases c with
      | case_ s v body =>
          rw [compareClauses_case]
          infer_instance
      | default_ s body =>
          unfold compareClauses
          infer_instance

omit [F.Open] holds in
theorem framed_clauseBodies {cs : List Clause} (bodies : ∀ c ∈ cs, F.Keeps (stmts env (clauseBody c)))
    (ls : List String) : Framed F n 0 (clauseBodies env cs ls) := by
  induction cs generalizing ls with
  | nil => cases ls <;> exact inferInstanceAs (Framed F n 0 (pure ()))
  | cons c cs ih =>
      obtain ⟨own, others⟩ := List.forall_mem_cons.mp bodies
      cases ls with
      | nil => cases c <;> exact inferInstanceAs (Framed F n 0 (pure ()))
      | cons l ls =>
          have := ih others ls
          rw [clauseBodies_cons]
          infer_instance

theorem framed_handlers {cs : List Catch} (bodies : ∀ c ∈ cs, F.Keeps (stmt env c.body)) (exc : Operand)
    [F.Reads n exc] (lastL : String) : Framed F n 0 (handlers env exc lastL cs) := by
  induction cs with
  | nil => exact inferInstanceAs (Framed F n 0 (pure false))
  | cons c cs ih =>
      obtain ⟨own, others⟩ := List.forall_mem_cons.mp bodies
      have := ih others
      rw [handlers_cons]
      infer_instance

instance (exit next : String) (isSwitch : Bool) : (env.inFrame exit next isSwitch).Holds F :=
  { locals := holds.locals, settled := holds.settled, lasts := holds.lasts }

instance (loops : List LoopFrame) : Env.Holds F { env with loops := loops } :=
  { locals := holds.locals, settled := holds.settled, lasts := holds.lasts }

omit [F.Open] in
theorem holds_guarded (label : String) {last : Option LastBlock}
    (own : ∀ l ∈ last, ∀ loops, F.Keeps (l.run loops)) : (env.guarded label last).Holds F := by
  have lasts : ∀ l ∈ (env.guarded label last).lasts, ∀ loops, F.Keeps (l.run loops) := by
    intro l mem loops
    rcases List.mem_append.mp mem with new | old
    · exact own l (by simpa using new) loops
    · exact holds.lasts l old loops
  exact { locals := holds.locals, settled := le_rfl, lasts := lasts }

end Forms

section

-- As above.
set_option synthInstance.maxSize 1000
set_option linter.unusedSectionVars false

variable {F : Frame} [F.Open]

mutual

/-- The code of a statement keeps to the frame and gives back the temporaries it takes. -/
theorem keeps_stmt (env : Env) [holds : env.Holds F] (s : Stmt) : F.Keeps (stmt env s) := by
  refine ⟨fun n _ => ?_⟩
  cases s with
  | print s e => exact inferInstanceAs (Framed F n 0 (print env e))
  | expr s e => exact inferInstanceAs (Framed F n 0 (expr env e))
  | bare e => exact inferInstanceAs (Framed F n 0 (warn _ _))
  | func f | class_ c => exact inferInstanceAs (Framed F n 0 (warn _ _))
  | printStmt s b =>
      exact inferInstanceAs
        (Framed F n 0 (do unsupported b.span b.kind; printf "fmt_int" [rax]; printf "newline" []))
  | throw_ s type e => exact inferInstanceAs (Framed F n 0 (throwStmt env type e))
  | return_ s e => exact inferInstanceAs (Framed F n 0 (returnStmt env e))
  | indexAssign s b k e => exact inferInstanceAs (Framed F n 0 (indexAssign env s b k e))
  | assign s name e => exact inferInstanceAs (Framed F n 0 (do valueFor env _ e; store env s name))
  | varDecl s name type init =>
      cases init with
      | none => exact inferInstanceAs (Framed F n 0 (do defaultValue type; store env s name))
      | some e => exact inferInstanceAs (Framed F n 0 (do valueFor env _ e; store env s name))
  | block s body => exact (keeps_stmts env body).framed n
  | ifElse s c a b =>
      have := keeps_stmt env a
      have := keeps_stmt? env b
      rw [stmt_ifElse]
      infer_instance
  | while_ s c body =>
      have (exit next : String) := keeps_stmt (env.inFrame exit next false) body
      rw [stmt_while]
      infer_instance
  | doWhile s body c =>
      have (exit next : String) := keeps_stmt (env.inFrame exit next false) body
      rw [stmt_doWhile]
      infer_instance
  | for_ s init cond post body =>
      have := keeps_stmt? env init
      have := keeps_stmt? env post
      have (exit next : String) := keeps_stmt (env.inFrame exit next false) body
      rw [stmt_for]
      infer_instance
  | switch s e cs =>
      have := framed_compareClauses (F := F) (n := n + 1) env e.sigil.isStr (F.temp n) cs
      have (endL : String) (ls : List String) := framed_clauseBodies (F := F) (n := n + 1)
        (env.inFrame endL "" true) (keeps_clauses (env.inFrame endL "" true) cs) ls
      rw [stmt_switch]
      infer_instance
  | break_ s => exact inferInstanceAs (Framed F n 0 (leave env s false))
  | continue_ s => exact inferInstanceAs (Framed F n 0 (leave env s true))
  | try_ s body cs last =>
      have := keeps_stmt? env last
      have block : ∀ l ∈ lastBlock? env last, ∀ loops, F.Keeps (l.run loops) := by
        intro l isLast loops
        cases last with
        | none => cases isLast
        | some last =>
            obtain rfl := Option.some.inj isLast
            exact keeps_stmt { env with loops := loops } last
      have guarded (label : String) := holds_guarded env label block
      have (label : String) := keeps_stmt (env.guarded label (lastBlock? env last)) body
      have (label lastL : String) := framed_handlers (F := F) (n := n + 1) (env.guarded label (lastBlock? env last))
        (keeps_catches (env.guarded label (lastBlock? env last)) cs) (F.temp n) lastL
      rw [stmt_try]
      infer_instance

theorem keeps_stmt? (env : Env) [holds : env.Holds F] (o : Option Stmt) : F.Keeps (stmt? env o) := by
  cases o with
  | none => exact ⟨fun n _ => inferInstanceAs (Framed F n 0 (pure ()))⟩
  | some s => exact keeps_stmt env s

theorem keeps_stmts (env : Env) [holds : env.Holds F] (ss : List Stmt) : F.Keeps (stmts env ss) := by
  refine ⟨fun n _ => ?_⟩
  cases ss with
  | nil => exact inferInstanceAs (Framed F n 0 (pure ()))
  | cons s ss =>
      have := keeps_stmt env s
      have := keeps_stmts env ss
      exact inferInstanceAs (Framed F n 0 (do stmt env s; stmts env ss))

theorem keeps_clauses (env : Env) [holds : env.Holds F] (cs : List Clause) :
    ∀ c ∈ cs, F.Keeps (stmts env (clauseBody c)) := by
  match cs with
  | [] => exact nofun
  | .case_ s v body :: cs => exact List.forall_mem_cons.mpr ⟨keeps_stmts env body, keeps_clauses env cs⟩
  | .default_ s body :: cs => exact List.forall_mem_cons.mpr ⟨keeps_stmts env body, keeps_clauses env cs⟩

theorem keeps_catches (env : Env) [holds : env.Holds F] (cs : List Catch) : ∀ c ∈ cs, F.Keeps (stmt env c.body) := by
  match cs with
  | [] => exact nofun
  | ⟨s, type, name, body⟩ :: cs => exact List.forall_mem_cons.mpr ⟨keeps_stmt env body, keeps_catches env cs⟩

end

end

/-! ## Environments that arise -/

section Arising

variable {t : ClassTable} {env : Env} {pending : List Stmt}

theorem Env.Arises.settled (arises : env.Arises t pending) : env.Settled := by
  induction arises with
  | enter => exact Nat.zero_le _
  | inFrame _ _ _ _ ih | leaving _ _ ih => exact ih
  | guarded => exact le_rfl

theorem Env.Arises.tidy (arises : env.Arises t pending) : env.Tidy := by
  induction arises with
  | enter => infer_instance
  | inFrame _ _ _ _ ih | leaving _ _ ih => exact ⟨ih.lasts⟩
  | guarded _ label last ih =>
      refine tidy_guarded ih label _ fun l isLast loops => ?_
      obtain ⟨s, -, rfl⟩ := Option.map_eq_some_iff.mp isLast
      infer_instance

/-- An expression changes no slot below the temporaries in use but those of variables it steps. -/
theorem Env.Settled.changes_expr (settled : env.Settled) (e : Expr) (g : Gen) : ∃ added,
    ((expr env e).run g).2.code.toList = g.code.toList ++ added ∧
    ∀ i ∈ added, ∀ s : Int, target? i = some (.slot s) →
      (∃ name, env.classes.Steps e name ∧ env.lookup? name = some (.slot s)) ∨ env.locals.length + 1 + g.temps ≤ s := by
  let F : Frame :=
    ⟨env.locals.length, fun s => ∃ name, env.classes.Steps e name ∧ env.lookup? name = some (.slot s), g.temps⟩
  have : env.Fits F := ⟨rfl, settled⟩
  have : F.Above g.temps := ⟨le_rfl⟩
  have keeps : F.Keeps (expr env e) := keeps_expr env fun name steps s found => ⟨name, steps, found⟩
  obtain ⟨added, own, allowed⟩ := ((keeps.framed g.temps).step g rfl).code
  exact ⟨added, own, fun i mem => (allowed i mem).changes⟩

end Arising

/-! ## Routines -/

/-- The frame of a routine, all of which its code may write. -/
def Frame.whole (locals : Nat) : Frame := ⟨locals, fun _ => True, 0⟩

section Routines

variable {F : Frame} {n : Nat} {env : Env}

instance (locals : Nat) : (Frame.whole locals).Open := ⟨fun _ => trivial⟩
instance (locals n : Nat) : (Frame.whole locals).Above n := ⟨Nat.zero_le n⟩

theorem holds_enter (locals : env.locals.length = F.locals) (t : Tail) : (env.enter t).Holds F :=
  { locals := locals, settled := Nat.zero_le _, lasts := List.forall_mem_nil _ }

instance : Framed F n 0 newTail := by
  unfold newTail
  infer_instance

instance (t : Tail) : Framed F n 0 (routineEnd t) := by
  unfold routineEnd
  infer_instance

instance (t : Tail) : Framed F n 0 (mainEnd t) := by
  unfold mainEnd
  infer_instance

theorem framed_loadParams [open_ : F.Open] (locals : env.locals.length = F.locals) (i : Nat) {names : List String}
    (known : ∀ x ∈ names, x ∈ env.locals) : Framed F n 0 (loadParams env i names) := by
  induction names generalizing i with
  | nil => exact inferInstanceAs (Framed F n 0 (pure ()))
  | cons name names ih =>
      obtain ⟨own, others⟩ := List.forall_mem_cons.mp known
      have := ih (i + 1) others
      have : Framed F n 0 (emit .loadparam [.arg i, .slot (env.locals.idxOf name)]) := by
        refine framed_emit ⟨fun s mem => ?_, fun s _ => .inl (open_.all s), nofun⟩
        have same : s = env.locals.idxOf name := by simpa using mem
        have := List.idxOf_lt_length_of_mem own
        omega
      unfold loadParams
      infer_instance

theorem framed_routineCode (env : Env) [F.Open] [F.Above n] (locals : env.locals.length = F.locals)
    {names : List String} (known : ∀ x ∈ names, x ∈ env.locals) (body : Stmt) :
    Framed F n 0 (routineCode env names body) := by
  have := framed_loadParams (n := n) locals 0 known
  have := holds_enter locals
  have (t : Tail) := keeps_stmt (F := F) (env.enter t) body
  unfold routineCode
  infer_instance

instance (c : ClassDecl) : Framed F n 0 (methodTable env c) := by
  have (entries : List MethodEntry) : Framed F n 0 (entries.forM fun m => do
      call "lm_map_set" [.data (SymbolName.methodTable c.name), ← str m.key, .addr m.symbol, imm 0]) :=
    framed_forM fun m _ => inferInstance
  unfold methodTable
  infer_instance

instance [F.Open] [F.Above n] [env.Fits F] (c : ClassDecl) : Framed F n 0 (staticInit env c) := by
  refine framed_forM fun f _ => ?_
  split <;> infer_instance

instance [F.Open] [F.Above n] [env.Fits F] (seed : Int64) : Framed F n 0 (prelude env seed) := by
  have : Framed F n 0 (env.classes.forM (methodTable env)) := framed_forM fun _ _ => inferInstance
  have : Framed F n 0 (env.classes.forM (staticInit env)) := framed_forM fun _ _ => inferInstance
  unfold prelude
  infer_instance

theorem framed_mainCode (env : Env) [F.Open] [F.Above n] (locals : env.locals.length = F.locals) (seed : Int64)
    (items : List Stmt) : Framed F n 0 (mainCode env seed items) := by
  have := holds_enter locals
  have (t : Tail) := keeps_stmts (F := F) (env.enter t) items
  unfold mainCode
  infer_instance

end Routines

end Emit

/-- A routine has room for all the words of its frame and places of arguments that it uses. -/
def Assembly.Routine.Roomy (r : Routine) : Prop :=
  ∀ i ∈ r.code, (∀ s : Int, .slot s ∈ i.args → 0 ≤ s ∧ s < r.slots) ∧
    (i.op = .setarg → ∃ a : Nat, i.args.head? = some (.arg a) ∧ a < r.maxCallArgs)

namespace Emit

theorem roomy_of_framed {locals : Nat} {code : Emitting Unit} (framed : Framed (.whole locals) 0 0 code) (name : String)
    (g : Gen) : Routine.Roomy ⟨name, (code.run g.cleared).2.code.toList,
      locals + 1 + (code.run g.cleared).2.maxTemps, (code.run g.cleared).2.maxCallArgs⟩ := by
  intro i mem
  obtain ⟨added, own, allowed⟩ := (framed.step g.cleared rfl).code
  obtain rfl : _ = added := own
  have allows := allowed i mem
  refine ⟨fun s used => ?_, allows.places⟩
  have := allows.uses s used
  rw [Nat.zero_max] at this
  push_cast
  exact this

theorem Source.roomy (env : Env) (s : Source) (g : Gen) : ((s.emit env).run g).1.Roomy :=
  roomy_of_framed (framed_routineCode (s.env env) rfl (fun _ => Meaning.Definition.mem_locals) s.body) s.symbol g

theorem roomy_mainRoutine {env : Env} (bare : env.locals = []) (seed : Int64) (items : List Stmt) (g : Gen) :
    ((mainRoutine env seed items).run g).1.Roomy := by
  rw [mainRoutine_eq]
  exact roomy_of_framed (framed_mainCode env (congrArg List.length bare) seed items) SymbolName.mainRoutine g

/-- What is generated for the elements of a list is generated for each in some state. -/
theorem mem_run_mapM {α β : Type} {f : α → Emitting β} {xs : List α} {g : Gen} {b : β}
    (mem : b ∈ ((xs.mapM f).run g).1) : ∃ x ∈ xs, ∃ g', b = ((f x).run g').1 := by
  induction xs generalizing g with
  | nil => cases mem
  | cons x xs ih =>
      rw [List.mapM_cons] at mem
      rcases List.mem_cons.mp mem with rfl | later
      · exact ⟨x, List.mem_cons_self, g, rfl⟩
      · obtain ⟨y, held, g', same⟩ := ih later
        exact ⟨y, List.mem_cons_of_mem _ held, g', same⟩

end Emit

/-- All routines of a program are. -/
theorem Inference.roomy (t : Inference) (hints : Hints) (seed : Int64) :
    ∀ r ∈ (t.generate hints seed).1.routines, r.Roomy := by
  intro r mem
  have mem : r ∈ ((Emit.routines (t.env hints) seed t.program.items).run (t.start hints)).1 := mem
  rw [Emit.routines_eq] at mem
  rcases List.mem_append.mp mem with inner | main
  · obtain ⟨s, -, g, rfl⟩ := Emit.mem_run_mapM inner
    exact s.roomy _ g
  · obtain rfl := List.mem_singleton.mp main
    exact Emit.roomy_mainRoutine rfl seed _ _

/-- Temporaries are handed out like a stack, and so are the loops, last blocks and targets of a routine. Whatever the
    state of the generator, wherever generating an expression or statement ends the three stacks and the number of
    temporaries in use are what they were where it began. It does end, with enough jumps, where the stacks came about
    by entering statements and copies of last blocks and initial values create nothing in a circle, and it generates
    what is generated in the environment that the stacks describe; so it is with whole programs. In every environment
    that arises, an expression changes no slot but those of variables it steps and those of temporaries that are not in
    use where it starts, and no temporary takes the place of a named local or of the returned value. Every routine of
    the image has room for the slots and the places of arguments that its code names. -/
theorem Inference.temporaries_nest (t : Inference) (hints : Hints) (seed : Int64) :
    (∀ (env : Emit.Env) depth (s s' : Stacked.Site),
      (∀ e, Stacked.expr (Stacked.knot env depth) env e s = .ok () s' →
        s'.around = s.around ∧ s'.gen.temps = s.gen.temps) ∧
      ∀ st, Stacked.stmt (Stacked.knot env depth) env st s = .ok () s' →
        s'.around = s.around ∧ s'.gen.temps = s.gen.temps) ∧
    (t.classes.NoCircle → ∀ env σ K, Stacked.Stands env σ K → env.classes = t.classes →
      (env.amid σ K).Arises t.classes (σ.lasts.map Stacked.Pending.body) ∧
      (∀ e, ∃ enough, ∀ depth, enough ≤ depth →
        Stacked.Goes σ σ (Stacked.expr (Stacked.knot env depth) env e) (Emit.expr (env.amid σ K) e)) ∧
      ∀ st, ∃ enough, ∀ depth, enough ≤ depth →
        Stacked.Goes σ σ (Stacked.stmt (Stacked.knot env depth) env st) (Emit.stmt (env.amid σ K) st)) ∧
    (t.classes.NoCircle →
      ∃ enough, ∀ depth, enough ≤ depth → t.generateAt depth hints seed = some (t.generate hints seed)) ∧
    (∀ (env : Emit.Env) (pending : List Stmt), env.Arises t.classes pending →
      (∀ e g, ((Emit.expr env e).run g).2.temps = g.temps) ∧
      (∀ s g, ((Emit.stmt env s).run g).2.temps = g.temps) ∧
      (∀ e g, ∃ added, ((Emit.expr env e).run g).2.code.toList = g.code.toList ++ added ∧
        ∀ i ∈ added, ∀ s : Int, Emit.target? i = some (.slot s) →
          (∃ name, env.classes.Steps e name ∧ env.lookup? name = some (.slot s)) ∨
            env.locals.length + 1 + g.temps ≤ s) ∧
      ∀ g, ((Emit.pushTemp env).run g).1 = .slot (env.locals.length + 1 + g.temps) ∧
        ((Emit.pushTemp env).run g).1 ≠ env.retSlot ∧
        ∀ name, env.lookup? name ≠ some ((Emit.pushTemp env).run g).1 ∧ env.lookup? name ≠ some env.retSlot) ∧
    ∀ r ∈ (t.generate hints seed).1.routines, r.Roomy := by
  refine ⟨fun env depth s s' => ⟨fun e => Stacked.kept_expr env depth e, fun st => Stacked.kept_stmt env depth st⟩,
    fun free env σ K stands table => ?_, fun free => t.generateAt_eq free hints seed, fun env pending arises => ?_,
    t.roomy hints seed⟩
  · have free : env.classes.NoCircle := table ▸ free
    exact ⟨table ▸ stands.arises, fun e => ⟨_, fun depth => stands.goes_expr free e⟩,
      fun st => ⟨_, fun depth => stands.goes_stmt free st⟩⟩
  have tidy := arises.tidy
  refine ⟨fun e g => (Emit.Tidy.tidy (k := 0) (x := Emit.expr env e) g).temps,
    fun s g => (Emit.Tidy.tidy (k := 0) (x := Emit.stmt env s) g).temps,
    fun e => arises.settled.changes_expr e, fun g => ⟨rfl, fun same => ?_, fun name => ⟨fun found => ?_, fun found => ?_⟩⟩⟩
  · have := Operand.slot.inj same
    omega
  · have := Emit.lookup_slot env found
    omega
  · have := Emit.lookup_slot env found
    omega

/-- Steps of variables below calls, inside a guarded statement whose last block is generated again where it returns. -/
def overlapping : String :=
  "func f(a) { var i = 0; try { return f(i++) + a * f(i++ + [a][0]); } finally { print(i); } } print(f(1));"

theorem Inference.temporaries_nest_overlapping : ∃ p p' hints, Program.accept? 0 overlapping = some (p, p', hints) ∧
    let t := p'.infer hints
    ((t.generate hints 0).1.routines.map fun r => (r.name, r.slots, r.maxCallArgs)) = [("fn_f", 8, 2), ("main", 2, 2)] ∧
    (∀ r ∈ (t.generate hints 0).1.routines, r.Roomy) ∧ t.classes.NoCircle ∧
    (∃ depth, t.generateAt depth hints 0 = some (t.generate hints 0)) ∧
    ∃ (env : Emit.Env) (σ : Stacked.Stacks) (K : List Emit.LastBlock), env.locals = ["a", "i"] ∧ σ.lasts.length = 1 ∧
      (env.amid σ K).Arises t.classes (σ.lasts.map Stacked.Pending.body) ∧
      (∀ st g, ((Emit.stmt (env.amid σ K) st).run g).2.temps = g.temps) ∧
      ∀ st g, ∃ depth s', Stacked.stmt (Stacked.knot env depth) env st ⟨g, σ, []⟩ = .ok () s' ∧
        s'.around = σ ∧ s'.gen.temps = g.temps := by
  have rooms : (Program.accept? 0 overlapping).map (fun r => ((r.2.1.infer r.2.2).classes.length,
      ((r.2.1.infer r.2.2).generate r.2.2 0).1.routines.map fun r => (r.name, r.slots, r.maxCallArgs))) =
      some (0, [("fn_f", 8, 2), ("main", 2, 2)]) := by
    rewrite [show Program.accept? 0 overlapping = _ from Program.accept?_ofList 0 _]
    decide +kernel
  obtain ⟨⟨p, p', hints⟩, accepted, rooms⟩ := Option.map_eq_some_iff.mp rooms
  simp only [Prod.mk.injEq] at rooms
  obtain ⟨none_, rooms⟩ := rooms
  obtain ⟨kept, ends, whole, nest, roomy⟩ := (p'.infer hints).temporaries_nest hints 0
  have free : (p'.infer hints).classes.NoCircle :=
    ClassTable.noCircle_of_rank (fun _ => 0) fun c mem => by rw [List.eq_nil_of_length_eq_zero none_] at mem; cases mem
  obtain ⟨depth, made⟩ := whole free
  let inside : Emit.Env := { (p'.infer hints).env hints with locals := ["a", "i"] }
  have stands : Stacked.Stands inside _ _ :=
    (Stacked.Stands.enter "Lunwind1").guarded "Lcatch3" (some (.block default []))
  obtain ⟨arises, -, goes⟩ := ends free inside _ _ stands rfl
  refine ⟨p, p', hints, accepted, rooms, roomy, free, ⟨depth, made depth le_rfl⟩, inside, _, _, rfl, rfl, arises,
    (nest _ _ arises).2.1, fun st g => ?_⟩
  obtain ⟨enough, goes⟩ := goes st
  obtain ⟨points, run⟩ := goes enough le_rfl ⟨g, _, []⟩ rfl
  exact ⟨enough, _, run, (kept inside enough _ _).2 st run⟩

end Lantern
