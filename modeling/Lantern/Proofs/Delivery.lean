import Lantern.Proofs.Copies
import Lantern.Proofs.Exceptions
import Lantern.Proofs.Returns

/-!
# Where exceptions go

An exception is on its way in `rdx`. A guarded statement that it comes to keeps it in a temporary while
handlers are tried and the last block runs, and then sends it on; the end of a routine leaves it in `rdx`.
Generated code is careful with it: every throw and every test behind a call leads to such a way, and what
runs while an exception is kept has temporaries of its own.
-/

namespace Lantern

open Assembly

namespace Emit

/-! ## The way of an exception -/

/-- Where the code of a guarded statement deals with an exception that has come to it. -/
structure Guard where
  /-- The temporary that keeps the exception. -/
  exc : Int
  /-- Where handlers are tried. -/
  first : Nat
  /-- Where the last block starts that runs if there is no handler. -/
  rethrow : Nat
  /-- Where that block ends and the exception is taken back. -/
  back : Nat
  deriving DecidableEq

namespace Guard

/-- A handler starts at a place. -/
def Handles (g : Guard) (code : List Instr) (p : Nat) : Prop :=
  g.first ≤ p ∧ p < g.rethrow ∧ code[p]? = some ⟨.mov, [rax, .slot g.exc], ""⟩

instance (g : Guard) (code : List Instr) (p : Nat) : Decidable (g.Handles code p) :=
  inferInstanceAs (Decidable (_ ∧ _ ∧ _))

/-- Whether an operation asks for the type of an exception and compares it. -/
def asks : Op → Bool
  | .label | .setarg | .call | .test => true
  | _ => false

/-- From a place on, handlers are tried until one starts or the last block does. -/
inductive Tries (g : Guard) (code : List Instr) : Nat → Prop where
  | last : Tries g code g.rethrow
  | handler {p : Nat} : g.Handles code p → Tries g code p
  | ask {p : Nat} {i : Instr} : code[p]? = some i → asks i.op → target? i ≠ some (.slot g.exc) →
      Tries g code (p + 1) → Tries g code p
  | skip {p q : Nat} {l : String} : code[p]? = some ⟨.jmp, [.label l], ""⟩ → Placed code l q →
      Tries g code q → Tries g code p
  | branch {p q : Nat} {l : String} : code[p]? = some ⟨.jnz, [.label l], ""⟩ → Placed code l q →
      Tries g code q → Tries g code (p + 1) → Tries g code p

theorem Tries.mark {g : Guard} {code : List Instr} {p : Nat} {l : String}
    (stands : code[p]? = some ⟨.label, [.label l], ""⟩) (next : g.Tries code (p + 1)) : g.Tries code p :=
  .ask stands rfl nofun next

theorem Tries.test {g : Guard} {code : List Instr} {p : Nat} (stands : code[p]? = some ⟨.test, [eax, eax], ""⟩)
    (next : g.Tries code (p + 1)) : g.Tries code p :=
  .ask stands rfl nofun next

/-- The last block leaves the kept exception alone, and behind it the exception is taken back. -/
structure Stands (g : Guard) (code : List Instr) : Prop where
  order : g.rethrow ≤ g.back
  spares : ∀ p i, g.rethrow ≤ p → p < g.back → code[p]? = some i → target? i ≠ some (.slot g.exc)
  back : code[g.back]? = some ⟨.mov, [rdx, .slot g.exc], ""⟩

end Guard

/-- From a place on, what is in `rdx` is delivered to some guarded statements one after the other and then
    comes to the end of the routine. -/
inductive Carries (code : List Instr) (ends : Nat → Prop) : List Guard → Nat → Prop where
  | done {p : Nat} : ends p → Carries code ends [] p
  | mark {p : Nat} {l : String} {gs : List Guard} : code[p]? = some ⟨.label, [.label l], ""⟩ →
      Carries code ends gs (p + 1) → Carries code ends gs p
  | clear {p : Nat} {gs : List Guard} : code[p]? = some ⟨.xor, [eax, eax], ""⟩ →
      Carries code ends gs (p + 1) → Carries code ends gs p
  | jump {p q : Nat} {l : String} {gs : List Guard} : code[p]? = some ⟨.jmp, [.label l], ""⟩ →
      Placed code l q → Carries code ends gs q → Carries code ends gs p
  | keep {p : Nat} {g : Guard} {gs : List Guard} : code[p]? = some ⟨.mov, [.slot g.exc, rdx], ""⟩ →
      g.Tries code (p + 1) → g.Stands code → Carries code ends gs (g.back + 1) →
      Carries code ends (g :: gs) p

/-- A throw statement stands in the code of a routine, which moves its value to `rdx` at a place. -/
def ThrowsAt (code : List Instr) (type : String) (e : Expr) (place : Nat) : Prop :=
  ∃ (env : Env) (g : Gen), env.Tidy ∧ env.Settled ∧ Gen.Lies code g ((throwStmt env type e).run g).2 ∧
    ((throwStmt env type e).run g).2.code.size = place + 2

/-- A throw makes a new exception of its value, unless that is an object and no type is named. -/
def makesException (type : String) (e : Expr) : Bool := !type.isEmpty || !e.sigil.isObject

/-! ## Careful code -/

/-- The routines of the run-time library that generated code calls. -/
abbrev runtime : List String :=
  ["lm_array_contains_int", "lm_array_contains_str", "lm_array_free", "lm_array_get", "lm_array_length",
   "lm_array_new", "lm_array_pop", "lm_array_push", "lm_array_remove_at", "lm_array_set",
   "lm_exception_message", "lm_exception_new", "lm_exception_type", "lm_exception_uncaught",
   "lm_map_contains", "lm_map_delete", "lm_map_get", "lm_map_get_default", "lm_map_key_at", "lm_map_keys",
   "lm_map_new", "lm_map_set", "lm_map_size", "lm_map_value_at", "lm_map_value_is_string",
   "lm_map_value_is_string_key", "lm_map_values", "lm_random", "lm_seed", "lm_str_concat",
   "lm_str_contains", "lm_str_join", "lm_str_replace", "lm_str_split", "lm_str_trim", "lm_to_number",
   "lm_to_string", "printf", "scanf", "strcmp", "strlen"]

theorem listed_of_runtimeRoutine {f : LibFunc} {name : String} (found : runtimeRoutine? f = some name) :
    Listed name runtime := by
  cases f <;> cases found <;> infer_instance

/-- A place in the finished code of a routine, with temporaries in use that are to be left alone. -/
structure Scene where
  /-- The code. -/
  code : List Instr
  /-- Where an exception has come to the end of the routine. -/
  ends : Nat → Prop
  /-- Number of named locals. -/
  locals : Nat
  /-- Number of temporaries in use. -/
  temps : Nat

namespace Scene

/-- A label at which exceptions are delivered. -/
def Delivers (S : Scene) (l : String) : Prop := ∃ k gs, Placed S.code l k ∧ Carries S.code S.ends gs k

/-- What stands at a place leaves temporaries in use alone. A call of a routine of the program is followed by a
    test that delivers an exception, and a throw delivers its value. -/
structure Minds (S : Scene) (p : Nat) : Prop where
  spares : ∀ i s, S.code[p]? = some i → target? i = some (.slot s) →
    s ≤ S.locals ∨ S.locals + 1 + S.temps ≤ s
  tests : ∀ i o, S.code[p]? = some i → i.op = .call → i.args = [o] → (∀ name ∈ runtime, o ≠ .label name) →
    S.code[p + 1]? = some ⟨.test, [rdx, rdx], ""⟩ ∧
      ∃ l, S.code[p + 2]? = some ⟨.jnz, [.label l], ""⟩ ∧ S.Delivers l
  throws : S.code[p]? = some ⟨.mov, [rdx, rax], ""⟩ →
    ∃ type e gs, ThrowsAt S.code type e p ∧ Carries S.code S.ends gs (p + 1)

/-- Writing to an operand is no throw and leaves the temporaries in use alone. -/
class Spares (S : Scene) (o : Operand) : Prop where
  other : o ≠ rdx
  slot : ∀ s, o = .slot s → s ≤ S.locals ∨ S.locals + 1 + S.temps ≤ s

/-- With other temporaries in use. -/
def using_ (S : Scene) (n : Nat) : Scene := { S with temps := n }

end Scene

/-- A step of code generation that takes `k` temporaries away minds exceptions and temporaries in use. -/
class Careful (S : Scene) (k : Nat) {α : Type} (x : Emitting α) : Prop where
  before : ∀ g : Gen, S.temps + k ≤ g.temps → g.Before (x.run g).2
  temps : ∀ g : Gen, S.temps + k ≤ g.temps → (x.run g).2.temps + k = g.temps
  minds : ∀ g : Gen, S.temps + k ≤ g.temps → Gen.Lies S.code g (x.run g).2 →
    ∀ p, g.code.size ≤ p → p < (x.run g).2.code.size → S.Minds p

/-- The code of each operand is careful. -/
class AllCareful (S : Scene) (vs : List Value) : Prop where
  each : ∀ v ∈ vs, Careful S 0 v.code

/-- The code of each entry is careful. -/
class EntriesCareful (S : Scene) (es : List (Value × Value)) : Prop where
  each : ∀ e ∈ es, Careful S 0 e.1.code ∧ Careful S 0 e.2.code

/-- Exceptions below an environment are delivered, and pending last blocks are careful whatever temporaries
    are in use by then. -/
class Env.Careful (S : Scene) (env : Env) : Prop where
  tidy : env.Tidy
  locals : env.locals.length = S.locals
  settled : env.Settled
  delivers : S.Delivers env.target.label
  lasts : ∀ n, ∀ l ∈ env.lasts, ∀ loops, Emit.Careful (S.using_ n) 0 (l.run loops)

/-! ## Steps -/

section Steps

variable {S : Scene} {α β : Type} {k : Nat}

theorem careful_quiet {x : Emitting α} (before : ∀ g : Gen, g.Before (x.run g).2)
    (temps : ∀ g : Gen, (x.run g).2.temps = g.temps - k) (code : ∀ g : Gen, (x.run g).2.code = g.code) :
    Careful S k x :=
  ⟨fun g _ => before g, fun g room => (congrArg (· + k) (temps g)).trans (Nat.sub_add_cancel (by omega)),
    fun g _ _ _ low high => absurd (code g ▸ high) (Nat.not_lt.mpr low)⟩

theorem careful_emit {op : Op} {args : List Operand}
    (minds : ∀ p, S.code[p]? = some ⟨op, args, ""⟩ → S.Minds p) : Careful S 0 (emit op args) := by
  refine ⟨fun g _ => g.before_push op args, fun _ _ => rfl, fun g _ lies p low high => ?_⟩
  have here : p < g.code.size + 1 := (g.size_push op args) ▸ high
  obtain rfl : p = g.code.size := by omega
  exact minds _ (Gen.lies_push.mp lies)

theorem Careful.seq_of {R : α → Prop} {j : Nat} {x : Emitting α} {f : α → Emitting β} (first : Careful S j x)
    (gives : ∀ g : Gen, S.temps + (k + j) ≤ g.temps → R (x.run g).1) (rest : ∀ a, R a → Careful S k (f a)) :
    Careful S (k + j) (x >>= f) := by
  have room' (g : Gen) (room : S.temps + (k + j) ≤ g.temps) : S.temps + k ≤ (x.run g).2.temps := by
    have := first.temps g (by omega)
    omega
  have before (g : Gen) (room : S.temps + (k + j) ≤ g.temps) :=
    (rest _ (gives g room)).before (x.run g).2 (room' g room)
  refine ⟨fun g room => (first.before g (by omega)).trans (before g room), fun g room => ?_,
    fun g room lies p low high => ?_⟩
  · have one := first.temps g (by omega)
    have two := (rest _ (gives g room)).temps (x.run g).2 (room' g room)
    show ((f (x.run g).1).run (x.run g).2).2.temps + _ = _
    omega
  · obtain ⟨own, later⟩ := (Gen.lies_trans (first.before g (by omega)) (before g room)).mp lies
    rcases Nat.lt_or_ge p (x.run g).2.code.size with inside | outside
    · exact first.minds g (by omega) own p low inside
    · exact (rest _ (gives g room)).minds (x.run g).2 (room' g room) later p outside high

theorem Careful.seq {j : Nat} {x : Emitting α} {f : α → Emitting β} (first : Careful S j x)
    (rest : ∀ a, Careful S k (f a)) : Careful S (k + j) (x >>= f) :=
  first.seq_of (R := fun _ => True) (fun _ _ => trivial) fun a _ => rest a

instance (a : α) : Careful S 0 (pure a : Emitting α) := careful_quiet .refl (fun _ => rfl) fun _ => rfl

instance (x : Emitting α) (f : α → Emitting β) [first : Careful S 0 x] [rest : ∀ a, Careful S k (f a)] :
    Careful S k (x >>= f) := first.seq rest

instance (priority := 2000) (x : Emitting α) (y : Emitting β) [first : Careful S 0 x] [rest : Careful S k y] :
    Careful S k (x >>= fun _ => y) := first.seq fun _ => rest

instance (c : Prop) [Decidable c] (x y : Emitting α) [Careful S k x] [Careful S k y] :
    Careful S k (if c then x else y) := by
  split <;> infer_instance

theorem careful_forM {xs : List α} {f : α → Emitting PUnit} (each : ∀ x ∈ xs, Careful S 0 (f x)) :
    Careful S 0 (xs.forM f) := by
  induction xs with
  | nil => exact inferInstanceAs (Careful S 0 (pure ()))
  | cons x xs ih =>
      obtain ⟨first, others⟩ := List.forall_mem_cons.mp each
      exact first.seq fun _ => ih others

/-! ### Operands -/

theorem slot_ne_rdx (i : Int) : Operand.slot i ≠ rdx := nofun

instance (i : Int) : S.Spares (.arg i) := ⟨nofun, nofun⟩
instance (l : String) : S.Spares (.label l) := ⟨nofun, nofun⟩
instance (s : String) : S.Spares (.data s) := ⟨nofun, nofun⟩
instance : S.Spares rax := ⟨nofun, nofun⟩
instance : S.Spares rbx := ⟨nofun, nofun⟩
instance : S.Spares r11 := ⟨nofun, nofun⟩
instance : S.Spares al := ⟨nofun, nofun⟩
instance : S.Spares eax := ⟨nofun, nofun⟩
instance : S.Spares edx := ⟨nofun, nofun⟩

-- Operands that come with a proof: the search for instances finds it in their type.
instance (o : { o : Operand // S.Spares o }) : S.Spares o.1 := o.2

/-! ### Small steps -/

/-- Whether an operation fetches a parameter or calls. -/
@[reducible] def fetchesOrCalls : Op → Bool
  | .loadparam | .call => true
  | _ => false

instance (c : Prop) [Decidable c] (a b : Op) [Unset (fetchesOrCalls a)] [Unset (fetchesOrCalls b)] :
    Unset (fetchesOrCalls (if c then a else b)) := by
  split <;> infer_instance

theorem fetches_of_unset {op : Op} (plain : fetchesOrCalls op = false) : fetches op = false ∧ op ≠ .call := by
  cases op <;> first | exact ⟨rfl, by decide⟩ | cases plain

/-- An instruction that calls nothing and throws nothing is minded by its target. -/
theorem Scene.Minds.of_plain {op : Op} {o : Operand} {args : List Operand} {p : Nat}
    (plain : fetchesOrCalls op = false) (stands : S.code[p]? = some ⟨op, o :: args, ""⟩)
    (spared : ∀ s, o = .slot s → s ≤ S.locals ∨ S.locals + 1 + S.temps ≤ s)
    (other : op = .mov → o = rdx → args ≠ [rax]) : S.Minds p := by
  obtain ⟨plain, noCall⟩ := fetches_of_unset plain
  refine ⟨fun i s at_ same => ?_, fun i o' at_ isCall => ?_, fun at_ => ?_⟩
  all_goals
    obtain same' := Option.some.inj (stands.symm.trans at_)
  · rw [← same', target?_cons plain] at same
    exact spared s (Option.some.inj same)
  · exact absurd ((congrArg Instr.op same').trans isCall) noCall
  · obtain ⟨isMov, args⟩ := Instr.mk.inj same'
    obtain ⟨target, source⟩ := List.cons.inj args.1
    exact absurd source (other isMov target)

theorem Scene.Minds.of_test {p : Nat} (stands : S.code[p]? = some ⟨.test, [rdx, rdx], ""⟩) : S.Minds p :=
  .of_plain rfl stands nofun nofun

theorem Scene.Minds.of_jump {op : Op} {l : String} {p : Nat} (plain : fetchesOrCalls op = false)
    (stands : S.code[p]? = some ⟨op, [.label l], ""⟩) : S.Minds p :=
  .of_plain plain stands nofun fun _ => nofun

/-- Taking a kept exception back is no throw. -/
instance (e : Int) : Careful S 0 (emit .mov [rdx, .slot e]) :=
  careful_emit fun _ stands => .of_plain rfl stands nofun nofun

instance (op : Op) (o : Operand) (args : List Operand) [plain : Unset (fetchesOrCalls op)] [spared : S.Spares o] :
    Careful S 0 (emit op (o :: args)) :=
  careful_emit fun _ stands => .of_plain plain.unset stands spared.slot fun _ same => absurd same spared.other

instance (op : Op) : Careful S 0 (emit op []) := by
  refine careful_emit fun p stands => ⟨fun i s at_ same => ?_, fun i o at_ _ args => ?_, fun at_ => ?_⟩
  all_goals
    obtain same' := Option.some.inj (stands.symm.trans at_)
  · subst same'
    unfold target? at same
    split at same <;> cases same
  · cases (congrArg Instr.args same').trans args
  · cases congrArg Instr.args same'

instance (l : String) : Careful S 0 (place l) := inferInstanceAs (Careful S 0 (emit _ _))
instance (op : Op) (l : String) [Unset (fetchesOrCalls op)] : Careful S 0 (jump op l) :=
  inferInstanceAs (Careful S 0 (emit _ _))
instance : Careful S 0 testResult := inferInstanceAs (Careful S 0 (emit _ _))
instance : Careful S 0 zero := inferInstanceAs (Careful S 0 (emit _ _))
instance (base : String) : Careful S 0 (newLabel base) :=
  careful_quiet (fun g => g.before_bump) (fun _ => rfl) fun _ => rfl
instance (s : String) : Careful S 0 (str s) :=
  careful_quiet (fun g => g.before_pooled s) (fun _ => rfl) fun _ => rfl
instance (at_ : Span) (message : String) : Careful S 0 (warn at_ message) :=
  careful_quiet Grows.grow (fun _ => rfl) fun _ => rfl
instance (n : Nat) : Careful S n (popTemps n) := careful_quiet Grows.grow (fun _ => rfl) fun _ => rfl

instance (priority := 3000) (n : Nat) (y : Emitting α) [rest : Careful S k y] :
    Careful S (k + n) (popTemps n >>= fun _ => y) :=
  Careful.seq (inferInstanceAs (Careful S n (popTemps n))) fun _ => rest

instance (i : Nat) (args : List Operand) : Careful S 0 (setArgsFrom i args) := by
  induction args generalizing i with
  | nil => exact inferInstanceAs (Careful S 0 (pure ()))
  | cons a rest ih => unfold setArgsFrom; infer_instance

instance (args : List Operand) : Careful S 0 (setArgs args) := by
  have (f : Gen → Nat) : Careful S 0 (modify fun g => { g with maxCallArgs := f g } : Emitting Unit) :=
    careful_quiet (fun _ => ⟨List.prefix_rfl, List.prefix_rfl, le_rfl, List.Subset.refl _⟩) (fun _ => rfl) fun _ => rfl
  unfold setArgs
  infer_instance

instance (name : String) (args : List Operand) [listed : Listed name runtime] : Careful S 0 (call name args) := by
  have : Careful S 0 (modify fun g => { g with externs := addNew g.externs name } : Emitting Unit) :=
    careful_quiet (fun _ => ⟨List.prefix_rfl, List.prefix_rfl, le_rfl, fun _ inside => mem_addNew.mpr (.inl inside)⟩)
      (fun _ => rfl) fun _ => rfl
  have : Careful S 0 (emit .call [.label name]) := by
    refine careful_emit fun p stands => ⟨fun i s at_ same => ?_, fun i o at_ _ args foreign => ?_, fun at_ => ?_⟩
    all_goals
      obtain same' := Option.some.inj (stands.symm.trans at_)
    · subst same'
      cases same
    · have own := (congrArg Instr.args same').trans args
      exact absurd (List.cons.inj own).1.symm (foreign name listed.mem)
    · cases congrArg Instr.op same'
  unfold call
  dsimp only
  infer_instance

end Steps

/-! ## Environments -/

section Frames

variable {S : Scene} {α : Type} {k : Nat}

theorem Env.Careful.with_temps {env : Env} (careful : env.Careful S) (n : Nat) : env.Careful (S.using_ n) :=
  ⟨careful.tidy, careful.locals, careful.settled, careful.delivers, careful.lasts⟩

theorem Env.Careful.spares_temp {env : Env} (careful : env.Careful S) {n : Nat} (above : S.temps ≤ n) :
    S.Spares (.slot (env.locals.length + 1 + n)) := by
  refine ⟨slot_ne_rdx _, fun s same => .inr ?_⟩
  have := Operand.slot.inj same
  have := careful.locals
  omega

instance (priority := 3000) (env : Env) [careful : env.Careful S] (f : Operand → Emitting α)
    [rest : ∀ o : { o : Operand // S.Spares o }, Careful S (k + 1) (f o.1)] : Careful S k (pushTemp env >>= f) := by
  have own (g : Gen) (room : S.temps + k ≤ g.temps) :
      Careful S (k + 1) (f (.slot (env.locals.length + 1 + g.temps))) :=
    rest ⟨_, careful.spares_temp (by omega)⟩
  have room' (g : Gen) (room : S.temps + k ≤ g.temps) : S.temps + (k + 1) ≤ g.lift.temps := by
    have := g.temps_lift
    omega
  refine ⟨fun g room => ?_, fun g room => ?_, fun g room => (own g room).minds g.lift (room' g room)⟩
  · exact Gen.Before.trans (Grows.grow (x := pushTemp env) g) ((own g room).before g.lift (room' g room))
  · exact Nat.succ.inj ((own g room).temps g.lift (room' g room))

instance (priority := 3000) (env : Env) [env.Careful S] (f : Operand → Emitting α)
    [∀ o : { o : Operand // S.Spares o }, Careful S (k + 1) (f o.1)] : Careful S k (spill env >>= f) := by
  simp only [spill, bind_assoc, pure_bind]
  infer_instance

variable {env : Env} [careful : env.Careful S]

/-- The slots of named locals lie below all temporaries. -/
theorem minds_of_lookup {name : String} {o : Operand} (found : env.lookup? name = some o) : S.Spares o := by
  unfold Env.lookup? at found
  split at found
  · next i slot =>
      have below := (List.findIdx?_eq_some_iff_getElem.mp slot).1
      have := careful.locals
      cases found
      refine ⟨slot_ne_rdx _, fun s same => .inl ?_⟩
      have := Operand.slot.inj same
      omega
  · split at found
    · cases found
      infer_instance
    · cases found

instance (at_ : Span) (name : String) : Careful S 0 (store env at_ name) := by
  unfold store
  split
  · next found =>
      have := minds_of_lookup (S := S) found
      infer_instance
  · infer_instance

end Frames

/-! ## Forms of expressions -/

section Operands

-- A name is searched for along the list of all that the library has.
set_option synthInstance.maxSize 1000

variable {S : Scene} (env : Env) [env.Careful S] (at_ : Span) (c a b k l r v x d : Value) [Careful S 0 c.code]
  [Careful S 0 a.code] [Careful S 0 b.code] [Careful S 0 k.code] [Careful S 0 l.code] [Careful S 0 r.code]
  [Careful S 0 v.code] [Careful S 0 x.code] [Careful S 0 d.code]

omit [env.Careful S] in
theorem AllCareful.head {v : Value} {vs : List Value} (all : AllCareful S (v :: vs)) : Careful S 0 v.code :=
  all.each v List.mem_cons_self

theorem AllCareful.tail {v : Value} {vs : List Value} (all : AllCareful S (v :: vs)) : AllCareful S vs :=
  ⟨fun v' mem => all.each v' (List.mem_cons_of_mem _ mem)⟩

instance (op : Op) [Unset (fetchesOrCalls op)] : Careful S 0 (flagValue op) := by
  unfold flagValue
  infer_instance

instance (op : UnaryOp) : Careful S 0 (unary op v) := by
  unfold unary
  split <;> infer_instance

instance : Careful S 0 (ternary c a b) := by
  unfold ternary
  infer_instance

instance (isOr : Bool) : Careful S 0 (shortCircuit isOr l r) := by
  cases isOr <;> dsimp only [shortCircuit] <;> infer_instance

instance : Careful S 0 (powerForm env l r) := by
  unfold powerForm
  infer_instance

instance (op : BinaryOp) : Careful S 0 (wordOp op) := by
  cases op <;> dsimp only [wordOp, compareOp?] <;> infer_instance

instance (op : BinaryOp) : Careful S 0 (strictBinary env op l r) := by
  unfold strictBinary
  dsimp only
  infer_instance

instance (op : BinaryOp) : Careful S 0 (binary env op l r) := by
  unfold binary
  split <;> infer_instance

instance : Careful S 0 (key v) := by
  unfold key
  split <;> infer_instance

omit [env.Careful S] in
theorem careful_pushElems (list : Operand) (vs : List Value) (all : AllCareful S vs) :
    Careful S 0 (pushElems list vs) := by
  induction vs with
  | nil => exact inferInstanceAs (Careful S 0 (pure ()))
  | cons v vs ih =>
      have := all.head
      have := ih all.tail
      unfold pushElems
      infer_instance

instance (vs : List Value) [all : AllCareful S vs] : Careful S 0 (listLit env vs) := by
  have (list : Operand) := careful_pushElems list vs all
  unfold listLit
  infer_instance

theorem careful_putEntries (map : Operand) (es : List (Value × Value)) (all : EntriesCareful S es) :
    Careful S 0 (putEntries env map es) := by
  induction es with
  | nil => exact inferInstanceAs (Careful S 0 (pure ()))
  | cons e es ih =>
      obtain ⟨_, _⟩ := all.each e List.mem_cons_self
      have := ih ⟨fun e' mem => all.each e' (List.mem_cons_of_mem _ mem)⟩
      unfold putEntries
      infer_instance

instance (es : List (Value × Value)) [all : EntriesCareful S es] : Careful S 0 (mapLit env es) := by
  have (map : Operand) := careful_putEntries env map es all
  unfold mapLit
  infer_instance

omit [env.Careful S] in
instance (kind : NodeKind) : Careful S 0 (unsupported at_ kind) := by
  unfold unsupported
  infer_instance

instance (name : String) : Careful S 0 (ident env at_ name) := by
  unfold ident
  split <;> infer_instance

instance (name : String) : Careful S 0 (funcRef env at_ name) := by
  unfold funcRef
  infer_instance

instance (op : StepOp) : Unset (fetchesOrCalls (stepInstr op)) := by
  cases op <;> exact ⟨rfl⟩

instance (op : StepOp) (first : Bool) (place : Operand) [S.Spares place] :
    Careful S 0 (stepPlace op first place) := by
  unfold stepPlace
  infer_instance

instance (op : StepOp) (first : Bool) (name : String) : Careful S 0 (stepVar env at_ op first name) := by
  unfold stepVar
  split
  · next found =>
      have := minds_of_lookup (S := S) found
      infer_instance
  · infer_instance

instance (cls field : String) : Careful S 0 (loadStatic env at_ cls field) := by
  unfold loadStatic
  split <;> infer_instance

instance : Careful S 0 (index env at_ b k) := by
  unfold index
  dsimp only
  split <;> infer_instance

instance (name : String) : Careful S 0 (member env at_ v name) := by
  unfold member
  split <;> infer_instance

instance (op : StepOp) (first : Bool) : Careful S 0 (stepElement env at_ op first b k) := by
  unfold stepElement
  split
  · split <;> infer_instance
  · dsimp only
    infer_instance

instance : Careful S 0 boolWord := by
  unfold boolWord
  infer_instance

instance (format : String) : Careful S 0 (readString format) := by
  unfold readString
  infer_instance

instance : Careful S 0 (lenForm v) := by
  unfold lenForm
  infer_instance

instance : Careful S 0 (strForm v) := by
  unfold strForm
  split <;> infer_instance

instance : Careful S 0 (numForm v) := by
  unfold numForm
  infer_instance

instance : Careful S 0 (containsForm env v x) := by
  dsimp only [containsForm]
  infer_instance

instance : Careful S 0 (deleteForm env v k) := by
  unfold deleteForm
  infer_instance

instance : Careful S 0 (getOrForm env v k d) := by
  unfold getOrForm
  infer_instance

instance : Careful S 0 (freeForm v) := by
  unfold freeForm
  infer_instance

instance (readStr : Bool) : Careful S 0 (inputForm readStr) := by
  unfold inputForm
  infer_instance

end Operands

section Calls

variable {S : Scene} (env : Env) [careful : env.Careful S] (at_ : Span) (args : List Value)
  [all : AllCareful S args]

instance (depth : Nat) : Careful S 0 (replay env depth) :=
  careful_forM fun l mem => careful.lasts S.temps l (List.mem_of_mem_take mem) env.loops

instance : Careful S 0 (raise env) := by
  rw [careful.settled.raise]
  infer_instance

omit careful all in
/-- Whether a tidy step is careful can be read off the texts that show it. -/
theorem careful_of_lays {α : Type} {x : Emitting α} [tidy : Tidy 0 x]
    (seen : ∀ pool g a g', Lays ⟨S.code, pool⟩ x g a g' → S.temps ≤ g.temps →
      ∀ p, g.code.size ≤ p → p < g'.code.size → S.Minds p) : Careful S 0 x :=
  ⟨fun g _ => (tidy.tidy g).before, fun g _ => (tidy.tidy g).temps, fun g room lies =>
    seen _ g _ _ ⟨rfl, lies, fun _ => List.prefix_rfl⟩ room⟩

/-- The test behind a call of a routine delivers an exception. -/
theorem careful_tested (target : Operand) [spared : S.Spares target] :
    Careful S 0 (do emit .call [target]; checkException env) := by
  have := careful.tidy
  rw [careful.settled.checkException]
  refine careful_of_lays fun pool g _ g' lays _ p low high => ?_
  simp only [lays_bind, lays_emit, layout, shown, Gen.size_push] at lays
  obtain ⟨call, test, jump, rfl⟩ := lays
  simp only [Gen.size_push] at high
  obtain rfl | rfl | rfl : p = g.code.size ∨ p = g.code.size + 1 ∨ p = g.code.size + 1 + 1 := by omega
  · refine ⟨fun i s at_ same => ?_, fun _ _ _ _ _ _ => ⟨test, _, jump, careful.delivers⟩, fun at_ => ?_⟩
    · obtain rfl := Option.some.inj (call.symm.trans at_)
      exact spared.slot s (Option.some.inj same)
    · cases congrArg Instr.op (Option.some.inj (call.symm.trans at_))
  · exact .of_test test
  · exact .of_jump rfl jump

instance (target : Operand) (ops : List Operand) [S.Spares target] : Careful S 0 (callRoutine env target ops) := by
  have := careful_tested (S := S) env target
  unfold callRoutine
  infer_instance

instance (address : Operand) (ops : List Operand) : Careful S 0 (callAddress env address ops) := by
  have := careful_tested (S := S) env r11
  unfold callAddress
  infer_instance

instance (receiver : Operand) (ops : List Operand) : Careful S 0 (callMethod env receiver ops) := by
  unfold callMethod
  infer_instance

omit careful all in
theorem careful_evalArgs {α : Type} {k : Nat} [env.Careful S] (vs : List Value) (all : AllCareful S vs)
    (f : List Operand → Emitting α) (rest : ∀ ops, Careful S (ops.length + k) (f ops)) :
    Careful S k (evalArgs env vs >>= f) := by
  induction vs generalizing k f with
  | nil => simpa [evalArgs] using rest []
  | cons v vs ih =>
      have := all.head
      have (t : Operand) : Careful S (k + 1) (evalArgs env vs >>= fun ts => f (t :: ts)) :=
        ih all.tail _ fun ts => by simpa [Nat.add_assoc, Nat.add_comm 1 k] using rest (t :: ts)
      simp only [evalArgs, bind_assoc, pure_bind]
      infer_instance

instance (priority := 3000) {α : Type} {k : Nat} (f : List Operand → Emitting α)
    [rest : ∀ ops, Careful S (ops.length + k) (f ops)] : Careful S k (evalArgs env args >>= f) :=
  careful_evalArgs env args all f rest

-- As above: a name is searched for along the list of all that the library has.
set_option synthInstance.maxSize 1000

instance (f : LibFunc) (readStr : Bool) : Careful S 0 (libraryCall env at_ f readStr args) := by
  unfold libraryCall
  split
  · infer_instance
  · split
    case h_1 found _ =>
      have := listed_of_runtimeRoutine found
      infer_instance
    case h_9 | h_10 | h_11 => infer_instance
    case h_2 | h_3 | h_4 | h_8 =>
      have := all.head
      infer_instance
    case h_5 | h_6 =>
      have := all.head
      have := all.tail.head
      infer_instance
    case h_7 =>
      have := all.head
      have := all.tail.head
      have := all.tail.tail.head
      infer_instance

instance (name : String) : Careful S 0 (callByName env at_ name args) := by
  unfold callByName
  split
  · infer_instance
  · split <;> infer_instance

instance (cls name : String) : Careful S 0 (staticCall env at_ cls name args) := by
  unfold staticCall
  split <;> infer_instance

instance (name : String) : Careful S 0 (superCall env at_ name args) := by
  unfold superCall
  split <;> infer_instance

instance (receiver : Value) [Careful S 0 receiver.code] (name : String) :
    Careful S 0 (dispatch env receiver name args) := by
  unfold dispatch
  infer_instance

instance (receiver : Value) [Careful S 0 receiver.code] (name : String) :
    Careful S 0 (methodCall env at_ receiver name args) := by
  unfold methodCall
  split
  · infer_instance
  · split <;> infer_instance

instance (c : ClassDecl) (obj : Operand) : Careful S 0 (construct env at_ c obj args) := by
  unfold construct
  infer_instance

omit careful all in
instance (type : Option Sigil) : Careful S 0 (defaultValue type) := by
  unfold defaultValue
  split <;> infer_instance

omit careful all in
theorem careful_setFields (obj : Operand) (initial : Expr → Emitting Unit) (each : ∀ e, Careful S 0 (initial e))
    (fs : List Field) : Careful S 0 (setFields obj initial fs) := by
  induction fs with
  | nil => exact inferInstanceAs (Careful S 0 (pure ()))
  | cons f fs ih =>
      unfold setFields
      dsimp only
      split <;> infer_instance

instance (initial : Expr → Emitting Unit) [each : ∀ e, Careful S 0 (initial e)] (cls : String) :
    Careful S 0 (newObject env initial at_ cls args) := by
  have (obj : Operand) := careful_setFields (S := S) obj initial each
  unfold newObject
  split
  · infer_instance
  · dsimp only
    infer_instance

end Calls

/-! ## Expressions -/

section Expressions

-- The linter looks at each theorem of the block below by itself.
set_option linter.unusedSectionVars false

variable {S : Scene} (initial : Expr → Emitting Unit) (env : Env) [careful : env.Careful S]
  [each : ∀ e, Careful S 0 (initial e)]

mutual

theorem careful_exprWith (e : Expr) : Careful S 0 (exprWith initial env e) := by
  cases e with
  | number | str | super | funcRef | ident => unfold exprWith; infer_instance
  | bool i v => unfold exprWith; infer_instance
  | binary i op l r =>
      have := careful_exprWith l
      have := careful_exprWith r
      unfold exprWith
      infer_instance
  | unary i op e =>
      have := careful_exprWith e
      unfold exprWith
      infer_instance
  | ternary i c a b =>
      have := careful_exprWith c
      have := careful_exprWith a
      have := careful_exprWith b
      unfold exprWith
      infer_instance
  | list i es =>
      have := careful_valuesWith es
      unfold exprWith
      infer_instance
  | map i es =>
      have := careful_entriesWith es
      unfold exprWith
      infer_instance
  | index i b k =>
      have := careful_exprWith b
      have := careful_exprWith k
      unfold exprWith
      infer_instance
  | member i o name =>
      have := careful_exprWith o
      unfold exprWith
      infer_instance
  | call i callee args =>
      have := careful_valuesWith args
      unfold exprWith
      infer_instance
  | method i r name args =>
      have := careful_exprWith r
      have := careful_valuesWith args
      unfold exprWith
      infer_instance
  | new_ i cls args =>
      have := careful_valuesWith args
      unfold exprWith
      infer_instance
  | step i op first t =>
      cases t with
      | index j b k =>
          have := careful_exprWith b
          have := careful_exprWith k
          unfold exprWith
          infer_instance
      | member j o name =>
          have := careful_exprWith o
          unfold exprWith
          infer_instance
      | _ => unfold exprWith; infer_instance

theorem careful_valuesWith (es : List Expr) : AllCareful S (valuesWith initial env es) := by
  cases es with
  | nil => exact ⟨fun _ mem => absurd mem List.not_mem_nil⟩
  | cons e es => exact ⟨List.forall_mem_cons.mpr ⟨careful_exprWith e, (careful_valuesWith es).each⟩⟩

theorem careful_entriesWith (es : List (Expr × Expr)) : EntriesCareful S (entriesWith initial env es) := by
  match es with
  | [] => exact ⟨fun _ mem => absurd mem List.not_mem_nil⟩
  | (k, v) :: es =>
      exact ⟨List.forall_mem_cons.mpr ⟨⟨careful_exprWith k, careful_exprWith v⟩, (careful_entriesWith es).each⟩⟩

end

instance (depth : Nat) (e : Expr) : Careful S 0 (exprAt depth env e) := by
  induction depth generalizing e with
  | zero => exact careful_exprWith _ env e
  | succ depth ih => exact careful_exprWith _ env e

instance (e : Expr) : Careful S 0 (expr env e) := inferInstanceAs (Careful S 0 (exprAt env.classes.length env e))

instance (e : Expr) : Careful S 0 (value env e).code := inferInstanceAs (Careful S 0 (expr env e))

instance (es : List Expr) : AllCareful S (es.map (value env)) := by
  refine ⟨fun v mem => ?_⟩
  obtain ⟨e, -, rfl⟩ := List.mem_map.mp mem
  infer_instance

instance (target : Sigil) (e : Expr) : Careful S 0 (valueFor env target e) := by
  unfold valueFor
  split <;> infer_instance

end Expressions

/-! ## Statements -/

section Statements

-- The code that prints a map is one long block.
set_option synthInstance.maxSize 1000

variable {S : Scene} (env : Env) [careful : env.Careful S]

instance (format : String) (args : List Operand) : Careful S 0 (printf format args) := by
  unfold printf
  infer_instance

instance (o : Operand) [S.Spares o] : Careful S 0 (increment o) := by
  unfold increment
  infer_instance

instance (loop endL skip : String) (i n : Operand) [S.Spares i] : Careful S 0 (loopHead loop endL skip i n) := by
  unfold loopHead
  infer_instance

instance (s : Sigil) : Careful S 0 (printList env s) := by
  unfold printList
  infer_instance

instance : Careful S 0 (printMap env) := by
  unfold printMap
  infer_instance

instance (b k : Value) [Careful S 0 b.code] [Careful S 0 k.code] : Careful S 0 (printEntry env b k) := by
  unfold printEntry
  infer_instance

instance (v : Value) [Careful S 0 v.code] : Careful S 0 (printValue env v) := by
  unfold printValue
  split <;> infer_instance

instance (e : Expr) : Careful S 0 (print env e) := by
  unfold print
  split <;> infer_instance

instance (at_ : Span) (goOn : Bool) : Careful S 0 (leave env at_ goOn) := by
  unfold leave
  split <;> infer_instance

instance (e : Option Expr) : Careful S 0 (returnStmt env e) := by
  have : S.Spares env.retSlot := ⟨slot_ne_rdx _, fun s same => .inl (by
    have := Operand.slot.inj same
    have := careful.locals
    omega)⟩
  dsimp only [returnStmt]
  split <;> infer_instance

instance (at_ : Span) (base k e : Expr) : Careful S 0 (indexAssign env at_ base k e) := by
  unfold indexAssign
  split
  · split <;> infer_instance
  · dsimp only
    infer_instance

instance (exc : Operand) (type next : String) : Careful S 0 (testCatch exc type next) := by
  unfold testCatch
  infer_instance

instance (known : Bool) (label : String) : Careful S 0 (jumpUnless known label) := by
  unfold jumpUnless
  infer_instance

instance (endL : String) (c : Option Expr) : Careful S 0 (loopTest env endL c) := by
  cases c <;> unfold loopTest <;> infer_instance

instance (strSubject : Bool) (subject : Operand) (v : Expr) : Careful S 0 (compareValue strSubject subject v) := by
  unfold compareValue
  infer_instance

instance (strSubject : Bool) (subject : Operand) (cs : List Clause) :
    Careful S 0 (compareClauses env strSubject subject cs) := by
  induction cs with
  | nil => exact inferInstanceAs (Careful S 0 (pure []))
  | cons c cs ih =>
      cases c with
      | case_ s v body => rw [compareClauses_case]; infer_instance
      | default_ s body => unfold compareClauses; infer_instance

omit careful in
theorem careful_clauseBodies {cs : List Clause} (bodies : ∀ c ∈ cs, Careful S 0 (stmts env (clauseBody c)))
    (ls : List String) : Careful S 0 (clauseBodies env cs ls) := by
  induction cs generalizing ls with
  | nil => cases ls <;> exact inferInstanceAs (Careful S 0 (pure ()))
  | cons c cs ih =>
      obtain ⟨own, others⟩ := List.forall_mem_cons.mp bodies
      cases ls with
      | nil => cases c <;> exact inferInstanceAs (Careful S 0 (pure ()))
      | cons l ls =>
          have := ih others ls
          rw [clauseBodies_cons]
          infer_instance

theorem careful_handlers {cs : List Catch} (bodies : ∀ c ∈ cs, Careful S 0 (stmt env c.body)) (exc : Operand)
    (lastL : String) : Careful S 0 (handlers env exc lastL cs) := by
  induction cs with
  | nil => exact inferInstanceAs (Careful S 0 (pure false))
  | cons c cs ih =>
      obtain ⟨own, others⟩ := List.forall_mem_cons.mp bodies
      have := ih others
      rw [handlers_cons]
      infer_instance

instance (exit next : String) (isSwitch : Bool) : (env.inFrame exit next isSwitch).Careful S :=
  ⟨⟨careful.tidy.lasts⟩, careful.locals, careful.settled, careful.delivers, careful.lasts⟩

instance (loops : List LoopFrame) : Env.Careful S { env with loops := loops } :=
  ⟨⟨careful.tidy.lasts⟩, careful.locals, careful.settled, careful.delivers, careful.lasts⟩

/-- What a careful step has put into the code is minded. -/
theorem Lays.minds {α : Type} {x : Emitting α} {pool : List String} {g g' : Gen} {a : α} [mindful : Careful S 0 x]
    (lays : Lays ⟨S.code, pool⟩ x g a g') (room : S.temps ≤ g.temps) {p : Nat} (low : g.code.size ≤ p)
    (high : p < g'.code.size) : S.Minds p := by
  have all := mindful.minds g room
  rw [lays.run] at all
  exact all lays.code p low high

omit careful in
instance (type : String) (sigil : Sigil) : Careful S 0 (Meaning.exceptionCode type sigil) := by
  unfold Meaning.exceptionCode
  infer_instance

instance (type : String) (e : Expr) : Careful S 0 (throwStmt env type e) := by
  have tidy := careful.tidy
  refine careful_of_lays fun pool g _ g' thrown room p low high => ?_
  have lays := thrown
  obtain ⟨run, lies, -⟩ := thrown
  rw [Meaning.throwStmt_eq, careful.settled.raise] at lays
  simp only [lays_bind, lays_emit, layout, shown] at lays
  obtain ⟨g₁, value, g₂, made, move, jump, rfl⟩ := lays
  have temps : g₁.temps = g.temps := value.temps
  simp only [Gen.size_push] at high move jump
  rcases Nat.lt_or_ge p g₂.code.size with inside | outside
  · rcases Nat.lt_or_ge p g₁.code.size with first | second
    · exact value.minds room low first
    · exact made.minds (temps ▸ room) second inside
  obtain rfl | rfl : p = g₂.code.size ∨ p = g₂.code.size + 1 := by omega
  · refine ⟨fun i s at_ same => ?_, fun i o at_ isCall => ?_, fun _ => ?_⟩
    · obtain rfl := Option.some.inj (move.symm.trans at_)
      cases same
    · cases (congrArg Instr.op (Option.some.inj (move.symm.trans at_))).trans isCall
    · obtain ⟨k, gs, placed, carries⟩ := careful.delivers
      refine ⟨type, e, gs, ⟨env, g, tidy, careful.settled, ?_, ?_⟩, .jump jump placed carries⟩
      · rw [run]
        exact lies
      · rw [run]
        simp
  · exact .of_jump rfl jump

end Statements

/-! ### Guarded statements -/

section Guarded

/-- Handlers are tried in front of the code of a step if they are tried behind it. -/
class Asks (G : Guard) {α : Type} (x : Emitting α) : Prop where
  tries : ∀ {T : Text} {g g' : Gen} {a : α}, Lays T x g a g' → G.Tries T.code g'.code.size → G.Tries T.code g.code.size

variable {G : Guard} {α β : Type}

theorem asks_emit {op : Op} {o : Operand} {args : List Operand} (asking : Guard.asks op)
    (spared : o ≠ .slot G.exc) : Asks G (emit op (o :: args)) := by
  refine ⟨fun {T g g' _} lays tries => ?_⟩
  obtain ⟨stands, rfl⟩ := lays_emit.mp lays
  have plain : fetches op = false := by cases op <;> first | rfl | cases asking
  exact .ask stands asking (fun same => spared (Option.some.inj ((target?_cons plain o args).symm.trans same)))
    (by simpa using tries)

theorem asks_setarg (i : Int) (a : Operand) : Asks G (emit .setarg [.arg i, a]) := asks_emit rfl nofun

theorem asks_quiet {x : Emitting α} (code : ∀ g : Gen, (x.run g).2.code = g.code) : Asks G x := by
  refine ⟨fun {T g g' _} lays tries => ?_⟩
  have same := code g
  rw [lays.run] at same
  rwa [← same]

instance (x : Emitting α) (f : α → Emitting β) [Grows x] [∀ a, Grows (f a)] [first : Asks G x]
    [rest : ∀ a, Asks G (f a)] : Asks G (x >>= f) := by
  refine ⟨fun lays tries => ?_⟩
  obtain ⟨a, mid, one, two⟩ := lays_bind.mp lays
  exact first.tries one ((rest a).tries two tries)

instance (a : α) : Asks G (pure a : Emitting α) := asks_quiet fun _ => rfl
instance (s : String) : Asks G (str s) := asks_quiet fun _ => rfl

instance (i : Nat) (args : List Operand) : Asks G (setArgsFrom i args) := by
  induction args generalizing i with
  | nil => exact inferInstanceAs (Asks G (pure ()))
  | cons a rest ih =>
      have := asks_setarg (G := G) i a
      unfold setArgsFrom
      infer_instance

theorem asks_call {name : String} (plain : (name == "printf" || name == "scanf") = false) (args : List Operand) :
    Asks G (call name args) := by
  refine ⟨fun {T g g' _} lays tries => ?_⟩
  simp only [call, plain, Bool.false_eq_true, if_false, lays_bind, Meaning.lays_setArgs, lays_emit,
    Meaning.lays_externs, shown] at lays
  obtain ⟨_, ⟨h, set, rfl⟩, -, called, rfl⟩ := lays
  have asked : G.Tries T.code h.code.size :=
    .ask called rfl (fun same => Operand.noConfusion (Option.some.inj same)) (by simpa using tries)
  exact Asks.tries set asked

/-- From where the handlers stand they are tried, if one handles everything or something is tried behind them. -/
theorem tries_handlers {env : Env} [env.Tidy] {T : Text} {lastL : String} {cs : List Catch} {g g' : Gen} {all : Bool}
    (lays : Lays T (handlers env (.slot G.exc) lastL cs) g all g') (first : G.first ≤ g.code.size)
    (inside : g'.code.size ≤ G.rethrow) (behind : all = false → G.Tries T.code g'.code.size) :
    G.Tries T.code g.code.size := by
  induction cs generalizing g with
  | nil =>
      obtain ⟨none_, rfl⟩ := lays_pure.mp lays
      exact behind none_.symm
  | cons c cs ih =>
      have := tidy_handlers (tidy_catches env inferInstance cs) (.slot G.exc) lastL
      rw [handlers_cons] at lays
      simp only [lays_bind, lays_emit, layout, shown] at lays
      obtain ⟨g₁, test, moved, g₂, stored, g₃, body, jump, mark, rest⟩ := lays
      have up₁ := test.before.size
      have up₂ := stored.before.size
      have up₃ := body.before.size
      have up₄ := rest.before.size
      simp only [Gen.size_push, Gen.code_bump] at up₁ up₂ up₃ up₄
      have handler : G.Tries T.code g₁.code.size := .handler ⟨by omega, by omega, moved⟩
      unfold testCatch at test
      cases named : c.type.isEmpty with
      | true =>
          simp only [named, if_true] at test
          obtain ⟨-, rfl⟩ := lays_pure.mp test
          exact handler
      | false =>
          simp only [named, Bool.false_eq_true, if_false, lays_bind, lays_emit, layout, shown] at test rest
          obtain ⟨h₁, type, o, h₂, text, h₃, compared, tested, branch, rfl⟩ := test
          have next : G.Tries T.code (g₃.push .jmp [.label lastL]).code.size := by
            refine .mark mark ?_
            simpa using ih rest (by simp only [Gen.size_push]; omega)
          have branched : G.Tries T.code (h₃.push .test [eax, eax]).code.size :=
            .branch branch ⟨_, mark, by simp [Machine.places]⟩ next (by simpa using handler)
          have compares : G.Tries T.code h₃.code.size := .test tested (by simpa using branched)
          have compared := (asks_call rfl _).tries compared compares
          simpa using (asks_call rfl _).tries type (Asks.tries text compared)

variable {S : Scene}

/-- An exception is delivered at a label behind which a guarded statement keeps it. -/
theorem Scene.delivers_of_guard {l target : String} {k : Nat} (mark : S.code[k]? = some ⟨.label, [.label l], ""⟩)
    (keep : S.code[k + 1]? = some ⟨.mov, [.slot G.exc, rdx], ""⟩) (tries : G.Tries S.code (k + 1 + 1))
    (stands : G.Stands S.code) (jump : S.code[G.back + 1]? = some ⟨.jmp, [.label target], ""⟩)
    (outer : S.Delivers target) : S.Delivers l := by
  obtain ⟨q, gs, placed, carries⟩ := outer
  exact ⟨k, G :: gs, ⟨_, mark, by simp [Machine.places]⟩,
    .mark mark (.keep keep tries stands (.jump jump placed carries))⟩

theorem Env.Careful.guarded {env : Env} (careful : env.Careful S) {label : String} (delivers : S.Delivers label)
    {last : Option LastBlock} (tidy : ∀ l ∈ last, ∀ loops, Emit.Tidy 0 (l.run loops))
    (own : ∀ n, ∀ l ∈ last, ∀ loops, Emit.Careful (S.using_ n) 0 (l.run loops)) :
    (env.guarded label last).Careful S := by
  refine ⟨tidy_guarded careful.tidy label last tidy, careful.locals, le_rfl, delivers, fun n l mem loops => ?_⟩
  rcases List.mem_append.mp mem with new | old
  · exact own n l (by simpa using new) loops
  · exact careful.lasts n l old loops

/-- The code of a guarded statement that is generated from a state, without the labels it makes first and the
    temporary it takes. -/
def guardedCode (env : Env) (g : Gen) (body : Stmt) (cs : List Catch) (last : Option Stmt) : Emitting Unit := do
  let exc := Operand.slot (env.locals.length + 1 + g.temps)
  stmt (env.guarded (tag "catch" g.labels) (lastBlock? env last)) body
  jump .jmp (tag "finally" (g.labels + 3))
  place (tag "catch" g.labels)
  emit .mov [exc, rdx]
  let caughtAll ← handlers (env.guarded (tag "catchexit" (g.labels + 1)) (lastBlock? env last)) exc
    (tag "finally" (g.labels + 3)) cs
  jumpUnless caughtAll (tag "rethrow" (g.labels + 2))
  place (tag "catchexit" (g.labels + 1))
  emit .mov [exc, rdx]
  place (tag "rethrow" (g.labels + 2))
  stmt? env last
  emit .mov [rdx, exc]
  raise env
  place (tag "finally" (g.labels + 3))
  stmt? env last
  place (tag "endtry" (g.labels + 4))
  popTemps 1

theorem run_try (env : Env) (s : Span) (body : Stmt) (cs : List Catch) (last : Option Stmt) (g : Gen) :
    (stmt env (.try_ s body cs last)).run g = (guardedCode env g body cs last).run g.bump.bump.bump.bump.bump.lift := by
  rw [stmt_try]
  rfl

-- The code of a guarded statement is one long block.
set_option synthInstance.maxSize 1000

variable {env : Env} [careful : env.Careful S] {body : Stmt} {cs : List Catch} {last : Option Stmt} {g : Gen}

/-- Both labels of a guarded statement deliver exceptions. Behind them the exception is kept in a temporary, which the
    last block leaves alone because it has temporaries of its own. -/
theorem delivers_guardedCode {pool : List String} {g₀ g' : Gen} (lasts : ∀ n, Careful (S.using_ n) 0 (stmt? env last))
    (temps : g₀.temps = g.temps + 1) (lays : Lays ⟨S.code, pool⟩ (guardedCode env g body cs last) g₀ () g') :
    S.Delivers (tag "catch" g.labels) ∧ S.Delivers (tag "catchexit" (g.labels + 1)) := by
  have tidy := careful.tidy
  have block := Meaning.tidy_lastBlock tidy last
  have guarded (label : String) : (env.guarded label (lastBlock? env last)).Tidy := tidy_guarded tidy label _ block
  have handled (label : String) (exc : Operand) (lastL : String) :
      Tidy 0 (handlers (env.guarded label (lastBlock? env last)) exc lastL cs) :=
    tidy_handlers (tidy_catches _ inferInstance cs) exc lastL
  unfold guardedCode at lays
  rw [careful.settled.raise] at lays
  simp only [lays_bind, lays_emit, layout, shown, Gen.size_push] at lays
  obtain ⟨g₁, body, -, catchAt, keepAt, all, g₂, handlers, g₃, skip, exitAt, keepAt', rethrowAt, g₄, again, backAt,
    jumpAt, -⟩ := lays
  have temps : g₃.temps = g.temps + 1 := by
    rw [skip.temps, handlers.temps, Gen.temps_push, Gen.temps_push, Gen.temps_push, body.temps, temps]
  have up := skip.before.size
  have up' := again.before.size
  simp only [Gen.size_push] at up'
  let G : Guard := ⟨env.locals.length + 1 + g.temps, g₁.code.size + 1, g₃.code.size + 1 + 1, g₄.code.size⟩
  have stands : G.Stands S.code := by
    refine ⟨by show g₃.code.size + 1 + 1 ≤ g₄.code.size; omega, fun p i low high at_ same => ?_, backAt⟩
    rcases low.eq_or_lt with rfl | low
    · obtain rfl := Option.some.inj (rethrowAt.symm.trans at_)
      cases same
    · have mindful := lasts (g.temps + 1)
      have minds := again.minds (S := S.using_ (g.temps + 1)) (by simp [Scene.using_, temps]) (by simpa using low) high
      have away := minds.spares i _ at_ same
      have locals := careful.locals
      have exc : G.exc = env.locals.length + 1 + g.temps := rfl
      simp only [Scene.using_] at away
      omega
  have skips : all = false → G.Tries S.code g₂.code.size := by
    rintro rfl
    obtain ⟨jumpAt, -⟩ := (layout _).2.1 _ _ _ _ _ |>.mp skip
    exact .skip jumpAt ⟨_, rethrowAt, by simp [Machine.places]⟩ .last
  have tries : G.Tries S.code (g₁.code.size + 1 + 1 + 1) := by
    have inside : g₂.code.size ≤ G.rethrow := by
      show g₂.code.size ≤ g₃.code.size + 1 + 1
      omega
    simpa using tries_handlers handlers (by simp [G]) inside skips
  exact ⟨Scene.delivers_of_guard catchAt keepAt tries stands jumpAt careful.delivers,
    Scene.delivers_of_guard exitAt keepAt' .last stands jumpAt careful.delivers⟩

/-- The code of a guarded statement is careful if that of its parts is and its labels deliver exceptions. -/
theorem careful_guardedCode (above : S.temps ≤ g.temps) (delivers : S.Delivers (tag "catch" g.labels))
    (delivers' : S.Delivers (tag "catchexit" (g.labels + 1)))
    (tried : ∀ env : Env, env.Careful S → Careful S 0 (stmt env body))
    (caught : ∀ env : Env, env.Careful S → ∀ c ∈ cs, Careful S 0 (stmt env c.body))
    (lasts : ∀ n (env : Env), env.Careful (S.using_ n) → Careful (S.using_ n) 0 (stmt? env last)) :
    Careful S 1 (guardedCode env g body cs last) := by
  have tidy := Meaning.tidy_lastBlock careful.tidy last
  have own (n : Nat) : ∀ l ∈ lastBlock? env last, ∀ loops, Careful (S.using_ n) 0 (l.run loops) := by
    intro l isLast loops
    cases last with
    | none => cases isLast
    | some last =>
        obtain rfl := Option.some.inj isLast
        have := careful.with_temps n
        exact lasts n { env with loops := loops } inferInstance
  have inTry := careful.guarded delivers tidy own
  have inCatch := careful.guarded delivers' tidy own
  have := tried _ inTry
  have (exc : Operand) (lastL : String) := careful_handlers _ (caught _ inCatch) exc lastL
  have : Careful S 0 (stmt? env last) := lasts S.temps env careful
  have : S.Spares (.slot (env.locals.length + 1 + g.temps)) := careful.spares_temp above
  unfold guardedCode
  infer_instance

/-- The code of a guarded statement is careful if that of its parts is. -/
theorem careful_try (s : Span) (tried : ∀ env : Env, env.Careful S → Careful S 0 (stmt env body))
    (caught : ∀ env : Env, env.Careful S → ∀ c ∈ cs, Careful S 0 (stmt env c.body))
    (lasts : ∀ n (env : Env), env.Careful (S.using_ n) → Careful (S.using_ n) 0 (stmt? env last)) :
    Careful S 0 (stmt env (.try_ s body cs last)) := by
  have tidy := careful.tidy
  have whole : Tidy 0 (stmt env (.try_ s body cs last)) := inferInstance
  refine ⟨fun g _ => (whole.tidy g).before, fun g _ => (whole.tidy g).temps, fun g room lies => ?_⟩
  rw [run_try] at lies ⊢
  have lays : Lays ⟨S.code, _⟩ (guardedCode env g body cs last) g.bump.bump.bump.bump.bump.lift () _ :=
    ⟨rfl, lies, fun _ => List.prefix_rfl⟩
  obtain ⟨delivers, delivers'⟩ := delivers_guardedCode (fun n => lasts n env (careful.with_temps n)) rfl lays
  have mindful : Careful S 1 (guardedCode env g body cs last) :=
    careful_guardedCode room delivers delivers' tried caught lasts
  exact mindful.minds g.bump.bump.bump.bump.bump.lift (Nat.succ_le_succ room) lies

end Guarded

mutual

/-- The code of a statement minds exceptions and temporaries in use. -/
theorem careful_stmt {S : Scene} (env : Env) [careful : env.Careful S] (s : Stmt) : Careful S 0 (stmt env s) := by
  cases s with
  | print s e => exact inferInstanceAs (Careful S 0 (print env e))
  | printStmt s b =>
      exact inferInstanceAs (Careful S 0 (do unsupported b.span b.kind; printf "fmt_int" [rax]; printf "newline" []))
  | expr s e => exact inferInstanceAs (Careful S 0 (expr env e))
  | bare e => exact inferInstanceAs (Careful S 0 (warn _ _))
  | func f | class_ c => exact inferInstanceAs (Careful S 0 (warn _ _))
  | assign s name e => exact inferInstanceAs (Careful S 0 (do valueFor env _ e; store env s name))
  | indexAssign s b k e => exact inferInstanceAs (Careful S 0 (indexAssign env s b k e))
  | varDecl s name type init =>
      cases init with
      | none => exact inferInstanceAs (Careful S 0 (do defaultValue type; store env s name))
      | some e => exact inferInstanceAs (Careful S 0 (do valueFor env _ e; store env s name))
  | block s body => exact careful_stmts env body
  | ifElse s c a b =>
      have := careful_stmt env a (S := S)
      have := careful_stmt? env b (S := S)
      rw [stmt_ifElse]
      infer_instance
  | while_ s c body =>
      have (exit next : String) := careful_stmt (env.inFrame exit next false) body (S := S)
      rw [stmt_while]
      infer_instance
  | doWhile s body c =>
      have (exit next : String) := careful_stmt (env.inFrame exit next false) body (S := S)
      rw [stmt_doWhile]
      infer_instance
  | for_ s init cond post body =>
      have := careful_stmt? env init (S := S)
      have := careful_stmt? env post (S := S)
      have (exit next : String) := careful_stmt (env.inFrame exit next false) body (S := S)
      rw [stmt_for]
      infer_instance
  | switch s e cs =>
      have (endL : String) (ls : List String) :=
        careful_clauseBodies (env.inFrame endL "" true) (careful_clauses (env.inFrame endL "" true) cs (S := S)) ls
      rw [stmt_switch]
      infer_instance
  | break_ s => exact inferInstanceAs (Careful S 0 (leave env s false))
  | continue_ s => exact inferInstanceAs (Careful S 0 (leave env s true))
  | return_ s e => exact inferInstanceAs (Careful S 0 (returnStmt env e))
  | throw_ s type e => exact inferInstanceAs (Careful S 0 (throwStmt env type e))
  | try_ s body cs last =>
      exact careful_try s (fun env _ => careful_stmt env body) (fun env _ => careful_catches env cs)
        fun _ env _ => careful_stmt? env last

theorem careful_stmt? {S : Scene} (env : Env) [careful : env.Careful S] (o : Option Stmt) :
    Careful S 0 (stmt? env o) := by
  cases o with
  | none => exact inferInstanceAs (Careful S 0 (pure ()))
  | some s => exact careful_stmt env s

theorem careful_stmts {S : Scene} (env : Env) [careful : env.Careful S] (ss : List Stmt) :
    Careful S 0 (stmts env ss) := by
  cases ss with
  | nil => exact inferInstanceAs (Careful S 0 (pure ()))
  | cons s ss =>
      have := careful_stmt env s (S := S)
      have := careful_stmts env ss (S := S)
      exact inferInstanceAs (Careful S 0 (do stmt env s; stmts env ss))

theorem careful_clauses {S : Scene} (env : Env) [careful : env.Careful S] (cs : List Clause) :
    ∀ c ∈ cs, Careful S 0 (stmts env (clauseBody c)) := by
  match cs with
  | [] => exact fun _ mem => absurd mem List.not_mem_nil
  | .case_ s v body :: cs => exact List.forall_mem_cons.mpr ⟨careful_stmts env body, careful_clauses env cs⟩
  | .default_ s body :: cs => exact List.forall_mem_cons.mpr ⟨careful_stmts env body, careful_clauses env cs⟩

theorem careful_catches {S : Scene} (env : Env) [careful : env.Careful S] (cs : List Catch) :
    ∀ c ∈ cs, Careful S 0 (stmt env c.body) := by
  match cs with
  | [] => exact fun _ mem => absurd mem List.not_mem_nil
  | ⟨s, type, name, body⟩ :: cs => exact List.forall_mem_cons.mpr ⟨careful_stmt env body, careful_catches env cs⟩

end

/-! ## Routines -/

/-- Where an exception has come to the end of a routine: the routine is left or, in the main routine, the exception is
    reported. -/
def exitsAt (r : Routine) (p : Nat) : Prop :=
  if r.name = SymbolName.mainRoutine then
    r.code[p]? = some ⟨.setarg, [.arg 0, rdx], ""⟩ ∧
      r.code[p + 1]? = some ⟨.call, [.label "lm_exception_uncaught"], ""⟩
  else r.code[p]? = some ⟨.epilogue, [], ""⟩

section Routines

variable {S : Scene} {env : Env}

theorem Env.enter_careful (locals : env.locals.length = S.locals) {t : Tail} (delivers : S.Delivers t.unwind) :
    (env.enter t).Careful S :=
  ⟨inferInstance, locals, le_rfl, delivers, nofun⟩

instance (t : Tail) : Careful S 0 (routineEnd t) := by
  unfold routineEnd
  infer_instance

instance (t : Tail) : Careful S 0 (mainEnd t) := by
  unfold mainEnd
  infer_instance

theorem careful_loadParams (locals : env.locals.length = S.locals) (i : Nat) {names : List String}
    (known : ∀ x ∈ names, x ∈ env.locals) : Careful S 0 (loadParams env i names) := by
  induction names generalizing i with
  | nil => exact inferInstanceAs (Careful S 0 (pure ()))
  | cons name names ih =>
      obtain ⟨own, others⟩ := List.forall_mem_cons.mp known
      have := ih (i + 1) others
      have : Careful S 0 (emit .loadparam [.arg i, .slot (env.locals.idxOf name)]) := by
        refine careful_emit fun p stands => ⟨fun i s at_ same => .inl ?_, fun i o at_ isCall => ?_, fun at_ => ?_⟩
        · obtain rfl := Option.some.inj (stands.symm.trans at_)
          have below := List.idxOf_lt_length_of_mem own
          have := Operand.slot.inj (Option.some.inj same)
          omega
        · cases (congrArg Instr.op (Option.some.inj (stands.symm.trans at_))).trans isCall
        · cases congrArg Instr.op (Option.some.inj (stands.symm.trans at_))
      unfold loadParams
      infer_instance

/-- Code is careful in front of a routine's end that delivers the exceptions of the code. -/
theorem careful_inside {delivered : Prop} {x e : Emitting Unit} [tidy : Tidy 0 x] [ending : Careful S 0 e]
    (delivers : ∀ pool g g', Lays ⟨S.code, pool⟩ e g () g' → delivered) (inside : delivered → Careful S 0 x) :
    Careful S 0 (do x; e) := by
  have room' (g : Gen) (room : S.temps ≤ g.temps) : S.temps ≤ (x.run g).2.temps := (tidy.tidy g).temps ▸ room
  have before (g : Gen) (room : S.temps ≤ g.temps) := ending.before (x.run g).2 (room' g room)
  refine ⟨fun g room => (tidy.tidy g).before.trans (before g room),
    fun g room => (ending.temps _ (room' g room)).trans (tidy.tidy g).temps, fun g room lies => ?_⟩
  obtain ⟨-, later⟩ := (Gen.lies_trans (tidy.tidy g).before (before g room)).mp lies
  have := inside (delivers _ _ _ ⟨rfl, later, fun _ => List.prefix_rfl⟩)
  exact (inferInstance : Careful S 0 (do x; e)).minds g room lies

instance : Careful S 0 newTail := by
  unfold newTail
  infer_instance

/-- An exception at the end of a routine is left in `rdx`. -/
theorem delivers_routineEnd {pool : List String} {t : Tail} {g g' : Gen}
    (ends : ∀ p, S.code[p]? = some ⟨.epilogue, [], ""⟩ → S.ends p)
    (lays : Lays ⟨S.code, pool⟩ (routineEnd t) g () g') : S.Delivers t.unwind := by
  simp only [routineEnd, lays_bind, lays_emit, layout, shown, Gen.size_push] at lays
  obtain ⟨-, -, -, -, unwindAt, clearAt, markAt, leaveAt, -⟩ := lays
  exact ⟨_, [], ⟨_, unwindAt, by simp [Machine.places]⟩,
    .mark unwindAt (.clear clearAt (.mark markAt (.done (ends _ leaveAt))))⟩

/-- The code of a routine minds exceptions, which leave it at its end. -/
theorem careful_routineCode {names : List String} (known : ∀ x ∈ names, x ∈ env.locals) (body : Stmt)
    (locals : env.locals.length = S.locals)
    (ends : ∀ p, S.code[p]? = some ⟨.epilogue, [], ""⟩ → S.ends p) : Careful S 0 (routineCode env names body) := by
  have := careful_loadParams locals 0 known
  have (t : Tail) : Careful S 0 (do stmt (env.enter t) body; routineEnd t) := by
    refine careful_inside (fun _ _ _ => delivers_routineEnd ends) fun delivers => ?_
    have := Env.enter_careful locals delivers
    exact careful_stmt _ body
  unfold routineCode
  infer_instance

instance (c : ClassDecl) : Careful S 0 (methodTable env c) := by
  have (table : Operand) (entries : List MethodEntry) : Careful S 0 (entries.forM fun m => do
      call "lm_map_set" [table, ← str m.key, .addr m.symbol, imm 0]) :=
    careful_forM fun m _ => inferInstance
  unfold methodTable
  infer_instance

instance [env.Careful S] (c : ClassDecl) : Careful S 0 (staticInit env c) := by
  refine careful_forM fun f _ => ?_
  cases f.init <;> infer_instance

instance [env.Careful S] (seed : Int64) : Careful S 0 (prelude env seed) := by
  have : Careful S 0 (env.classes.forM (methodTable env)) := careful_forM fun _ _ => inferInstance
  have : Careful S 0 (env.classes.forM (staticInit env)) := careful_forM fun _ _ => inferInstance
  unfold prelude
  infer_instance

/-- An exception at the end of the main routine is reported. -/
theorem delivers_mainEnd {pool : List String} {t : Tail} {g g' : Gen}
    (ends : ∀ p, S.code[p]? = some ⟨.setarg, [.arg 0, rdx], ""⟩ →
      S.code[p + 1]? = some ⟨.call, [.label "lm_exception_uncaught"], ""⟩ → S.ends p)
    (lays : Lays ⟨S.code, pool⟩ (mainEnd t) g () g') : S.Delivers t.unwind := by
  simp only [mainEnd, lays_bind, lays_emit, layout, shown, Gen.size_push] at lays
  obtain ⟨-, -, -, unwindAt, g₁, callL, -⟩ := lays
  have plain : ("lm_exception_uncaught" == "printf" || "lm_exception_uncaught" == "scanf") = false := by
    decide
  simp only [call, plain, Bool.false_eq_true, if_false, lays_bind, Meaning.lays_setArgs, lays_emit,
    Meaning.lays_externs, setArgsFrom, shown] at callL
  obtain ⟨setAt, _, ⟨_, nothing, rfl⟩, -, callAt, -⟩ := callL
  obtain ⟨-, rfl⟩ := lays_pure.mp nothing
  simp only [Gen.size_push] at setAt callAt
  exact ⟨_, [], ⟨_, unwindAt, by simp [Machine.places]⟩, .mark unwindAt (.done (ends _ setAt callAt))⟩

/-- The code of the main routine minds exceptions, which are reported at its end. -/
theorem careful_mainCode (locals : env.locals.length = S.locals) (seed : Int64) (items : List Stmt)
    (ends : ∀ p, S.code[p]? = some ⟨.setarg, [.arg 0, rdx], ""⟩ →
      S.code[p + 1]? = some ⟨.call, [.label "lm_exception_uncaught"], ""⟩ → S.ends p) :
    Careful S 0 (mainCode env seed items) := by
  have (t : Tail) : Careful S 0 (do (do prelude (env.enter t) seed; stmts (env.enter t) items); mainEnd t) := by
    refine careful_inside (fun _ _ _ => delivers_mainEnd ends) fun delivers => ?_
    have := Env.enter_careful locals delivers
    have := careful_stmts (S := S) (env.enter t) items
    infer_instance
  simp only [bind_assoc] at this
  unfold mainCode
  infer_instance

/-- Careful code of a whole routine minds exceptions everywhere. -/
theorem Scene.minds_of_whole {x : Emitting Unit} [mindful : Careful S 0 x] {g : Gen} (room : S.temps ≤ g.temps)
    (empty : g.code = #[]) (whole : S.code = (x.run g).2.code.toList) : ∀ p < S.code.length, S.Minds p := by
  intro p inside
  rw [whole] at inside
  exact mindful.minds g room (fun i _ _ => by simp [whole]) p (by simp [empty]) (by simpa using inside)

end Routines

/-- A routine that is entered at its first instruction, has each of its labels once and delivers exceptions, and
    whose name is none of the run-time library's. -/
structure Delivering (r : Routine) : Prop where
  opens : r.code[0]? = some ⟨.prologue, [], ""⟩
  distinct : Distinct r.code
  minds : ∃ locals, ∀ p < r.code.length, Scene.Minds ⟨r.code, exitsAt r, locals, 0⟩ p
  foreign : r.name ∉ runtime

/-- Routines of a program share no name with those of the run-time library, whose names start otherwise. -/
theorem append_not_mem {start : String} {names : List String} (others : ∀ n ∈ names, ¬start.toList <+: n.toList)
    (rest : String) : start ++ rest ∉ names := fun mem =>
  others _ mem ⟨rest.toList, by rw [String.toList_append]⟩

theorem foreign_main : SymbolName.mainRoutine ∉ runtime := by decide +kernel

theorem symbol_not_runtime {classes : ClassTable} {items : List Stmt} {s : Source} (mem : s ∈ sources classes items) :
    s.symbol ∉ SymbolName.mainRoutine :: runtime := by
  obtain ⟨rest, eq | eq⟩ := symbol_of_mem mem
  all_goals
    rw [eq]
    exact append_not_mem (by decide +kernel) rest

theorem opens_of_grows {x : Emitting Unit} [Grows x] {g : Gen} (empty : g.code = #[]) :
    ((do emit .prologue []; x : Emitting Unit).run g).2.code.toList[0]? = some ⟨.prologue, [], ""⟩ := by
  have before := (inferInstance : Grows x).grow (g.push .prologue [])
  have first : (g.push .prologue []).code.toList = [⟨.prologue, [], ""⟩] := by simp [Gen.push, empty]
  obtain ⟨rest, whole⟩ := first ▸ before.code
  show (x.run (g.push .prologue [])).2.code.toList[0]? = _
  rw [← whole]
  rfl

theorem delivering_source {env : Env} {pool : List String} {classes : ClassTable} {items : List Stmt} {s : Source}
    (mem : s ∈ sources classes items) {r : Routine} (made : s.Makes env pool r) : Delivering r := by
  obtain ⟨name, g, code, -⟩ := made
  obtain ⟨user, foreign⟩ := List.ne_and_not_mem_of_not_mem_cons (symbol_not_runtime mem)
  rw [← name] at user foreign
  refine ⟨?_, ?_, ⟨s.locals.length, ?_⟩, foreign⟩
  · rw [code]
    exact opens_of_grows (g := g.cleared) rfl
  · rw [code]
    exact Meaning.distinct_of_tidy (x := routineCode (s.env env) s.names s.body) (g := g.cleared) rfl rfl
  · let S : Scene := ⟨r.code, exitsAt r, s.locals.length, 0⟩
    have : Careful S 0 (routineCode (s.env env) s.names s.body) :=
      careful_routineCode (fun _ => s.mem_locals) s.body rfl fun p stands => by simpa [S, exitsAt, user] using stands
    exact Scene.minds_of_whole (S := S) (x := routineCode (s.env env) s.names s.body) (g := g.cleared) (Nat.zero_le _)
      rfl code

theorem delivering_main {env : Env} (empty : env.locals = []) {seed : Int64} {items : List Stmt} {g : Gen} {r : Routine}
    (name : r.name = SymbolName.mainRoutine) (code : r.code = (afterMain env seed items g).code.toList) :
    Delivering r := by
  refine ⟨?_, ?_, ⟨0, ?_⟩, name ▸ foreign_main⟩
  · rw [code]
    exact opens_of_grows (g := g.cleared) rfl
  · rw [code]
    exact Meaning.distinct_of_tidy (x := mainCode env seed items) (g := g.cleared) rfl rfl
  · let S : Scene := ⟨r.code, exitsAt r, 0, 0⟩
    have : Careful S 0 (mainCode env seed items) := careful_mainCode (by simp [S, empty]) seed items
      fun p set called => by simpa [S, exitsAt, name] using ⟨set, called⟩
    exact Scene.minds_of_whole (S := S) (x := mainCode env seed items) (g := g.cleared) (Nat.zero_le _) rfl code

end Emit

/-- Every routine of a program delivers exceptions. -/
theorem Inference.delivering_generate (t : Inference) (hints : Hints) (seed : Int64) {r : Routine}
    (mem : r ∈ (t.generate hints seed).1.routines) : Emit.Delivering r := by
  obtain ⟨rs, main, routines, -, made, name, code⟩ := t.routines_generate hints seed
  rw [routines, List.mem_append, List.mem_singleton] at mem
  rcases mem with mem | rfl
  · obtain ⟨s, inside, makes⟩ := Emit.mem_of_makes made mem
    exact Emit.delivering_source inside makes
  · exact Emit.delivering_main rfl name code

end Lantern
