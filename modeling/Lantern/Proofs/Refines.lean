import Lantern.Proofs.Meaning
import Lantern.Proofs.Run
import Lantern.Proofs.Tidy

/-!
# Code that carries out a computation

A state of the machine is compared with a state of the meaning, and a computation with the run of the
code generated for it. What a routine may not touch while it computes, such as temporaries taken by
code around, is part of the comparison.
-/

namespace Lantern.Meaning

open Assembly Machine
open Emit (Text Gen Env Emitting Lays)

/-- What stays the same while a routine runs. -/
structure Setting (W : Type) where
  /-- What its computations refer to. -/
  scope : Scope W
  /-- The routines of the program. -/
  routines : List Routine
  /-- Its text. -/
  text : Text
  /-- Its arguments. -/
  params : List Word
  /-- The `rbx` of its caller. -/
  saved : Word
  /-- The activations that wait for it. -/
  callers : List Activation
  /-- The time up to which a run that is cut has been followed. -/
  limit : Nat
  /-- Whether exceptions are followed to their targets, and it is noted which statements start. -/
  noted : Prop

/-- Routines of the run-time library that the code of a routine may ask. -/
def library : List String :=
  ["printf", "strcmp", "lm_str_concat", "lm_to_string", "lm_exception_new", "lm_exception_type"]

/-- What the meaning takes for granted is so: strings have the addresses of the pool, and the program
    has no routines in the place of the library's. -/
structure Sound {W : Type} (S : Setting W) : Prop where
  literal : ∀ s, S.scope.literal s = S.scope.host.address (Emit.poolLabel (S.text.pool.idxOf s))
  foreign : ∀ name ∈ library, S.routines.find? (·.name == name) = none

/-- No answer of the run-time library takes a property away. -/
def Stable {W : Type} (H : Host W) (alive : W → Prop) : Prop :=
  ∀ w, ∀ name ∈ library, ∀ args, alive w → alive (H.answer w name args).world

/-- The machine's variables of the program, its host and its record are as the meaning says. -/
structure Outside {W : Type} (st : State W) (m : Machine W) : Prop where
  globals : ∀ name, m.data (SymbolName.globalVar name) = st.globals name
  world : m.world = st.world
  trace : m.trace = st.trace

/-- A range of the frame that must not change and what it holds, and a property of the host that no
    answer takes away. -/
structure Keep {W : Type} (H : Host W) where
  value : Int → Word
  low : Int
  high : Int
  alive : W → Prop
  stable : Stable H alive

namespace Keep

variable {W : Type} {H : Host W}

/-- With one more word on top. -/
def push (K : Keep H) (v : Word) : Keep H :=
  { K with value := Function.update K.value K.high v, high := K.high + 1 }

/-- What the second keeps is enough for the first. -/
structure Within (K K' : Keep H) : Prop where
  low : K'.low ≤ K.low
  high : K.high ≤ K'.high
  value : ∀ i, K.low ≤ i → i < K.high → K'.value i = K.value i
  alive : ∀ w, K'.alive w → K.alive w

theorem Within.refl (K : Keep H) : K.Within K := ⟨le_rfl, le_rfl, fun _ _ _ => rfl, fun _ => id⟩

theorem Within.trans {K K' K'' : Keep H} (first : K.Within K') (second : K'.Within K'') :
    K.Within K'' := by
  refine ⟨second.low.trans first.low, first.high.trans second.high, fun i low high => ?_,
    fun w => first.alive w ∘ second.alive w⟩
  rw [second.value i (first.low.trans low) (high.trans_le first.high), first.value i low high]

theorem within_push (K : Keep H) (v : Word) : K.Within (K.push v) := by
  refine ⟨le_rfl, Int.le_add_one le_rfl, fun i _ high => ?_, fun _ => id⟩
  simp [push, Function.update_of_ne high.ne]

end Keep

section

variable {W : Type}

/-- A state of the machine inside a routine is as the meaning says. -/
structure On (S : Setting W) (K : Keep S.scope.host) (st : State W) (m : Machine W) : Prop extends
    Outside st m where
  code : m.code = S.text.code
  params : m.params = S.params
  saved : m.saved = S.saved
  callers : m.callers = S.callers
  args : m.args = []
  locals : ∀ name i, S.scope.locals.idxOf? name = some i → m.slots i = st.locals name
  kept : ∀ i, K.low ≤ i → i < K.high → m.slots i = K.value i
  alive : K.alive m.world

variable {S : Setting W} {K K' : Keep S.scope.host} {st : State W} {m m' : Machine W}

theorem On.within (inside : K.Within K') (on : On S K' st m) : On S K st m :=
  { on with
    kept := fun i low high =>
      (on.kept i (inside.low.trans low) (high.trans_le inside.high)).trans (inside.value i low high)
    alive := inside.alive _ on.alive }

theorem On.same (on : On S K st m) (same : view m' = view m) : On S K st m' := by
  simp only [view, View.mk.injEq] at same
  obtain ⟨code, slots, params, saved, callers, args, data, world, trace⟩ := same
  exact ⟨⟨fun name => data ▸ on.globals name, world ▸ on.world, trace ▸ on.trace⟩,
    code.trans on.code, params.trans on.params, saved.trans on.saved, callers.trans on.callers,
    args.trans on.args, fun name i found => slots ▸ on.locals name i found,
    fun i low high => slots ▸ on.kept i low high, world ▸ on.alive⟩

/-! ## Computations and runs -/

/-- Where a computation that has ended finds the machine. -/
def Lands {α : Type} (X : Exit → State W → Machine W → Prop) (Q : α → State W → Machine W → Prop) :
    Except Exit α × State W → Machine W → Prop
  | (.ok a, st), m => Q a st m
  | (.error e, st), m => X e st m

/-- The machine gets to where a computation ends. -/
abbrev Refines {α : Type} (S : Setting W) (X : Exit → State W → Machine W → Prop) (x : Act W α)
    (st : State W) (m : Machine W) (Q : α → State W → Machine W → Prop) : Prop :=
  Reach S.scope.host S.routines S.noted m (Lands X Q (x.from st))

namespace Refines

variable {α β : Type} {X Y : Exit → State W → Machine W → Prop} {x : Act W α} {st' : State W}
  {P Q : α → State W → Machine W → Prop}

theorem from_bind (x : Act W α) (f : α → Act W β) (st : State W) :
    (x >>= f).from st = match x.from st with
      | (.ok a, st') => (f a).from st'
      | (.error e, st') => (.error e, st') := by
  simp only [Act.from, bind, ExceptT.bind, ExceptT.run, ExceptT.mk, StateT.bind, StateT.run]
  generalize x st = r
  obtain ⟨_ | _, _⟩ := r <;> rfl

theorem from_tryCatch (x : Act W α) (f : Exit → Act W α) (st : State W) :
    (tryCatch x f).from st = match x.from st with
      | (.ok a, st') => (.ok a, st')
      | (.error e, st') => (f e).from st' := by
  show Act.from (ExceptT.tryCatch x f : Act W α) st = _
  simp only [Act.from, ExceptT.tryCatch, bind, ExceptT.run, ExceptT.mk, StateT.bind, StateT.run]
  generalize x st = r
  obtain ⟨_ | _, _⟩ := r <;> rfl

/-- The computation ends where the machine stands. -/
theorem here {a : α} (ends : x.from st = (.ok a, st')) (h : Q a st' m) : Refines S X x st m Q :=
  Reach.done (by rw [ends]; exact h)

/-- The computation is left where the machine stands. -/
theorem left {e : Exit} (ends : x.from st = (.error e, st')) (h : X e st' m) :
    Refines S X x st m Q :=
  Reach.done (by rw [ends]; exact h)

theorem bind {f : α → Act W β} {R : β → State W → Machine W → Prop} (first : Refines S Y x st m P)
    (exits : ∀ e st' m', m.clock ≤ m'.clock → Y e st' m' → X e st' m')
    (rest : ∀ a st' m', m.clock ≤ m'.clock → P a st' m' → Refines S X (f a) st' m' R) :
    Refines S X (x >>= f) st m R := by
  refine Reach.bind first fun n later landed => ?_
  rw [from_bind]
  cases ends : x.from st with
  | mk result st' =>
      rw [ends] at landed
      cases result with
      | ok a => exact rest a st' n later landed
      | error e => exact Reach.done (exits e st' n later landed)

/-- The computation looks at the state. -/
theorem get {f : State W → Act W α} (rest : Refines S X (f st) st m Q) :
    Refines S X (MonadState.get >>= f) st m Q := rest

/-- The computation gives a variable a value. -/
theorem store {name : String} {v : Word} {y : Act W α}
    (rest : Refines S X y (stored S.scope name v st) m Q) :
    Refines S X (do store S.scope name v; y) st m Q := rest

theorem mono (first : Refines S Y x st m P)
    (exits : ∀ e st' m', m.clock ≤ m'.clock → Y e st' m' → X e st' m')
    (results : ∀ a st' m', m.clock ≤ m'.clock → P a st' m' → Q a st' m') : Refines S X x st m Q := by
  refine Reach.mono first fun n later landed => ?_
  cases ends : x.from st with
  | mk result st' =>
      rw [ends] at landed
      cases result with
      | ok a => exact results a st' n later landed
      | error e => exact exits e st' n later landed

/-- A computation after which, however it ends, the machine takes further steps. -/
theorem settle (first : Refines S Y x st m P)
    (results : ∀ a st' m', m.clock ≤ m'.clock → P a st' m' →
      Reach S.scope.host S.routines S.noted m' (Q a st'))
    (exits : ∀ e st' m', m.clock ≤ m'.clock → Y e st' m' →
      Reach S.scope.host S.routines S.noted m' (X e st')) : Refines S X x st m Q := by
  refine Reach.bind first fun n later landed => ?_
  cases ends : x.from st with
  | mk result st' =>
      rw [ends] at landed
      cases result with
      | ok a => exact results a st' n later landed
      | error e => exact exits e st' n later landed

/-- A computation after which the machine takes further steps. -/
theorem andThen (first : Refines S X x st m P)
    (rest : ∀ a st' m', m.clock ≤ m'.clock → P a st' m' →
      Reach S.scope.host S.routines S.noted m' (Q a st')) : Refines S X x st m Q :=
  settle first rest fun _ _ _ _ left => Reach.done left

/-- A computation whose exits are caught. -/
theorem catch_ {f : Exit → Act W α} (first : Refines S Y x st m P)
    (results : ∀ a st' m', m.clock ≤ m'.clock → P a st' m' →
      Reach S.scope.host S.routines S.noted m' (Q a st'))
    (caught : ∀ e st' m', m.clock ≤ m'.clock → Y e st' m' → Refines S X (f e) st' m' Q) :
    Refines S X (tryCatch x f) st m Q := by
  refine Reach.bind first fun n later landed => ?_
  rw [from_tryCatch]
  cases ends : x.from st with
  | mk result st' =>
      rw [ends] at landed
      cases result with
      | ok a => exact results a st' n later landed
      | error e => exact caught e st' n later landed

end Refines

/-! ## Where exits lead -/

/-- The ways in which a statement may be left early, other than by an exception. -/
structure Ways where
  break_ : Bool
  continue_ : Bool
  return_ : Bool

/-- None of them. -/
def Ways.none : Ways := ⟨false, false, false⟩

/-- The code of a departure: last blocks, generated under some loops, and a final jump. -/
def departure (lasts : List Emit.LastBlock) (loops : List Emit.LoopFrame) (final : Emitting Unit) :
    Emitting Unit := do
  lasts.forM fun l => l.run loops
  final

/-- The machine stands where some code starts, above the words to be kept. -/
def Stands (S : Setting W) (env : Env) (K : Keep S.scope.host) (x : Emitting Unit) (m : Machine W) :
    Prop :=
  ∃ g g', Lays S.text x g () g' ∧ At S.text g m ∧ g.pool <+: S.text.pool ∧
    K.high ≤ env.locals.length + 1 + g.temps

/-- The machine is about to leave for the end of a loop, or for its next round if `goOn`. -/
def Leaves (S : Setting W) (env : Env) (K : Keep S.scope.host) (goOn : Bool) (m : Machine W) :
    Prop :=
  ∃ l loops, (env.loops.find? fun l => !(goOn && l.isSwitch)) = some l ∧
    Stands S env K (departure (env.lasts.take (env.lasts.length - l.depth)) loops
      (Emit.jump .jmp (if goOn then l.next else l.exit))) m

/-- The machine is about to return a value. -/
def Returns (S : Setting W) (env : Env) (K : Keep S.scope.host) (v : Word) (m : Machine W) : Prop :=
  (∃ loops, m.slots env.locals.length = v ∧ Stands S env K (departure env.lasts loops do
      Emit.emit .mov [Emit.rax, env.retSlot]
      Emit.jump .jmp env.retLabel) m) ∨
  (env.lasts = [] ∧ m.rax = v ∧ Stands S env K (Emit.jump .jmp env.retLabel) m)

/-- Where the machine is when a computation has been left. -/
def Exits (S : Setting W) (env : Env) (ways : Ways) (K : Keep S.scope.host) :
    Exit → State W → Machine W → Prop
  | .break_, st, m => ways.break_ = true ∧ On S K st m ∧ Leaves S env K false m
  | .continue_, st, m => ways.continue_ = true ∧ On S K st m ∧ Leaves S env K true m
  | .return_ v, st, m => ways.return_ = true ∧ On S K st m ∧ Returns S env K v m
  | .thrown h, st, m => On S K st m ∧ m.rdx = h ∧ (S.scope.host.typeOf st.world h).isSome = true ∧
      Placed S.text.code env.target.label m.pc
  | .trap, st, m => Faults S.scope.host S.routines m ∧ m.trace = st.trace
  | .cut, st, m => S.limit ≤ m.clock ∧ m.trace = st.trace
  | .stray, _, _ => True

/-- The machine stands between two steps of the generator, ready to go on. -/
structure Ready (S : Setting W) (env : Env) (K : Keep S.scope.host) (g : Gen) (st : State W)
    (m : Machine W) : Prop where
  on : On S K st m
  here : At S.text g m
  low : env.locals.length ≤ K.low
  floor : K.low ≤ env.locals.length + 1
  high : K.high = env.locals.length + 1 + g.temps
  pool : g.pool <+: S.text.pool
  fuel : S.limit ≤ m.clock + S.scope.fuel

/-- What an environment promises about the code around. -/
structure Suits (S : Setting W) (env : Env) : Prop where
  tidy : env.Tidy
  distinct : Distinct S.text.code
  locals : env.locals = S.scope.locals
  classes : env.classes = S.scope.classes
  depth : env.target.depth = env.lasts.length
  target : S.noted → ∃ k, Placed S.text.code env.target.label k

/-- Code that leaves the value of a computation in `rax`. -/
def Computes (S : Setting W) (env : Env) (x : Emitting Unit) (act : Act W Word) : Prop :=
  ∀ ⦃ways : Ways⦄ ⦃K : Keep S.scope.host⦄ ⦃g g' : Gen⦄ ⦃st : State W⦄ ⦃m : Machine W⦄,
    Lays S.text x g () g' → Ready S env K g st m →
      Refines S (Exits S env ways K) act st m fun v st' m' =>
        m'.rax = v ∧ Ready S env K g' st' m'

theorem Computes.congr {env : Env} {x : Emitting Unit} {act act' : Act W Word}
    (computes : Computes S env x act) (same : act' = act) : Computes S env x act' := same ▸ computes

theorem Exits.within {env : Env} {ways : Ways} {e : Exit} (inside : K.Within K')
    (left : Exits S env ways K' e st m) : Exits S env ways K e st m := by
  have stands {x : Emitting Unit} (h : Stands S env K' x m) : Stands S env K x m := by
    obtain ⟨g, g', lays, here, pool, high⟩ := h
    exact ⟨g, g', lays, here, pool, inside.high.trans high⟩
  cases e with
  | break_ =>
      obtain ⟨way, on, l, loops, found, h⟩ := left
      exact ⟨way, on.within inside, l, loops, found, stands h⟩
  | continue_ =>
      obtain ⟨way, on, l, loops, found, h⟩ := left
      exact ⟨way, on.within inside, l, loops, found, stands h⟩
  | return_ v =>
      obtain ⟨way, on, ⟨loops, value, h⟩ | ⟨none, value, h⟩⟩ := left
      · exact ⟨way, on.within inside, .inl ⟨loops, value, stands h⟩⟩
      · exact ⟨way, on.within inside, .inr ⟨none, value, stands h⟩⟩
  | thrown h => exact ⟨left.1.within inside, left.2⟩
  | trap | cut | stray => exact left

theorem globalVar_inj {a b : String} :
    SymbolName.globalVar a = SymbolName.globalVar b ↔ a = b := by
  simp [SymbolName.globalVar]

theorem On.setLocal {name : String} {i : Nat} {v : Word} (on : On S K st m)
    (index : S.scope.locals.idxOf? name = some i) (low : S.scope.locals.length ≤ K.low)
    (seen : view m' = { view m with slots := Function.update m.slots i v }) :
    On S K (stored S.scope name v st) m' := by
  simp only [view, View.mk.injEq] at seen
  obtain ⟨code, slots, params, saved, callers, args, data, world, trace⟩ := seen
  obtain ⟨inside, same, -⟩ := List.idxOf?_eq_some_iff.mp index
  have mem : name ∈ S.scope.locals := same ▸ List.getElem_mem inside
  simp only [stored, mem, if_true]
  refine ⟨⟨fun name => data ▸ on.globals name, world ▸ on.world, trace ▸ on.trace⟩,
    code ▸ on.code, params ▸ on.params, saved ▸ on.saved, callers ▸ on.callers, args ▸ on.args,
    fun other j found => ?_, fun j above high => ?_, world ▸ on.alive⟩
  · by_cases eq : other = name
    · subst eq
      obtain rfl : j = i := by rw [found] at index; exact Option.some.inj index
      simp [slots]
    · have : (j : Int) ≠ i := by
        rintro h
        obtain rfl : j = i := by exact_mod_cast h
        obtain ⟨_, same', -⟩ := List.idxOf?_eq_some_iff.mp found
        exact eq (same'.symm.trans same)
      simpa [slots, Function.update_of_ne this, Function.update_of_ne eq] using
        on.locals other j found
  · have : j ≠ (i : Int) := by omega
    simpa [slots, Function.update_of_ne this] using on.kept j above high

theorem On.setGlobal {name : String} {v : Word} (on : On S K st m)
    (free : S.scope.locals.idxOf? name = none)
    (seen : view m' =
      { view m with data := Function.update m.data (SymbolName.globalVar name) v }) :
    On S K (stored S.scope name v st) m' := by
  simp only [view, View.mk.injEq] at seen
  obtain ⟨code, slots, params, saved, callers, args, data, world, trace⟩ := seen
  have mem : name ∉ S.scope.locals := by simpa using free
  simp only [stored, mem, if_false]
  refine ⟨⟨fun other => ?_, world ▸ on.world, trace ▸ on.trace⟩,
    code ▸ on.code, params ▸ on.params, saved ▸ on.saved, callers ▸ on.callers, args ▸ on.args,
    fun name i found => slots ▸ on.locals name i found,
    fun i above high => slots ▸ on.kept i above high, world ▸ on.alive⟩
  rw [data]
  by_cases eq : other = name
  · simp [eq]
  · have : SymbolName.globalVar other ≠ SymbolName.globalVar name := by simpa [globalVar_inj] using eq
    simpa [Function.update_of_ne this, Function.update_of_ne eq] using on.globals other

/-- A word of the frame that is neither a variable nor kept is written. -/
theorem On.setSlot {i : Int} {v : Word} (on : On S K st m) (free : S.scope.locals.length ≤ i)
    (outside : i < K.low ∨ K.high ≤ i)
    (seen : view m' = { view m with slots := Function.update m.slots i v }) : On S K st m' := by
  simp only [view, View.mk.injEq] at seen
  obtain ⟨code, slots, params, saved, callers, args, data, world, trace⟩ := seen
  refine ⟨⟨fun name => data ▸ on.globals name, world ▸ on.world, trace ▸ on.trace⟩,
    code ▸ on.code, params ▸ on.params, saved ▸ on.saved, callers ▸ on.callers, args ▸ on.args,
    fun name j found => ?_, fun j low high => ?_, world ▸ on.alive⟩
  · obtain ⟨inside, -⟩ := List.idxOf?_eq_some_iff.mp found
    rw [slots, Function.update_of_ne (by omega)]
    exact on.locals name j found
  · rw [slots, Function.update_of_ne (by omega)]
    exact on.kept j low high

/-- One more word is kept as it is. -/
theorem On.push (on : On S K st m) {v : Word} (top : m.slots K.high = v) :
    On S (K.push v) st m := by
  refine { on with kept := fun i low high => ?_, alive := on.alive }
  simp only [Keep.push] at low high ⊢
  by_cases same : i = K.high
  · rw [same, top, Function.update_self]
  · rw [Function.update_of_ne same]
    exact on.kept i low (by omega)

namespace Ready

variable {env : Env} {g : Gen} {op : Op} {args : List Operand} {Q : Machine W → Prop}

theorem moved {g' : Gen} (ready : Ready S env K g st m) (size : g'.code.size = g.code.size)
    (temps : g'.temps = g.temps) (pool : g'.pool = g.pool) : Ready S env K g' st m :=
  ⟨ready.on, ⟨ready.here.code, ready.here.pc.trans size.symm⟩, ready.low, ready.floor, temps ▸ ready.high,
    pool ▸ ready.pool, ready.fuel⟩

/-- Less may be kept, as long as it is in the same place. -/
theorem loosen (ready : Ready S env K' g st m) (inside : K.Within K') (low : K.low = K'.low)
    (high : K.high = K'.high) : Ready S env K g st m :=
  ⟨ready.on.within inside, ready.here, low ▸ ready.low, low ▸ ready.floor, high ▸ ready.high,
    ready.pool, ready.fuel⟩

/-- The machine stands at a label that the generator has placed. -/
theorem arrive {l : String} {g₀ : Gen} {st₀ : State W} {m₀ : Machine W} (on : On S K st m)
    (at_ : Placed S.text.code l m.pc) (distinct : Distinct S.text.code)
    (target : S.text.code[g.code.size]? = some ⟨.label, [.label l], ""⟩)
    (outer : Ready S env K g₀ st₀ m₀) (later : m₀.clock ≤ m.clock) (temps : g.temps = g₀.temps)
    (pool : g.pool <+: S.text.pool) : Ready S env K g st m := by
  have pc : m.pc = g.code.size := distinct l _ _ at_ ⟨_, target, by simp [places]⟩
  have := outer.fuel
  exact ⟨on, ⟨on.code, pc⟩, outer.low, outer.floor, temps ▸ outer.high, pool, by omega⟩

/-- Code behind which only registers are changed. -/
theorem reached {g' : Gen} {n : Machine W} (ready : Ready S env K g st m) (here : At S.text g' n) (same : view n = view m)
    (later : m.clock ≤ n.clock) (temps : g'.temps = g.temps) (pool : g'.pool <+: S.text.pool) :
    Ready S env K g' st n := by
  have := ready.fuel
  exact ⟨ready.on.same same, here, ready.low, ready.floor, temps ▸ ready.high, pool, by omega⟩

/-- An instruction that changes only registers. -/
theorem next (ready : Ready S env K g st m)
    (laid : S.text.code[g.code.size]? = some ⟨op, args, ""⟩)
    (effect : m.exec S.scope.host S.routines op args = .next m') (same : view m' = view m)
    (pc : m'.pc = m.pc + 1)
    (rest : ∀ n, regs n = regs m' → m.clock < n.clock → Ready S env K (g.push op args) st n →
      Reach S.scope.host S.routines S.noted n Q) :
    Reach S.scope.host S.routines S.noted m Q := by
  exact ready.here.next laid effect (congrArg View.code same) pc fun n regs view clock here =>
    rest n regs (by omega) (ready.reached here (view.trans same) (by omega) rfl ready.pool)

/-- A jump to a label. -/
theorem jump {l : String} {g' : Gen} (ready : Ready S env K g st m)
    (laid : S.text.code[g.code.size]? = some ⟨op, args, ""⟩) (distinct : Distinct S.text.code)
    (target : S.text.code[g'.code.size]? = some ⟨.label, [.label l], ""⟩)
    (effect : m.exec S.scope.host S.routines op args = m.jump l) (temps : g'.temps = g.temps)
    (pool : g'.pool <+: S.text.pool)
    (rest : ∀ n, regs n = regs m → m.clock < n.clock → Ready S env K g' st n →
      Reach S.scope.host S.routines S.noted n Q) :
    Reach S.scope.host S.routines S.noted m Q := by
  exact ready.here.jump laid distinct target effect fun n regs view clock here =>
    rest n regs (by omega) (ready.reached here view (by omega) temps pool)

/-- A jump out of the code at hand. -/
theorem depart {l : String} {k : Nat} (ready : Ready S env K g st m)
    (laid : S.text.code[g.code.size]? = some ⟨op, args, ""⟩) (distinct : Distinct S.text.code)
    (target : Placed S.text.code l k)
    (effect : m.exec S.scope.host S.routines op args = m.jump l)
    (rest : ∀ n, regs n = regs m → m.clock < n.clock → On S K st n → n.pc = k →
      Reach S.scope.host S.routines S.noted n Q) :
    Reach S.scope.host S.routines S.noted m Q := by
  have here := ready.here
  rw [jump_of_placed (here.code ▸ distinct) (here.code ▸ target)] at effect
  exact Reach.exec (here.stands laid) effect (rest _ rfl (Nat.lt_succ_self _) (ready.on.same rfl) rfl)

/-- A jump under a condition. -/
theorem jumpIf {l : String} {g' : Gen} {f : Flags} (ready : Ready S env K g st m)
    (cond : Flags → Bool)
    (laid : S.text.code[g.code.size]? = some ⟨op, [.label l], ""⟩)
    (conditional : m.exec S.scope.host S.routines op [.label l] = m.jumpIf cond l)
    (flags : m.flags = some f) (distinct : Distinct S.text.code)
    (target : S.text.code[g'.code.size]? = some ⟨.label, [.label l], ""⟩)
    (temps : g'.temps = g.temps) (pool : g'.pool <+: S.text.pool)
    (taken : cond f = true → ∀ n, regs n = regs m → m.clock < n.clock → Ready S env K g' st n →
      Reach S.scope.host S.routines S.noted n Q)
    (fallen : cond f = false → ∀ n, regs n = regs m → m.clock < n.clock →
      Ready S env K (g.push op [.label l]) st n → Reach S.scope.host S.routines S.noted n Q) :
    Reach S.scope.host S.routines S.noted m Q := by
  cases holds : cond f with
  | true =>
      refine ready.jump laid distinct target ?_ temps pool (taken holds)
      simp [conditional, Machine.jumpIf, holds?, flags, holds]
  | false =>
      have effect : m.exec S.scope.host S.routines op [.label l] = .next m.next := by
        simp [conditional, Machine.jumpIf, holds?, flags, holds]
      exact ready.next laid effect rfl rfl (fallen holds)

/-- Sets the flags by whether `rax` is zero. -/
theorem test (ready : Ready S env K g st m)
    (laid : S.text.code[g.code.size]? = some ⟨.test, [Emit.rax, Emit.rax], ""⟩)
    (rest : ∀ n f, n.rax = m.rax → n.flags = some f → f.zero = (m.rax == 0) → m.clock ≤ n.clock →
      Ready S env K (g.push .test [Emit.rax, Emit.rax]) st n →
      Reach S.scope.host S.routines S.noted n Q) :
    Reach S.scope.host S.routines S.noted m Q := by
  refine ready.next laid rfl rfl rfl fun n regs later ready =>
    rest n _ (congrArg Regs.rax regs) (congrArg Regs.flags regs) ?_ later.le ready
  simp

/-- Writes to a word of the frame that is neither a variable nor kept. -/
theorem setSlot {i : Int} {src : Operand} {v : Word} (ready : Ready S env K g st m)
    (laid : S.text.code[g.code.size]? = some ⟨.mov, [.slot i, src], ""⟩) (suits : Suits S env)
    (read : m.read S.scope.host src = some v) (free : env.locals.length ≤ i)
    (outside : i < K.low ∨ K.high ≤ i)
    (rest : ∀ n, n.slots i = v → regs n = regs m → m.clock ≤ n.clock →
      Ready S env K (g.push .mov [.slot i, src]) st n → Reach S.scope.host S.routines S.noted n Q) :
    Reach S.scope.host S.routines S.noted m Q := by
  have effect : m.exec S.scope.host S.routines .mov [.slot i, src] =
      .next { m with slots := Function.update m.slots i v }.next := by
    simp [Machine.exec, put, read, write]
  refine ready.here.next laid effect rfl rfl fun n regs seen clock here =>
    rest n ?_ regs (by omega) ⟨ready.on.setSlot (suits.locals ▸ free) outside seen, here, ready.low,
      ready.floor, ready.high, ready.pool, ?_⟩
  · rw [show n.slots = _ from congrArg View.slots seen]
    exact Function.update_self ..
  · have := ready.fuel
    omega

/-- Takes the next temporary as it is. -/
theorem lift (ready : Ready S env K g st m) {v : Word} (top : m.slots K.high = v) :
    Ready S env (K.push v) g.lift st m := by
  refine ⟨ready.on.push top, ⟨ready.here.code, ready.here.pc⟩, ready.low, ready.floor, ?_, ready.pool,
    ready.fuel⟩
  simp only [Keep.push, ready.high, Gen.temps_lift]
  push_cast
  omega

/-- Takes a temporary for `rax`. -/
theorem spill (ready : Ready S env K g st m)
    (laid : S.text.code[g.code.size]? =
      some ⟨.mov, [.slot (env.locals.length + 1 + g.temps), Emit.rax], ""⟩)
    (suits : Suits S env)
    (rest : ∀ n, regs n = regs m → m.clock ≤ n.clock →
      Ready S env (K.push m.rax)
        (g.lift.push .mov [.slot (env.locals.length + 1 + g.temps), Emit.rax]) st n →
      Reach S.scope.host S.routines S.noted n Q) :
    Reach S.scope.host S.routines S.noted m Q := by
  have high := ready.high
  refine ready.setSlot laid suits rfl (by omega) (.inr high.le) fun n slot regs later ready' =>
    rest n regs later ((ready'.lift (high ▸ slot)).moved ?_ rfl rfl)
  simp [Emit.Gen.size_push]

/-- The temporary taken after an earlier state. -/
theorem top {v : Word} {g₀ : Gen} {st₀ : State W} {m₀ : Machine W}
    (ready : Ready S env (K.push v) g st m) (outer : Ready S env K g₀ st₀ m₀) :
    m.slots (env.locals.length + 1 + g₀.temps) = v := by
  have low := outer.floor
  have high := outer.high
  rw [← high]
  have kept := ready.on.kept K.high (by simp only [Keep.push]; omega) (by simp [Keep.push])
  simpa [Keep.push] using kept

/-- Gives the temporary back that was taken after an earlier state. -/
theorem pop {v : Word} {g₀ : Gen} {st₀ : State W} {m₀ : Machine W}
    (ready : Ready S env (K.push v) g st m) (outer : Ready S env K g₀ st₀ m₀) :
    Ready S env K (g.drop 1) st m := by
  have temps : g.temps = g₀.temps + 1 := by
    have raised : K.high + 1 = env.locals.length + 1 + g.temps := ready.high
    have := outer.high
    omega
  refine ⟨ready.on.within (K.within_push v), ⟨ready.here.code, ready.here.pc⟩, ready.low,
    ready.floor, ?_, ready.pool, ready.fuel⟩
  simp [outer.high, temps]

/-- Gives a variable the value of an operand. -/
theorem assign {name : String} {place src : Operand} {v : Word} (ready : Ready S env K g st m)
    (laid : S.text.code[g.code.size]? = some ⟨.mov, [place, src], ""⟩) (suits : Suits S env)
    (found : env.lookup? name = some place) (read : m.read S.scope.host src = some v)
    (rest : ∀ n, regs n = regs m → m.clock ≤ n.clock →
      Ready S env K (g.push .mov [place, src]) (stored S.scope name v st) n →
      Reach S.scope.host S.routines S.noted n Q) :
    Reach S.scope.host S.routines S.noted m Q := by
  have fuel := ready.fuel
  unfold Env.lookup? at found
  rw [suits.locals] at found
  split at found
  · next i index =>
      obtain rfl : Operand.slot i = place := by simpa using found
      have effect : m.exec S.scope.host S.routines .mov [.slot i, src] =
          .next { m with slots := Function.update m.slots i v }.next := by
        simp [Machine.exec, put, read, write]
      refine ready.here.next laid effect rfl rfl fun n regs seen clock here =>
        rest n regs (by omega) ?_
      exact ⟨ready.on.setLocal index (suits.locals ▸ ready.low) seen, here, ready.low, ready.floor,
        ready.high, ready.pool, by omega⟩
  · next free =>
      split at found
      · obtain rfl : Operand.data (SymbolName.globalVar name) = place := by simpa using found
        have effect : m.exec S.scope.host S.routines .mov
            [.data (SymbolName.globalVar name), src] =
            .next { m with data := Function.update m.data (SymbolName.globalVar name) v }.next := by
          simp [Machine.exec, put, read, write]
        refine ready.here.next laid effect rfl rfl fun n regs seen clock here =>
          rest n regs (by omega) ?_
        exact ⟨ready.on.setGlobal free seen, here, ready.low, ready.floor, ready.high, ready.pool,
          by omega⟩
      · cases found

/-- What an operand of a variable holds. -/
theorem read_variable {name : String} {place : Operand} (ready : Ready S env K g st m)
    (suits : Suits S env) (found : env.lookup? name = some place) :
    m.read S.scope.host place =
      some (if name ∈ S.scope.locals then st.locals name else st.globals name) := by
  unfold Env.lookup? at found
  rw [suits.locals] at found
  split at found
  · next i index =>
      obtain rfl : Operand.slot i = place := by simpa using found
      obtain ⟨inside, same, -⟩ := List.idxOf?_eq_some_iff.mp index
      have mem : name ∈ S.scope.locals := same ▸ List.getElem_mem inside
      simp [Machine.read, mem, ready.on.locals name i index]
  · next free =>
      have mem : name ∉ S.scope.locals := by simpa using free
      split at found
      · obtain rfl : Operand.data (SymbolName.globalVar name) = place := by simpa using found
        simp [Machine.read, mem, ready.on.globals name]
      · cases found

end Ready

end

end Lantern.Meaning
