import Lantern.Proofs.Labels
import Lantern.Proofs.Licences
import Lantern.Proofs.Unwinding

/-!
# Returned values

A returned value waits in a slot of its frame while pending last blocks run. All returns of a routine
have that slot in common, so a value is kept as long as the activation it belongs to executes no other
return. What it calls cannot touch the slot, and what else it does itself does not.
-/

namespace Lantern

open Assembly Emit

namespace Machine

variable {W : Type} {H : Host W} {rs : List Routine}

/-- The activation under way. -/
def current (m : Machine W) : Activation := ⟨m.code, m.pc, m.slots, m.params, m.saved⟩

/-- The activation below which there are `depth` others. -/
def activation? (m : Machine W) (depth : Nat) : Option Activation :=
  if depth = m.callers.length then some m.current else m.callers.reverse[depth]?

/-- Takes a number of steps, each from a state in which the machine may go on. -/
def walk (H : Host W) (rs : List Routine) (may : Machine W → Prop) [DecidablePred may] :
    Nat → Machine W → Option (Machine W)
  | 0, m => some m
  | k + 1, m =>
    if may m then
      match m.step H rs with
      | .next m' => walk H rs may k m'
      | _ => none
    else none

theorem step_of_walk {may : Machine W → Prop} [DecidablePred may] {m m' : Machine W}
    (walked : m.walk H rs may 1 = some m') : m.step H rs = .next m' := by
  simp only [walk] at walked
  split at walked
  · split at walked
    · next one => rw [one, Option.some.inj walked]
    · cases walked
  · cases walked

/-- What each allowed step keeps holds at the end of a walk. -/
theorem walk_invariant {may : Machine W → Prop} [DecidablePred may] {I : Machine W → Prop}
    (step : ∀ m m', may m → m.step H rs = .next m' → I m → I m') {k : Nat} {m n : Machine W}
    (walked : m.walk H rs may k = some n) (start : I m) : I n := by
  induction k generalizing m with
  | zero => exact Option.some.inj walked ▸ start
  | succ k ih =>
      unfold walk at walked
      split at walked
      · next allowed =>
          split at walked
          · next m' one => exact ih walked (step m m' allowed one start)
          · cases walked
      · cases walked

/-! ## What a step does to the frames -/

/-- The activation under way goes on, changing at most what the instruction names. -/
structure Proceeds (i : Instr) (m m' : Machine W) : Prop where
  code : m'.code = m.code
  callers : m'.callers = m.callers
  slots : ∀ s, target? i ≠ some (.slot s) → m'.slots s = m.slots s
  place : m'.pc = m.pc + 1 ∨ i.op.isJump ∧ ∃ l, m.code[m'.pc]? = some l ∧ l.op = .label

/-- The activation under way waits behind a call of a routine. -/
structure Waits (rs : List Routine) (i : Instr) (m m' : Machine W) : Prop where
  op : i.op = .call
  target : ∃ o, i.args = [o] ∧ ∀ name, o = .label name → ∃ r ∈ rs, r.name = name
  starts : m'.pc = 0
  callers : m'.callers = { m.current with pc := m.pc + 1 } :: m.callers

/-- The activation under way has ended, and the one that waited for it goes on. -/
structure Resumes (i : Instr) (m m' : Machine W) : Prop where
  op : i.op = .epilogue
  callers : m.callers = m'.current :: m'.callers
  rdx : m'.rdx = m.rdx

section Steps

variable {m m' : Machine W} {i : Instr} {op : Op} {args : List Operand}

theorem write_cases {d : Operand} {v : Word} (h : m.write d v = some m') :
    m'.code = m.code ∧ m'.callers = m.callers ∧ m'.pc = m.pc ∧ ∀ s, d ≠ .slot s → m'.slots s = m.slots s := by
  unfold write at h
  split at h
  case h_8 j v =>
    cases h
    refine ⟨rfl, rfl, rfl, fun s other => ?_⟩
    exact Function.update_of_ne (fun same => other (congrArg Operand.slot same.symm)) _ _
  all_goals cases h
  all_goals exact ⟨rfl, rfl, rfl, fun _ _ => rfl⟩

theorem proceeds_next (code : m'.code = m.code) (callers : m'.callers = m.callers) (slots : m'.slots = m.slots)
    (pc : m'.pc = m.pc + 1) : Proceeds i m m' :=
  ⟨code, callers, fun _ _ => by rw [slots], .inl pc⟩

theorem proceeds_put {d : Operand} {v : Option Word} (h : m.put d v = .next m') (target : target? i = some d) :
    Proceeds i m m' := by
  unfold put at h
  split at h
  · cases h
  · split at h
    · next written =>
        cases h
        obtain ⟨code, callers, pc, slots⟩ := write_cases written
        refine ⟨code, callers, fun s other => slots s fun same => other (same ▸ target), .inl ?_⟩
        exact congrArg (· + 1) pc
    · cases h

theorem proceeds_arith {f : Word → Word → Word} {d s : Operand} (h : m.arith H f d s = .next m')
    (target : target? i = some d) : Proceeds i m m' := by
  unfold arith at h
  split at h
  · have := proceeds_put h target
    exact ⟨this.code, this.callers, this.slots, this.place⟩
  · cases h

theorem proceeds_compare {f : Word → Word → Flags} {a b : Operand} (h : m.compare H f a b = .next m') :
    Proceeds i m m' := by
  unfold compare at h
  split at h
  · cases h
    exact proceeds_next rfl rfl rfl rfl
  · cases h

theorem proceeds_jump {l : String} (isJump : i.op.isJump) (h : m.jump l = .next m') : Proceeds i m m' := by
  unfold jump at h
  split at h
  · next k found =>
      cases h
      obtain ⟨inside, hit, -⟩ := List.findIdx?_eq_some_iff_getElem.mp found
      have label : m.code[k].op = .label := (of_decide_eq_true hit).1
      exact ⟨rfl, rfl, fun _ _ => rfl, .inr ⟨isJump, _, List.getElem?_eq_getElem inside, label⟩⟩
  · cases h

theorem proceeds_jumpIf {cond : Flags → Bool} {l : String} (isJump : i.op.isJump)
    (h : m.jumpIf cond l = .next m') : Proceeds i m m' := by
  unfold jumpIf at h
  split at h
  · exact proceeds_jump isJump h
  · cases h
    exact proceeds_next rfl rfl rfl rfl
  · cases h

theorem proceeds_divide {w : Word} (h : m.divide w = .next m') : Proceeds i m m' := by
  unfold divide at h
  dsimp only at h
  split at h
  · cases h
  · cases h
    exact proceeds_next rfl rfl rfl rfl

theorem proceeds_setArg {n : Int} {w : Word} (h : m.setArg H n w = .next m') : Proceeds i m m' := by
  unfold setArg at h
  split at h
  · cases h
    exact proceeds_next rfl rfl rfl rfl
  · cases h

theorem Waits.of_call {name : String} (op : i.op = .call) (args : i.args = [.label name])
    (h : m.call H rs name = .next m') : Proceeds i m m' ∨ Waits rs i m m' := by
  unfold call at h
  split at h
  · next r found =>
      cases h
      refine .inr ⟨op, ⟨_, args, fun name' same => ⟨r, List.mem_of_find?_eq_some found, ?_⟩⟩, rfl, rfl⟩
      rw [← Operand.label.inj same]
      simpa using List.find?_some found
  · cases h
    exact .inl (proceeds_next rfl rfl rfl rfl)

theorem Waits.of_callAt {address : Word} (op : i.op = .call) (args : i.args = [.reg .r11])
    (h : m.callAt H rs address = .next m') : Waits rs i m m' := by
  unfold callAt at h
  split at h
  · cases h
    exact ⟨op, ⟨_, args, nofun⟩, rfl, rfl⟩
  · cases h

theorem resumes_leave (op : i.op = .epilogue) (h : m.leave = .next m') : Resumes i m m' := by
  unfold leave at h
  split at h
  · cases h
  · next a rest callers =>
      cases h
      exact ⟨op, callers, rfl⟩

/-- An instruction goes on with its activation, calls another or leads back to one that waits. -/
theorem exec_cases (h : m.exec H rs i.op i.args = .next m') :
    Proceeds i m m' ∨ Waits rs i m m' ∨ Resumes i m m' := by
  obtain ⟨op, args, remark⟩ := i
  dsimp only at h
  unfold exec at h
  split at h
  case h_10 s =>
    split at h
    · exact .inl (proceeds_divide h)
    · cases h
  case h_19 d s =>
    split at h
    · exact .inl (proceeds_put h rfl)
    · cases h
      exact .inl (proceeds_next rfl rfl rfl rfl)
    · cases h
  case h_25 f => exact (Waits.of_call rfl rfl h).imp_right .inl
  case h_26 => exact .inr (.inl (Waits.of_callAt rfl rfl h))
  case h_29 => exact .inr (.inr (resumes_leave rfl h))
  case h_30 n s =>
    split at h
    · exact .inl (proceeds_setArg h)
    · cases h
  case h_9 | h_27 | h_28 =>
    cases h
    exact .inl (proceeds_next rfl rfl rfl rfl)
  case h_32 => cases h
  all_goals first
    | exact .inl (proceeds_put h rfl)
    | exact .inl (proceeds_arith h rfl)
    | exact .inl (proceeds_compare h)
    | exact .inl (proceeds_jump rfl h)
    | exact .inl (proceeds_jumpIf rfl h)

/-- What a step does to the frames. -/
theorem step_cases (h : m.step H rs = .next m') : ∃ i, m.code[m.pc]? = some i ∧
    (Proceeds i m m' ∨ Waits rs i m m' ∨ Resumes i m m') := by
  unfold step at h
  split at h
  · next i stands =>
      split at h
      · next n effect =>
          cases h
          refine ⟨i, stands, (exec_cases effect).imp (fun on => ?_) (Or.imp (fun waits => ?_) fun back => ?_)⟩
          · exact ⟨on.code, on.callers, on.slots, on.place⟩
          · exact ⟨waits.op, waits.target, waits.starts, waits.callers⟩
          · exact ⟨back.op, back.callers, back.rdx⟩
      · next other => exact absurd h (other m')
  · cases h

/-- Unless it ends, the activation under way goes on or waits. -/
theorem step_alive (h : m.step H rs = .next m') (alive : m.callers.length ≤ m'.callers.length) :
    ∃ i, m.code[m.pc]? = some i ∧ (Proceeds i m m' ∨ Waits rs i m m') := by
  obtain ⟨i, stands, on | calls | back⟩ := step_cases h
  · exact ⟨i, stands, .inl on⟩
  · exact ⟨i, stands, .inr calls⟩
  · rw [back.callers, List.length_cons] at alive
    exact absurd alive (Nat.not_succ_le_self _)

end Steps

/-! ## Activations -/

section Activations

variable {m m' : Machine W} {depth : Nat}

theorem activation?_current (here : depth = m.callers.length) : m.activation? depth = some m.current :=
  if_pos here

theorem activation?_waiting (below : depth < m.callers.length) :
    m.activation? depth = m.callers.reverse[depth]? :=
  if_neg below.ne

theorem activation?_over (ended : m.callers.length < depth) : m.activation? depth = none := by
  rw [activation?, if_neg ended.ne', List.getElem?_eq_none (by simpa using ended.le)]

theorem activation?_next (callers : m'.callers = m.callers) (below : depth < m.callers.length) :
    m'.activation? depth = m.activation? depth := by
  rw [activation?_waiting below, activation?_waiting (callers ▸ below), callers]

theorem activation?_push {a : Activation} (callers : m'.callers = a :: m.callers) (inside : depth ≤ m.callers.length) :
    m'.activation? depth = if depth = m.callers.length then some a else m.activation? depth := by
  have below : depth < m'.callers.length := by
    rw [callers, List.length_cons]
    omega
  rw [activation?_waiting below, callers, List.reverse_cons]
  split
  · next here => simp [here]
  · next other =>
      rw [activation?_waiting (by omega), List.getElem?_append_left (by simp; omega)]

theorem Proceeds.found {i : Instr} (on : Proceeds i m m') : m'.activation? m.callers.length = some m'.current :=
  activation?_current (congrArg List.length on.callers.symm)

theorem Waits.found {i : Instr} (calls : Waits rs i m m') :
    m'.activation? m.callers.length = some { m.current with pc := m.pc + 1 } := by
  rw [activation?_push calls.callers le_rfl, if_pos rfl]

/-- Calls are ended one at a time. -/
theorem callers_step (one : m.step H rs = .next m') : m.callers.length ≤ m'.callers.length + 1 := by
  obtain ⟨i, -, on | waits | back⟩ := step_cases one
  · rw [on.callers]
    omega
  · rw [waits.callers, List.length_cons]
    omega
  · rw [back.callers, List.length_cons]

/-- An activation that waits is left as it is. -/
theorem activation?_step (one : m.step H rs = .next m') (waits : depth < m.callers.length) :
    m'.activation? depth = m.activation? depth := by
  obtain ⟨i, -, on | calls | back⟩ := step_cases one
  · exact activation?_next on.callers waits
  · rw [activation?_push calls.callers waits.le, if_neg waits.ne]
  · have inside : depth ≤ m'.callers.length := by
      rw [back.callers, List.length_cons] at waits
      omega
    rw [activation?_push back.callers inside]
    split
    · next here => exact activation?_current here
    · rfl

/-! ## Keeping a value -/

/-- Code takes a kept value back at a place and then leaves its routine. -/
structure TakesBack (code : List Instr) (slot : Int) (place : Nat) : Prop where
  spares : ∀ i ∈ code, target? i = some (.slot slot) → i = keepResult slot
  back : code[place]? = some ⟨.mov, [Emit.rax, .slot slot], ""⟩
  leaves : ∃ l, code[place + 1]? = some ⟨.jmp, [.label l], ""⟩

/-- An activation keeps a value, which is in `rax` where it leaves its routine. -/
structure Keeps (code : List Instr) (slot : Int) (place : Nat) (v : Word) (depth : Nat) (m : Machine W)
    (a : Activation) : Prop where
  found : m.activation? depth = some a
  runs : a.code = code
  kept : a.slots slot = v
  waits : depth < m.callers.length → ∃ (k : Nat) (i : Instr), a.pc = k + 1 ∧ code[k]? = some i ∧ i.op = .call
  back : depth = m.callers.length → a.pc = place + 1 → m.rax = v

/-- The activation has not ended and is not about to keep another value. -/
def Lasts (depth : Nat) (slot : Int) (m : Machine W) : Prop :=
  depth ≤ m.callers.length ∧ (depth = m.callers.length → m.code[m.pc]? ≠ some (keepResult slot))

instance (depth : Nat) (slot : Int) : DecidablePred (Lasts (W := W) depth slot) :=
  fun _ => inferInstanceAs (Decidable (_ ∧ _))

theorem rax_of_takesBack {slot : Int} (stands : m.code[m.pc]? = some ⟨.mov, [Emit.rax, .slot slot], ""⟩)
    (one : m.step H rs = .next m') : m'.rax = m.slots slot := by
  simp only [step, stands, exec, Emit.rax, put, read, write] at one
  cases one
  rfl

namespace Keeps

variable {code : List Instr} {slot : Int} {place : Nat} {v : Word} {a : Activation} {i : Instr}

theorem of_current (keeps : Keeps code slot place v depth m a) (here : depth = m.callers.length) : m.current = a :=
  Option.some.inj ((activation?_current here).symm.trans keeps.found)

theorem proceed (site : TakesBack code slot place) (keeps : Keeps code slot place v depth m a)
    (here : depth = m.callers.length) (lasts : m.Lasts depth slot) (one : m.step H rs = .next m')
    (stands : m.code[m.pc]? = some i) (on : Proceeds i m m') : ∃ a', Keeps code slot place v depth m' a' := by
  have length := congrArg List.length on.callers
  obtain rfl := keeps.of_current here
  obtain ⟨-, rfl, rfl, -, -⟩ := keeps
  have spared : target? i ≠ some (.slot slot) := fun same =>
    lasts.2 here (stands.trans (congrArg some (site.spares i (List.mem_of_getElem? stands) same)))
  refine ⟨m'.current, here ▸ on.found, on.code, on.slots slot spared, fun below => absurd below (by omega), fun _ arrived => ?_⟩
  rcases on.place with next | ⟨-, l, labelled, op⟩
  · have before : m.pc = place := Nat.succ.inj (next.symm.trans arrived)
    exact rax_of_takesBack (before ▸ site.back) one
  · obtain ⟨l', leaves⟩ := site.leaves
    rw [show m'.pc = place + 1 from arrived] at labelled
    obtain rfl := Option.some.inj (leaves.symm.trans labelled)
    cases op

theorem call (keeps : Keeps code slot place v depth m a) (here : depth = m.callers.length)
    (stands : m.code[m.pc]? = some i) (waits : Waits rs i m m') : ∃ a', Keeps code slot place v depth m' a' := by
  have length := congrArg List.length waits.callers
  rw [List.length_cons] at length
  obtain rfl := keeps.of_current here
  obtain ⟨-, rfl, rfl, -, -⟩ := keeps
  subst here
  exact ⟨_, waits.found, rfl, rfl, fun _ => ⟨m.pc, i, rfl, stands, waits.op⟩, fun here' => absurd here' (by omega)⟩

/-- While the activation waits it keeps its value, and it goes on behind the call. -/
theorem wait (site : TakesBack code slot place) (keeps : Keeps code slot place v depth m a)
    (below : depth < m.callers.length) (one : m.step H rs = .next m') : ∃ a', Keeps code slot place v depth m' a' := by
  obtain ⟨k, call, pc, before, op⟩ := keeps.waits below
  refine ⟨a, (activation?_step one below).trans keeps.found, keeps.runs, keeps.kept,
    fun _ => ⟨k, call, pc, before, op⟩, fun _ arrived => ?_⟩
  obtain rfl : k = place := Nat.succ.inj (pc.symm.trans arrived)
  obtain rfl := Option.some.inj (site.back.symm.trans before)
  cases op

theorem step (site : TakesBack code slot place) (keeps : Keeps code slot place v depth m a)
    (lasts : m.Lasts depth slot) (one : m.step H rs = .next m') (alive : depth ≤ m'.callers.length) :
    ∃ a', Keeps code slot place v depth m' a' := by
  rcases lasts.1.eq_or_lt with here | below
  · obtain ⟨i, stands, on | waits⟩ := step_alive one (here ▸ alive)
    · exact keeps.proceed site here lasts one stands on
    · exact keeps.call here stands waits
  · exact keeps.wait site below one

theorem walk {n : Machine W} (site : TakesBack code slot place) {k : Nat}
    (keeps : depth ≤ m.callers.length → ∃ a, Keeps code slot place v depth m a)
    (walked : m.walk H rs (Lasts depth slot) k = some n) (alive : depth ≤ n.callers.length) :
    ∃ a, Keeps code slot place v depth n a :=
  walk_invariant (I := fun m => depth ≤ m.callers.length → ∃ a, Keeps code slot place v depth m a)
    (fun _ _ lasts one keeps alive => (keeps lasts.1).elim fun _ keeps => keeps.step site lasts one alive)
    walked keeps alive

end Keeps

end Activations

end Machine

/-! ## Returns in generated code -/

namespace Emit

/-- A return with pending last blocks stands in the code of a routine with the given named locals. Its
    value is kept at one place, and the routine is left at another. -/
def ReturnsAt (code : List Instr) (locals : List String) (e : Option Expr) (keep leave : Nat) : Prop :=
  ∃ (env : Env) (g : Gen), env.Tidy ∧ env.locals = locals ∧ env.lasts ≠ [] ∧
    Gen.Lies code g ((returnStmt env e).run g).2 ∧
    keep = ((Meaning.resultCode env e).run g).2.code.size ∧
    leave + 1 = ((returnStmt env e).run g).2.code.size

theorem ReturnsAt.places {code : List Instr} {locals : List String} {e : Option Expr} {keep leave : Nat}
    (returns : ReturnsAt code locals e keep leave) :
    code[keep]? = some (keepResult locals.length) ∧ ∃ place l, leave = place + 1 ∧
      code[place]? = some ⟨.mov, [rax, .slot locals.length], ""⟩ ∧ code[leave]? = some ⟨.jmp, [.label l], ""⟩ := by
  obtain ⟨env, g, tidy, rfl, pending, lies, rfl, ends⟩ := returns
  generalize final : ((returnStmt env e).run g).2 = g' at lies ends
  have lays : Lays ⟨code, g'.pool⟩ (returnStmt env e) g () g' :=
    ⟨Prod.ext rfl final, lies, fun _ => List.prefix_rfl⟩
  have : Emit.Tidy 0 (env.lasts.forM fun l => l.run env.loops) := tidy_forM fun l mem => tidy.lasts l mem env.loops
  simp only [Meaning.returnStmt_eq, pending, if_false, Meaning.departure] at lays
  simp only [lays_bind, lays_emit, layout, shown] at lays
  obtain ⟨h, value, keeps, h', replays, back, jump, rfl⟩ := lays
  have same : ((Meaning.resultCode env e).run g).2 = h := congrArg Prod.snd value.run
  have left : leave = h'.code.size + 1 := by simpa using ends
  refine ⟨same ▸ keeps, h'.code.size, env.retLabel, left, back, ?_⟩
  rw [left]
  simpa using jump

theorem mem_of_makes {env : Env} {pool : List String} {ss : List Source} {rs : List Routine}
    (made : List.Forall₂ (Source.Makes env pool) ss rs) {r : Routine} (mem : r ∈ rs) :
    ∃ s ∈ ss, s.Makes env pool r := by
  induction made with
  | nil => cases mem
  | @cons s r' ss rs one _ ih =>
      rcases List.mem_cons.mp mem with rfl | mem
      · exact ⟨s, List.mem_cons_self, one⟩
      · obtain ⟨s', inside, makes⟩ := ih mem
        exact ⟨s', List.mem_cons_of_mem _ inside, makes⟩

/-- What keeps to a licence is all that a routine does. -/
theorem Within.spares {α : Type} {strings : String → Prop} {slot : Int} {x : Emitting α}
    (within : Within ⟨strings, slot⟩ x) (g : Gen) :
    ∀ i ∈ (x.run g.cleared).2.code.toList, target? i = some (.slot slot) → i = keepResult slot := by
  obtain ⟨added, allowed, all⟩ := within.code g.cleared
  rw [all]
  exact allowed

end Emit

namespace Inference

variable (t : Inference) (hints : Hints) (seed : Int64)

/-- The named locals of a routine; the main routine has none. -/
def localsOf (symbol : String) : List String := ((t.source? symbol).map (·.locals)).getD []

variable {t}

theorem localsOf_source (distinct : t.Distinct) {s : Emit.Source}
    (mem : s ∈ Emit.sources t.classes t.program.items) : t.localsOf s.symbol = s.locals := by
  have names : ((Emit.sources t.classes t.program.items).map Emit.Source.symbol).Nodup := by
    rw [symbol_sources]
    exact distinct.nodup_names
  have found : (t.source? s.symbol).isSome := List.find?_isSome.mpr ⟨s, mem, beq_self_eq_true _⟩
  obtain ⟨s', found⟩ := Option.isSome_iff_exists.mp found
  have same : s' = s := List.inj_on_of_nodup_map names (List.mem_of_find?_eq_some found) mem
    (by simpa using List.find?_some found)
  rw [localsOf, found, same]
  rfl

theorem localsOf_main : t.localsOf SymbolName.mainRoutine = [] := by
  have none_ : t.source? SymbolName.mainRoutine = none := by
    refine List.find?_eq_none.mpr fun s mem same => ?_
    obtain ⟨rest, eq | eq⟩ := Emit.symbol_of_mem mem
    all_goals
      rw [eq, beq_iff_eq] at same
      simpa [SymbolName.mainRoutine] using congrArg String.toList same
  rw [localsOf, none_]
  rfl

/-- The slot behind the named locals of a routine is written by nothing but its returns. -/
theorem spares_generate (distinct : t.Distinct) {r : Routine} (mem : r ∈ (t.generate hints seed).1.routines) :
    ∀ i ∈ r.code, target? i = some (.slot (t.localsOf r.name).length) →
      i = keepResult (t.localsOf r.name).length := by
  obtain ⟨rs, main, routines, -, made, name, code⟩ := t.routines_generate hints seed
  rw [routines, List.mem_append, List.mem_singleton] at mem
  rcases mem with mem | rfl
  · obtain ⟨s, inside, called, g, code, -⟩ := Emit.mem_of_makes made mem
    rw [called, localsOf_source distinct inside, code]
    exact (s.within_any (t.env hints) rfl).spares g
  · rw [name, localsOf_main, code]
    exact (Emit.within_any_main (t.env hints) rfl rfl seed t.topLevel).spares _

end Inference

/-- A returned value is kept. Where a routine of a checked program keeps the value of a return and the
    activation later leaves the routine at that return, having executed no other return in the meantime, the
    value is in `rax`, whatever the last blocks and what they called have done. -/
theorem Program.return_keeps {file : Nat} {source : String} {p p' : Program} {hints : Hints}
    (accepted : Program.accept? file source = some (p, p', hints)) (seed : Int64) {r : Routine}
    (mem : r ∈ (p'.generate hints seed).1.routines) {e : Option Expr} {keep leave : Nat}
    (returns : ReturnsAt r.code ((p'.infer hints).localsOf r.name) e keep leave)
    {W : Type} (H : Host W) (rs : List Routine) {m m₁ n : Machine W} {k : Nat}
    (code : m.code = r.code) (starts : m.pc = keep) (first : m.step H rs = .next m₁)
    (walked : m₁.walk H rs (Machine.Lasts m.callers.length ((p'.infer hints).localsOf r.name).length) k = some n)
    (alive : n.callers.length = m.callers.length) (arrives : n.pc = leave) :
    n.code = r.code ∧ (∃ l, n.code[n.pc]? = some ⟨.jmp, [.label l], ""⟩) ∧ n.rax = m.rax := by
  obtain ⟨kept, place, l, rfl, back, jump⟩ := returns.places
  have site : Machine.TakesBack r.code ((p'.infer hints).localsOf r.name).length place :=
    ⟨Inference.spares_generate hints seed (Program.distinct_of_accept? accepted) mem, back, l, jump⟩
  have stored : Machine.Keeps r.code ((p'.infer hints).localsOf r.name).length place m.rax m.callers.length m₁
      m₁.current := by
    rw [← code, ← starts] at kept
    simp only [Machine.step, kept, keepResult, Machine.exec, Emit.rax, Machine.put, Machine.read, Machine.write] at first
    cases first
    exact ⟨Machine.activation?_current rfl, code, Function.update_self .., fun below => absurd below (lt_irrefl _),
      fun _ _ => rfl⟩
  obtain ⟨a, keeps⟩ := Machine.Keeps.walk site (fun _ => ⟨_, stored⟩) walked alive.ge
  obtain rfl := keeps.of_current alive.symm
  have runs : n.code = r.code := keeps.runs
  exact ⟨runs, ⟨l, by rw [runs, arrives, jump]⟩, keeps.back alive.symm arrives⟩

/-! ### A lone return -/

/-- The environment and the state in which the return of a routine is generated that consists of nothing but
    a guarded statement with a return, and the value of the return. -/
def Emit.Source.loneReturn? (env : Env) (pool : List String) (s : Emit.Source) : Option (Env × Gen × Option Expr) :=
  match s.body with
  | .block _ [.try_ _ (.block _ [.return_ _ e]) [] (some last)] =>
    let env := (s.env env).enter ⟨"Lret0", "Lunwind1", "Lepi2"⟩
    some (env.guarded "Lcatch3" (lastBlock? env (some last)),
      ⟨8, pool, [], #[⟨.prologue, [], ""⟩], 1, 1, 0, #[]⟩, e)
  | _ => none

theorem Emit.Gen.lies_of_drop {code : List Instr} {g g' : Gen} (same : (code.drop g.code.size).take
    (g'.code.size - g.code.size) = g'.code.toList.drop g.code.size) : Lies code g g' := by
  intro i low high
  have one := congrArg (fun code => code[i - g.code.size]?) same
  rw [List.getElem?_take_of_lt (by omega), List.getElem?_drop, List.getElem?_drop, Nat.add_sub_cancel' low] at one
  simpa using one

theorem Emit.returnsAt_of_lone {env env' : Env} {pool : List String} {s : Emit.Source} {g : Gen} {e : Option Expr}
    {code : List Instr} {keep leave : Nat} (lone : s.loneReturn? env pool = some (env', g, e))
    (same : (code.drop g.code.size).take (((returnStmt env' e).run g).2.code.size - g.code.size) =
      ((returnStmt env' e).run g).2.code.toList.drop g.code.size)
    (kept : keep = ((Meaning.resultCode env' e).run g).2.code.size)
    (left : leave + 1 = ((returnStmt env' e).run g).2.code.size) : ReturnsAt code s.locals e keep leave := by
  unfold Source.loneReturn? at lone
  split at lone
  · cases lone
    refine ⟨_, _, ?_, rfl, List.cons_ne_nil _ _, Gen.lies_of_drop same, kept, left⟩
    exact tidy_guarded inferInstance _ _ (Meaning.tidy_lastBlock inferInstance _)
  · cases lone

/-- The first routine of a program runs from its start to its lone return, keeps a value there and gets to
    the end of the return with another. -/
def Inference.loneRun (t : Inference) (hints : Hints) (may : Nat → Int → Machine Unit → Prop)
    [∀ depth slot, DecidablePred (may depth slot)] (k leave : Nat) (v w : Word) : Bool :=
  let rs := (t.generate hints 0).1.routines
  rs.head?.any fun r => (t.source? r.name).any fun s =>
    (s.loneReturn? (t.env hints) (t.start hints).pool).any fun (env, g, e) =>
      let g' := ((returnStmt env e).run g).2
      let keep := ((Meaning.resultCode env e).run g).2.code.size
      decide ((r.code.drop g.code.size).take (g'.code.size - g.code.size) = g'.code.toList.drop g.code.size ∧
        leave + 1 = g'.code.size) &&
      ((Meaning.loaded r.code).walk Meaning.silent rs (fun _ => True) 2).any fun m =>
        decide (m.code = r.code ∧ m.pc = keep ∧ m.rax = v) &&
        (m.walk Meaning.silent rs (fun _ => True) 1).any fun m₁ =>
          (m₁.walk Meaning.silent rs (may m.callers.length s.locals.length) k).any fun n =>
            decide (n.callers.length = m.callers.length ∧ n.pc = leave ∧ n.rax = w)

theorem Program.of_loneRun {p : Program} {hints : Hints} {may : Nat → Int → Machine Unit → Prop}
    [∀ depth slot, DecidablePred (may depth slot)] {k leave : Nat} {v w : Word}
    (runs : (p.infer hints).loneRun hints may k leave v w = true) :
    ∃ r ∈ (p.generate hints 0).1.routines, ∃ e keep, ∃ m m₁ n : Machine Unit,
      ReturnsAt r.code ((p.infer hints).localsOf r.name) e keep leave ∧
      m.code = r.code ∧ m.pc = keep ∧ m.rax = v ∧ m.step Meaning.silent (p.generate hints 0).1.routines = .next m₁ ∧
      m₁.walk Meaning.silent (p.generate hints 0).1.routines
        (may m.callers.length ((p.infer hints).localsOf r.name).length) k = some n ∧
      n.callers.length = m.callers.length ∧ n.pc = leave ∧ n.rax = w := by
  have whole : (p.infer hints).generate hints 0 = p.generate hints 0 := rfl
  simp only [Inference.loneRun, whole, Option.any_eq_true, Bool.and_eq_true, decide_eq_true_eq] at runs
  obtain ⟨r, head, s, source, ⟨env, g, e⟩, lone, ⟨same, left⟩, m, -, ⟨code, pc, rax⟩, m₁, one, n, walked, ends⟩ := runs
  have locals : (p.infer hints).localsOf r.name = s.locals := by rw [Inference.localsOf, source]; rfl
  rw [← locals] at walked
  refine ⟨r, List.mem_of_head? head, e, _, m, m₁, n, ?_, code, pc, rax, ?_, walked, ends⟩
  · rw [locals]
    exact returnsAt_of_lone lone same rfl left
  · exact Machine.step_of_walk one

/-- A function whose last block runs a loop with a guarded statement of its own, which calls a function that
    keeps another value. -/
def keeping : String :=
  "func f() \x7b try \x7b return 1; \x7d finally \x7b while (1) \x7b try \x7b g(); \x7d finally " ++
    "\x7b break; \x7d \x7d \x7d \x7d func g() \x7b try \x7b return 2; \x7d finally \x7b \x7d \x7d"

theorem Program.return_keeps_called : ∃ p p' hints,
    Program.accept? 0 keeping = some (p, p', hints) ∧
    ∃ r ∈ (p'.generate hints 0).1.routines, ∃ e keep, ∃ m n : Machine Unit,
      ReturnsAt r.code ((p'.infer hints).localsOf r.name) e keep 27 ∧ m.code = r.code ∧ m.pc = keep ∧ m.rax = 1 ∧
      n.code = r.code ∧ n.pc = 27 ∧ n.rax = 1 := by
  have runs : ((Program.accept? 0 keeping).any fun (_, p', hints) =>
      (p'.infer hints).loneRun hints Machine.Lasts 23 27 1 1) = true := by
    rewrite [show Program.accept? 0 keeping = _ from Program.accept?_append 0 _ _]
    decide +kernel
  obtain ⟨⟨p, p', hints⟩, accepted, runs⟩ := (Option.any_eq_true _ _).mp runs
  obtain ⟨r, mem, e, keep, m, m₁, n, returns, code, starts, v, first, walked, alive, arrives, -⟩ :=
    Program.of_loneRun runs
  obtain ⟨same, -, rax⟩ := Program.return_keeps accepted 0 mem returns Meaning.silent _ code starts first walked
    alive arrives
  exact ⟨p, p', hints, accepted, r, mem, e, keep, m, n, returns, code, starts, v, same, arrives, rax.trans v⟩

/-- A function whose last block starts another return and abandons it. -/
def abandoning : String :=
  "func f() \x7b try \x7b return 1; \x7d finally \x7b while (1) \x7b try \x7b return 2; \x7d finally " ++
    "\x7b break; \x7d \x7d \x7d \x7d"

/-- The value of the return that is abandoned takes the place of the one that is kept. -/
theorem Program.return_loses : ∃ p p' hints,
    Program.accept? 0 abandoning = some (p, p', hints) ∧
    ∃ r ∈ (p'.generate hints 0).1.routines, ∃ e keep, ∃ m m₁ n : Machine Unit,
      ReturnsAt r.code ((p'.infer hints).localsOf r.name) e keep 29 ∧ m.code = r.code ∧ m.pc = keep ∧ m.rax = 1 ∧
      m.step Meaning.silent (p'.generate hints 0).1.routines = .next m₁ ∧
      m₁.walk Meaning.silent (p'.generate hints 0).1.routines
        (fun n => m.callers.length ≤ n.callers.length) 10 = some n ∧
      n.callers.length = m.callers.length ∧ n.pc = 29 ∧ n.rax = 2 := by
  have runs : ((Program.accept? 0 abandoning).any fun (_, p', hints) =>
      (p'.infer hints).loneRun hints (fun depth _ n => depth ≤ n.callers.length) 10 29 1 2) = true := by
    rewrite [show Program.accept? 0 abandoning = _ from Program.accept?_append 0 _ _]
    decide +kernel
  obtain ⟨⟨p, p', hints⟩, accepted, runs⟩ := (Option.any_eq_true _ _).mp runs
  exact ⟨p, p', hints, accepted, Program.of_loneRun runs⟩

end Lantern
