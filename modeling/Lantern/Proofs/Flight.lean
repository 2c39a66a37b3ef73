import Lantern.Proofs.Delivery

/-!
# Exceptions across calls

A thrown value that no handler takes and no last block replaces is in `rdx` when the activation that threw it is
over. The test behind the call finds it there, unless it is zero, and the caller goes on where it delivers exceptions.
-/

namespace Lantern

open Assembly Emit

namespace Machine

variable {W : Type} {H : Host W} {rs : List Routine}

/-! ## Undisturbed activations -/

/-- The activation below which there are `depth` others is not over. -/
def Alive (depth : Nat) (m : Machine W) : Prop := depth ≤ m.callers.length

instance (depth : Nat) : DecidablePred (Alive (W := W) depth) := fun _ => inferInstanceAs (Decidable (_ ≤ _))

/-- Whether the machine has left the last block of a guarded statement, other than by a call and before the block's
    end. -/
def left (g : Guard) (depth : Nat) : Effect W → Bool
  | .next m => m.callers.length < depth || (m.callers.length == depth && !decide (g.rethrow ≤ m.pc ∧ m.pc ≤ g.back))
  | _ => false

/-- The next step leaves a last block before its end, so that the kept exception is given up. -/
def Abandons (H : Host W) (rs : List Routine) (g : Guard) (m : Machine W) : Prop :=
  g.rethrow ≤ m.pc ∧ m.pc < g.back ∧ left g m.callers.length (m.step H rs) = true

instance (g : Guard) : DecidablePred (Abandons H rs g) := fun _ => inferInstanceAs (Decidable (_ ∧ _ ∧ _))

/-- The activation is not over, starts no handler of the given guarded statements and gives up no exception. -/
def Undisturbed (H : Host W) (rs : List Routine) (depth : Nat) (gs : List Guard) (m : Machine W) : Prop :=
  m.Alive depth ∧ (depth = m.callers.length → ∀ g ∈ gs, ¬g.Handles m.code m.pc ∧ ¬m.Abandons H rs g)

instance (depth : Nat) (gs : List Guard) : DecidablePred (Undisturbed H rs depth gs) :=
  fun m => inferInstanceAs (Decidable (m.Alive depth ∧ (_ → _)))

/-! ## Steps of exceptions -/

section Steps

variable {m m' : Machine W} {i : Instr}

theorem step_jmp {l : String} {k : Nat} (distinct : Distinct m.code)
    (stands : m.code[m.pc]? = some ⟨.jmp, [.label l], ""⟩) (placed : Placed m.code l k)
    (one : m.step H rs = .next m') : m' = { m with pc := k, clock := m.clock + 1 } := by
  simp only [step, stands, exec, jump_of_placed distinct placed] at one
  cases one
  rfl

theorem step_jnz {l : String} {k : Nat} (distinct : Distinct m.code)
    (stands : m.code[m.pc]? = some ⟨.jnz, [.label l], ""⟩) (placed : Placed m.code l k)
    (one : m.step H rs = .next m') :
    m' = { m with pc := k, clock := m.clock + 1 } ∨ m' = { m with pc := m.pc + 1, clock := m.clock + 1 } := by
  simp only [step, stands, exec, jumpIf, jump_of_placed distinct placed] at one
  split at one
  · next effect =>
      split at effect
      · cases effect
        cases one
        exact .inl rfl
      · cases effect
        cases one
        exact .inr rfl
      · cases effect
  · next other => exact absurd one (other m')

theorem step_label {l : String} (stands : m.code[m.pc]? = some ⟨.label, [.label l], ""⟩)
    (one : m.step H rs = .next m') : m' = { m with pc := m.pc + 1, clock := m.clock + 1 } := by
  simp only [step, stands, exec] at one
  cases one
  rfl

theorem step_clear (stands : m.code[m.pc]? = some ⟨.xor, [eax, eax], ""⟩) (one : m.step H rs = .next m') :
    m'.code = m.code ∧ m'.callers = m.callers ∧ m'.pc = m.pc + 1 ∧ m'.rdx = m.rdx := by
  simp only [step, stands, exec, arith, eax, read, put, write] at one
  cases one
  exact ⟨rfl, rfl, rfl, rfl⟩

theorem step_keep {s : Int} (stands : m.code[m.pc]? = some ⟨.mov, [.slot s, Emit.rdx], ""⟩)
    (one : m.step H rs = .next m') :
    m' = { m with pc := m.pc + 1, clock := m.clock + 1, slots := Function.update m.slots s m.rdx } := by
  simp only [step, stands, exec, Emit.rdx, read, put, write] at one
  cases one
  rfl

theorem step_back {s : Int} (stands : m.code[m.pc]? = some ⟨.mov, [Emit.rdx, .slot s], ""⟩)
    (one : m.step H rs = .next m') : m' = { m with pc := m.pc + 1, clock := m.clock + 1, rdx := m.slots s } := by
  simp only [step, stands, exec, Emit.rdx, read, put, write] at one
  cases one
  rfl

theorem step_throw (stands : m.code[m.pc]? = some ⟨.mov, [Emit.rdx, Emit.rax], ""⟩) (one : m.step H rs = .next m') :
    m' = { m with pc := m.pc + 1, clock := m.clock + 1, rdx := m.rax } := by
  simp only [step, stands, exec, Emit.rdx, Emit.rax, read, put, write] at one
  cases one
  rfl

theorem step_leave (stands : m.code[m.pc]? = some ⟨.epilogue, [], ""⟩) (one : m.step H rs = .next m') :
    m.callers.length = m'.callers.length + 1 ∧ m'.rdx = m.rdx := by
  simp only [step, stands, exec] at one
  split at one
  · next effect =>
      cases one
      have back := resumes_leave (i := ⟨.epilogue, [], ""⟩) rfl effect
      exact ⟨congrArg List.length back.callers, back.rdx⟩
  · next other => exact absurd one (other m')

/-- Where an exception is asked for its type the machine goes on behind the instruction. -/
theorem Proceeds.asks (on : Proceeds i m m') (asking : Guard.asks i.op) : m'.pc = m.pc + 1 := by
  refine on.place.resolve_right fun ⟨jumps, _⟩ => ?_
  cases op : i.op <;> simp [op, Guard.asks, Op.isJump] at asking jumps

end Steps

/-! ## Exceptions on their way -/

/-- What a guarded statement keeps of an exception that has come to it in an activation: handlers are tried or the
    last block runs, and behind it the exception is sent on to others. -/
structure Kept (code : List Instr) (ends : Nat → Prop) (gs : List Guard) (v : Word) (g : Guard) (rest : List Guard)
    (a : Activation) : Prop where
  known : g ∈ gs
  others : rest ⊆ gs
  stands : g.Stands code
  carries : Carries code ends rest (g.back + 1)
  holds : a.slots g.exc = v
  place : g.Tries code a.pc ∨ g.rethrow ≤ a.pc ∧ a.pc ≤ g.back

/-- An exception is on its way in an activation: in `rdx`, or kept by a guarded statement. -/
structure Flies (code : List Instr) (ends : Nat → Prop) (gs : List Guard) (v : Word) (depth : Nat) (m : Machine W)
    (a : Activation) : Prop where
  found : m.activation? depth = some a
  runs : a.code = code
  flies : (depth = m.callers.length ∧ m.rdx = v ∧ ∃ rest ⊆ gs, Carries code ends rest a.pc) ∨
    ∃ g rest, Kept code ends gs v g rest a

section Flights

variable {code : List Instr} {ends : Nat → Prop} {gs : List Guard} {v : Word} {depth : Nat} {m m' : Machine W}

theorem flies_current (here : depth = m.callers.length) (runs : m.code = code)
    (flies : (m.rdx = v ∧ ∃ rest ⊆ gs, Carries code ends rest m.pc) ∨ ∃ g rest, Kept code ends gs v g rest m.current) :
    ∃ a, Flies code ends gs v depth m a :=
  ⟨m.current, activation?_current here, runs, flies.imp_left fun carried => ⟨here, carried⟩⟩

/-- An exception in `rdx` comes to the next guarded statement or leaves the routine. -/
theorem step_carries (distinct : Distinct code) (exits : ∀ p, ends p → code[p]? = some ⟨.epilogue, [], ""⟩)
    (here : depth = m.callers.length) (runs : m.code = code) (rdx : m.rdx = v) {rest : List Guard} (inside : rest ⊆ gs)
    (carries : Carries code ends rest m.pc) (one : m.step H rs = .next m') :
    (∃ a, Flies code ends gs v depth m' a) ∨ m'.callers.length < depth ∧ m'.rdx = v := by
  subst runs
  generalize place : m.pc = p at carries
  cases carries with
  | done ended =>
      obtain ⟨callers, rdx'⟩ := step_leave (place ▸ exits p ended) one
      exact .inr ⟨by omega, rdx'.trans rdx⟩
  | mark stands on =>
      obtain rfl := step_label (place ▸ stands) one
      exact .inl (flies_current here rfl (.inl ⟨rdx, rest, inside, place ▸ on⟩))
  | clear stands on =>
      obtain ⟨same, callers, pc, rdx'⟩ := step_clear (place ▸ stands) one
      have here' : depth = m'.callers.length := here.trans (congrArg List.length callers.symm)
      refine .inl (flies_current here' same (.inl ⟨rdx'.trans rdx, rest, inside, ?_⟩))
      rw [pc, place]
      exact on
  | jump stands placed on =>
      obtain rfl := step_jmp distinct (place ▸ stands) placed one
      exact .inl (flies_current here rfl (.inl ⟨rdx, rest, inside, on⟩))
  | @keep _ g gs' stands tries whole on =>
      obtain rfl := step_keep (place ▸ stands) one
      obtain ⟨known, others⟩ := List.cons_subset.mp inside
      refine .inl (flies_current here rfl (.inr ⟨g, gs', known, others, whole, on, ?_, .inl (place ▸ tries)⟩))
      exact (Function.update_self ..).trans rdx

section Guards

variable {g : Guard} {rest : List Guard} {i : Instr}

theorem Kept.goes (kept : Kept code ends gs v g rest m.current) (here : depth = m.callers.length) (runs : m.code = code)
    (on : Proceeds i m m') (spared : target? i ≠ some (.slot g.exc))
    (place : g.Tries code m'.pc ∨ g.rethrow ≤ m'.pc ∧ m'.pc ≤ g.back) : ∃ a, Flies code ends gs v depth m' a :=
  flies_current (here.trans (congrArg List.length on.callers.symm)) (on.code.trans runs)
    (.inr ⟨g, rest, kept.known, kept.others, kept.stands, kept.carries, (on.slots _ spared).trans kept.holds, place⟩)

theorem Kept.waits (kept : Kept code ends gs v g rest m.current) (here : depth = m.callers.length)
    (runs : m.code = code) (calls : Waits rs i m m')
    (place : g.Tries code (m.pc + 1) ∨ g.rethrow ≤ m.pc + 1 ∧ m.pc + 1 ≤ g.back) :
    ∃ a, Flies code ends gs v depth m' a := by
  subst here
  exact ⟨_, calls.found, runs, .inr ⟨g, rest, kept.known, kept.others, kept.stands, kept.carries, kept.holds, place⟩⟩

/-- The last block runs to its end, where the exception is taken back. -/
theorem Kept.last (kept : Kept code ends gs v g rest m.current) (here : depth = m.callers.length) (runs : m.code = code)
    (stays : ¬m.Abandons H rs g) (low : g.rethrow ≤ m.pc) (high : m.pc ≤ g.back) (one : m.step H rs = .next m') :
    ∃ a, Flies code ends gs v depth m' a := by
  subst runs
  rcases high.eq_or_lt with same | before
  · obtain rfl := step_back (same ▸ kept.stands.back) one
    exact flies_current here rfl (.inl ⟨kept.holds, rest, kept.others, same ▸ kept.carries⟩)
  · have within : ¬left g m.callers.length (.next m') = true := fun leaves => stays ⟨low, before, one ▸ leaves⟩
    simp only [left, Bool.or_eq_true, decide_eq_true_eq, Bool.and_eq_true, beq_iff_eq, Bool.not_eq_true',
      decide_eq_false_iff_not, not_or, not_and_not_right] at within
    obtain ⟨i, stands, on | calls | back⟩ := step_cases one
    · have same := congrArg List.length on.callers
      exact kept.goes here rfl on (kept.stands.spares _ _ low before stands) (.inr (within.2 same))
    · exact kept.waits here rfl calls (.inr ⟨by omega, before⟩)
    · have length := congrArg List.length back.callers
      rw [List.length_cons] at length
      omega

/-- The exception stays kept while handlers are tried and the last block runs. -/
theorem Kept.step (kept : Kept code ends gs v g rest m.current) (distinct : Distinct code)
    (here : depth = m.callers.length) (runs : m.code = code) (untaken : ¬g.Handles m.code m.pc)
    (stays : ¬m.Abandons H rs g) (one : m.step H rs = .next m') : ∃ a, Flies code ends gs v depth m' a := by
  rcases kept.place with tries | ⟨low, high⟩
  · subst runs
    generalize place : m.current.pc = p at tries
    replace place : m.pc = p := place
    cases tries with
    | last => exact kept.last here rfl stays place.ge (place.trans_le kept.stands.order) one
    | handler handles => exact absurd (place ▸ handles) untaken
    | ask stands asking spared next =>
        obtain ⟨i, stands', on | calls | back⟩ := step_cases one
        · obtain rfl := Option.some.inj (stands'.symm.trans (place ▸ stands))
          exact kept.goes here rfl on spared (.inl (on.asks asking ▸ place ▸ next))
        · exact kept.waits here rfl calls (.inl (place ▸ next))
        · obtain rfl := Option.some.inj (stands'.symm.trans (place ▸ stands))
          rw [back.op] at asking
          cases asking
    | skip stands placed next =>
        obtain rfl := step_jmp distinct (place ▸ stands) placed one
        exact flies_current here rfl (.inr ⟨g, rest, { kept with place := .inl next }⟩)
    | branch stands placed taken next =>
        obtain rfl | rfl := step_jnz distinct (place ▸ stands) placed one
        · exact flies_current here rfl (.inr ⟨g, rest, { kept with place := .inl taken }⟩)
        · exact flies_current here rfl (.inr ⟨g, rest, { kept with place := .inl (place ▸ next) }⟩)
  · exact kept.last here runs stays low high one

end Guards

/-- A throw sets an exception on its way. -/
theorem flies_throw (here : depth = m.callers.length) (runs : m.code = code)
    (stands : code[m.pc]? = some ⟨.mov, [Emit.rdx, Emit.rax], ""⟩) (carries : Carries code ends gs (m.pc + 1))
    (one : m.step H rs = .next m') : ∃ a, Flies code ends gs m.rax depth m' a := by
  obtain rfl := step_throw (runs ▸ stands) one
  exact flies_current here runs (.inl ⟨rfl, gs, List.Subset.refl _, carries⟩)

/-- What a step does to an exception on its way: it stays so, or it is in `rdx` and the activation is over. -/
theorem Flies.step {a : Activation} (flies : Flies code ends gs v depth m a) (distinct : Distinct code)
    (exits : ∀ p, ends p → code[p]? = some ⟨.epilogue, [], ""⟩) (may : m.Undisturbed H rs depth gs)
    (one : m.step H rs = .next m') :
    (∃ a, Flies code ends gs v depth m' a) ∨ m'.callers.length < depth ∧ m'.rdx = v := by
  obtain ⟨found, runs, flies⟩ := flies
  rcases may.1.eq_or_lt with here | below
  · obtain rfl := Option.some.inj ((activation?_current here).symm.trans found)
    obtain ⟨-, rdx, rest, inside, carries⟩ | ⟨g, rest, kept⟩ := flies
    · exact step_carries distinct exits here runs rdx inside carries one
    · obtain ⟨untaken, stays⟩ := may.2 here g kept.known
      exact .inl (kept.step distinct here runs untaken stays one)
  · refine .inl ⟨a, (activation?_step one below).trans found, runs, .inr (flies.resolve_left fun carried => ?_)⟩
    exact below.ne carried.1

/-- An exception whose way is undisturbed is in `rdx` when its activation is over. -/
theorem flies_walk (distinct : Distinct code) (exits : ∀ p, ends p → code[p]? = some ⟨.epilogue, [], ""⟩) {k : Nat}
    {n : Machine W} (flies : ∃ a, Flies code ends gs v depth m a)
    (walked : m.walk H rs (Undisturbed H rs depth gs) k = some n) :
    (∃ a, Flies code ends gs v depth n a) ∨ n.callers.length < depth ∧ n.rdx = v := by
  refine walk_invariant (I := fun m => (∃ a, Flies code ends gs v depth m a) ∨ m.callers.length < depth ∧ m.rdx = v)
    (fun m m' may one known => ?_) walked (.inl flies)
  obtain ⟨a, flies⟩ | ⟨ended, -⟩ := known
  · exact flies.step distinct exits may one
  · exact absurd ended (Nat.not_lt.mpr may.1)

end Flights

/-! ## Answers of the library -/

/-- An activation has an answer of the run-time library in `rax` where it stands behind a call of the library. -/
structure Answered (code : List Instr) (place : Nat) (answers : Word → Prop) (depth : Nat) (m : Machine W)
    (a : Activation) : Prop where
  found : m.activation? depth = some a
  runs : a.code = code
  waits : depth < m.callers.length → a.pc ≠ place
  answer : depth = m.callers.length → a.pc = place → answers m.rax

section Answers

variable {code : List Instr} {place depth : Nat} {name : String} {answers : Word → Prop} {m m' : Machine W}

theorem step_ask (foreign : ∀ r ∈ rs, r.name ≠ name) (stands : m.code[m.pc]? = some ⟨.call, [.label name], ""⟩)
    (one : m.step H rs = .next m') : m'.rax = (H.answer m.world name m.args).rax := by
  have none_ : rs.find? (·.name == name) = none := List.find?_eq_none.mpr fun r mem => by simpa using foreign r mem
  simp only [step, stands, exec, call, none_, ask] at one
  cases one
  rfl

/-- Behind a call of the library nothing comes to stand but its answer. -/
theorem Answered.step {a : Activation} (answered : Answered code (place + 1) answers depth m a)
    (foreign : ∀ r ∈ rs, r.name ≠ name) (stands : code[place]? = some ⟨.call, [.label name], ""⟩)
    (noLabel : ∀ i, code[place + 1]? = some i → i.op ≠ .label)
    (answering : ∀ w args, answers (H.answer w name args).rax) (one : m.step H rs = .next m')
    (alive : depth ≤ m.callers.length) (alive' : depth ≤ m'.callers.length) :
    ∃ a', Answered code (place + 1) answers depth m' a' := by
  rcases alive.eq_or_lt with here | below
  · obtain rfl := Option.some.inj ((activation?_current here).symm.trans answered.found)
    obtain ⟨-, rfl, -, -⟩ := answered
    subst here
    obtain ⟨i, at_, on | calls⟩ := step_alive one alive'
    · have length := congrArg List.length on.callers
      refine ⟨m'.current, on.found, on.code, fun below => absurd below (by omega), fun _ arrived => ?_⟩
      replace arrived : m'.pc = place + 1 := arrived
      rcases on.place with next | ⟨-, l, labelled, op⟩
      · obtain rfl : m.pc = place := Nat.succ.inj (next.symm.trans arrived)
        rw [step_ask foreign stands one]
        exact answering _ _
      · exact absurd op (noLabel l (arrived ▸ labelled))
    · have length := congrArg List.length calls.callers
      rw [List.length_cons] at length
      refine ⟨_, calls.found, rfl, fun _ arrived => ?_, fun here' => absurd here' (by omega)⟩
      obtain rfl : m.pc = place := Nat.succ.inj arrived
      obtain rfl := Option.some.inj (stands.symm.trans at_)
      obtain ⟨o, args, known⟩ := calls.target
      obtain ⟨r, mem, same⟩ := known name (List.cons.inj args).1.symm
      exact foreign r mem same
  · exact ⟨a, (activation?_step one below).trans answered.found, answered.runs, fun _ => answered.waits below,
      fun _ arrived => absurd arrived (answered.waits below)⟩

theorem answered_walk (foreign : ∀ r ∈ rs, r.name ≠ name) (stands : code[place]? = some ⟨.call, [.label name], ""⟩)
    (noLabel : ∀ i, code[place + 1]? = some i → i.op ≠ .label)
    (answering : ∀ w args, answers (H.answer w name args).rax) {k : Nat} {n : Machine W}
    (start : ∃ a, Answered code (place + 1) answers depth m a) (walked : m.walk H rs (Alive depth) k = some n)
    (alive : depth ≤ n.callers.length) : ∃ a, Answered code (place + 1) answers depth n a :=
  walk_invariant (I := fun m => depth ≤ m.callers.length → ∃ a, Answered code (place + 1) answers depth m a)
    (fun _ _ may one known alive => (known may).elim fun _ answered =>
      answered.step foreign stands noLabel answering one may alive)
    walked (fun _ => start) alive

end Answers

/-! ## Callers -/

section Callers

variable {may : Machine W → Prop} [DecidablePred may] {depth k : Nat} {m n : Machine W} {a : Activation}

/-- What waits is left as it is, and goes on as it was when what it waits for is over. -/
theorem waits_walk (above : ∀ m, may m → depth < m.callers.length) (walked : m.walk H rs may k = some n)
    (start : depth ≤ m.callers.length ∧ m.activation? depth = some a) :
    depth ≤ n.callers.length ∧ n.activation? depth = some a := by
  refine walk_invariant (I := fun m => depth ≤ m.callers.length ∧ m.activation? depth = some a)
    (fun m m' allowed one known => ⟨?_, ?_⟩) walked start
  · have := above m allowed
    have := callers_step one
    omega
  · exact (activation?_step one (above m allowed)).trans known.2

/-- The code of an activation stays the same. -/
theorem code_step {m' : Machine W} (one : m.step H rs = .next m') (alive : depth ≤ m.callers.length)
    (alive' : depth ≤ m'.callers.length) :
    (m'.activation? depth).map Activation.code = (m.activation? depth).map Activation.code := by
  rcases alive.eq_or_lt with here | below
  · subst here
    rw [activation?_current rfl]
    obtain ⟨i, -, on | calls⟩ := step_alive one alive'
    · rw [on.found]
      exact congrArg some on.code
    · rw [calls.found]
      rfl
  · rw [activation?_step one below]

theorem code_walk (walked : m.walk H rs (Alive depth) k = some n) (here : depth = m.callers.length)
    (here' : depth = n.callers.length) : n.code = m.code := by
  have same := walk_invariant
    (I := fun o => depth ≤ o.callers.length → (o.activation? depth).map Activation.code = some m.code)
    (fun _ _ may one known alive => (code_step one may alive).trans (known may)) walked
    (fun _ => by rw [activation?_current here]; rfl) here'.le
  rw [activation?_current here'] at same
  exact Option.some.inj same

/-- What a step does that starts an activation. -/
theorem calls_of_step {c : Machine W} (one : m.step H rs = .next c) (length : c.callers.length = m.callers.length + 1) :
    ∃ i, m.code[m.pc]? = some i ∧ Waits rs i m c := by
  obtain ⟨i, stands, on | calls⟩ := step_alive one (by omega)
  · rw [on.callers] at length
    omega
  · exact ⟨i, stands, calls⟩

end Callers

/-! ## Leaving with an exception -/

/-- A call starts an activation of a routine that comes to a throw at a place, and from there the exception makes its
    way undisturbed until the activation is over. -/
structure Escapes (H : Host W) (rs : List Routine) (r : Routine) (place : Nat) (gs : List Guard) (c m n : Machine W) :
    Prop where
  called : ∃ (c' : Machine W) (k : Nat), c.step H rs = .next c' ∧ c'.callers.length = c.callers.length + 1 ∧
    c'.walk H rs (Alive (c.callers.length + 1)) k = some m
  throws : m.callers.length = c.callers.length + 1 ∧ m.code = r.code ∧ m.pc = place
  leaves : ∃ k, m.walk H rs (Undisturbed H rs (c.callers.length + 1) gs) k = some n
  ended : n.callers.length ≤ c.callers.length

/-- The caller is back behind its call with an exception, tests for it, and goes on where it delivers exceptions. -/
structure Diverts (H : Host W) (rs : List Routine) (q : Routine) (v : Word) (c n : Machine W) : Prop where
  behind : n.current = { c.current with pc := c.pc + 1 }
  exception : n.rdx = v ∧ v ≠ 0
  test : q.code[n.pc]? = some ⟨.test, [Emit.rdx, Emit.rdx], ""⟩
  branch : ∃ l, q.code[n.pc + 1]? = some ⟨.jnz, [.label l], ""⟩ ∧ ∃ n', n.walk H rs (fun _ => True) 2 = some n' ∧
    n'.code = q.code ∧ Placed q.code l n'.pc ∧ n'.callers.length = c.callers.length ∧ n'.rdx = v ∧
    ∃ gs, Carries q.code (exitsAt q) gs n'.pc

section Escapes

variable {r q : Routine} {place k : Nat} {gs : List Guard} {v : Word} {c m n : Machine W}

/-- The test behind a call finds an exception. -/
theorem walk_test (H : Host W) (rs : List Routine) {l : String} (distinct : Distinct n.code)
    (test : n.code[n.pc]? = some ⟨.test, [Emit.rdx, Emit.rdx], ""⟩)
    (branch : n.code[n.pc + 1]? = some ⟨.jnz, [.label l], ""⟩) (placed : Placed n.code l k) (nonzero : n.rdx ≠ 0) :
    ∃ n', n.walk H rs (fun _ => True) 2 = some n' ∧ n'.code = n.code ∧ n'.pc = k ∧ n'.callers = n.callers ∧
      n'.rdx = n.rdx := by
  have set : (n.rdx &&& n.rdx == 0) = false := by
    rw [Int64.and_self]
    exact beq_false_of_ne nonzero
  let n₁ : Machine W := { n with
    pc := n.pc + 1
    flags := some ⟨false, decide (n.rdx &&& n.rdx < 0)⟩
    clock := n.clock + 1 }
  let n₂ : Machine W := { n₁ with pc := k, clock := n₁.clock + 1 }
  have tested : n.step H rs = .next n₁ := by
    simp only [step, test, exec, compare, Emit.rdx, read, next, set, n₁]
  have jumped : n₁.step H rs = .next n₂ := by
    have here : n₁.code[n₁.pc]? = some ⟨.jnz, [.label l], ""⟩ := branch
    have leads : n₁.jump l = .next { n₁ with pc := k } := jump_of_placed distinct placed
    have holds : n₁.holds? (!·.zero) = some true := rfl
    simp only [step, here, exec, jumpIf, holds, leads, n₂]
  refine ⟨n₂, ?_, rfl, rfl, rfl, rfl⟩
  simp only [walk, if_true, tested, jumped]

/-- The exception that leaves an activation is the value that was thrown. -/
theorem Escapes.exception (escapes : Escapes H rs r place gs c m n) (distinct : Distinct r.code)
    (exits : ∀ p, exitsAt r p → r.code[p]? = some ⟨.epilogue, [], ""⟩)
    (throws : r.code[place]? = some ⟨.mov, [Emit.rdx, Emit.rax], ""⟩)
    (carries : Carries r.code (exitsAt r) gs (place + 1)) : n.rdx = m.rax := by
  obtain ⟨length, runs, rfl⟩ := escapes.throws
  have ended := escapes.ended
  obtain ⟨k, walked⟩ := escapes.leaves
  cases k with
  | zero =>
      obtain rfl := Option.some.inj walked
      omega
  | succ k =>
      unfold walk at walked
      split at walked
      · split at walked
        · next m₁ one =>
            have flies := flies_throw length.symm runs throws carries one
            obtain ⟨a, flies⟩ | ⟨-, rdx⟩ := flies_walk distinct exits flies walked
            · cases (activation?_over (by omega)).symm.trans flies.found
            · exact rdx
        · cases walked
      · cases walked

/-- The value of a throw is what the run-time library answered if it was asked for an exception. -/
theorem Escapes.answered {name : String} {j : Nat} (escapes : Escapes H rs r (j + 1) gs c m n) (answers : Word → Prop)
    (foreign : ∀ r ∈ rs, r.name ≠ name) (stands : r.code[j]? = some ⟨.call, [.label name], ""⟩)
    (throws : r.code[j + 1]? = some ⟨.mov, [Emit.rdx, Emit.rax], ""⟩)
    (answering : ∀ w args, answers (H.answer w name args).rax) : answers m.rax := by
  obtain ⟨c', k, one, length, walked⟩ := escapes.called
  obtain ⟨length', runs, arrived⟩ := escapes.throws
  obtain ⟨_, -, calls⟩ := calls_of_step one length
  have code : c'.code = r.code := (code_walk walked length.symm length'.symm).symm.trans runs
  have start : Answered r.code (j + 1) answers (c.callers.length + 1) c' c'.current :=
    ⟨activation?_current length.symm, code, fun below => absurd below (by omega),
      fun _ behind => absurd (calls.starts.symm.trans behind) (Nat.succ_ne_zero j).symm⟩
  have noLabel (i : Instr) (at_ : r.code[j + 1]? = some i) : i.op ≠ .label := by
    obtain rfl := Option.some.inj (throws.symm.trans at_)
    decide
  obtain ⟨a, answered⟩ := answered_walk foreign stands noLabel answering ⟨_, start⟩ walked length'.ge
  obtain rfl := Option.some.inj ((activation?_current length'.symm).symm.trans answered.found)
  exact answered.answer length'.symm arrived

/-- The caller of an activation that an exception leaves takes the exceptional branch. -/
theorem Escapes.diverts (escapes : Escapes H rs r place gs c m n) (delivering : Delivering q) (code : c.code = q.code)
    (foreign : ∀ r ∈ rs, r.name ∉ runtime) (rdx : n.rdx = v) (nonzero : v ≠ 0) : Diverts H rs q v c n := by
  obtain ⟨c', k, one, length, walked⟩ := escapes.called
  obtain ⟨k', walked'⟩ := escapes.leaves
  obtain ⟨i, stands, calls⟩ := calls_of_step one length
  have thrown := waits_walk (fun _ may => may) walked ⟨by omega, calls.found⟩
  obtain ⟨down, found⟩ := waits_walk (fun _ may => may.1) walked' thrown
  have back : n.callers.length = c.callers.length := escapes.ended.antisymm down
  have behind : n.current = { c.current with pc := c.pc + 1 } :=
    Option.some.inj ((activation?_current back.symm).symm.trans found)
  have runs : n.code = q.code := (congrArg Activation.code behind).trans code
  have pc : n.pc = c.pc + 1 := congrArg Activation.pc behind
  rw [code] at stands
  obtain ⟨locals, minds⟩ := delivering.minds
  obtain ⟨o, args, known⟩ := calls.target
  have user (name : String) (mem : name ∈ runtime) : o ≠ .label name := by
    intro same
    obtain ⟨r, inside, rfl⟩ := known name same
    exact foreign r inside mem
  obtain ⟨test, l, branch, _, gs', placed, carries⟩ :=
    (minds c.pc (List.getElem?_eq_some_iff.mp stands).1).tests i o stands calls.op args user
  replace branch : q.code[n.pc + 1]? = some ⟨.jnz, [.label l], ""⟩ := by rw [pc, branch]
  rw [← pc] at test
  obtain ⟨n', walked₂, code', rfl, callers', rdx'⟩ := walk_test H rs (runs ▸ delivering.distinct) (runs ▸ test)
    (runs ▸ branch) (runs ▸ placed) (rdx ▸ nonzero)
  exact ⟨behind, ⟨rdx, nonzero⟩, test, l, branch, n', walked₂, code'.trans runs, placed,
    (congrArg List.length callers').trans back, rdx'.trans rdx, gs', carries⟩

end Escapes

end Machine

/-! ## Throws in generated code -/

namespace Emit

theorem call_of_newException {T : Text} {s : String} {g g' : Gen}
    (lays : Lays T (do let name ← str s; call "lm_exception_new" [name, rax] : Emitting Unit) g () g') :
    ∃ j, g'.code.size = j + 1 ∧ T.code[j]? = some ⟨.call, [.label "lm_exception_new"], ""⟩ := by
  have plain : ("lm_exception_new" == "printf" || "lm_exception_new" == "scanf") = false := by decide
  simp only [lays_bind, lays_str, shown, call, plain, Bool.false_eq_true, if_false, Meaning.lays_setArgs, lays_emit,
    Meaning.lays_externs] at lays
  obtain ⟨-, _, -, -, called, rfl⟩ := lays
  exact ⟨_, by simp, called⟩

/-- Making an exception ends with asking the library for it. -/
theorem call_of_exceptionCode {T : Text} {type : String} {sigil : Sigil} {g g' : Gen}
    (made : (type.isEmpty && sigil.isObject) = false) (lays : Lays T (Meaning.exceptionCode type sigil) g () g') :
    ∃ j, g'.code.size = j + 1 ∧ T.code[j]? = some ⟨.call, [.label "lm_exception_new"], ""⟩ := by
  unfold Meaning.exceptionCode at lays
  simp only [made, Bool.false_eq_true, if_false] at lays
  cases isStr : sigil.isStr with
  | true =>
      simp only [isStr, if_true] at lays
      exact call_of_newException lays
  | false =>
      simp only [isStr, Bool.false_eq_true, if_false] at lays
      obtain ⟨_, _, -, lays⟩ := lays_bind.mp lays
      exact call_of_newException lays

theorem ThrowsAt.places {code : List Instr} {type : String} {e : Expr} {place : Nat}
    (throws : ThrowsAt code type e place) :
    code[place]? = some ⟨.mov, [rdx, rax], ""⟩ ∧ (makesException type e = true →
      ∃ j, place = j + 1 ∧ code[j]? = some ⟨.call, [.label "lm_exception_new"], ""⟩) := by
  obtain ⟨env, g, tidy, settled, lies, ends⟩ := throws
  generalize final : ((throwStmt env type e).run g).2 = g' at lies ends
  have lays : Lays ⟨code, g'.pool⟩ (throwStmt env type e) g () g' :=
    ⟨Prod.ext rfl final, lies, fun _ => List.prefix_rfl⟩
  rw [Meaning.throwStmt_eq, settled.raise] at lays
  simp only [lays_bind, lays_emit, layout, shown] at lays
  obtain ⟨g₁, -, g₂, made, move, -, rfl⟩ := lays
  obtain rfl : g₂.code.size = place := by simpa using ends
  refine ⟨move, fun makes => call_of_exceptionCode ?_ made⟩
  rwa [makesException, ← Bool.not_and, Bool.not_eq_true'] at makes

/-- What moves a value to the exception register is a throw, whose exception is carried to the end of the routine. -/
theorem Delivering.throws {r : Routine} (delivering : Delivering r) {k : Nat}
    (stands : r.code[k]? = some ⟨.mov, [rdx, rax], ""⟩) :
    ∃ type e gs, ThrowsAt r.code type e k ∧ Carries r.code (exitsAt r) gs (k + 1) := by
  obtain ⟨locals, minds⟩ := delivering.minds
  exact (minds k (List.getElem?_eq_some_iff.mp stands).1).throws stands

/-- In code that keeps no exception, one goes straight to the end. -/
theorem Carries.straight {code : List Instr} {ends : Nat → Prop} {gs : List Guard} {p : Nat}
    (carries : Carries code ends gs p) (none_ : ∀ i ∈ code, ∀ s, i ≠ ⟨.mov, [.slot s, rdx], ""⟩) : gs = [] := by
  induction carries with
  | done => rfl
  | mark _ _ ih | clear _ _ ih | jump _ _ _ ih => exact ih
  | keep stands _ _ _ _ => exact absurd rfl (none_ _ (List.mem_of_getElem? stands) _)

end Emit

/-- A thrown exception is not lost across a call, unless it is zero. In the code of a routine whatever is moved to the
    exception register from a result is the value of a throw, and makes its way over a number of guarded statements to
    the end of the routine. Wherever an activation executes that throw and goes on until it is over, without starting a
    handler of these statements and without leaving one of their last blocks early, the caller is back behind its call
    with the thrown value and takes the exceptional branch, provided the value is not zero. It is not if the throw makes
    a new exception and the library answers none with zero; only an object that is thrown without a type is left as it
    is. -/
theorem Program.throw_arrives (p : Program) (hints : Hints) (seed : Int64) {r : Routine}
    (mem : r ∈ (p.generate hints seed).1.routines) (user : r.name ≠ SymbolName.mainRoutine) :
    (∀ k, r.code[k]? = some ⟨.mov, [rdx, rax], ""⟩ →
      ∃ type e gs, ThrowsAt r.code type e k ∧ Carries r.code (exitsAt r) gs (k + 1)) ∧
    ∀ {type : String} {e : Expr} {k : Nat} {gs : List Guard}, ThrowsAt r.code type e k →
      Carries r.code (exitsAt r) gs (k + 1) → ∀ {W : Type} (H : Host W) {q : Routine},
      q ∈ (p.generate hints seed).1.routines → ∀ {c m n : Machine W}, c.code = q.code →
      Machine.Escapes H (p.generate hints seed).1.routines r k gs c m n →
      (m.rax ≠ 0 ∨ makesException type e = true ∧ ∀ w args, (H.answer w "lm_exception_new" args).rax ≠ 0) →
      Machine.Diverts H (p.generate hints seed).1.routines q m.rax c n := by
  have delivering {r : Routine} (mem : r ∈ (p.generate hints seed).1.routines) : Delivering r :=
    (p.infer hints).delivering_generate hints seed mem
  refine ⟨fun k => (delivering mem).throws, ?_⟩
  intro type e k gs throws carries W H q mem' c m n code escapes value
  obtain ⟨moves, made⟩ := throws.places
  have foreign (r : Routine) (mem : r ∈ (p.generate hints seed).1.routines) := (delivering mem).foreign
  have exits (p : Nat) (ended : exitsAt r p) : r.code[p]? = some ⟨.epilogue, [], ""⟩ := by
    simpa only [exitsAt, user, if_false] using ended
  have nonzero : m.rax ≠ 0 := by
    obtain given | ⟨makes, answering⟩ := value
    · exact given
    · obtain ⟨j, rfl, called⟩ := made makes
      have listed : "lm_exception_new" ∈ runtime := Listed.mem
      exact escapes.answered (· ≠ 0) (fun r mem same => foreign r mem (same ▸ listed)) called moves answering
  exact escapes.diverts (delivering mem') code foreign (escapes.exception (delivering mem).distinct exits moves carries)
    nonzero

/-! ### Runs with a throw -/

/-- A library that answers 1 to everything. -/
def Meaning.assenting : Host Unit :=
  ⟨fun _ => 0, fun w _ _ => ⟨w, 1, 0, 0⟩, fun _ _ => 0, fun _ => false, fun _ _ => none⟩

/-- The main routine of a program comes to a call of the first one, which executes a throw at a place and is left over
    the given guarded statements. -/
def Inference.throwRun (t : Inference) (hints : Hints) (gs : List Guard) (place a i j : Nat) (v : Word)
    (shape : List Instr → Bool) (ends : Machine Unit → Machine Unit → Bool) : Bool :=
  let H := Meaning.assenting
  let rs := (t.generate hints 0).1.routines
  rs.head?.any fun r => rs.getLast?.any fun q =>
    (shape r.code && decide (r.name ≠ SymbolName.mainRoutine ∧ r.code[place]? = some ⟨.mov, [rdx, rax], ""⟩)) &&
    ((Meaning.loaded q.code).walk H rs (fun _ => True) a).any fun c =>
      (c.walk H rs (fun _ => True) 1).any fun c' =>
        decide (c.code = q.code ∧ c'.callers.length = c.callers.length + 1) &&
        (c'.walk H rs (Machine.Alive (c.callers.length + 1)) i).any fun m =>
          decide (m.callers.length = c.callers.length + 1 ∧ m.code = r.code ∧ m.pc = place ∧ m.rax = v) &&
          (m.walk H rs (Machine.Undisturbed H rs (c.callers.length + 1) gs) j).any fun n =>
            decide (n.callers.length ≤ c.callers.length) && ends c n

theorem Program.of_throwRun {p : Program} {hints : Hints} {gs : List Guard} {place a i j : Nat} {v : Word}
    {shape : List Instr → Bool} {ends : Machine Unit → Machine Unit → Bool}
    (runs : (p.infer hints).throwRun hints gs place a i j v shape ends = true) :
    ∃ r ∈ (p.generate hints 0).1.routines, ∃ q ∈ (p.generate hints 0).1.routines, shape r.code = true ∧
      r.name ≠ SymbolName.mainRoutine ∧ r.code[place]? = some ⟨.mov, [rdx, rax], ""⟩ ∧
      ∃ c m n : Machine Unit, c.code = q.code ∧
        Machine.Escapes Meaning.assenting (p.generate hints 0).1.routines r place gs c m n ∧ m.rax = v ∧
        ends c n = true := by
  have whole : (p.infer hints).generate hints 0 = p.generate hints 0 := rfl
  simp only [Inference.throwRun, whole, Option.any_eq_true, Bool.and_eq_true, decide_eq_true_eq] at runs
  obtain ⟨r, head, q, last, ⟨shaped, user, moves⟩, c, -, c', one, ⟨code, length⟩, m, walked, ⟨throws, runs, pc, rax⟩, n,
    walked', ended, ends⟩ := runs
  exact ⟨r, List.mem_of_head? head, q, List.mem_of_getLast? last, shaped, user, moves, c, m, n, code,
    ⟨⟨c', i, Machine.step_of_walk one, length, walked⟩, ⟨throws, runs, pc⟩, ⟨j, walked'⟩, ended⟩, rax, ends⟩

/-- A function whose throw passes a last block that calls another. -/
def throwing : String :=
  "func f() \x7b try \x7b throw \"a\"; \x7d finally \x7b g(); \x7d \x7d func g() \x7b \x7d f();"

/-- What its code has on the way of the exception. -/
def throwingShape (code : List Instr) : Bool :=
  decide (code[6]? = some ⟨.jmp, [.label "Lcatch3"], ""⟩ ∧ code[8]? = some ⟨.label, [.label "Lcatch3"], ""⟩ ∧
    code[9]? = some ⟨.mov, [.slot 1, rdx], ""⟩ ∧ code[10]? = some ⟨.jmp, [.label "Lrethrow5"], ""⟩ ∧
    code[13]? = some ⟨.label, [.label "Lrethrow5"], ""⟩ ∧
    (∀ p < 17, 13 ≤ p → code[p]?.bind target? ≠ some (.slot 1)) ∧ code[17]? = some ⟨.mov, [rdx, .slot 1], ""⟩ ∧
    code[18]? = some ⟨.jmp, [.label "Lunwind1"], ""⟩ ∧ code[28]? = some ⟨.label, [.label "Lunwind1"], ""⟩ ∧
    code[29]? = some ⟨.xor, [eax, eax], ""⟩ ∧ code[30]? = some ⟨.label, [.label "Lepi2"], ""⟩ ∧
    code[31]? = some ⟨.epilogue, [], ""⟩)

theorem carries_of_throwingShape {code : List Instr} {ends : Nat → Prop} (shaped : throwingShape code = true)
    (leaves : code[31]? = some ⟨.epilogue, [], ""⟩ → ends 31) : Carries code ends [⟨1, 10, 13, 17⟩] 6 := by
  simp only [throwingShape, decide_eq_true_eq] at shaped
  obtain ⟨thrown, caught, keep, skip, last, spares, back, on, unwind, clear, epilogue, end_⟩ := shaped
  have stands : Guard.Stands ⟨1, 10, 13, 17⟩ code :=
    ⟨by decide, fun p i low high at_ same => spares p high low (by rw [at_]; exact same), back⟩
  have ended : Carries code ends [] (17 + 1) :=
    .jump on ⟨_, unwind, by simp [Machine.places]⟩ (.mark unwind (.clear clear (.mark epilogue (.done (leaves end_)))))
  exact .jump thrown ⟨_, caught, by simp [Machine.places]⟩
    (.mark caught (.keep keep (.skip skip ⟨_, last, by simp [Machine.places]⟩ .last) stands ended))

theorem Program.throw_arrives_guarded : ∃ p p' hints, Program.accept? 0 throwing = some (p, p', hints) ∧
    ∃ r ∈ (p'.generate hints 0).1.routines, ∃ q ∈ (p'.generate hints 0).1.routines, ∃ c m n : Machine Unit,
      r.name ≠ SymbolName.mainRoutine ∧ r.code[5]? = some ⟨.mov, [rdx, rax], ""⟩ ∧ c.code = q.code ∧
      Machine.Escapes Meaning.assenting (p'.generate hints 0).1.routines r 5 [⟨1, 10, 13, 17⟩] c m n ∧ m.rax = 1 ∧
      Machine.Diverts Meaning.assenting (p'.generate hints 0).1.routines q 1 c n := by
  have runs : ((Program.accept? 0 throwing).any fun (_, p', hints) => (p'.infer hints).throwRun hints [⟨1, 10, 13, 17⟩]
      5 3 5 22 1 throwingShape fun _ _ => true) = true := by
    rewrite [show Program.accept? 0 throwing = _ from Program.accept?_ofList 0 _]
    decide +kernel
  obtain ⟨⟨p, p', hints⟩, accepted, runs⟩ := (Option.any_eq_true _ _).mp runs
  dsimp only at runs
  obtain ⟨r, mem, q, mem', shaped, user, moves, c, m, n, code, escapes, rax, -⟩ := Program.of_throwRun runs
  have carries : Carries r.code (exitsAt r) [⟨1, 10, 13, 17⟩] (5 + 1) :=
    carries_of_throwingShape shaped fun stands => by simpa only [exitsAt, user, if_false] using stands
  obtain ⟨placed, arrives⟩ := Program.throw_arrives p' hints 0 mem user
  obtain ⟨type, e, -, throws, -⟩ := placed 5 moves
  have diverts := arrives throws carries Meaning.assenting mem' code escapes (.inl (by rw [rax]; decide))
  exact ⟨p, p', hints, accepted, r, mem, q, mem', c, m, n, user, moves, code, escapes, rax, rax ▸ diverts⟩

/-- A function that throws an object variable that was given no value. -/
def losing : String := "class E \x7b \x7d func f() \x7b var e: E; throw e; \x7d f();"

/-- The value of an object variable without an initial value is zero. Thrown without a type it comes to the caller as
    no exception at all, and the caller goes on behind the test as if the function had returned. -/
theorem Program.throw_loses : ∃ p p' hints, Program.accept? 0 losing = some (p, p', hints) ∧
    ∃ r ∈ (p'.generate hints 0).1.routines, ∃ q ∈ (p'.generate hints 0).1.routines, ∃ type e, ∃ c m n : Machine Unit,
      r.name ≠ SymbolName.mainRoutine ∧ ThrowsAt r.code type e 4 ∧ Carries r.code (exitsAt r) [] 5 ∧
      c.code = q.code ∧ (∀ w args, (Meaning.assenting.answer w "lm_exception_new" args).rax ≠ 0) ∧
      Machine.Escapes Meaning.assenting (p'.generate hints 0).1.routines r 4 [] c m n ∧ n.rdx = 0 ∧
      ∃ n', n.walk Meaning.assenting (p'.generate hints 0).1.routines (fun _ => True) 2 = some n' ∧
        n'.code = q.code ∧ n'.callers.length = c.callers.length ∧ n'.pc = c.pc + 3 := by
  have runs : ((Program.accept? 0 losing).any fun (_, p', hints) => (p'.infer hints).throwRun hints [] 4 6 4 6 0
      (fun code => decide (∀ i ∈ code, i.op = .mov → i.args[1]? ≠ some rdx)) fun c n => decide (n.rdx = 0) &&
        (n.walk Meaning.assenting (p'.generate hints 0).1.routines (fun _ => True) 2).any fun n' =>
          decide (n'.code = c.code ∧ n'.callers.length = c.callers.length ∧ n'.pc = c.pc + 3)) = true := by
    rewrite [show Program.accept? 0 losing = _ from Program.accept?_ofList 0 _]
    decide +kernel
  obtain ⟨⟨p, p', hints⟩, accepted, runs⟩ := (Option.any_eq_true _ _).mp runs
  dsimp only at runs
  obtain ⟨r, mem, q, mem', plain, user, moves, c, m, n, code, escapes, -, ends⟩ := Program.of_throwRun runs
  simp only [Bool.and_eq_true, decide_eq_true_eq, Option.any_eq_true] at ends
  obtain ⟨rdx, n', walked, code', length, pc⟩ := ends
  obtain ⟨type, e, gs, throws, carries⟩ := ((p'.infer hints).delivering_generate hints 0 mem).throws moves
  obtain rfl := carries.straight fun i inside s same => by
    subst same
    exact of_decide_eq_true plain _ inside rfl rfl
  exact ⟨p, p', hints, accepted, r, mem, q, mem', type, e, c, m, n, user, throws, carries, code,
    fun _ _ => show (1 : Word) ≠ 0 by decide, escapes, rdx, n', walked, code'.trans code, length, pc⟩

end Lantern
