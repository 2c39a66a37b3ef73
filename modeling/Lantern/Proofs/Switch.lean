import Lantern.Proofs.Loops

/-!
# Code of switches

The values of all clauses are compared in order before any body stands; the bodies follow each other,
so that one falls through to the next. A comparison that succeeds goes to the label of its clause.
-/

namespace Lantern.Meaning

open Assembly Machine
open Emit (Text Gen Env Emitting Lays lays_bind lays_emit lays_pure layout shown clauseBody)

variable {W : Type} {S : Setting W} {env : Env} {ways : Ways}

/-! ## Comparisons -/

/-- The value of a clause. -/
def clauseValue? : Clause → Option Expr
  | .case_ _ e _ => some e
  | .default_ _ _ => none

/-- Compares the value of a clause with the subject, which waits in a temporary. -/
theorem refines_matches {strSubject : Bool} {e : Expr} {v : Word} {K : Keep S.scope.host}
    {g₀ g g₁ g' : Gen} {st₀ st : State W} {m₀ m : Machine W} (outer : Ready S env K g₀ st₀ m₀)
    (ready : Ready S env (K.push v) g st m) (suits : Suits S env) (sound : Sound S)
    (value : Computes S env (Emit.expr env e) (eval S.scope e))
    (valueL : Lays S.text (Emit.expr env e) g () g₁)
    (compareL : Lays S.text
      (Emit.compareValue strSubject (.slot (env.locals.length + 1 + g₀.temps)) e) g₁ () g') :
    Refines S (Exits S env ways (K.push v)) (matches_ S.scope strSubject v e) st m fun b st' m' =>
      Ready S env (K.push v) g' st' m' ∧ ∃ f, m'.flags = some f ∧ f.zero = b := by
  have := suits.tidy
  unfold Emit.compareValue at compareL
  unfold matches_
  refine Refines.bind (value valueL ready) (fun _ _ _ _ h => h) ?_
  rintro w st₁ m₁ - ⟨rfl, ready₁⟩
  have subject : m₁.read S.scope.host (.slot (env.locals.length + 1 + g₀.temps)) = some v := by
    rw [read_slot, ready₁.top outer]
  cases strs : strSubject && e.sigil.isStr with
  | true =>
      simp only [strs, if_true, lays_bind, lays_emit, shown] at compareL ⊢
      obtain ⟨g₂, callL, test, rfl⟩ := compareL
      exact ready₁.sameString sound callL test subject (steady_slot _)
        fun st₂ m₂ f flags₂ _ ready₂ => Reach.done ⟨ready₂, f, flags₂, rfl⟩
  | false =>
      simp only [strs, Bool.false_eq_true, if_false, lays_emit] at compareL ⊢
      obtain ⟨cmp, rfl⟩ := compareL
      have effect : m₁.exec S.scope.host S.routines .cmp
          [Emit.rax, .slot (env.locals.length + 1 + g₀.temps)] =
          .next { m₁ with flags := some ⟨m₁.rax == v, decide (m₁.rax < v)⟩ }.next := by
        simp [Machine.exec, Machine.compare, subject]
      exact ready₁.next cmp effect rfl rfl fun m₂ regs₂ _ ready₂ =>
        Refines.here rfl ⟨ready₂, _, congrArg Regs.flags regs₂, rfl⟩

/-- Where a selection leads: to the label of the clause, or behind all comparisons. -/
def Selected (S : Setting W) (env : Env) (K : Keep S.scope.host) (labels : List String) (g : Gen) :
    Option Nat → State W → Machine W → Prop
  | some k, st, m => On S K st m ∧ ∃ l, labels[k]? = some l ∧ Placed S.text.code l m.pc
  | none, st, m => Ready S env K g st m

theorem refines_select {strSubject : Bool} {cs : List Clause} {labels : List String} {v : Word}
    {K : Keep S.scope.host} {g₀ g g' : Gen} {st₀ st : State W} {m₀ m : Machine W}
    (outer : Ready S env K g₀ st₀ m₀) (ready : Ready S env (K.push v) g st m) (suits : Suits S env)
    (sound : Sound S)
    (values : ∀ c ∈ cs, ∀ e ∈ clauseValue? c, Computes S env (Emit.expr env e) (eval S.scope e))
    (lays : Lays S.text (Emit.compareClauses env strSubject
      (.slot (env.locals.length + 1 + g₀.temps)) cs) g labels g')
    (placed : ∀ l ∈ labels, ∃ k, Placed S.text.code l k) :
    Refines S (Exits S env ways (K.push v)) (select S.scope strSubject v cs) st m
      (Selected S env (K.push v) labels g') := by
  have := suits.tidy
  induction cs generalizing g labels st m with
  | nil =>
      obtain ⟨rfl, rfl⟩ := lays_pure.mp lays
      exact Refines.here rfl ready
  | cons c cs ih =>
      have rest {g₁ : Gen} {l : String} {ls : List String} {st₁ : State W} {m₁ : Machine W}
          (ready₁ : Ready S env (K.push v) g₁ st₁ m₁) (named : labels = l :: ls)
          (restL : Lays S.text (Emit.compareClauses env strSubject
            (.slot (env.locals.length + 1 + g₀.temps)) cs) g₁ ls g') :
          Refines S (Exits S env ways (K.push v))
            (do return (← select S.scope strSubject v cs).map (· + 1)) st₁ m₁
            (Selected S env (K.push v) labels g') := by
        refine Refines.bind (ih ready₁ (fun c mem => values c (by simp [mem])) restL
          fun l mem => placed l (by simp [named, mem])) (fun _ _ _ _ h => h) ?_
        rintro found st₂ m₂ - selected
        refine Refines.here rfl ?_
        cases found with
        | none => exact selected
        | some k => simpa [Selected, named] using selected
      have ready : Ready S env (K.push v) g.bump st m := ready.moved rfl rfl rfl
      cases c with
      | default_ s body =>
          simp only [Emit.compareClauses, lays_bind, lays_pure, layout, shown] at lays
          obtain ⟨ls, _, restL, rfl, rfl⟩ := lays
          exact rest ready rfl restL
      | case_ s e body =>
          simp only [Emit.compareClauses_case, lays_bind, lays_pure, layout, shown] at lays
          obtain ⟨g₁, valueL, g₂, compareL, jz, ls, _, restL, rfl, rfl⟩ := lays
          refine Refines.bind (refines_matches outer ready suits sound
            (values (.case_ s e body) (by simp) e rfl) valueL compareL) (fun _ _ _ _ h => h) ?_
          rintro b st₁ m₁ - ⟨ready₁, f, flags₁, rfl⟩
          cases equal : f.zero with
          | true =>
              obtain ⟨k, target⟩ := placed (Emit.tag "case" g.labels) (by simp)
              have effect : m₁.exec S.scope.host S.routines .jz
                  [.label (Emit.tag "case" g.labels)] = m₁.jump (Emit.tag "case" g.labels) := by
                simp [Machine.exec, Machine.jumpIf, holds?, flags₁, equal]
              exact ready₁.depart jz suits.distinct target effect fun m₂ _ _ on₂ pc₂ =>
                Refines.here rfl ⟨on₂, _, rfl, pc₂ ▸ target⟩
          | false =>
              have effect : m₁.exec S.scope.host S.routines .jz
                  [.label (Emit.tag "case" g.labels)] = .next m₁.next := by
                simp [Machine.exec, Machine.jumpIf, holds?, flags₁, equal]
              exact ready₁.next jz effect rfl rfl fun m₂ _ _ ready₂ => rest ready₂ rfl restL

/-! ## Bodies -/

theorem execFrom_eq (sc : Scope W) (k : Nat) (cs : List Clause) :
    execFrom sc k cs = execFrom sc 0 (cs.drop k) := by
  induction k generalizing cs with
  | zero => rfl
  | succ k ih =>
      cases cs with
      | nil => simp [execFrom]
      | cons c cs => simp [execFrom, ih]

theorem execFrom_cons (sc : Scope W) (c : Clause) (cs : List Clause) :
    execFrom sc 0 (c :: cs) = (do execs sc (clauseBody c); execFrom sc 0 cs) := by
  cases c <;> simp [execFrom, clauseBody]

/-- The bodies of clauses stand behind each other, each at its label. -/
theorem lays_clause {cs : List Clause} {labels : List String} {g g' : Gen}
    (tidy : ∀ c ∈ cs, Emit.Tidy 0 (Emit.stmts env (clauseBody c)))
    (lays : Lays S.text (Emit.clauseBodies env cs labels) g () g') (same : labels.length = cs.length)
    {k : Nat} {l : String} (here : labels[k]? = some l) :
    ∃ mid, S.text.code[mid.code.size]? = some ⟨.label, [.label l], ""⟩ ∧
      Lays S.text (Emit.clauseBodies env (cs.drop k) (labels.drop k)) mid () g' ∧
      mid.temps = g.temps ∧ (g.pool <+: S.text.pool → mid.pool <+: S.text.pool) := by
  induction k generalizing cs labels g with
  | zero =>
      cases cs with
      | nil => simp_all
      | cons c cs =>
          cases labels with
          | nil => simp at here
          | cons l' labels =>
              obtain rfl : l' = l := by simpa using here
              have := tidy c (by simp)
              have : Emit.Grows (Emit.clauseBodies env cs labels) :=
                Emit.grows_clauseBodies (fun c mem => tidy c (by simp [mem])) labels
              have own := lays
              rw [Emit.clauseBodies_cons] at own
              simp only [lays_bind, layout, shown] at own
              exact ⟨g, own.1, lays, rfl, id⟩
  | succ k ih =>
      cases cs with
      | nil => simp_all
      | cons c cs =>
          cases labels with
          | nil => simp at here
          | cons l' labels =>
              have := tidy c (by simp)
              have : Emit.Grows (Emit.clauseBodies env cs labels) :=
                Emit.grows_clauseBodies (fun c mem => tidy c (by simp [mem])) labels
              rw [Emit.clauseBodies_cons] at lays
              simp only [lays_bind, layout, shown] at lays
              obtain ⟨-, g₁, bodyL, restL⟩ := lays
              obtain ⟨mid, target, found, temps, pool⟩ := ih (fun c mem => tidy c (by simp [mem])) restL
                (by simpa using same) (by simpa using here)
              exact ⟨mid, target, found, temps.trans bodyL.temps, fun inside => pool (bodyL.pool inside)⟩

theorem simulates_clauses {cs : List Clause} {labels : List String} (suits : Suits S env)
    (same : labels.length = cs.length)
    (bodies : ∀ c ∈ cs, Simulates S env ways (Emit.stmts env (clauseBody c))
      (execs S.scope (clauseBody c))) :
    Simulates S env ways (Emit.clauseBodies env cs labels) (execFrom S.scope 0 cs) := by
  have := suits.tidy
  induction cs generalizing labels with
  | nil =>
      obtain rfl : labels = [] := by simpa using same
      simp only [execFrom]
      exact simulates_nothing
  | cons c cs ih =>
      cases labels with
      | nil => simp at same
      | cons l labels =>
          have := Emit.grows_clauseBodies (Emit.tidy_clauses env suits.tidy cs) labels
          have count : labels.length = cs.length := by simpa using same
          have others := ih count fun c mem => bodies c (by simp [mem])
          rw [Emit.clauseBodies_cons, execFrom_cons]
          intro K g g' st m lays ready low
          rw [lays_bind] at lays
          simp only [layout, shown] at lays
          obtain ⟨labelL, restL⟩ := lays
          exact ready.next labelL rfl rfl rfl fun m₁ _ _ ready₁ =>
            simulates_seq (bodies c (by simp)) others restL ready₁ low

theorem length_compareClauses {strSubject : Bool} {subject : Operand} {cs : List Clause}
    {labels : List String} {g g' : Gen} {T : Text} (tidy : env.Tidy)
    (lays : Lays T (Emit.compareClauses env strSubject subject cs) g labels g') :
    labels.length = cs.length := by
  induction cs generalizing g g' labels with
  | nil =>
      obtain ⟨rfl, -⟩ := lays_pure.mp lays
      rfl
  | cons c cs ih =>
      cases c with
      | default_ s body =>
          simp only [Emit.compareClauses, lays_bind, lays_pure, layout, shown] at lays
          obtain ⟨ls, _, restL, rfl, -⟩ := lays
          simp [ih restL]
      | case_ s e body =>
          simp only [Emit.compareClauses_case, lays_bind, lays_pure, layout, shown] at lays
          obtain ⟨_, -, _, -, -, ls, _, restL, rfl, -⟩ := lays
          simp [ih restL]

theorem defaultAt_lt {cs : List Clause} {k : Nat} (found : defaultAt? cs = some k) :
    k < cs.length := by
  induction cs generalizing k with
  | nil => simp [defaultAt?] at found
  | cons c cs ih =>
      cases c with
      | case_ s e body =>
          simp only [defaultAt?, Option.map_eq_some_iff] at found
          obtain ⟨j, found, rfl⟩ := found
          simpa using ih found
      | default_ s body =>
          simp only [defaultAt?, Option.or_eq_some_iff, Option.map_eq_some_iff] at found
          rcases found with ⟨j, found, rfl⟩ | ⟨-, found⟩
          · simpa using ih found
          · obtain rfl : 0 = k := by simpa using found
            simp

/-- The label of the default clause is that of its place. -/
theorem defaultLabel_eq {cs : List Clause} {labels : List String}
    (same : labels.length = cs.length) :
    Emit.defaultLabel? cs labels = (defaultAt? cs).bind (labels[·]?) := by
  induction cs generalizing labels with
  | nil =>
      obtain rfl : labels = [] := by simpa using same
      rfl
  | cons c cs ih =>
      cases labels with
      | nil => simp at same
      | cons l labels =>
          have count : labels.length = cs.length := by simpa using same
          have ih := ih count
          cases c with
          | case_ s e body => simp [Emit.defaultLabel?, defaultAt?, ih, Option.bind_map]
          | default_ s body =>
              simp only [Emit.defaultLabel?, defaultAt?, ih]
              cases found : defaultAt? cs with
              | none => simp
              | some k =>
                  have inside : k < labels.length := by
                    have := defaultAt_lt found
                    simp only [List.length_cons] at same
                    omega
                  simp [inside]

/-! ## Switches -/

/-- The ways in which the bodies of a switch may be left. -/
def Ways.inSwitch (ways : Ways) : Ways := { ways with break_ := true }

theorem open_inSwitch (leads : Open env ways) (exit : String) :
    Open (env.inFrame exit "" true) ways.inSwitch := by
  intro goOn allowed
  cases goOn with
  | false => exact ⟨_, frame_found exit "" rfl, le_rfl⟩
  | true => exact leads true allowed

/-- The bodies of a switch end behind them or at its end. -/
theorem refines_breakable {x : Emitting Unit} {act : Act W Unit} {exit : String}
    {K : Keep S.scope.host} {g g' gₑ : Gen} {st : State W} {m : Machine W}
    (ready : Ready S env K g st m) (distinct : Distinct S.text.code)
    (low : ways.return_ = true → K.low = env.locals.length + 1)
    (body : Simulates S (env.inFrame exit "" true) ways.inSwitch x act)
    (lays : Lays S.text x g () g')
    (exitL : S.text.code[gₑ.code.size]? = some ⟨.label, [.label exit], ""⟩)
    (temps : gₑ.temps = g.temps) (pool : gₑ.pool <+: S.text.pool) :
    Refines S (Exits S env ways K) (breakable act) st m fun _ st' m' =>
      Ready S env K g' st' m' ∨ Ready S env K gₑ st' m' := by
  refine Refines.catch_ (body lays (ready.recast rfl) low) ?_ ?_
  · rintro _ st₁ m₁ - ready₁
    exact Reach.done (.inl (ready₁.recast rfl))
  · intro e st₁ m₁ later left
    cases e with
    | break_ =>
        obtain ⟨-, on, leaves⟩ := left
        exact (leaves.stands rfl).land _ on ready later distinct exitL temps pool
          fun m₂ _ _ ready₂ => Refines.here rfl (.inr ready₂)
    | continue_ => exact Refines.left rfl left
    | return_ v => exact Refines.left rfl left
    | thrown h => exact Refines.left rfl left
    | trap | cut | stray => exact Refines.left rfl left

theorem simulates_switch {at_ : Span} {e : Expr} {cs : List Clause} (suits : Suits S env)
    (sound : Sound S) (subject : Computes S env (Emit.expr env e) (eval S.scope e))
    (values : ∀ c ∈ cs, ∀ e ∈ clauseValue? c, Computes S env (Emit.expr env e) (eval S.scope e))
    (bodies : ∀ exit, ∀ c ∈ cs, Simulates S (env.inFrame exit "" true) ways.inSwitch
      (Emit.stmts (env.inFrame exit "" true) (clauseBody c)) (execs S.scope (clauseBody c))) :
    Simulates S env ways (Emit.stmt env (.switch at_ e cs)) (exec S.scope (.switch at_ e cs)) := by
  intro K g g' st m lays ready low
  have := suits.tidy
  have tidy (exit : String) := Emit.tidy_clauses (env.inFrame exit "" true)
    (suits.inFrame exit "" true).tidy cs
  have (exit : String) := Emit.grows_clauseBodies (tidy exit)
  rw [Emit.stmt_switch] at lays
  simp only [lays_bind, layout, shown] at lays
  obtain ⟨g₁, subjectL, spill, labels, g₂, compareL, jmp, g₃, bodiesL, endL, done⟩ := lays
  simp only [exec]
  have same := length_compareClauses suits.tidy compareL
  refine Refines.bind (subject subjectL (ready.moved rfl rfl rfl)) (fun _ _ _ _ h => h) ?_
  rintro v st₁ m₁ - ⟨rfl, ready₁⟩
  refine ready₁.spill spill suits fun m₂ _ _ ready₂ => ?_
  have clause {k : Nat} {l : String} (here : labels[k]? = some l) :=
    lays_clause (tidy _) bodiesL same here
  have placed (l : String) (mem : l ∈ labels) : ∃ k, Placed S.text.code l k := by
    obtain ⟨k, inside, rfl⟩ := List.getElem_of_mem mem
    obtain ⟨mid, target, -⟩ := clause (List.getElem?_eq_getElem inside)
    exact ⟨_, _, target, by simp [places]⟩
  have pool₂ := compareL.pool ready₂.pool
  have temps₃ : g₃.temps = g₂.temps := (Emit.owed_clauseBodies (tidy _) bodiesL 0).1
  -- The end of the switch, and the bodies from a clause on that the machine has gone to.
  have ends {st : State W} {m : Machine W} (ready : Ready S env (K.push m₁.rax) g₃ st m) :
      Reach S.scope.host S.routines S.noted m (Ready S env K g' st) :=
    ready.next endL rfl rfl rfl fun n _ _ ready => Reach.done (done ▸ ready.pop ready₁)
  have runs {k : Nat} {l : String} {st : State W} {m : Machine W} (here : labels[k]? = some l)
      (on : On S (K.push m₁.rax) st m) (at_ : Placed S.text.code l m.pc)
      (later : m₂.clock ≤ m.clock) :
      Refines S (Exits S env ways K) (breakable (execFrom S.scope k cs)) st m fun _ st' m' =>
        Ready S env K g' st' m' := by
    obtain ⟨mid, target, restL, temps, pool⟩ := clause here
    have ready : Ready S env (K.push m₁.rax) mid st m :=
      Ready.arrive on at_ suits.distinct target ready₂ later (temps.trans compareL.temps) (pool pool₂)
    have count : (labels.drop k).length = (cs.drop k).length := by simp [same]
    have rest := simulates_clauses (suits.inFrame (Emit.tag "switchend" g.labels) "" true) count
      fun c mem => bodies _ c (List.mem_of_mem_drop mem)
    rw [execFrom_eq]
    refine Refines.andThen (Refines.mono (refines_breakable ready suits.distinct low rest restL endL
      (temps₃.trans temps.symm) (restL.pool (pool pool₂)))
      (fun _ _ _ _ h => h.within (K.within_push _)) (fun _ _ _ _ h => h)) ?_
    rintro _ st' m' - (ready' | ready')
    · exact ends ready'
    · exact ends ready'
  refine Refines.bind (refines_select ready₁ ready₂ suits sound values compareL placed)
    (fun _ _ _ _ h => h.within (K.within_push _)) ?_
  intro found st₃ m₃ later₃ selected
  cases found with
  | some k =>
      obtain ⟨on₃, l, here, at_⟩ := selected
      exact runs here on₃ at_ later₃
  | none =>
      have ready₃ : Ready S env (K.push m₁.rax) g₂ st₃ m₃ := selected
      rw [defaultLabel_eq same] at jmp
      cases default : defaultAt? cs with
      | some k =>
          have inside : k < labels.length := same ▸ defaultAt_lt default
          obtain ⟨p, target⟩ := placed labels[k] (List.getElem_mem inside)
          simp only [default, Option.bind_some, List.getElem?_eq_getElem inside,
            Option.getD_some] at jmp
          exact ready₃.depart jmp suits.distinct target rfl fun m₄ _ later₄ on₄ pc₄ =>
            runs (List.getElem?_eq_getElem inside) on₄ (pc₄ ▸ target)
              (by omega)
      | none =>
          simp only [default, Option.bind_none, Option.getD_none] at jmp
          exact ready₃.jump jmp suits.distinct endL rfl temps₃ (bodiesL.pool pool₂)
            fun m₄ _ _ ready₄ => Refines.andThen (Refines.here rfl ready₄) fun _ _ _ _ h => ends h

end Lantern.Meaning
