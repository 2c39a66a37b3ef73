import Lantern.Proofs.Bodies

/-!
# The order of last blocks

In the record of a computation every entry of a guarded statement is answered by the start of its last
block: once, behind everything inside the statement and before everything behind it. A computation
that stops on its way has recorded the start of such a record.
-/

namespace Lantern.Meaning

/-- A record in which every entry of a guarded statement is answered by its last block, inner ones
    before outer ones. -/
inductive Nested : List Event → Prop where
  | nil : Nested []
  | print (args : List Word) {rest : List Event} : Nested rest → Nested (.print args :: rest)
  | handler (c : Catch) {rest : List Event} : Nested rest → Nested (.handler c :: rest)
  | guarded (body last : Stmt) {inside final rest : List Event} : Nested inside → Nested final →
      Nested rest → Nested (.enter body last :: (inside ++ .last last :: (final ++ rest)))

theorem Nested.append {es es' : List Event} (first : Nested es) (second : Nested es') :
    Nested (es ++ es') := by
  induction first with
  | nil => exact second
  | print args _ ih => exact .print args ih
  | handler c _ ih => exact .handler c ih
  | guarded body last inside final _ _ _ ih =>
      simp only [List.cons_append, List.append_assoc]
      exact .guarded body last inside final ih

/-- Whether a computation that ended so has come to the end of its record. -/
def isDone {α : Type} : Except Exit α → Bool
  | .ok _ => true
  | .error e => e.isTransfer

/-- A computation adds to the record in order. -/
def Orderly {W α : Type} (x : Act W α) : Prop :=
  ∀ st : State W, ∃ es, (x.from st).2.trace = st.trace ++ es ∧
    (isDone (x.from st).1 = true → Nested es) ∧ ∃ more, Nested (es ++ more)

section

variable {W α β : Type}

theorem orderly_of_same {x : Act W α} (same : ∀ st, (x.from st).2.trace = st.trace) : Orderly x :=
  fun st => ⟨[], by simp [same st], fun _ => .nil, [], .nil⟩

theorem orderly_pure (a : α) : Orderly (pure a : Act W α) := orderly_of_same fun _ => rfl

theorem orderly_throw (e : Exit) : Orderly (throw e : Act W α) := orderly_of_same fun _ => rfl

theorem Orderly.bind {x : Act W α} {f : α → Act W β} (first : Orderly x)
    (rest : ∀ a, Orderly (f a)) : Orderly (x >>= f) := by
  intro st
  obtain ⟨es, trace, nested, more⟩ := first st
  rw [Refines.from_bind]
  generalize x.from st = result at trace nested
  obtain ⟨e | a, st'⟩ := result
  · exact ⟨es, trace, nested, more⟩
  · obtain ⟨es', trace', nested', more', whole⟩ := rest a st'
    refine ⟨es ++ es', by rw [trace', trace, List.append_assoc],
      fun done => (nested rfl).append (nested' done), more', ?_⟩
    rw [List.append_assoc]
    exact (nested rfl).append whole

theorem Orderly.catch_ {x : Act W α} {f : Exit → Act W α} (first : Orderly x)
    (caught : ∀ e, e.isTransfer = true → Orderly (f e))
    (others : ∀ e, e.isTransfer = false → f e = throw e) : Orderly (tryCatch x f) := by
  intro st
  obtain ⟨es, trace, nested, more⟩ := first st
  rw [Refines.from_tryCatch]
  generalize x.from st = result at trace nested
  obtain ⟨e | a, st'⟩ := result
  · cases transfer : e.isTransfer with
    | false =>
        simp only [others e transfer]
        exact ⟨es, trace, fun done => nested done, more⟩
    | true =>
        obtain ⟨es', trace', nested', more', whole⟩ := caught e transfer st'
        refine ⟨es ++ es', by rw [trace', trace, List.append_assoc],
          fun done => (nested transfer).append (nested' done), more', ?_⟩
        rw [List.append_assoc]
        exact (nested transfer).append whole
  · exact ⟨es, trace, nested, more⟩

end

section Control

variable {W : Type}

theorem Orderly.round {body : Act W Unit} (inside : Orderly body) : Orderly (round body) := by
  refine (inside.bind fun _ => orderly_pure _).catch_ (fun e _ => ?_) fun e other => ?_
  · cases e <;> first | exact orderly_pure _ | exact orderly_throw _
  · cases e <;> first | rfl | cases other

theorem Orderly.rounds {once : Act W Bool} (inside : Orderly once) (n : Nat) :
    Orderly (rounds n once) := by
  induction n with
  | zero => exact orderly_throw _
  | succ n ih =>
      refine inside.bind fun go => ?_
      cases go with
      | true => exact ih
      | false => exact orderly_pure _

theorem Orderly.breakable {body : Act W Unit} (inside : Orderly body) :
    Orderly (breakable body) := by
  refine inside.catch_ (fun e _ => ?_) fun e other => ?_
  · cases e <;> first | exact orderly_pure _ | exact orderly_throw _
  · cases e <;> first | rfl | cases other

theorem Orderly.outcome {body : Act W Unit} (inside : Orderly body) : Orderly (outcome body) := by
  refine (inside.bind fun _ => orderly_pure _).catch_ (fun e _ => ?_) fun e other => ?_
  · cases e <;> first | exact orderly_pure _ | exact orderly_throw _
  · cases e <;> first | rfl | cases other

theorem Orderly.framed {α : Type} {x : Act W α} (inside : Orderly x) (locals : W → String → Word) :
    Orderly (framed locals x) :=
  fun st => inside { st with locals := locals st.world }

theorem from_note (e : Event) (x : Act W Unit) (st : State W) :
    (do note e; x).from st = x.from { st with trace := st.trace ++ [e] } := rfl

/-- The record of a guarded statement: its entry, what happens inside, and its last block. -/
theorem Orderly.ensuring {body l : Stmt} {guarded final : Act W Unit} (inside : Orderly guarded)
    (lastly : Orderly final) :
    Orderly (ensuring (do note (.last l); final) (do note (.enter body l); guarded)) := by
  intro st
  obtain ⟨es, trace, nested, more, whole⟩ :=
    inside { st with trace := st.trace ++ [Event.enter body l] }
  have unfinished : Nested (.enter body l :: (es ++ more) ++ [Event.last l]) := by
    simpa using Nested.guarded body l whole .nil .nil
  -- What happens behind the guarded part, when that has come to its end.
  let rest (way : Option Exit) : Act W Unit := do
    (do note (.last l); final : Act W Unit)
    way.elim (pure ()) throw
  have behind (way : Option Exit) (st₁ : State W) (done : Nested es)
      (trace₁ : st₁.trace = st.trace ++ [Event.enter body l] ++ es) :
      ∃ es', ((rest way).from st₁).2.trace = st.trace ++ es' ∧
        (isDone ((rest way).from st₁).1 = true → Nested es') ∧ ∃ more, Nested (es' ++ more) := by
    obtain ⟨es₂, trace₂, nested₂, more₂, whole₂⟩ :=
      lastly { st₁ with trace := st₁.trace ++ [Event.last l] }
    rw [show rest way = _ from rfl, Refines.from_bind, from_note]
    generalize final.from { st₁ with trace := st₁.trace ++ [Event.last l] } = result at trace₂ nested₂
    have shown : result.2.trace = st.trace ++ (.enter body l :: (es ++ .last l :: es₂)) := by
      rw [trace₂, trace₁]
      simp
    have completed : Nested (.enter body l :: (es ++ .last l :: es₂) ++ more₂) := by
      simpa using Nested.guarded body l done whole₂ .nil
    obtain ⟨e | a, st₂⟩ := result
    · exact ⟨_, shown, fun ended => by simpa using Nested.guarded body l done (nested₂ ended) .nil,
        more₂, completed⟩
    · refine ⟨_, ?_, fun _ => by simpa using Nested.guarded body l done (nested₂ rfl) .nil,
        more₂, completed⟩
      cases way <;> exact shown
  unfold Meaning.ensuring
  rw [Refines.from_bind, Refines.from_tryCatch, Refines.from_bind, from_note]
  generalize guarded.from { st with trace := st.trace ++ [Event.enter body l] } = result at trace nested
  obtain ⟨e | a, st₁⟩ := result
  · cases transfer : e.isTransfer with
    | true =>
        simp only [transfer, if_true]
        exact behind (some e) st₁ (nested transfer) trace
    | false =>
        simp only [transfer, Bool.false_eq_true, if_false]
        refine ⟨.enter body l :: es, ?_, fun ended => ?_, more ++ [Event.last l], ?_⟩
        · exact trace.trans (by simp)
        · exact absurd (transfer.symm.trans ended) Bool.false_ne_true
        · simpa using unfinished
  · exact behind none st₁ (nested rfl) trace

end Control

/-! ## Expressions and statements -/

section Bodies

variable {W : Type} {sc : Scope W}

theorem orderly_ask (name : String) (args : List Word) : Orderly (ask sc name args) := by
  intro st
  have trace : ((ask sc name args).from st).2.trace =
      if name = "printf" then st.trace ++ [Event.print args] else st.trace := rfl
  rw [trace]
  split
  · have one : Nested [Event.print args] := .print args .nil
    exact ⟨_, rfl, fun _ => one, [], by simpa using one⟩
  · exact ⟨[], by simp, fun _ => .nil, [], .nil⟩

theorem orderly_load (name : String) : Orderly (load sc name) := orderly_of_same fun _ => rfl

theorem orderly_store (name : String) (v : Word) : Orderly (store sc name v) := by
  refine orderly_of_same fun st => ?_
  show (stored sc name v st).trace = st.trace
  unfold stored
  split <;> rfl

theorem orderly_sameString (a b : Word) : Orderly (sameString sc a b) :=
  (orderly_ask _ _).bind fun _ => orderly_pure _

theorem orderly_combine (op : BinaryOp) (strs : Bool) (a b : Word) :
    Orderly (combine sc op strs a b) := by
  unfold combine
  split
  · exact orderly_ask _ _
  · exact (orderly_sameString a b).bind fun _ => orderly_pure _
  · exact (orderly_sameString a b).bind fun _ => orderly_pure _
  · split
    · exact orderly_pure _
    · exact orderly_throw _

theorem orderly_print (v : Word) (sigil : Sigil) : Orderly (print sc v sigil) := by
  unfold print
  split
  · exact orderly_throw _
  · refine ((orderly_ask _ _).bind fun _ => orderly_pure _).bind fun _ => ?_
    exact (orderly_ask _ _).bind fun _ => orderly_pure _

theorem orderly_initial (type : Option Sigil) : Orderly (initial sc type) := by
  unfold initial
  split <;> first | exact orderly_pure _ | exact orderly_throw _

theorem orderly_get : Orderly (get : Act W (State W)) := orderly_of_same fun _ => rfl

theorem orderly_exception (type : String) (sigil : Sigil) (v : Word) :
    Orderly (exception sc type sigil v) := by
  unfold exception
  split
  · refine Orderly.bind orderly_get fun st => ?_
    split
    · exact orderly_pure _
    · exact orderly_throw _
  · dsimp only
    split
    · exact (orderly_pure _).bind fun _ => orderly_ask _ _
    · exact (orderly_ask _ _).bind fun _ => orderly_ask _ _

section

variable (calls : ∀ symbol args, Orderly (sc.invoke symbol args))

include calls

set_option linter.unusedSectionVars false

mutual

theorem orderly_eval : (e : Expr) → Orderly (eval sc e)
  | .binary _ op l r => by
      unfold eval
      refine (orderly_eval l).bind fun a => ?_
      split
      · split
        · exact orderly_pure _
        · exact (orderly_eval r).bind fun _ => orderly_pure _
      · split
        · exact (orderly_eval r).bind fun _ => orderly_pure _
        · exact orderly_pure _
      · exact (orderly_eval r).bind fun _ => orderly_combine _ _ _ _
  | .unary _ op e => by
      unfold eval
      refine (orderly_eval e).bind fun v => ?_
      cases op <;> exact orderly_pure _
  | .ternary _ c a b => by
      unfold eval
      refine (orderly_eval c).bind fun v => ?_
      split
      · exact orderly_eval b
      · exact orderly_eval a
  | .call _ callee args => by
      unfold eval
      exact (orderly_evals args).bind fun _ => calls _ _
  | .number _ _ | .bool _ _ | .str _ _ => by
      unfold eval
      exact orderly_pure _
  | .ident _ name => by
      unfold eval
      exact orderly_load name
  | .step _ op first target => by
      cases target with
      | ident _ name =>
          simp only [eval]
          exact (orderly_load _).bind fun _ => (orderly_store _ _).bind fun _ => orderly_pure _
      | _ =>
          simp only [eval]
          exact orderly_throw _
  | .method _ object name args => by
      cases object with
      | ident _ cls =>
          simp only [eval]
          split
          · exact (orderly_evals args).bind fun _ => calls _ _
          · exact orderly_throw _
      | _ =>
          simp only [eval]
          exact orderly_throw _
  | .list _ _ | .map _ _ | .index _ _ _ | .member _ _ _ | .new_ _ _ _ | .super _ | .funcRef _ _ => by
      simp only [eval]
      exact orderly_throw _

theorem orderly_evals : (es : List Expr) → Orderly (evals sc es)
  | [] => by
      unfold evals
      exact orderly_pure _
  | e :: es => by
      unfold evals
      exact (orderly_eval e).bind fun _ => (orderly_evals es).bind fun _ => orderly_pure _

end

theorem orderly_matches (strSubject : Bool) (subject : Word) (e : Expr) :
    Orderly (matches_ sc strSubject subject e) := by
  refine (orderly_eval calls e).bind fun v => ?_
  split
  · exact orderly_sameString _ _
  · exact orderly_pure _

theorem orderly_select (strSubject : Bool) (subject : Word) (cs : List Clause) :
    Orderly (select sc strSubject subject cs) := by
  induction cs with
  | nil => exact orderly_pure _
  | cons c cs ih =>
      cases c with
      | default_ => exact ih.bind fun _ => orderly_pure _
      | case_ s e body =>
          refine (orderly_matches calls strSubject subject e).bind fun hit => ?_
          split
          · exact orderly_pure _
          · exact ih.bind fun _ => orderly_pure _

mutual

theorem orderly_exec : (s : Stmt) → Orderly (exec sc s)
  | .block _ body => by
      unfold exec
      exact orderly_execs body
  | .print _ e => by
      unfold exec
      exact (orderly_eval calls e).bind fun _ => orderly_print _ _
  | .expr _ e => by
      unfold exec
      exact (orderly_eval calls e).bind fun _ => orderly_pure _
  | .assign _ name e => by
      unfold exec
      exact (orderly_eval calls e).bind fun _ => orderly_store _ _
  | .varDecl _ name type init => by
      unfold exec
      cases init with
      | some e => exact (orderly_eval calls e).bind fun _ => orderly_store _ _
      | none => exact (orderly_initial type).bind fun _ => orderly_store _ _
  | .ifElse _ c a b => by
      unfold exec
      refine (orderly_eval calls c).bind fun v => ?_
      split
      · cases b with
        | some b => exact orderly_exec b
        | none => exact orderly_pure _
      · exact orderly_exec a
  | .while_ _ c body => by
      unfold exec
      refine Orderly.rounds ((orderly_eval calls c).bind fun v => ?_) _
      split
      · exact orderly_pure _
      · exact (orderly_exec body).round
  | .doWhile _ body c => by
      unfold exec
      refine Orderly.rounds ((orderly_exec body).round.bind fun go => ?_) _
      split
      · exact (orderly_eval calls c).bind fun _ => orderly_pure _
      · exact orderly_pure _
  | .for_ _ init cond post body => by
      have first : Orderly (exec? sc init) := by
        cases init with
        | some i => exact orderly_exec i
        | none => exact orderly_pure _
      have test : Orderly (goesOn sc cond) := by
        cases cond with
        | some c => exact (orderly_eval calls c).bind fun _ => orderly_pure _
        | none => exact orderly_pure _
      have next : Orderly (exec? sc post) := by
        cases post with
        | some p => exact orderly_exec p
        | none => exact orderly_pure _
      rw [exec_for]
      refine first.bind fun _ => Orderly.rounds (test.bind fun go => ?_) _
      split
      · refine (orderly_exec body).round.bind fun again => ?_
        split
        · exact next.bind fun _ => orderly_pure _
        · exact orderly_pure _
      · exact orderly_pure _
  | .switch _ e cs => by
      unfold exec
      refine (orderly_eval calls e).bind fun v => (orderly_select calls _ _ _).bind fun found => ?_
      split
      · exact (orderly_execFrom _ cs).breakable
      · exact orderly_pure _
  | .break_ _ | .continue_ _ => by
      unfold exec
      exact orderly_throw _
  | .return_ _ e => by
      unfold exec
      cases e with
      | some e => exact (orderly_eval calls e).bind fun _ => orderly_throw _
      | none => exact (orderly_pure _).bind fun _ => orderly_throw _
  | .throw_ _ type e => by
      unfold exec
      exact (orderly_eval calls e).bind fun v => (orderly_exception _ _ _).bind fun _ => orderly_throw _
  | .try_ _ body cs last => by
      have guarded : Orderly (tryCatch (exec sc body) fun
          | .thrown h => handle sc h cs
          | e => throw e) := by
        refine (orderly_exec body).catch_ (fun e _ => ?_) fun e other => ?_
        · cases e <;> first | exact orderly_handle _ cs | exact orderly_throw _
        · cases e <;> first | rfl | cases other
      unfold exec
      cases last with
      | some l => exact Orderly.ensuring guarded (orderly_exec l)
      | none => exact guarded
  | .func _ | .class_ _ | .bare _ | .printStmt _ _ | .indexAssign _ _ _ _ => by
      simp only [exec]
      exact orderly_throw _

theorem orderly_execs : (ss : List Stmt) → Orderly (execs sc ss)
  | [] => by
      unfold execs
      exact orderly_pure _
  | s :: ss => by
      unfold execs
      exact (orderly_exec s).bind fun _ => orderly_execs ss

theorem orderly_execFrom : (k : Nat) → (cs : List Clause) → Orderly (execFrom sc k cs)
  | _, [] => by
      unfold execFrom
      exact orderly_pure _
  | k + 1, _ :: cs => by
      unfold execFrom
      exact orderly_execFrom k cs
  | 0, .case_ _ _ body :: cs | 0, .default_ _ body :: cs => by
      unfold execFrom
      exact (orderly_execs body).bind fun _ => orderly_execFrom 0 cs

theorem orderly_handle (h : Word) : (cs : List Catch) → Orderly (handle sc h cs)
  | [] => by
      unfold handle
      exact orderly_throw _
  | ⟨s, type, name, body⟩ :: cs => by
      unfold handle
      refine Orderly.bind orderly_get fun st => ?_
      split
      · refine (orderly_store _ _).bind fun _ => Orderly.bind ?_ fun _ => orderly_exec body
        have one : Nested [Event.handler ⟨s, type, name, body⟩] := .handler _ .nil
        exact fun st => ⟨_, rfl, fun _ => one, [], by simpa using one⟩
      · exact orderly_handle h cs

end

end

end Bodies

/-! ## Calls -/

/-- Calling a routine adds to the record in order. -/
theorem orderly_call {W : Type} (host : Host W) (literal : String → Word) (classes : ClassTable)
    (routine? : String → Option Definition) (fuel : Nat) (symbol : String) (args : List Word) :
    Orderly (call host literal classes routine? fuel symbol args) := by
  induction fuel generalizing symbol args with
  | zero => exact orderly_throw _
  | succ fuel ih =>
      unfold call
      split
      · exact orderly_throw _
      · exact (orderly_exec ih _).outcome.framed _

end Lantern.Meaning
