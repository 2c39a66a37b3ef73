import Lantern.Proofs.Calls
import Lantern.Proofs.Delivery
import Lantern.Proofs.Ending

/-!
# Looking things up

Literals, names, and elements and fields of what is made of these are only looked up. The code of such an
expression calls nothing but three routines of the run-time library and writes nothing but temporaries of its
own. So nothing is different afterwards, however often it runs.
-/

namespace Lantern

open Assembly

/-! ## Expressions that are looked up -/

namespace Expr

/-- An expression contains itself and what its parts contain. -/
inductive Contains : Expr → Expr → Prop where
  | self (e : Expr) : Contains e e
  | part {e e' x : Expr} (mem : e' ∈ e.parts) (below : Contains e' x) : Contains e x

theorem Contains.trans {e x y : Expr} (first : e.Contains x) (second : x.Contains y) : e.Contains y := by
  induction first with
  | self => exact second
  | part mem _ ih => exact .part mem (ih second)

theorem forall_contains {P : Expr → Prop} {e : Expr} :
    (∀ x, e.Contains x → P x) ↔ P e ∧ ∀ e' ∈ e.parts, ∀ x, e'.Contains x → P x := by
  constructor
  · intro all
    exact ⟨all e (.self e), fun e' mem x below => all x (.part mem below)⟩
  · rintro ⟨own, others⟩ x contains
    cases contains with
    | self => exact own
    | part mem below => exact others _ mem x below

/-- Whether a node is looked up: a literal, a name, an element or a field. -/
def isLookup : Expr → Bool
  | number .. | str .. | bool .. | ident .. | index .. | member .. => true
  | _ => false

/-- Whether all nodes of the expression are looked up. -/
def isRepeatable : Expr → Bool
  | number .. | str .. | bool .. | ident .. => true
  | index _ base key => base.isRepeatable && key.isRepeatable
  | member _ object _ => object.isRepeatable
  | _ => false

theorem isRepeatable_iff (e : Expr) : e.isRepeatable = true ↔ ∀ x, e.Contains x → x.isLookup := by
  fun_induction isRepeatable e with
  | case1 | case2 | case3 | case4 =>
      rw [forall_contains]
      simp [isLookup, parts]
  | case5 i base key ihb ihk =>
      have own : (index i base key).isLookup = true := rfl
      rw [forall_contains, Bool.and_eq_true, ihb, ihk]
      simp only [own, parts, List.forall_mem_cons, List.not_mem_nil, false_imp_iff, forall_true_iff, and_true, true_and]
  | case6 i object name ih =>
      have own : (member i object name).isLookup = true := rfl
      rw [forall_contains, ih]
      simp only [own, parts, List.forall_mem_singleton, true_and]
  | case7 e number str bool ident index member =>
      rw [forall_contains]
      have other : e.isLookup = false := by
        unfold isLookup
        split
        · exact (number _ _ rfl).elim
        · exact (str _ _ rfl).elim
        · exact (bool _ _ rfl).elim
        · exact (ident _ _ rfl).elim
        · exact (index _ _ _ rfl).elim
        · exact (member _ _ _ rfl).elim
        · rfl
      simp [other]

theorem isRepeatable_of_contains {e x : Expr} (all : e.isRepeatable) (contains : e.Contains x) : x.isRepeatable :=
  (isRepeatable_iff x).mpr fun y below => (isRepeatable_iff e).mp all y (contains.trans below)

/-- Whether an expression may be repeated does not depend on what is recorded in it. -/
theorem isRepeatable_erase (e : Expr) : e.erase.isRepeatable = e.isRepeatable := by
  fun_induction isRepeatable e with
  | case1 | case2 | case3 | case4 => rfl
  | case5 i base key ihb ihk => rw [erase, isRepeatable, ihb, ihk]
  | case6 i object name ih => rw [erase, isRepeatable, ih]
  | case7 e => cases e <;> simp_all [erase, isRepeatable]

end Expr

/-! ## Code that looks things up -/

namespace Emit

open Machine
open Meaning (Steady asks)

/-- The routines of the run-time library that look something up: the text of a word, the value of a key in a map
    and an element of a list. -/
def lookups : List String := ["lm_to_string", "lm_map_get", "lm_array_get"]

/-- The host goes from one state to another by looking things up. -/
def Looked {W : Type} (H : Host W) : W → W → Prop :=
  Relation.ReflTransGen fun w w' => ∃ name ∈ lookups, ∃ args, w' = (H.answer w name args).world

/-- From one state to another only registers are changed, words of the frame from `high` on, and what the host
    changes when it looks things up. -/
structure Untouched {W : Type} (H : Host W) (high : Int) (m n : Machine W) : Prop where
  seen : view n = { view m with slots := n.slots, world := n.world }
  slots : ∀ i < high, n.slots i = m.slots i
  world : Looked H m.world n.world

namespace Untouched

variable {W : Type} {H : Host W} {high high' : Int} {m n o : Machine W}

theorem of_view (same : view n = view m) : Untouched H high m n := by
  have slots : n.slots = m.slots := congrArg View.slots same
  have world : n.world = m.world := congrArg View.world same
  refine ⟨?_, fun i _ => congrFun slots i, world ▸ .refl⟩
  rw [same, slots, world]
  rfl

theorem trans (first : Untouched H high m n) (second : Untouched H high' n o) (le : high ≤ high') :
    Untouched H high m o := by
  refine ⟨?_, fun i low => ?_, first.world.trans second.world⟩
  · rw [second.seen, first.seen]
  · rw [second.slots i (low.trans_le le), first.slots i low]

theorem args_eq (same : Untouched H high m n) : n.args = m.args := congrArg View.args same.seen

end Untouched

/-- Code that looks things up, wherever it stands in a program that has no routine of its own for that. -/
structure Looks (env : Env) (x : Emitting Unit) : Prop where
  tidy : Tidy 0 x
  runs : ∀ ⦃W : Type⦄ ⦃H : Host W⦄ ⦃rs : List Routine⦄ ⦃T : Text⦄ ⦃g g' : Gen⦄ ⦃m : Machine W⦄,
    (∀ name ∈ lookups, rs.find? (·.name == name) = none) → Lays T x g () g' → At T g m → m.args = [] →
      Reach H rs False m fun n => At T g' n ∧ Untouched H (env.locals.length + 1 + g.temps) m n

section Steps

variable {env : Env} {x y : Emitting Unit}

theorem Looks.seq (first : Looks env x) (second : Looks env y) : Looks env (do x; y) := by
  have := first.tidy
  have := second.tidy
  refine ⟨inferInstance, fun W H rs T g g' m foreign lays here bare => ?_⟩
  simp only [lays_bind, shown] at lays
  obtain ⟨g₁, one, two⟩ := lays
  refine (first.runs foreign one here bare).bind fun n _ between => ?_
  obtain ⟨here₁, same⟩ := between
  refine (second.runs foreign two here₁ (same.args_eq.trans bare)).mono fun o _ after => ?_
  obtain ⟨here₂, same₂⟩ := after
  refine ⟨here₂, same.trans same₂ ?_⟩
  rw [one.temps]

/-- An instruction that only changes registers. -/
theorem looks_emit {op : Op} {args : List Operand} [Plain op]
    (effect : ∀ {W : Type} (H : Host W) (rs : List Routine) (m : Machine W),
      ∃ m', m.exec H rs op args = .next m' ∧ view m' = view m ∧ m'.pc = m.pc + 1) :
    Looks env (emit op args) := by
  refine ⟨inferInstance, fun W H rs T g g' m _ lays here _ => ?_⟩
  obtain ⟨laid, rfl⟩ := lays_emit.mp lays
  obtain ⟨m', effect, same, pc⟩ := effect H rs m
  refine here.next laid effect (congrArg View.code same) pc fun n _ seen _ here => ?_
  exact Reach.done ⟨here, .of_view (seen.trans same)⟩

theorem looks_load {o : Operand} (readable : ∀ {W : Type} (H : Host W) (m : Machine W), ∃ v, m.read H o = some v) :
    Looks env (emit .mov [rax, o]) := by
  refine looks_emit fun H rs m => ?_
  obtain ⟨v, value⟩ := readable H m
  exact ⟨{ m with rax := v }.next, Meaning.exec_mov_rax value, rfl, rfl⟩

theorem looks_address (s : String) : Looks env (emit .lea [rax, .addr s]) :=
  looks_emit fun _ _ _ => ⟨_, rfl, rfl, rfl⟩

theorem looks_zero : Looks env zero := looks_emit fun _ _ _ => ⟨_, rfl, rfl, rfl⟩

/-- A step of the generator that adds no instruction. -/
theorem looks_quiet [tidy : Tidy 0 x] (code : ∀ g : Gen, (x.run g).2.code = g.code) : Looks env x := by
  refine ⟨tidy, fun W H rs T g g' m _ lays here _ => Reach.done ⟨⟨here.code, ?_⟩, .of_view rfl⟩⟩
  have same := code g
  rw [lays.run] at same
  rw [here.pc, same]

/-- The address of a string goes into the code behind. -/
theorem looks_str {f : Operand → Emitting Unit} [tidy : ∀ o, Tidy 0 (f o)] (looks : ∀ s, Looks env (f (.addr s)))
    (value : String) : Looks env (do f (← str value)) := by
  refine ⟨inferInstance, fun W H rs T g g' m foreign lays here bare => ?_⟩
  simp only [lays_bind, lays_str, shown] at lays
  obtain ⟨-, code⟩ := lays
  have here : At T (g.pooled value) m := ⟨here.code, here.pc⟩
  have runs := (looks _).runs (H := H) foreign code here bare
  exact runs

/-- Calls one of the routines. -/
theorem looks_call {name : String} {ops : List Operand} (known : name ∈ lookups)
    (readable : ∀ {W : Type} (H : Host W) (m : Machine W), ∃ vs : List Word, ops.map (m.read H) = vs.map some)
    (steady : ∀ o ∈ ops, Steady o) : Looks env (call name ops) := by
  have quiet : name ≠ "printf" := by
    rintro rfl
    revert known
    decide
  refine ⟨inferInstance, fun W H rs T g g' m foreign lays here bare => ?_⟩
  obtain ⟨vs, values⟩ := readable H m
  refine asks here lays (foreign name known) bare values steady fun n _ seen _ here => Reach.done ⟨here, ?_⟩
  rw [if_neg quiet] at seen
  have slots : n.slots = m.slots := congrArg View.slots seen
  have world : n.world = (H.answer m.world name vs).world := congrArg View.world seen
  refine ⟨?_, fun i _ => congrFun slots i, .single ⟨name, known, vs, world⟩⟩
  rw [seen, slots, world]
  rfl

/-- Keeps the result in a temporary while something else is looked up. -/
theorem looks_spill {f : Operand → Emitting Unit} [tidy : ∀ o, Tidy 0 (f o)] (looks : ∀ i, Looks env (f (.slot i))) :
    Looks env (do
      let t ← spill env
      f t
      popTemps 1) := by
  refine ⟨inferInstance, fun W H rs T g g' m foreign lays here bare => ?_⟩
  simp only [lays_bind, layout, shown] at lays
  obtain ⟨store, g₁, code, rfl⟩ := lays
  let i : Int := env.locals.length + 1 + g.temps
  let m' : Machine W := { m with slots := Function.update m.slots i m.rax }.next
  have effect : m.exec H rs .mov [.slot i, rax] = .next m' := rfl
  refine here.next store effect rfl rfl fun n _ seen _ here₁ => ?_
  have slots : n.slots = Function.update m.slots i m.rax := congrArg View.slots seen
  have world : n.world = m.world := congrArg View.world seen
  have stored : Untouched H i m n := by
    refine ⟨?_, fun j low => ?_, world ▸ .refl⟩
    · rw [seen, slots, world]
      rfl
    · rw [slots, Function.update_of_ne low.ne]
  have here₁ : At T (g.lift.push .mov [.slot i, rax]) n := ⟨here₁.code, here₁.pc⟩
  refine ((looks i).runs foreign code here₁ (stored.args_eq.trans bare)).mono fun o _ after => ?_
  obtain ⟨here₂, same⟩ := after
  refine ⟨⟨here₂.code, here₂.pc⟩, stored.trans same ?_⟩
  simp only [i, Gen.temps_push, Gen.temps_lift]
  push_cast
  omega

end Steps

/-! ## The code of expressions -/

section Expressions

variable (env : Env) (at_ : Span)

theorem looks_ident (name : String) : Looks env (ident env at_ name) := by
  unfold ident
  split
  · next place found =>
      have place : (∃ i, place = .slot i) ∨ ∃ s, place = .data s := by
        unfold Env.lookup? at found
        split at found
        · exact .inl ⟨_, (Option.some.inj found).symm⟩
        · split at found
          · exact .inr ⟨_, (Option.some.inj found).symm⟩
          · cases found
      rcases place with ⟨i, rfl⟩ | ⟨s, rfl⟩
      · exact looks_load fun H m => ⟨_, rfl⟩
      · exact looks_load fun H m => ⟨_, rfl⟩
  · split
    · exact looks_address _
    · exact .seq (looks_quiet fun g => rfl) looks_zero

theorem looks_loadStatic (cls field : String) : Looks env (loadStatic env at_ cls field) := by
  unfold loadStatic
  split
  · exact looks_load fun H m => ⟨_, rfl⟩
  · exact .seq (looks_quiet fun g => rfl) looks_zero

theorem looks_key {v : Value} (code : Looks env v.code) : Looks env (key v) := by
  have text : Looks env (call "lm_to_string" [rax]) :=
    looks_call (by decide) (fun H m => ⟨[m.rax], rfl⟩) (by simp)
  have nothing : Looks env (pure ()) := looks_quiet fun g => rfl
  unfold key
  refine .seq code ?_
  split <;> assumption

theorem looks_index {base k : Value} (baseLooks : Looks env base.code) (keyLooks : Looks env k.code) :
    Looks env (index env at_ base k) := by
  unfold index
  split
  · exact looks_loadStatic env at_ _ _
  · have := keyLooks.tidy
    refine .seq baseLooks ?_
    cases base.sigil.isKeyed with
    | true =>
        have entry (i : Int) : Looks env (do key k; call "lm_map_get" [.slot i, rax]) :=
          .seq (looks_key env keyLooks) (looks_call (by decide) (fun H m => ⟨[m.slots i, m.rax], rfl⟩) (by simp))
        simpa only [if_true, bind_assoc] using looks_spill (f := fun b => do key k; call "lm_map_get" [b, rax]) entry
    | false =>
        have element (i : Int) : Looks env (do k.code; call "lm_array_get" [.slot i, rax]) :=
          .seq keyLooks (looks_call (by decide) (fun H m => ⟨[m.slots i, m.rax], rfl⟩) (by simp))
        simpa only [Bool.false_eq_true, if_false, bind_assoc] using
          looks_spill (f := fun b => do k.code; call "lm_array_get" [b, rax]) element

theorem looks_member {object : Value} (looks : Looks env object.code) (name : String) :
    Looks env (member env at_ object name) := by
  unfold member
  split
  · exact looks_loadStatic env at_ _ _
  · refine .seq looks (looks_str (fun s => ?_) name)
    exact looks_call (by decide) (fun H m => ⟨[m.rax, H.address s], rfl⟩) (by simp)

theorem looks_exprWith (initial : Expr → Emitting Unit) (e : Expr) (repeatable : e.isRepeatable) :
    Looks env (exprWith initial env e) := by
  cases e with
  | number => exact looks_load fun H m => ⟨_, rfl⟩
  | bool i v =>
      cases v with
      | true => exact looks_load fun H m => ⟨_, rfl⟩
      | false => exact looks_zero
  | str i v => exact looks_str looks_address v
  | ident i name => exact looks_ident env i.span name
  | index i base key =>
      obtain ⟨first, second⟩ := (Bool.and_eq_true ..).mp repeatable
      exact looks_index env i.span (looks_exprWith initial base first) (looks_exprWith initial key second)
  | member i object name => exact looks_member env i.span (looks_exprWith initial object repeatable) name
  | _ => cases repeatable
termination_by sizeOf e

theorem looks_expr (e : Expr) (repeatable : e.isRepeatable) : Looks env (expr env e) := by
  unfold expr
  cases env.classes.length with
  | zero => exact looks_exprWith env _ e repeatable
  | succ depth => exact looks_exprWith env _ e repeatable

end Expressions

end Emit

/-- Evaluating the expression looks things up and does nothing else: wherever its code stands in a routine of a
    program, it runs to its end, and variables, parameters, temporaries in use and what has been observed are
    then as before. The run-time library has been asked to look things up and for nothing else. -/
def Expr.OnlyLooks (e : Expr) : Prop :=
  ∀ (t : Inference) (hints : Hints) (seed : Int64), ∀ r ∈ (t.generate hints seed).1.routines,
    ∀ (pool : List String) (env : Emit.Env) (g g' : Emit.Gen),
      Emit.Lays ⟨r.code, pool⟩ (Emit.expr env e) g () g' → ∀ {W : Type} (H : Host W) (m : Machine W),
        m.code = r.code → m.pc = g.code.size → m.args = [] →
          ∃ n, Machine.Run H (t.generate hints seed).1.routines False m n ∧ n.pc = g'.code.size ∧
            Emit.Untouched H (env.locals.length + 1 + g.temps) m n

theorem Expr.onlyLooks {e : Expr} (repeatable : e.isRepeatable) : e.OnlyLooks := by
  intro t hints seed r mem pool env g g' lays W H m code pc bare
  have foreign : ∀ name ∈ Emit.lookups, (t.generate hints seed).1.routines.find? (·.name == name) = none := by
    intro name known
    have listed : name ∈ Emit.runtime := by
      revert name
      decide +kernel
    refine List.find?_eq_none.mpr fun q inside same => (t.delivering_generate hints seed inside).foreign ?_
    obtain rfl : q.name = name := by simpa using same
    exact listed
  obtain ⟨n, run, here, same⟩ := (Emit.looks_expr env e repeatable).runs (H := H) foreign lays ⟨code, pc⟩ bare
  exact ⟨n, run, here.pc, same⟩

end Lantern
