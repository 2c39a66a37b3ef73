import Lantern.Proofs.Storage

/-!
# Initial values and where objects are created

The initial value of a field is checked once, outside of routines, and generated again wherever an object
is created, under the named locals of the routine around. What its names stand for is the same there as
outside unless the routine declares one of them. The names that matter are those that the initial values
look up and those of the objects created in them.
-/

namespace Lantern

open Assembly

/-! ## Names that creating an object looks up -/

mutual

/-- The classes that an expression creates objects of. -/
def Expr.creates : Expr → List String
  | .number .. | .bool .. | .str .. | .ident .. | .super _ | .funcRef .. => []
  | .binary _ _ l r => l.creates ++ r.creates
  | .unary _ _ e => e.creates
  | .ternary _ c a b => c.creates ++ a.creates ++ b.creates
  | .list _ es => createdIn es
  | .map _ es => createdInEntries es
  | .index _ b k => b.creates ++ k.creates
  | .member _ o _ => o.creates
  | .call _ _ args => createdIn args
  | .method _ r _ args => r.creates ++ createdIn args
  | .new_ _ cls args => cls :: createdIn args
  | .step _ _ _ t => t.creates

/-- The classes that expressions create objects of. -/
def createdIn : List Expr → List String
  | [] => []
  | e :: es => e.creates ++ createdIn es

/-- The classes that the entries of a map literal create objects of. -/
def createdInEntries : List (Expr × Expr) → List String
  | [] => []
  | (k, v) :: es => k.creates ++ v.creates ++ createdInEntries es

end

/-- The initial values of an object of the class look a name up: one of them does so itself, or it creates
    an object whose initial values do. -/
inductive ClassTable.Needs (t : ClassTable) : String → String → Prop
  /-- In an initial value. -/
  | own {cls name : String} {f : Field} {e : Expr} (mem : f ∈ t.flatFields cls) (init : f.init = some e)
      (used : name ∈ e.variables) : Needs t cls name
  /-- In the initial values of an object created there. -/
  | inner {cls other name : String} {f : Field} {e : Expr} (mem : f ∈ t.flatFields cls) (init : f.init = some e)
      (created : other ∈ e.creates) (needs : Needs t other name) : Needs t cls name

/-- What an expression looks up stands for something outside of routines if its initial values do. -/
theorem ClassTable.Needs.names {t : ClassTable} {C : Setting} (outside : C.receiver = false)
    (resolve : ∀ cls, ∀ f ∈ t.flatFields cls, ∀ e ∈ f.init, e.Resolves C []) {cls name : String}
    (needs : t.Needs cls name) : C.Names name := by
  induction needs with
  | own mem init used =>
      rcases Expr.variables_known _ (resolve _ _ mem _ init) _ used with (⟨isMethod, -⟩ | own | global) | elsewhere
      · exact absurd isMethod (by simp [outside])
      · cases own
      · exact .inl global
      · exact elsewhere
  | inner _ _ _ _ ih => exact ih

namespace Emit

/-! ## Code under other named locals -/

/-- With other named locals. -/
def Env.under (env : Env) (locals : List String) : Env := { env with locals := locals }

/-- As many named locals, under which the names of a set are looked up as before. -/
structure Env.Alike (env : Env) (locals : List String) (S : String → Prop) : Prop where
  length : locals.length = env.locals.length
  same : ∀ name, S name → env.lookup? name = (env.under locals).lookup? name

namespace Env.Alike

variable {env : Env} {locals : List String} {S T : String → Prop}

theorem mono (alike : env.Alike locals T) (sub : ∀ name, S name → T name) : env.Alike locals S :=
  ⟨alike.length, fun name inside => alike.same name (sub name inside)⟩

/-- Names that are no locals, neither before nor after, are looked up alike. -/
theorem of_notMem (length : locals.length = env.locals.length) (before : ∀ name, S name → name ∉ env.locals)
    (after : ∀ name, S name → name ∉ locals) : env.Alike locals S := by
  refine ⟨length, fun name inside => ?_⟩
  simp only [lookup?, under, List.idxOf?_eq_none_iff.mpr (before name inside),
    List.idxOf?_eq_none_iff.mpr (after name inside)]
  rfl

end Env.Alike

section Under

variable {env : Env} {locals : List String}

theorem pushTemp_under (length : locals.length = env.locals.length) : pushTemp env = pushTemp (env.under locals) := by
  simp only [pushTemp, Env.under, length]

theorem spill_under (length : locals.length = env.locals.length) : spill env = spill (env.under locals) := by
  simp only [spill, pushTemp_under length]

theorem raise_under (length : locals.length = env.locals.length) : raise env = raise (env.under locals) := by
  simp only [raise, pushTemp_under length]
  rfl

theorem checkException_under (length : locals.length = env.locals.length) :
    checkException env = checkException (env.under locals) := by
  simp only [checkException, raise_under length]
  rfl

theorem callRoutine_under (length : locals.length = env.locals.length) (target : Operand) (args : List Operand) :
    callRoutine env target args = callRoutine (env.under locals) target args := by
  simp only [callRoutine, checkException_under length]

theorem callAddress_under (length : locals.length = env.locals.length) (address : Operand) (args : List Operand) :
    callAddress env address args = callAddress (env.under locals) address args := by
  simp only [callAddress, checkException_under length]

theorem evalArgs_under (length : locals.length = env.locals.length) (args : List Value) :
    evalArgs env args = evalArgs (env.under locals) args := by
  induction args with
  | nil => rfl
  | cons v vs ih =>
      unfold evalArgs
      rw [ih, spill_under length]

theorem putEntries_under (length : locals.length = env.locals.length) (place : Operand) (entries : List (Value × Value)) :
    putEntries env place entries = putEntries (env.under locals) place entries := by
  induction entries with
  | nil => rfl
  | cons entry rest ih =>
      unfold putEntries
      rw [ih, spill_under length]

theorem callMethod_under (length : locals.length = env.locals.length) (receiver : Operand) (args : List Operand) :
    callMethod env receiver args = callMethod (env.under locals) receiver args := by
  simp only [callMethod, spill_under length, callAddress_under length]

theorem binary_under (length : locals.length = env.locals.length) (op : BinaryOp) (l r : Value) :
    binary env op l r = binary (env.under locals) op l r := by
  unfold binary
  split
  · rfl
  · rfl
  · simp only [powerForm, spill_under length]
  · simp only [strictBinary, spill_under length]

theorem listLit_under (length : locals.length = env.locals.length) (elems : List Value) :
    listLit env elems = listLit (env.under locals) elems := by
  simp only [listLit, spill_under length]

theorem mapLit_under (length : locals.length = env.locals.length) (entries : List (Value × Value)) :
    mapLit env entries = mapLit (env.under locals) entries := by
  simp only [mapLit, spill_under length, putEntries_under length]

theorem staticCall_under (length : locals.length = env.locals.length) (at_ : Span) (cls name : String)
    (args : List Value) : staticCall env at_ cls name args = staticCall (env.under locals) at_ cls name args := by
  simp only [staticCall, evalArgs_under length, callRoutine_under length]
  rfl

theorem dispatch_under (length : locals.length = env.locals.length) (receiver : Value) (name : String)
    (args : List Value) : dispatch env receiver name args = dispatch (env.under locals) receiver name args := by
  simp only [dispatch, spill_under length, evalArgs_under length, callMethod_under length]

theorem construct_under (length : locals.length = env.locals.length) (at_ : Span) (c : ClassDecl) (obj : Operand)
    (args : List Value) : construct env at_ c obj args = construct (env.under locals) at_ c obj args := by
  simp only [construct, evalArgs_under length, callRoutine_under length]

theorem libraryCall_under (length : locals.length = env.locals.length) (at_ : Span) (f : LibFunc) (readStr : Bool)
    (args : List Value) : libraryCall env at_ f readStr args = libraryCall (env.under locals) at_ f readStr args := by
  simp only [libraryCall, containsForm, deleteForm, getOrForm, evalArgs_under length, spill_under length]

theorem classRef?_under {e : Expr} (alike : env.Alike locals (· ∈ e.variables)) :
    env.classRef? e = (env.under locals).classRef? e := by
  cases e with
  | ident i name =>
      simp only [Env.classRef?, Env.isVariable, alike.same name (by simp [Expr.variables])]
      rfl
  | _ => rfl

theorem staticRef?_under {b : Expr} (alike : env.Alike locals (· ∈ b.variables)) (k : Expr) :
    staticRef? env b k = staticRef? (env.under locals) b k := by
  simp only [staticRef?, classRef?_under alike]

theorem ident_under {name : String} (alike : env.Alike locals (· = name)) (at_ : Span) :
    ident env at_ name = ident (env.under locals) at_ name := by
  simp only [ident, alike.same name rfl]
  rfl

theorem superCall_under (alike : env.Alike locals (· = "this")) (at_ : Span) (name : String) (args : List Value) :
    superCall env at_ name args = superCall (env.under locals) at_ name args := by
  have receiver : env.locals.idxOf? "this" = (env.under locals).locals.idxOf? "this" := by
    have same := alike.same "this" rfl
    unfold Env.lookup? at same
    cases before : env.locals.idxOf? "this" <;> cases after : (env.under locals).locals.idxOf? "this" <;>
      simp only [before, after] at same ⊢
    · split at same <;> cases same
    · split at same <;> cases same
    · simpa using same
  simp only [superCall, receiver, evalArgs_under alike.length, callMethod_under alike.length]
  rfl

theorem index_under {b : Value} (alike : env.Alike locals (· ∈ b.expr.variables)) (at_ : Span) (k : Value) :
    index env at_ b k = index (env.under locals) at_ b k := by
  simp only [index, staticRef?_under alike, spill_under alike.length]
  rfl

theorem member_under {o : Value} (alike : env.Alike locals (· ∈ o.expr.variables)) (at_ : Span) (name : String) :
    member env at_ o name = member (env.under locals) at_ o name := by
  simp only [member, classRef?_under alike]
  rfl

theorem methodCall_under {r : Value} (alike : env.Alike locals (· ∈ r.expr.variables)) (at_ : Span) (name : String)
    (args : List Value) : methodCall env at_ r name args = methodCall (env.under locals) at_ r name args := by
  unfold methodCall
  split
  · next same =>
      have receiver : env.Alike locals (· = "this") := alike.mono fun name this => by simp [same, Expr.variables, this]
      exact superCall_under receiver at_ name args
  · rw [classRef?_under alike, dispatch_under alike.length]
    simp only [staticCall_under alike.length]

theorem callByName_under {name : String} (alike : env.Alike locals (· = name)) (at_ : Span) (args : List Value) :
    callByName env at_ name args = callByName (env.under locals) at_ name args := by
  simp only [callByName, alike.same name rfl, evalArgs_under alike.length, callRoutine_under alike.length,
    callAddress_under alike.length, libraryCall_under alike.length]
  rfl

theorem stepVar_under {name : String} (alike : env.Alike locals (· = name)) (at_ : Span) (op : StepOp) (first : Bool) :
    stepVar env at_ op first name = stepVar (env.under locals) at_ op first name := by
  simp only [stepVar, alike.same name rfl]

theorem stepElement_under {b : Value} (alike : env.Alike locals (· ∈ b.expr.variables)) (at_ : Span) (op : StepOp)
    (first : Bool) (k : Value) :
    stepElement env at_ op first b k = stepElement (env.under locals) at_ op first b k := by
  simp only [stepElement, staticRef?_under alike, spill_under alike.length]
  rfl

variable {initial initial' : Expr → Emitting Unit}

/-- The code of initial values is the same for the objects of a class. -/
def SameFor (t : ClassTable) (initial initial' : Expr → Emitting Unit) (cls : String) : Prop :=
  ∀ f ∈ t.flatFields cls, ∀ e ∈ f.init, initial e = initial' e

theorem setFields_congr (obj : Operand) {fs : List Field} (same : ∀ f ∈ fs, ∀ e ∈ f.init, initial e = initial' e) :
    setFields obj initial fs = setFields obj initial' fs := by
  induction fs with
  | nil => rfl
  | cons f fs ih =>
      obtain ⟨own, others⟩ := List.forall_mem_cons.mp same
      unfold setFields
      dsimp only
      rw [ih others]
      cases init : f.init with
      | none => rfl
      | some e => simp only [own e init]

theorem newObject_under (length : locals.length = env.locals.length) {cls : String}
    (same : SameFor env.classes initial initial' cls) (at_ : Span) (args : List Value) :
    newObject env initial at_ cls args = newObject (env.under locals) initial' at_ cls args := by
  simp only [newObject, spill_under length, construct_under length, setFields_congr _ same]
  rfl

mutual

theorem exprWith_under (e : Expr) (alike : env.Alike locals (· ∈ e.variables))
    (same : ∀ cls ∈ e.creates, SameFor env.classes initial initial' cls) :
    exprWith initial env e = exprWith initial' (env.under locals) e := by
  cases e with
  | number | bool | str | funcRef => rfl
  | ident i name => exact ident_under (alike.mono fun x this => by simp [Expr.variables, this]) _
  | super i => exact ident_under (alike.mono fun x this => by simp [Expr.variables, this]) _
  | binary i op l r =>
      obtain ⟨first, second⟩ := List.forall_mem_append.mp same
      unfold exprWith
      rw [exprWith_under l (alike.mono fun _ => List.mem_append_left _) first,
        exprWith_under r (alike.mono fun _ => List.mem_append_right _) second, binary_under alike.length]
  | unary i op e =>
      unfold exprWith
      rw [exprWith_under e alike same]
  | ternary i c a b =>
      obtain ⟨first, third⟩ := List.forall_mem_append.mp same
      obtain ⟨first, second⟩ := List.forall_mem_append.mp first
      unfold exprWith
      rw [exprWith_under c (alike.mono fun _ mem => List.mem_append_left _ (List.mem_append_left _ mem)) first,
        exprWith_under a (alike.mono fun _ mem => List.mem_append_left _ (List.mem_append_right _ mem)) second,
        exprWith_under b (alike.mono fun _ => List.mem_append_right _) third]
  | list i es =>
      unfold exprWith
      rw [valuesWith_under es alike same, listLit_under alike.length]
  | map i es =>
      unfold exprWith
      rw [entriesWith_under es alike same, mapLit_under alike.length]
  | index i b k =>
      obtain ⟨first, second⟩ := List.forall_mem_append.mp same
      have base : env.Alike locals (· ∈ b.variables) := alike.mono fun _ => List.mem_append_left _
      unfold exprWith
      rw [exprWith_under b base first, exprWith_under k (alike.mono fun _ => List.mem_append_right _) second]
      exact index_under base _ _
  | member i o name =>
      unfold exprWith
      rw [exprWith_under o alike same]
      exact member_under alike _ _
  | call i callee args =>
      unfold exprWith
      rw [valuesWith_under args (alike.mono fun _ => List.mem_cons_of_mem _) same]
      exact callByName_under (alike.mono fun x this => by simp [Expr.variables, this]) _ _
  | method i r name args =>
      obtain ⟨first, second⟩ := List.forall_mem_append.mp same
      have receiver : env.Alike locals (· ∈ r.variables) := alike.mono fun _ => List.mem_append_left _
      unfold exprWith
      rw [exprWith_under r receiver first, valuesWith_under args (alike.mono fun _ => List.mem_append_right _) second]
      exact methodCall_under receiver _ _ _
  | new_ i cls args =>
      obtain ⟨own, others⟩ := List.forall_mem_cons.mp same
      unfold exprWith
      rw [valuesWith_under args alike others]
      exact newObject_under alike.length own _ _
  | step i op first t =>
      cases t with
      | ident j name => exact stepVar_under (alike.mono fun x this => by simp [Expr.variables, this]) _ _ _
      | index j b k =>
          obtain ⟨left, right⟩ := List.forall_mem_append.mp same
          have base : env.Alike locals (· ∈ b.variables) := alike.mono fun _ => List.mem_append_left _
          unfold exprWith
          dsimp only
          rw [exprWith_under b base left, exprWith_under k (alike.mono fun _ => List.mem_append_right _) right]
          exact stepElement_under base _ _ _ _
      | member j o name =>
          have base : env.Alike locals (· ∈ o.variables) := alike
          unfold exprWith
          dsimp only
          rw [exprWith_under o base same]
          exact stepElement_under base _ _ _ _
      | _ => rfl

theorem valuesWith_under (es : List Expr) (alike : env.Alike locals (· ∈ variablesOf es))
    (same : ∀ cls ∈ createdIn es, SameFor env.classes initial initial' cls) :
    valuesWith initial env es = valuesWith initial' (env.under locals) es := by
  cases es with
  | nil => rfl
  | cons e es =>
      obtain ⟨first, others⟩ := List.forall_mem_append.mp same
      unfold valuesWith
      rw [exprWith_under e (alike.mono fun _ => List.mem_append_left _) first,
        valuesWith_under es (alike.mono fun _ => List.mem_append_right _) others]

theorem entriesWith_under (es : List (Expr × Expr)) (alike : env.Alike locals (· ∈ variablesOfEntries es))
    (same : ∀ cls ∈ createdInEntries es, SameFor env.classes initial initial' cls) :
    entriesWith initial env es = entriesWith initial' (env.under locals) es := by
  match es with
  | [] => rfl
  | (k, v) :: es =>
      obtain ⟨first, others⟩ := List.forall_mem_append.mp same
      obtain ⟨first, second⟩ := List.forall_mem_append.mp first
      unfold entriesWith
      rw [exprWith_under k (alike.mono fun _ mem => List.mem_append_left _ (List.mem_append_left _ mem)) first,
        exprWith_under v (alike.mono fun _ mem => List.mem_append_left _ (List.mem_append_right _ mem)) second,
        entriesWith_under es (alike.mono fun _ => List.mem_append_right _) others]

end

/-- The code of an expression does not depend on what the locals are called that neither it nor the objects
    it creates look up. -/
theorem exprAt_under (depth : Nat) (e : Expr) (alike : env.Alike locals fun name =>
    name ∈ e.variables ∨ ∃ cls ∈ e.creates, env.classes.Needs cls name) :
    exprAt depth env e = exprAt depth (env.under locals) e := by
  have own : env.Alike locals (· ∈ e.variables) := alike.mono fun _ => .inl
  induction depth generalizing e with
  | zero => exact exprWith_under e own fun cls mem f inside v init => rfl
  | succ depth ih =>
      refine exprWith_under e own fun cls mem f inside v init => ih v (alike.mono ?_) (alike.mono ?_)
      · rintro name (used | ⟨other, created, needs⟩)
        · exact .inr ⟨cls, mem, .own inside init used⟩
        · exact .inr ⟨cls, mem, .inner inside init created needs⟩
      · exact fun name used => .inr ⟨cls, mem, .own inside init used⟩

/-- Initial values are generated alike where the names that they need are looked up alike. -/
theorem setFields_under (depth : Nat) (obj : Operand) {cls : String} (alike : env.Alike locals (env.classes.Needs cls)) :
    setFields obj (exprAt depth env) (env.classes.flatFields cls) =
      setFields obj (exprAt depth (env.under locals)) (env.classes.flatFields cls) := by
  refine setFields_congr obj fun f mem e init => exprAt_under depth e (alike.mono ?_)
  rintro name (used | ⟨other, created, needs⟩)
  · exact .own mem init used
  · exact .inner mem init created needs

end Under

end Emit

/-! ## Programs -/

/-- Where objects of a class are created in a checked program, each name that the initial values need stands
    for something outside of routines. A routine finds the same under it as the main routine unless it declares
    the name anywhere, and then it does not. If it declares none of them, the code of the initial values does
    not depend on what its locals are called. -/
theorem Program.initials_apart {file : Nat} {source : String} {p p' : Program} {hints : Hints}
    (accepted : Program.accept? file source = some (p, p', hints)) (s : Emit.Source) (cls : String) :
    let t := (p'.infer hints).classes
    let main := (p'.infer hints).env hints
    (∀ name, t.Needs cls name → (p.setting hints).Names name ∧
      (name ∈ hints.globals → main.lookup? name = some (.data (SymbolName.globalVar name))) ∧
      ((s.env main).lookup? name = main.lookup? name ↔ name ∉ s.declared)) ∧
    ((∀ name, t.Needs cls name → name ∉ s.declared) →
      ∀ env : Emit.Env, env.classes = t → env.locals = s.locals →
      ∀ locals : List String, locals.length = s.locals.length → (∀ name, t.Needs cls name → name ∉ locals) →
      ∀ depth obj, Emit.setFields obj (Emit.exprAt depth env) (t.flatFields cls) =
        Emit.setFields obj (Emit.exprAt depth (env.under locals)) (t.flatFields cls)) := by
  obtain ⟨-, members⟩ := Program.resolves_infer accepted
  intro t main
  refine ⟨fun name needs => ⟨?_, fun global => ?_, ?_⟩, fun undeclared env table frame locals length others depth obj => ?_⟩
  · refine needs.names rfl fun cls f inside e init => ?_
    obtain ⟨c, known, own⟩ := Emit.mem_of_mem_flatFields inside
    exact (members c known).2.fields f own e init
  · have word : SymbolName.globalVar name ∈ main.words :=
      mem_foldl_addNew.mpr (.inr (List.mem_append_left _ (List.mem_map_of_mem (List.mem_append_left _ global))))
    simpa [Emit.Env.lookup?, main, Inference.env] using word
  · have outside : main.locals.idxOf? name = none := rfl
    rw [← Meaning.Definition.mem_locals_iff, ← List.idxOf?_eq_none_iff]
    unfold Emit.Env.lookup?
    rw [outside, show (s.env main).locals = s.locals from rfl]
    cases s.locals.idxOf? name with
    | none => exact iff_of_true rfl rfl
    | some i => simp
  · have alike : env.Alike locals (t.Needs cls) := by
      refine .of_notMem (length.trans (congrArg _ frame.symm)) (fun name needs => ?_) others
      rw [frame, Meaning.Definition.mem_locals_iff]
      exact undeclared name needs
    rw [← table] at alike ⊢
    exact Emit.setFields_under depth obj alike

/-- A class whose initial value is that of a global variable, and a routine that creates an object of it. -/
def creating : String :=
  "var g = 1; class C \x7b var f = g; \x7d func r(x) \x7b return new C(); \x7d"

theorem Program.initials_apart_creating : ∃ p p' hints s, Program.accept? 0 creating = some (p, p', hints) ∧
    s ∈ Emit.sources (p'.infer hints).classes (p'.infer hints).program.items ∧
    (p'.infer hints).classes.Needs "C" "g" ∧
    (s.env ((p'.infer hints).env hints)).lookup? "g" = ((p'.infer hints).env hints).lookup? "g" := by
  have found : (Program.accept? 0 creating).any (fun r =>
      (Emit.sources (r.2.1.infer r.2.2).classes (r.2.1.infer r.2.2).program.items).any fun s =>
        decide ("g" ∉ s.declared) && ((r.2.1.infer r.2.2).classes.flatFields "C").any fun f =>
          f.init.any fun e => decide ("g" ∈ e.variables)) = true := by
    rewrite [show Program.accept? 0 creating = _ from Program.accept?_ofList 0 _]
    decide +kernel
  simp only [Option.any_eq_true, List.any_eq_true, Bool.and_eq_true, decide_eq_true_eq] at found
  obtain ⟨⟨p, p', hints⟩, accepted, s, mem, undeclared, f, field, e, init, used⟩ := found
  have needs : (p'.infer hints).classes.Needs "C" "g" := .own field init used
  exact ⟨p, p', hints, s, accepted, mem, needs,
    ((Program.initials_apart accepted s "C").1 "g" needs).2.2.mpr undeclared⟩

/-- A routine with a parameter that has the name of the global variable. -/
def capturing : String :=
  "var g = 1; class C \x7b var f = g; \x7d func r(g) \x7b return new C(); \x7d new C();"

/-- The main routine reads the word of the global variable, the other one reads its parameter. -/
theorem Program.initials_captured : ∃ p p' hints, Program.accept? 0 capturing = some (p, p', hints) ∧
    (∃ r ∈ (p'.generate hints 0).1.routines, r.name = SymbolName.mainRoutine ∧
      ⟨.mov, [Emit.rax, .data (SymbolName.globalVar "g")], ""⟩ ∈ r.code) ∧
    (∃ r ∈ (p'.generate hints 0).1.routines, r.name = SymbolName.func "r" ∧
      ⟨.mov, [Emit.rax, .slot 0], ""⟩ ∈ r.code ∧
      ∀ i ∈ r.code, ∀ o ∈ i.args, o ≠ .data (SymbolName.globalVar "g")) := by
  have reads : (Program.accept? 0 capturing).any (fun r =>
      decide (∃ s ∈ (r.2.1.generate r.2.2 0).1.routines, s.name = SymbolName.mainRoutine ∧
        ∃ i ∈ s.code, i = ⟨.mov, [Emit.rax, .data (SymbolName.globalVar "g")], ""⟩) &&
      decide (∃ s ∈ (r.2.1.generate r.2.2 0).1.routines, s.name = SymbolName.func "r" ∧
        (∃ i ∈ s.code, i = ⟨.mov, [Emit.rax, .slot 0], ""⟩) ∧
        ∀ i ∈ s.code, ∀ o ∈ i.args, o ≠ .data (SymbolName.globalVar "g"))) = true := by
    rewrite [show Program.accept? 0 capturing = _ from Program.accept?_ofList 0 _]
    decide +kernel
  obtain ⟨⟨p, p', hints⟩, accepted, reads⟩ := (Option.any_eq_true _ _).mp reads
  simp only [Bool.and_eq_true, decide_eq_true_eq] at reads
  obtain ⟨⟨main, isMain, named, _, read, rfl⟩, r, mem, called, ⟨_, taken, rfl⟩, never⟩ := reads
  exact ⟨p, p', hints, accepted, ⟨main, isMain, named, read⟩, r, mem, called, taken, never⟩

end Lantern
