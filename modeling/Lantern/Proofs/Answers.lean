import Lantern.Proofs.Agreement

/-!
# How inference answers the checker

Where every variable of a program is declared once and with a type, inference records for an expression the type that
the checker finds for it, if the checker finds one and does not guess.
-/

namespace Lantern

namespace Check

variable {classes : ClassTable} {h hints : Hints} {vs ws : Assoc (Option Sigil)} {st st' : State} {name : String}

/-! ## Gathering globals -/

/-- The checker has gathered global variables, each with its type, and nothing else. -/
structure Gathered (h : Hints) (vs : Assoc (Option Sigil)) (st : State) : Prop where
  held : ∃ scope, st.scopes = [scope] ∧ ∀ x, scope.get? x = vs.get? x
  globals : ∀ x, x ∈ st.hints.globals ↔ vs.has x
  types : ∀ x, st.hints.globalTypes.get? x = (vs.get? x).join
  params : st.hints.params = h.params
  results : st.hints.results = h.results

theorem Gathered.add (gathered : Gathered h vs st) (new : vs.has name = false) (τ : Sigil) :
    Gathered h (vs ++ [(name, some τ)]) (withGlobal name (some τ) st) := by
  obtain ⟨scopes, found⟩ := st
  obtain ⟨⟨scope, rfl, held⟩, globals, types, params, results⟩ := gathered
  have unknown : scope.has name = false := by
    rw [← Assoc.get?_eq_none_iff, held, Assoc.get?_eq_none_iff, new]
  have untyped : (scope.put name none).get? name = some none := by rw [Assoc.get?_put, if_pos rfl]
  have known : (scope.put name none).has name := (Assoc.has_put _ _ _ _).mpr (.inl rfl)
  have eq : withGlobal name (some τ) ⟨[scope], found⟩ = ⟨[(scope.put name none).put name (some τ)],
      { found.addGlobal name with globalTypes := (found.addGlobal name).globalTypes.put name τ }⟩ := by
    simp [withGlobal, withType, unknown, addToLast, lookup?, untyped, retype, known]
  have added (x : String) : Assoc.get? (vs ++ [(name, some τ)]) x = if x = name then some (some τ) else vs.get? x := by
    rw [Assoc.get?_append_single]
    split
    · next same => rw [same, (Assoc.get?_eq_none_iff vs name).mpr new, Option.none_or]
    · rw [Option.or_none]
  rw [eq]
  constructor
  case held =>
    refine ⟨_, rfl, fun x => ?_⟩
    rw [added, Assoc.get?_put, Assoc.get?_put, held]
    split <;> rfl
  case globals =>
    intro x
    have isName : Assoc.has (vs ++ [(name, some τ)]) x ↔ vs.has x ∨ x = name := by
      simp only [Assoc.has, List.any_append, List.any_cons, List.any_nil, Bool.or_false, Bool.or_eq_true, beq_iff_eq]
      exact or_congr_right eq_comm
    show x ∈ addNew found.globals name ↔ _
    rw [isName, ← globals x]
    unfold addNew
    split
    · next known =>
        have known : name ∈ found.globals := by simpa using known
        exact ⟨.inl, Or.rec id fun same => same ▸ known⟩
    · simp
  case types =>
    intro x
    rw [added, Assoc.get?_put]
    split
    · rfl
    · exact types x
  case params => exact params
  case results => exact results

/-- A step gathers variables, and none of them is named like a class. -/
def Gathers (classes : ClassTable) (x : Checking Unit) (ws : Assoc (Option Sigil)) : Prop :=
  ∀ ⦃h : Hints⦄ ⦃vs : Assoc (Option Sigil)⦄ ⦃st st' : State⦄ ⦃u : Unit⦄, Yields x st u st' → Gathered h vs st →
    (Assoc.names (vs ++ ws)).Nodup → (∀ w ∈ ws, w.2.isSome) →
    Gathered h (vs ++ ws) st' ∧ ∀ w ∈ ws, classes.has w.1 = false

theorem Gathers.nothing : Gathers classes (pure ()) [] := by
  intro h vs st st' u yields gathered distinct typed
  obtain ⟨-, rfl⟩ := yields.of_pure
  rw [List.append_nil]
  exact ⟨gathered, nofun⟩

theorem Gathers.seq {x y : Checking Unit} (first : Gathers classes x vs) (second : Gathers classes y ws) :
    Gathers classes (x >>= fun _ => y) (vs ++ ws) := by
  intro h us st st' u yields gathered distinct typed
  obtain ⟨_, st₁, begun, ended⟩ := yields.of_bind
  rw [← List.append_assoc] at distinct ⊢
  obtain ⟨ownTyped, othersTyped⟩ := List.forall_mem_append.mp typed
  have before := names_append (us ++ vs) ws ▸ distinct
  obtain ⟨between, own⟩ := first begun gathered (List.nodup_append.mp before).1 ownTyped
  obtain ⟨behind, others⟩ := second ended between distinct othersTyped
  exact ⟨behind, List.forall_mem_append.mpr ⟨own, others⟩⟩

theorem gathers_declareGlobal (classes : ClassTable) (name : String) (type : Option Sigil) (at_ : Span) :
    Gathers classes (declareGlobal classes name type at_) [(name, type)] := by
  intro h vs st st' u yields gathered distinct typed
  obtain ⟨τ, rfl⟩ := Option.isSome_iff_exists.mp (typed _ List.mem_cons_self)
  obtain ⟨noClass, rfl⟩ := yields.of_declareGlobal
  refine ⟨gathered.add ?_ τ, List.forall_mem_singleton.mpr noClass⟩
  rw [Bool.eq_false_iff]
  intro known
  obtain ⟨v, mem, same⟩ := List.any_eq_true.mp known
  rw [names_append] at distinct
  exact List.disjoint_of_nodup_append distinct (List.mem_map_of_mem mem) (by simpa [Assoc.names] using same)

mutual

theorem gathers_stmt (classes : ClassTable) (s : Stmt) : Gathers classes (gatherGlobals classes s) s.declarations := by
  cases s with
  | varDecl s name type init => exact gathers_declareGlobal classes name type s
  | block s body => exact gathers_stmts classes body
  | while_ s c body | doWhile s body c => exact gathers_stmt classes body
  | ifElse s c a b =>
      rw [declarations_ifElse]
      unfold gatherGlobals
      apply (gathers_stmt classes a).seq
      cases b with
      | none => exact .nothing
      | some b => exact gathers_stmt classes b
  | for_ s init cond post body =>
      rw [declarations_for]
      unfold gatherGlobals
      cases init with
      | none => exact gathers_stmt classes body
      | some i => exact (gathers_stmt classes i).seq (gathers_stmt classes body)
  | switch s e cs => exact gathers_clauses classes cs
  | try_ s body cs last =>
      rw [declarations_try, List.append_assoc]
      unfold gatherGlobals
      apply (gathers_stmt classes body).seq
      apply (gathers_catches classes cs).seq
      cases last with
      | none => exact .nothing
      | some l => exact gathers_stmt classes l
  | _ => exact .nothing

theorem gathers_stmts (classes : ClassTable) (ss : List Stmt) :
    Gathers classes (gatherGlobalsOf classes ss) (declarationsOf ss) := by
  cases ss with
  | nil => exact .nothing
  | cons s ss => exact (gathers_stmt classes s).seq (gathers_stmts classes ss)

theorem gathers_clauses (classes : ClassTable) (cs : List Clause) :
    Gathers classes (gatherClauseGlobals classes cs) (declarationsInClauses cs) := by
  match cs with
  | [] => exact .nothing
  | .case_ s v body :: cs | .default_ s body :: cs =>
      exact (gathers_stmts classes body).seq (gathers_clauses classes cs)

theorem gathers_catches (classes : ClassTable) (cs : List Catch) :
    Gathers classes (gatherCatchGlobals classes cs) (declarationsInCatches cs) := by
  match cs with
  | [] => exact .nothing
  | ⟨s, type, name, body⟩ :: cs =>
      exact (gathers_declareGlobal classes name (some (.object "")) s).seq
        ((gathers_stmt classes body).seq (gathers_catches classes cs))

end

/-! ## Outside of routines -/

/-- The checker stands outside of routines, and what it has found out is what it finds out in the end. Every global has
    a type and is in scope with it, and nothing else is in scope. No global is named like a class. -/
structure AtTop (hints : Hints) (classes : ClassTable) (st : State) : Prop where
  found : st.hints = hints
  types : ∀ x, hints.globalTypes.has x ↔ x ∈ hints.globals
  visible : ∀ x ∈ hints.globals, (lookup? st.scopes x).isSome
  held : ∀ scope ∈ st.scopes, ∀ x ≠ "this", ∀ t, scope.get? x = some t → t.isSome ∧ hints.globalTypes.get? x = t
  classes : ∀ c ≠ "this", classes.has c → c ∉ hints.globals

/-- Inference knows the globals, and nothing yet about the routines named. -/
structure Clear (hints : Hints) (symbols : List String) (fs : Infer.Facts) : Prop where
  globals : fs.globals = hints.globalTypes
  frames : ∀ r ∈ symbols, fs.frame r = Infer.Frame.empty

variable {ctx : Context} {ctx' : Infer.Context} {fs fs' : Infer.Facts} {symbols : List String}

theorem isVariable_of_empty (frame : fs.frame ctx'.routine = Infer.Frame.empty) (x : String) :
    fs.isVariable ctx' x = (fs.globals.has x || ctx'.hints.globals.contains x) := by
  rw [Infer.Facts.isVariable, frame]
  rfl

theorem var_of_empty {r : String} (frame : fs.frame r = Infer.Frame.empty) (x : String) :
    fs.var r x = (fs.globals.get? x).getD .int := by
  rw [Infer.Facts.var, frame]
  rfl

theorem Gathered.atTop (gathered : Gathered h vs st) (typed : ∀ v ∈ vs, v.2.isSome)
    (apart : ∀ v ∈ vs, classes.has v.1 = false) : AtTop st.hints classes st := by
  obtain ⟨⟨scope, scopes, same⟩, globals, types, -, -⟩ := gathered
  have known {x : String} {t : Option Sigil} (found : vs.get? x = some t) : (x, t) ∈ vs := by
    obtain ⟨v, first, rfl⟩ := Option.map_eq_some_iff.mp found
    obtain rfl : v.1 = x := by simpa using List.find?_some first
    exact List.mem_of_find?_eq_some first
  have held (x : String) (t : Option Sigil) (found : scope.get? x = some t) :
      t.isSome ∧ st.hints.globalTypes.get? x = t := by
    rw [same] at found
    refine ⟨typed _ (known found), ?_⟩
    rw [types, found]
    rfl
  constructor
  case found => rfl
  case types =>
    intro x
    rw [globals, ← Assoc.isSome_get?, ← Assoc.isSome_get?, types]
    cases found : vs.get? x with
    | none => rfl
    | some t => simpa using typed _ (known found)
  case visible =>
    intro x isGlobal
    have known : (scope.get? x).isSome := by rwa [same, Assoc.isSome_get?, ← globals]
    rw [scopes, lookup?]
    split
    · rfl
    · next unknown => rwa [unknown] at known
  case held =>
    intro scope' mem x other t found
    rw [scopes, List.mem_singleton] at mem
    exact held x t (mem ▸ found)
  case classes =>
    intro c other isClass isGlobal
    obtain ⟨v, mem, same⟩ := List.any_eq_true.mp ((globals c).mp isGlobal)
    have noClass := apart v mem
    rw [eq_of_beq same, isClass] at noClass
    cases noClass

theorem AtTop.bound (atTop : AtTop hints classes st) : st.hints.globals ⊆ hints.globals := by
  rw [atTop.found]
  exact List.Subset.refl _

/-- What both know outside of routines, and where a routine begins that inference knows nothing about. -/
theorem AtTop.knows (atTop : AtTop hints classes st) (clear : Clear hints symbols fs) (mem : ctx'.routine ∈ symbols)
    (given : ctx'.hints = hints) : Knows hints classes st ctx' fs := by
  have frame := clear.frames _ mem
  have isVariable (x : String) : fs.isVariable ctx' x ↔ x ∈ hints.globals := by
    rw [isVariable_of_empty frame, clear.globals, given]
    simp [atTop.types]
  constructor
  case found => exact atTop.found
  case globals => exact clear.globals
  case typed => exact fun x => (atTop.types x).mpr
  case visible => exact atTop.visible
  case held =>
    intro scope mem x other t found
    obtain ⟨typed, same⟩ := atTop.held scope mem x other t found
    obtain ⟨τ, rfl⟩ := Option.isSome_iff_exists.mp typed
    rw [isVariable, ← atTop.types, ← Assoc.isSome_get?, same]
    rw [var_of_empty frame, clear.globals, same]
    exact ⟨rfl, rfl⟩
  case classes =>
    intro c other isClass
    rw [Bool.eq_false_iff, ne_eq, isVariable]
    exact atTop.classes c other isClass
  case settled => rw [frame]; rfl
  case outside => exact fun isMain => isMain ▸ frame

theorem Knows.atTop (knows : Knows hints classes st ctx' fs) (isMain : ctx'.routine = SymbolName.mainRoutine)
    (given : ctx'.hints = hints) (types : ∀ x, hints.globalTypes.has x ↔ x ∈ hints.globals) :
    AtTop hints classes st := by
  have frame := knows.outside isMain
  rw [← isMain] at frame
  have isVariable (x : String) : fs.isVariable ctx' x ↔ x ∈ hints.globals := by
    rw [isVariable_of_empty frame, knows.globals, given]
    simp [types]
  constructor
  case found => exact knows.found
  case types => exact types
  case visible => exact knows.visible
  case held =>
    intro scope mem x other t found
    obtain ⟨typed, isGlobal⟩ := knows.held scope mem x other t found
    rw [isVariable, ← types, ← Assoc.isSome_get?, Option.isSome_iff_exists] at isGlobal
    obtain ⟨τ, same⟩ := isGlobal
    rw [typed, var_of_empty frame, knows.globals, same]
    exact ⟨rfl, rfl⟩
  case classes =>
    intro c other isClass isGlobal
    have noVariable := knows.classes c other isClass
    rw [(isVariable c).mpr isGlobal] at noVariable
    cases noVariable

/-! ## Routines -/

/-- Variables are declared once and with a type. -/
structure Explicit (vs : Assoc (Option Sigil)) : Prop where
  distinct : vs.names.Nodup
  typed : ∀ v ∈ vs, v.2.isSome

/-- Parameters as variables. -/
def variablesOf (params : List Param) : Assoc (Option Sigil) := params.map fun p => (p.name, p.type)

/-- The receiver, where there is one. -/
def Context.receiver (ctx : Context) : Assoc (Option Sigil) :=
  if ctx.cls.isEmpty || ctx.isStatic then [] else [("this", some (.object ctx.cls))]

/-- Declares the receiver and the parameters of a routine whose body stands at `at_`. -/
def receive (ctx : Context) (at_ : Span) (params : List Param) : Checking Unit := do
  unless ctx.cls.isEmpty || ctx.isStatic do declare "this" (some (.object ctx.cls))
  declareParams at_ params

instance {R : State → State → Prop} [Growth R] (ctx : Context) (at_ : Span) (params : List Param) :
    Steady R (receive ctx at_ params) := by unfold receive; infer_instance

/-- The expressions of a routine. -/
def askedInRoutine (ctx : Context) (st : State) (params : List Param) (body : Stmt) : List (Option Question) :=
  asked ctx (after (receive ctx body.span params) st.enter) body

theorem routine_eq (ctx : Context) (params : List Param) (body : Stmt) :
    routine ctx params body = inScope (receive ctx body.span params >>= fun _ => stmt ctx body) := by
  unfold routine receive
  split <;> simp only [bind_assoc]

theorem Yields.of_declareParams {at_ : Span} {params : List Param} {u : Unit}
    (yields : Yields (declareParams at_ params) st u st') : Declares (variablesOf params) st st' := by
  induction params generalizing st with
  | nil =>
      unfold declareParams at yields
      obtain ⟨-, rfl⟩ := yields.of_pure
      exact .refl _ st
  | cons p ps ih =>
      unfold declareParams at yields
      obtain ⟨isLocal, -, yields⟩ := yields.of_seq
      split at yields
      · exact (not_yields_refused yields).elim
      · obtain ⟨_, st₁, declared, others⟩ := yields.of_bind
        exact declared.of_declare.trans (ih others)

theorem Yields.of_receive {at_ : Span} {params : List Param} {u : Unit}
    (yields : Yields (receive ctx at_ params) st u st') : Declares (ctx.receiver ++ variablesOf params) st st' := by
  unfold receive at yields
  unfold Context.receiver
  split at yields
  · next noReceiver =>
      rw [if_pos noReceiver]
      exact yields.of_declareParams
  · next isMethod =>
      obtain ⟨_, st₁, declared, others⟩ := yields.of_bind
      rw [if_neg isMethod]
      exact declared.of_declare.trans others.of_declareParams

end Check

namespace Assoc

variable {α : Type} {xs ys : Assoc α} {name : String} {a : α}

theorem has_iff_mem_names : xs.has name ↔ name ∈ xs.names := by
  simp [has, names]

theorem get?_of_mem (distinct : xs.names.Nodup) (mem : (name, a) ∈ xs) : xs.get? name = some a := by
  induction xs with
  | nil => cases mem
  | cons x xs ih =>
      obtain ⟨own, others⟩ := List.nodup_cons.mp distinct
      rw [get?_cons]
      rcases List.mem_cons.mp mem with rfl | later
      · rw [if_pos rfl]
      · have apart : x.1 ≠ name := fun same => own (same ▸ List.mem_map_of_mem later)
        rw [if_neg apart, ih others later]

/-- New names are put in behind the others. -/
theorem foldl_put_eq (xs : Assoc α) (distinct : (xs ++ ys).names.Nodup) :
    ys.foldl (fun xs (name, a) => xs.put name a) xs = xs ++ ys := by
  induction ys generalizing xs with
  | nil => rw [List.foldl_nil, List.append_nil]
  | cons y ys ih =>
      obtain ⟨x, a⟩ := y
      have fresh : ¬xs.has x := by
        rw [has_iff_mem_names]
        intro known
        rw [Check.names_append] at distinct
        exact List.disjoint_of_nodup_append distinct known List.mem_cons_self
      rw [List.append_cons] at distinct ⊢
      have added : xs.put x a = xs ++ [(x, a)] := if_neg fresh
      rw [List.foldl_cons]
      dsimp only
      rw [added]
      exact ih _ distinct

end Assoc

/-- A routine begins with its parameters. -/
theorem Infer.run_routine (ctx : Context) (hasThis : Bool) (params : List Param) (body : Stmt) (fs : Facts) :
    (routine ctx hasThis params body).run fs = (stmt ctx body).run (fs.setFrame ctx.routine { fs.frame ctx.routine with
      params := (ownSigils ctx hasThis params).foldl (fun ps (name, s) => Assoc.put ps name s)
        (fs.frame ctx.routine).params }) := by
  rw [← setFrame_enter fs ctx.routine fun f => { f with
    params := (ownSigils ctx hasThis params).foldl (fun ps (name, s) => Assoc.put ps name s) f.params }]
  rfl

/-- A field settles its sigil if it is static. -/
theorem Infer.run_fields (ctx : Context) (f : Field) (rest : List Field) (fs : Facts) :
    (fields ctx (f :: rest)).run fs =
      let init := ((valueOption ctx f.init).run fs).1
      let s := (f.type.or (init.map Expr.sigil)).getD .int
      let fs₁ := if f.isStatic then { fs with statics := fs.statics.put (SymbolName.staticField ctx.cls f.name) s }
        else fs
      let r := (fields ctx rest).run fs₁
      ({ f with init := init } :: r.1, r.2) := by
  obtain ⟨s, n, t, init, isStatic⟩ := f
  cases init <;> cases isStatic <;> rfl

/-- The place of a method. -/
def Infer.Context.inMethod (ctx : Context) (m : Method) : Context :=
  { ctx with routine := Check.methodSymbol ctx.cls m }

/-- The place of a constructor. -/
def Infer.Context.inCtor (ctx : Context) (k : Ctor) : Context :=
  { ctx with routine := SymbolName.ctor ctx.cls k.params.length }

theorem Infer.run_methods (ctx : Context) (m : Method) (ms : List Method) (fs : Facts) :
    (methods ctx (m :: ms)).run fs =
      let body := (routine (ctx.inMethod m) (!m.isStatic) m.params m.body).run fs
      let r := (methods ctx ms).run body.2
      ({ m with body := body.1 } :: r.1, r.2) :=
  rfl

theorem Infer.run_ctors (ctx : Context) (k : Ctor) (ks : List Ctor) (fs : Facts) :
    (ctors ctx (k :: ks)).run fs =
      let body := (routine (ctx.inCtor k) true k.params k.body).run fs
      let r := (ctors ctx ks).run body.2
      ({ k with body := body.1 } :: r.1, r.2) :=
  rfl

namespace Check

variable {classes : ClassTable} {hints : Hints} {vs ws : Assoc (Option Sigil)} {st st' : State}
  {ctx : Context} {ctx' : Infer.Context} {fs fs' : Infer.Facts} {symbols : List String}

/-- The facts where a routine begins that has the given parameters. -/
def entered (routine : String) (vs : Assoc (Option Sigil)) (fs : Infer.Facts) : Infer.Facts :=
  fs.setFrame routine { Infer.Frame.empty with params := vs.map fun v => (v.1, v.2.getD .int) }

theorem isVariable_entered (x : String) : (entered ctx'.routine vs fs).isVariable ctx' x ↔
    x ∈ vs.names ∨ fs.globals.has x ∨ x ∈ ctx'.hints.globals := by
  have isParam : Assoc.has (vs.map fun v => (v.1, v.2.getD .int)) x ↔ x ∈ vs.names := by
    simp [Assoc.has, Assoc.names]
  have globals : (entered ctx'.routine vs fs).globals = fs.globals := rfl
  rw [Infer.Facts.isVariable, globals, entered, Infer.Facts.frame_setFrame, if_pos rfl]
  simp only [Infer.Frame.knows, Infer.Frame.empty, Bool.or_eq_true, isParam, or_assoc]
  simp [Assoc.has]

theorem var_entered (distinct : vs.names.Nodup) {x : String} {τ : Sigil} (mem : (x, some τ) ∈ vs) :
    (entered ctx'.routine vs fs).var ctx'.routine x = τ := by
  have param : Assoc.get? (vs.map fun v => (v.1, v.2.getD .int)) x = some τ := by
    apply Assoc.get?_of_mem
    · rwa [Assoc.names, List.map_map]
    · exact List.mem_map_of_mem (f := fun v => (v.1, v.2.getD Sigil.int)) mem
  rw [Infer.Facts.var, entered, Infer.Facts.frame_setFrame, if_pos rfl]
  dsimp only
  rw [param]
  rfl

theorem var_entered_of_notMem {x : String} (other : x ∉ vs.names) :
    (entered ctx'.routine vs fs).var ctx'.routine x = (fs.globals.get? x).getD .int := by
  have noParam : Assoc.get? (vs.map fun v => (v.1, v.2.getD .int)) x = none := by
    rw [Assoc.get?_eq_none_iff, Bool.eq_false_iff, ne_eq, Assoc.has_iff_mem_names, Assoc.names, List.map_map]
    exact other
  rw [Infer.Facts.var, entered, Infer.Facts.frame_setFrame, if_pos rfl]
  dsimp only
  rw [noParam]
  rfl

/-- What both know where a routine begins. -/
theorem AtTop.enter (atTop : AtTop hints classes st) (globals : fs.globals = hints.globalTypes)
    (given : ctx'.hints = hints) (inside : ctx'.routine ≠ SymbolName.mainRoutine) (explicit : Explicit vs)
    (apart : ∀ v ∈ vs, v.1 ≠ "this" → v.1 ∉ hints.globals ∧ classes.has v.1 = false)
    (declares : Declares vs st.enter st') : Knows hints classes st' ctx' (entered ctx'.routine vs fs) := by
  have isVariable (x : String) : (entered ctx'.routine vs fs).isVariable ctx' x ↔
      x ∈ vs.names ∨ x ∈ hints.globals := by
    rw [isVariable_entered, globals, given, atTop.types, or_self]
  constructor
  case found => exact declares.hints.trans atTop.found
  case globals => exact globals
  case typed => exact fun x => (atTop.types x).mpr
  case visible => exact fun x mem => declares.visible x (atTop.visible x mem)
  case held =>
    intro scope mem x other t found
    rw [isVariable]
    rcases declares.held scope mem x t found with own | ⟨scope, mem, found⟩
    · obtain ⟨τ, rfl⟩ := Option.isSome_iff_exists.mp (explicit.typed _ own)
      exact ⟨congrArg some (var_entered explicit.distinct own).symm, .inl (List.mem_map_of_mem own)⟩
    · rcases List.mem_cons.mp mem with rfl | mem
      · cases found
      · obtain ⟨typed, same⟩ := atTop.held scope mem x other t found
        obtain ⟨τ, rfl⟩ := Option.isSome_iff_exists.mp typed
        have isGlobal : x ∈ hints.globals := by
          rw [← atTop.types, ← Assoc.isSome_get?, same]
          rfl
        have noParam : x ∉ vs.names := by
          intro param
          obtain ⟨v, mem, rfl⟩ := List.mem_map.mp param
          exact (apart v mem other).1 isGlobal
        rw [var_entered_of_notMem noParam, globals, same]
        exact ⟨rfl, .inr isGlobal⟩
  case classes =>
    intro c other isClass
    rw [Bool.eq_false_iff, ne_eq, isVariable]
    rintro (param | isGlobal)
    · obtain ⟨v, mem, rfl⟩ := List.mem_map.mp param
      have noClass := (apart v mem other).2
      rw [isClass] at noClass
      cases noClass
    · exact atTop.classes c other isClass isGlobal
  case settled =>
    rw [entered, Infer.Facts.frame_setFrame, if_pos rfl]
    rfl
  case outside => exact fun isMain => absurd isMain inside

/-- A routine in its places: it has a receiver for both or for none, inference takes its parameters to be what they are
    declared as, and its variables are declared once, with a type, and share no name with a global or a class. -/
structure Fits (hints : Hints) (ctx : Context) (ctx' : Infer.Context) (hasThis : Bool) (params : List Param)
    (body : Stmt) : Prop extends ctx.Stands hints ctx' where
  inside : ctx'.routine ≠ SymbolName.mainRoutine
  own : Infer.ownSigils ctx' hasThis params = (ctx.receiver ++ variablesOf params).map fun v => (v.1, v.2.getD .int)
  named : ∀ p ∈ params, Identifier p.name
  proper : body.Proper
  explicit : Explicit (variablesOf params ++ body.declarations)
  apart : ∀ v ∈ variablesOf params ++ body.declarations, v.1 ∉ hints.globals ∧ ctx.classes.has v.1 = false

namespace Fits

variable {hasThis : Bool} {params : List Param} {body body' : Stmt}

theorem mem_receiver {v : String × Option Sigil} (mem : v ∈ ctx.receiver) : v.1 = "this" ∧ v.2.isSome := by
  unfold Context.receiver at mem
  split at mem
  · cases mem
  · obtain rfl := List.mem_singleton.mp mem
    exact ⟨rfl, rfl⟩

theorem explicit_params (fits : Fits hints ctx ctx' hasThis params body) :
    Explicit (ctx.receiver ++ variablesOf params) where
  distinct := by
    have distinct := fits.explicit.distinct
    rw [names_append] at distinct ⊢
    have receiver : ctx.receiver.names.Nodup := by
      unfold Context.receiver
      split
      · exact List.nodup_nil
      · exact List.nodup_singleton _
    refine List.nodup_append.mpr ⟨receiver, (List.nodup_append.mp distinct).1, ?_⟩
    rintro x this _ param rfl
    obtain ⟨v, mem, rfl⟩ := List.mem_map.mp this
    obtain ⟨w, param, same⟩ := List.mem_map.mp param
    obtain ⟨p, mem', rfl⟩ := List.mem_map.mp param
    exact (fits.named p mem').ne_keyword .this_ (same.trans (mem_receiver mem).1)
  typed := List.forall_mem_append.mpr ⟨fun v mem => (mem_receiver mem).2,
    (List.forall_mem_append.mp fits.explicit.typed).1⟩

theorem room (fits : Fits hints ctx ctx' hasThis params body) (globals : fs.globals = hints.globalTypes)
    (types : ∀ x, hints.globalTypes.has x ↔ x ∈ hints.globals) :
    Room hints ctx.classes ctx' (entered ctx'.routine (ctx.receiver ++ variablesOf params) fs) body.declarations := by
  have distinct := fits.explicit.distinct
  rw [names_append] at distinct
  have apart := (List.forall_mem_append.mp fits.apart).2
  constructor
  case distinct => exact (List.nodup_append.mp distinct).2.1
  case typed => exact (List.forall_mem_append.mp fits.explicit.typed).2
  case apart => exact fun v mem => (apart v mem).2
  case gathered => exact fun isMain => absurd isMain fits.inside
  case fresh =>
    intro _ v mem
    rw [Bool.eq_false_iff, ne_eq, isVariable_entered, globals, fits.given, types, or_self, names_append,
      List.mem_append]
    rintro ((receiver | param) | isGlobal)
    · obtain ⟨w, mem', same⟩ := List.mem_map.mp receiver
      exact fits.proper.declarations v mem (same.symm.trans (mem_receiver mem').1)
    · exact List.disjoint_of_nodup_append distinct param (List.mem_map_of_mem mem)
    · exact (apart v mem).1 isGlobal

end Fits

/-- Inference has answered some questions and still knows nothing about the routines named. -/
structure Pass (hints : Hints) (symbols : List String) (questions : List (Option Question)) (expressions : List Expr)
    (fs : Infer.Facts) : Prop where
  answers : List.Forall₂ Answers questions expressions
  clear : Clear hints symbols fs

theorem Pass.nothing (clear : Clear hints symbols fs) : Pass hints symbols [] [] fs := ⟨.nil, clear⟩

theorem Pass.seq {symbols' : List String} {qs qs' : List (Option Question)} {es es' : List Expr}
    (first : Pass hints symbols qs es fs) (second : Pass hints symbols' qs' es' fs') :
    Pass hints symbols' (qs ++ qs') (es ++ es') fs' :=
  ⟨List.rel_append first.answers second.answers, second.clear⟩

theorem recorded_routine (hasThis : Bool) (params : List Param) (body : Stmt) :
    recorded (Infer.routineSteps ctx' hasThis params body) = recorded (body.steps ctx') := by
  have silent : recorded (.enter ctx'.routine ::
      (Infer.ownSigils ctx' hasThis params).map fun p => .settleParam ctx'.routine p.1 p.2) = [] := by
    rw [recorded, List.filterMap_cons_none rfl]
    exact List.filterMap_eq_nil_iff.mpr (List.forall_mem_map.mpr fun _ _ => rfl)
  rw [Infer.routineSteps, recorded_append, silent, List.nil_append]

/-- Inference answers what is asked in a routine, and finds out nothing about others; the checker finds out nothing. -/
theorem follows_routine {hasThis : Bool} {params : List Param} {body body' : Stmt}
    (fits : Fits hints ctx ctx' hasThis params body) (atTop : AtTop hints ctx.classes st)
    (distinct : (ctx'.routine :: symbols).Nodup) (clear : Clear hints (ctx'.routine :: symbols) fs)
    (yields : Yields (routine ctx params body) st body' st') (bound : st'.hints.globals ⊆ hints.globals) :
    let r := (Infer.routine ctx' hasThis params body').run fs
    st' = st ∧ Pass hints symbols (askedInRoutine ctx st params body)
      (recorded (Infer.routineSteps ctx' hasThis params r.1)) r.2 := by
  intro r
  rw [routine_eq] at yields
  obtain ⟨inside, within, rfl⟩ := yields.of_inScope
  obtain ⟨_, st₁, received, checked⟩ := within.of_bind
  have declares := received.of_receive
  have others : ∀ v ∈ ctx.receiver ++ variablesOf params, v.1 ≠ "this" →
      v.1 ∉ hints.globals ∧ ctx.classes.has v.1 = false := by
    refine List.forall_mem_append.mpr ⟨fun v mem other => absurd (Fits.mem_receiver mem).1 other, fun v mem _ => ?_⟩
    exact fits.apart v (List.mem_append_left _ mem)
  have knows := atTop.enter clear.globals fits.given fits.inside fits.explicit_params others declares
  have room := fits.room clear.globals atTop.types
  have runs : r = (Infer.stmt ctx' body').run (entered ctx'.routine (ctx.receiver ++ variablesOf params) fs) := by
    have names : Assoc.names ((ctx.receiver ++ variablesOf params).map fun v => (v.1, v.2.getD .int)) =
        Assoc.names (ctx.receiver ++ variablesOf params) := List.map_map
    have own := Assoc.foldl_put_eq [] (names ▸ fits.explicit_params.distinct)
    show (Infer.routine ctx' hasThis params body').run fs = _
    rw [Infer.run_routine, clear.frames _ List.mem_cons_self, fits.own]
    exact congrArg (fun ps => (Infer.stmt ctx' body').run
      (fs.setFrame ctx'.routine { Infer.Frame.empty with params := ps })) own
  have follows := stmtFollows ctx body fits.proper fits.toStands checked knows bound room
  refine ⟨?same, ?answers, ?clear⟩
  case same =>
    have around : inside.scopes.tail = st.scopes := follows.around.trans declares.around
    have hints_ : inside.hints = st.hints := follows.knows.found.trans atTop.found.symm
    rw [State.leave, around, hints_]
  case answers =>
    rw [askedInRoutine, received.moves, recorded_routine, runs]
    exact follows.answers
  case clear =>
    rw [runs]
    refine ⟨follows.grows.globals.trans clear.globals, fun symbol mem => ?_⟩
    have other : symbol ≠ ctx'.routine := fun same => (List.nodup_cons.mp distinct).1 (same ▸ mem)
    rw [follows.grows.others symbol other, entered, Infer.Facts.frame_setFrame, if_neg other]
    exact clear.frames symbol (List.mem_cons_of_mem _ mem)

/-! ## Members of classes -/

/-- The expressions of fields. -/
def askedInFields (ctx : Context) (st : State) (xs : List Field) : List (Option Question) :=
  xs.flatMap fun f => f.init.toList.flatMap (ask { ctx with isStatic := true } st)

/-- The place of a method. -/
def Context.inMethod (ctx : Context) (m : Method) : Context :=
  { ctx with routine := methodSymbol ctx.cls m, isStatic := m.isStatic }

/-- The place of a constructor. -/
def Context.inCtor (ctx : Context) (k : Ctor) : Context :=
  { ctx with routine := SymbolName.ctor ctx.cls k.params.length }

/-- The expressions of methods. -/
def askedInMethods (ctx : Context) (st : State) : List Method → List (Option Question)
  | [] => []
  | m :: ms => askedInRoutine (ctx.inMethod m) st m.params m.body ++
    askedInMethods ctx (after (routine (ctx.inMethod m) m.params m.body) st) ms

/-- The expressions of constructors. -/
def askedInCtors (ctx : Context) (st : State) : List Ctor → List (Option Question)
  | [] => []
  | k :: ks => askedInRoutine (ctx.inCtor k) st k.params k.body ++
    askedInCtors ctx (after (routine (ctx.inCtor k) k.params k.body) st) ks

theorem follows_fields (stands : ctx.Stands hints ctx') (atTop : AtTop hints ctx.classes st)
    (mem : ctx'.routine ∈ symbols) (clear : Clear hints symbols fs) {xs xs' : List Field}
    (yields : Yields (fields ctx xs) st xs' st') :
    let r := (Infer.fields ctx' xs').run fs
    Pass hints symbols (askedInFields ctx st xs) (recorded (r.1.flatMap (Field.steps ctx'))) r.2 := by
  induction xs generalizing xs' fs st' with
  | nil =>
      unfold fields at yields
      obtain ⟨rfl, -⟩ := yields.of_pure
      exact .nothing clear
  | cons f xs ih =>
      unfold fields at yields
      obtain ⟨⟨init, got⟩, valued, yields⟩ := yields.of_seq
      obtain ⟨_, -, yields⟩ := yields.of_seq
      obtain ⟨xs', others, yields⟩ := yields.of_seq
      obtain ⟨rfl, -⟩ := yields.of_pure
      have stands' : Context.Stands hints { ctx with isStatic := true } ctx' :=
        ⟨⟨stands.cls, stands.base, stands.classes, stands.results⟩, stands.given, stands.outside⟩
      have init_ := Follows.option stands' (atTop.knows clear mem stands.given) valued
      let init' := ((Infer.valueOption ctx' init).run fs).1
      have silent : recorded (Field.steps ctx' { f with init := init' }) = recorded (Expr.optionSteps ctx' init') := by
        rw [Field.steps, recorded_append]
        split
        · exact List.append_nil _
        · exact List.append_nil _
      rw [Infer.run_fields]
      dsimp only
      rw [List.flatMap_cons, recorded_append, silent]
      apply Pass.seq ⟨init_.answers, clear⟩
      apply ih _ others
      split
      · exact ⟨clear.globals, clear.frames⟩
      · exact clear

theorem follows_methods (atTop : AtTop hints ctx.classes st) {ms ms' : List Method}
    (each : ∀ m ∈ ms, Fits hints (ctx.inMethod m) (ctx'.inMethod m) (!m.isStatic) m.params m.body)
    (distinct : (ms.map (methodSymbol ctx'.cls) ++ symbols).Nodup)
    (clear : Clear hints (ms.map (methodSymbol ctx'.cls) ++ symbols) fs)
    (yields : Yields (methods ctx ms) st ms' st') (bound : st'.hints.globals ⊆ hints.globals) :
    let r := (Infer.methods ctx' ms').run fs
    st' = st ∧ Pass hints symbols (askedInMethods ctx st ms) (recorded (r.1.flatMap (Method.steps ctx'))) r.2 := by
  induction ms generalizing ms' fs st' with
  | nil =>
      unfold methods at yields
      obtain ⟨rfl, rfl⟩ := yields.of_pure
      exact ⟨rfl, .nothing clear⟩
  | cons m ms ih =>
      unfold methods at yields
      obtain ⟨body, st₁, checked, yields⟩ := yields.of_bind
      obtain ⟨ms', st₂, others, yields⟩ := yields.of_bind
      obtain ⟨rfl, rfl⟩ := yields.of_pure
      obtain ⟨own, rest⟩ := List.forall_mem_cons.mp each
      obtain ⟨rfl, first⟩ := follows_routine own atTop distinct clear checked (List.Subset.trans others.grown bound)
      obtain ⟨rfl, second⟩ := ih rest (List.nodup_cons.mp distinct).2 first.clear others bound
      have moves : after (routine (ctx.inMethod m) m.params m.body) st₂ = st₂ := checked.moves
      refine ⟨rfl, ?_⟩
      rw [askedInMethods, moves, Infer.run_methods]
      dsimp only
      rw [List.flatMap_cons, recorded_append]
      exact first.seq second

theorem follows_ctors (atTop : AtTop hints ctx.classes st) {ks ks' : List Ctor}
    (each : ∀ k ∈ ks, Fits hints (ctx.inCtor k) (ctx'.inCtor k) true k.params k.body)
    (distinct : (ks.map (fun k => SymbolName.ctor ctx'.cls k.params.length) ++ symbols).Nodup)
    (clear : Clear hints (ks.map (fun k => SymbolName.ctor ctx'.cls k.params.length) ++ symbols) fs)
    (yields : Yields (ctors ctx ks) st ks' st') (bound : st'.hints.globals ⊆ hints.globals) :
    let r := (Infer.ctors ctx' ks').run fs
    st' = st ∧ Pass hints symbols (askedInCtors ctx st ks) (recorded (r.1.flatMap (Ctor.steps ctx'))) r.2 := by
  induction ks generalizing ks' fs st' with
  | nil =>
      unfold ctors at yields
      obtain ⟨rfl, rfl⟩ := yields.of_pure
      exact ⟨rfl, .nothing clear⟩
  | cons k ks ih =>
      unfold ctors at yields
      obtain ⟨body, st₁, checked, yields⟩ := yields.of_bind
      obtain ⟨ks', st₂, others, yields⟩ := yields.of_bind
      obtain ⟨rfl, rfl⟩ := yields.of_pure
      obtain ⟨own, rest⟩ := List.forall_mem_cons.mp each
      obtain ⟨rfl, first⟩ := follows_routine own atTop distinct clear checked (List.Subset.trans others.grown bound)
      obtain ⟨rfl, second⟩ := ih rest (List.nodup_cons.mp distinct).2 first.clear others bound
      have moves : after (routine (ctx.inCtor k) k.params k.body) st₂ = st₂ := checked.moves
      refine ⟨rfl, ?_⟩
      rw [askedInCtors, moves, Infer.run_ctors]
      dsimp only
      rw [List.flatMap_cons, recorded_append]
      exact first.seq second

end Check

end Lantern
