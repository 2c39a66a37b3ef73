import Lantern.Proofs.Questions

/-!
# Checking and inference side by side

The checker and inference meet the expressions of a statement in the same order. Where every variable is declared
once and with a type, they know the same about variables in front of a statement and behind it, so inference answers
each question of the checker on the way.
-/

namespace Lantern

/-! ## Declarations -/

mutual

/-- The variables a statement declares, at any depth, with the types that are written. Exceptions are objects. -/
def Stmt.declarations : Stmt → Assoc (Option Sigil)
  | .varDecl _ name type _ => [(name, type)]
  | .block _ body => declarationsOf body
  | .ifElse _ _ a b => a.declarations ++ (match b with
    | some b => b.declarations
    | none => [])
  | .while_ _ _ body | .doWhile _ body _ => body.declarations
  | .for_ _ init _ _ body => (match init with
    | some i => i.declarations
    | none => []) ++ body.declarations
  | .switch _ _ cs => declarationsInClauses cs
  | .try_ _ body cs last => body.declarations ++ declarationsInCatches cs ++ (match last with
    | some l => l.declarations
    | none => [])
  | .print .. | .expr .. | .assign .. | .indexAssign .. | .return_ .. | .throw_ .. | .break_ _ | .continue_ _ | .func _
  | .class_ _ | .bare _ | .printStmt .. => []

/-- The variables statements declare. -/
def declarationsOf : List Stmt → Assoc (Option Sigil)
  | [] => []
  | s :: ss => s.declarations ++ declarationsOf ss

/-- The variables the clauses of a switch declare. -/
def declarationsInClauses : List Clause → Assoc (Option Sigil)
  | [] => []
  | .case_ _ _ body :: cs | .default_ _ body :: cs => declarationsOf body ++ declarationsInClauses cs

/-- The variables handlers declare. -/
def declarationsInCatches : List Catch → Assoc (Option Sigil)
  | [] => []
  | ⟨_, _, name, body⟩ :: cs => (name, some (.object "")) :: (body.declarations ++ declarationsInCatches cs)

end

theorem Stmt.declarations_of_simple {s : Stmt} (simple : s.isSimple) : s.declarations = [] := by
  cases s with
  | expr | assign | indexAssign => rfl
  | _ => cases simple

mutual

/-- Variables that are read from source text are not named like the receiver. -/
theorem Stmt.Proper.declarations {s : Stmt} (proper : s.Proper) : ∀ v ∈ s.declarations, v.1 ≠ "this" := by
  cases s with
  | varDecl s name type init => exact List.forall_mem_singleton.mpr (proper.1.ne_keyword .this_)
  | block s body => exact properAll_declarations proper
  | ifElse s c a b =>
      unfold Stmt.Proper at proper
      unfold Stmt.declarations
      refine List.forall_mem_append.mpr ⟨proper.2.1.declarations, ?_⟩
      cases b with
      | none => exact List.forall_mem_nil _
      | some b => exact proper.2.2.declarations
  | while_ s c body | doWhile s body c => exact proper.2.declarations
  | for_ s init cond post body =>
      unfold Stmt.Proper at proper
      unfold Stmt.declarations
      refine List.forall_mem_append.mpr ⟨?_, proper.2.2.2.declarations⟩
      cases init with
      | none => exact List.forall_mem_nil _
      | some i => exact proper.1.declarations
  | switch s e cs => exact properClauses_declarations proper.2
  | try_ s body cs last =>
      unfold Stmt.Proper at proper
      unfold Stmt.declarations
      refine List.forall_mem_append.mpr ⟨List.forall_mem_append.mpr
        ⟨proper.1.declarations, properCatches_declarations proper.2.1⟩, ?_⟩
      cases last with
      | none => exact List.forall_mem_nil _
      | some l => exact proper.2.2.declarations
  | _ => exact List.forall_mem_nil _

theorem properAll_declarations {ss : List Stmt} (proper : properAll ss) : ∀ v ∈ declarationsOf ss, v.1 ≠ "this" := by
  cases ss with
  | nil => exact List.forall_mem_nil _
  | cons s ss => exact List.forall_mem_append.mpr ⟨proper.1.declarations, properAll_declarations proper.2⟩

theorem properClauses_declarations {cs : List Clause} (proper : properClauses cs) :
    ∀ v ∈ declarationsInClauses cs, v.1 ≠ "this" := by
  match cs with
  | [] => exact List.forall_mem_nil _
  | .case_ s v body :: cs =>
      exact List.forall_mem_append.mpr ⟨properAll_declarations proper.2.1, properClauses_declarations proper.2.2⟩
  | .default_ s body :: cs =>
      exact List.forall_mem_append.mpr ⟨properAll_declarations proper.1, properClauses_declarations proper.2⟩

theorem properCatches_declarations {cs : List Catch} (proper : properCatches cs) :
    ∀ v ∈ declarationsInCatches cs, v.1 ≠ "this" := by
  match cs with
  | [] => exact List.forall_mem_nil _
  | ⟨s, type, name, body⟩ :: cs =>
      exact List.forall_mem_cons.mpr ⟨proper.1.ne_keyword .this_, List.forall_mem_append.mpr
        ⟨proper.2.1.declarations, properCatches_declarations proper.2.2⟩⟩

end

namespace Check

open SymbolName (mainRoutine)

/-! ## What both know -/

theorem names_append {α : Type} (xs ys : Assoc α) : Assoc.names (xs ++ ys) = xs.names ++ ys.names := List.map_append

/-- Where the checker and inference stand in the same place, under the hints that the checker gives in the end. -/
structure Context.Stands (hints : Hints) (ctx : Context) (ctx' : Infer.Context) : Prop extends ctx.Matches ctx' where
  given : ctx'.hints = hints
  outside : ctx.routine.isEmpty ↔ ctx'.routine = mainRoutine

variable {hints : Hints} {ctx : Context} {classes : ClassTable} {ctx' : Infer.Context} {st st' st'' : State}
  {fs fs' fs'' : Infer.Facts} {vs ws : Assoc (Option Sigil)} {name : String} {τ : Sigil}

theorem Context.Stands.inLoop (stands : ctx.Stands hints ctx') : ctx.inLoop.Stands hints ctx' :=
  ⟨⟨stands.cls, stands.base, stands.classes, stands.results⟩, stands.given, stands.outside⟩

theorem Context.Stands.inSwitch (stands : ctx.Stands hints ctx') : ctx.inSwitch.Stands hints ctx' :=
  ⟨⟨stands.cls, stands.base, stands.classes, stands.results⟩, stands.given, stands.outside⟩

/-- What both know in front of or behind a statement. The checker has found nothing new, every global has a type and
    is visible, and what scopes hold is what inference knows. No variable waits for its sigil, and outside of routines
    there are no variables but globals. -/
structure Knows (hints : Hints) (classes : ClassTable) (st : State) (ctx' : Infer.Context) (fs : Infer.Facts) :
    Prop where
  found : st.hints = hints
  globals : fs.globals = hints.globalTypes
  typed : ∀ x ∈ hints.globals, hints.globalTypes.has x
  visible : ∀ x ∈ hints.globals, (lookup? st.scopes x).isSome
  held : ∀ scope ∈ st.scopes, ∀ x ≠ "this", ∀ t, scope.get? x = some t →
    t = some (fs.var ctx'.routine x) ∧ fs.isVariable ctx' x
  classes : ∀ c ≠ "this", classes.has c → fs.isVariable ctx' c = false
  settled : (fs.frame ctx'.routine).pending = []
  outside : ctx'.routine = mainRoutine → fs.frame mainRoutine = Infer.Frame.empty

/-- Variables may be declared: each has a name of its own and a type. Outside of routines that is the type the checker
    has gathered; inside, inference does not know the name yet. -/
structure Room (hints : Hints) (classes : ClassTable) (ctx' : Infer.Context) (fs : Infer.Facts)
    (vs : Assoc (Option Sigil)) : Prop where
  distinct : vs.names.Nodup
  typed : ∀ v ∈ vs, v.2.isSome
  apart : ∀ v ∈ vs, classes.has v.1 = false
  gathered : ctx'.routine = mainRoutine → ∀ v ∈ vs, hints.globalTypes.get? v.1 = v.2
  fresh : ctx'.routine ≠ mainRoutine → ∀ v ∈ vs, fs.isVariable ctx' v.1 = false

/-- What inference knows has grown by variables of one routine. -/
structure Grows (ctx' : Infer.Context) (names : List String) (fs fs' : Infer.Facts) : Prop where
  globals : fs'.globals = fs.globals
  others : ∀ r ≠ ctx'.routine, fs'.frame r = fs.frame r
  grown : ∀ x, fs'.isVariable ctx' x → fs.isVariable ctx' x ∨ x ∈ names

theorem Grows.refl (ctx' : Infer.Context) (fs : Infer.Facts) : Grows ctx' [] fs fs :=
  ⟨rfl, fun _ _ => rfl, fun _ => .inl⟩

theorem Grows.trans {names names' : List String} (first : Grows ctx' names fs fs')
    (second : Grows ctx' names' fs' fs'') : Grows ctx' (names ++ names') fs fs'' where
  globals := second.globals.trans first.globals
  others r other := (second.others r other).trans (first.others r other)
  grown x known := by
    rcases second.grown x known with before | own
    · exact (first.grown x before).imp_right (List.mem_append_left names')
    · exact .inr (List.mem_append_right _ own)

theorem Room.left (room : Room hints classes ctx' fs (vs ++ ws)) : Room hints classes ctx' fs vs where
  distinct := (List.nodup_append.mp (names_append vs ws ▸ room.distinct)).1
  typed v mem := room.typed v (List.mem_append_left ws mem)
  apart v mem := room.apart v (List.mem_append_left ws mem)
  gathered isMain v mem := room.gathered isMain v (List.mem_append_left ws mem)
  fresh inside v mem := room.fresh inside v (List.mem_append_left ws mem)

theorem Room.right (room : Room hints classes ctx' fs (vs ++ ws)) (grows : Grows ctx' vs.names fs fs') :
    Room hints classes ctx' fs' ws where
  distinct := (List.nodup_append.mp (names_append vs ws ▸ room.distinct)).2.1
  typed v mem := room.typed v (List.mem_append_right vs mem)
  apart v mem := room.apart v (List.mem_append_right vs mem)
  gathered isMain v mem := room.gathered isMain v (List.mem_append_right vs mem)
  fresh inside v mem := by
    have names : (vs.names ++ ws.names).Nodup := names_append vs ws ▸ room.distinct
    have unknown := room.fresh inside v (List.mem_append_right vs mem)
    by_contra known
    rcases grows.grown v.1 (by simpa using known) with before | own
    · exact absurd before (by simp [unknown])
    · exact List.disjoint_of_nodup_append names own (List.mem_map_of_mem mem)

theorem exists_of_lookup? {scopes : List Scope} {t : Option Sigil} (found : lookup? scopes name = some t) :
    ∃ scope ∈ scopes, scope.get? name = some t := by
  induction scopes with
  | nil => cases found
  | cons s rest ih =>
      unfold lookup? at found
      split at found
      · next t' known => exact ⟨s, List.mem_cons_self, known.trans found⟩
      · obtain ⟨scope, mem, known⟩ := ih found
        exact ⟨scope, List.mem_cons_of_mem s mem, known⟩

theorem Knows.agrees (knows : Knows hints ctx.classes st ctx' fs) : ctx.Agrees st ctx' fs where
  known x other t found := by
    obtain ⟨scope, mem, known⟩ := exists_of_lookup? found
    exact knows.held scope mem x other t known
  classes := knows.classes

/-! ## Side by side -/

/-- The expressions whose sigils steps record. -/
def recorded (steps : List Infer.Step) : List Expr := steps.filterMap Infer.Step.recorded?

@[simp] theorem recorded_nil : recorded [] = [] := rfl

@[simp] theorem recorded_append (steps steps' : List Infer.Step) :
    recorded (steps ++ steps') = recorded steps ++ recorded steps' :=
  List.filterMap_append

@[simp] theorem recorded_expr (e : Expr) : recorded (e.steps ctx') = e.visits := by
  rw [recorded, Expr.steps, List.filterMap_map]
  exact List.filterMap_some

@[simp] theorem recorded_declare (name : String) (s : Option Sigil) : recorded [.declare ctx' name s] = [] := rfl

@[simp] theorem recorded_assign (name : String) (s : Sigil) : recorded [.assign ctx' name s] = [] := rfl

@[simp] theorem recorded_option (o : Option Expr) :
    recorded (Expr.optionSteps ctx' o) = o.toList.flatMap Expr.visits := by
  cases o with
  | none => rfl
  | some e => simp [Expr.optionSteps]

/-- From one state and what inference knows in it to others: the questions asked in between are answered by the
    expressions recorded, and only the innermost scope has changed. -/
structure Follows (hints : Hints) (classes : ClassTable) (ctx' : Infer.Context) (vs : Assoc (Option Sigil)) (st : State)
    (fs : Infer.Facts) (questions : List (Option Question)) (expressions : List Expr) (st' : State)
    (fs' : Infer.Facts) : Prop where
  answers : List.Forall₂ Answers questions expressions
  knows : Knows hints classes st' ctx' fs'
  grows : Grows ctx' vs.names fs fs'
  around : st'.scopes.tail = st.scopes.tail

namespace Follows

variable {qs qs' : List (Option Question)} {es es' : List Expr}

theorem nothing (knows : Knows hints classes st ctx' fs) : Follows hints classes ctx' [] st fs [] [] st fs :=
  ⟨.nil, knows, .refl ctx' fs, rfl⟩

theorem seq (first : Follows hints classes ctx' vs st fs qs es st' fs')
    (second : Follows hints classes ctx' ws st' fs' qs' es' st'' fs'') :
    Follows hints classes ctx' (vs ++ ws) st fs (qs ++ qs') (es ++ es') st'' fs'' where
  answers := List.rel_append first.answers second.answers
  knows := second.knows
  grows := names_append vs ws ▸ first.grows.trans second.grows
  around := second.around.trans first.around

/-- An expression changes nothing. -/
theorem value (stands : ctx.Stands hints ctx') (knows : Knows hints ctx.classes st ctx' fs) {e e' : Expr}
    {t : Option Sigil} (yields : Yields (expr ctx e) st (e', t) st') :
    Follows hints ctx.classes ctx' [] st fs (ask ctx st e) (Infer.expr ctx' fs e').visits st fs :=
  ⟨answers_ask stands.toMatches knows.agrees yields, knows, .refl ctx' fs, rfl⟩

/-- What happens in a scope of its own changes nothing outside of it. -/
theorem scope (knows : Knows hints classes st ctx' fs)
    (inside : Follows hints classes ctx' vs st.enter fs qs es st' fs') :
    Follows hints classes ctx' vs st fs qs es st'.leave fs' where
  answers := inside.answers
  grows := inside.grows
  around := congrArg List.tail inside.around
  knows := {
    inside.knows with
    visible := fun x mem => by
      rw [State.leave, inside.around]
      exact knows.visible x mem
    held := fun scope mem => inside.knows.held scope (List.mem_of_mem_tail mem) }

end Follows

/-! ## Variables -/

theorem isVariable_settleLocal (x : String) : (fs.settleLocal ctx'.routine name τ).isVariable ctx' x ↔
    fs.isVariable ctx' x ∨ x = name := by
  have frame : (fs.settleLocal ctx'.routine name τ).frame ctx'.routine =
      { fs.frame ctx'.routine with
        locals := (fs.frame ctx'.routine).locals.put name τ
        pending := (fs.frame ctx'.routine).pending.filter (· != name) } := by
    rw [Infer.Facts.settleLocal, Infer.Facts.frame_setFrame, if_pos rfl]
  have globals : (fs.settleLocal ctx'.routine name τ).globals = fs.globals := rfl
  simp only [Infer.Facts.isVariable, Infer.Frame.knows, frame, globals, Bool.or_eq_true, Assoc.has_put,
    List.contains_eq_mem, List.mem_filter, decide_eq_true_eq, bne_iff_ne]
  tauto

theorem var_settleLocal (x : String) (unknown : ((fs.frame ctx'.routine).params.get? name) = none) :
    (fs.settleLocal ctx'.routine name τ).var ctx'.routine x =
      if x = name then τ else fs.var ctx'.routine x := by
  simp only [Infer.Facts.var, Infer.Facts.settleLocal, Infer.Facts.frame_setFrame, if_pos, Assoc.get?_put]
  split
  · next same => rw [same, unknown]; rfl
  · rfl

/-- Nothing has changed but that a scope may hold the given variables. -/
structure Declares (vs : Assoc (Option Sigil)) (st st' : State) : Prop where
  hints : st'.hints = st.hints
  around : st'.scopes.tail = st.scopes.tail
  visible : ∀ x, (lookup? st.scopes x).isSome → (lookup? st'.scopes x).isSome
  held : ∀ scope' ∈ st'.scopes, ∀ x t, scope'.get? x = some t →
    (x, t) ∈ vs ∨ ∃ scope ∈ st.scopes, scope.get? x = some t

theorem Declares.refl (vs : Assoc (Option Sigil)) (st : State) : Declares vs st st :=
  ⟨rfl, rfl, fun _ => id, fun scope mem _ _ known => .inr ⟨scope, mem, known⟩⟩

theorem Declares.trans (first : Declares vs st st') (second : Declares ws st' st'') : Declares (vs ++ ws) st st'' where
  hints := second.hints.trans first.hints
  around := second.around.trans first.around
  visible x known := second.visible x (first.visible x known)
  held scope'' mem x t known := by
    rcases second.held scope'' mem x t known with own | ⟨scope', mem, known⟩
    · exact .inl (List.mem_append_right vs own)
    · exact (first.held scope' mem x t known).imp_left (List.mem_append_left ws)

theorem declares_put (name : String) (t : Option Sigil) (scope : Scope) (rest : List Scope) (h : Hints) :
    Declares [(name, t)] ⟨scope :: rest, h⟩ ⟨scope.put name t :: rest, h⟩ where
  hints := rfl
  around := rfl
  visible x known := by
    unfold lookup? at known ⊢
    rw [Assoc.get?_put]
    by_cases same : x = name
    · simp [same]
    · rwa [if_neg same]
  held scope' mem x t' known := by
    rcases List.mem_cons.mp mem with rfl | mem
    · rw [Assoc.get?_put] at known
      split at known
      · next same =>
          obtain rfl := Option.some.inj known
          exact .inl (List.mem_singleton.mpr (by rw [same]))
      · exact .inr ⟨scope, List.mem_cons_self, known⟩
    · exact .inr ⟨scope', List.mem_cons_of_mem scope mem, known⟩

theorem Yields.of_modify {f : State → State} {u : Unit} (yields : Yields (modify f : Checking Unit) st u st') :
    st' = f st := by
  obtain ⟨log, log', run⟩ := yields
  cases run
  rfl

theorem Yields.of_declare {t : Option Sigil} {u : Unit} (yields : Yields (declare name t) st u st') :
    Declares [(name, t)] st st' := by
  obtain rfl := yields.of_modify
  obtain ⟨scopes, h⟩ := st
  cases scopes with
  | nil => exact .refl _ _
  | cons scope rest =>
      dsimp only
      split
      · exact .refl _ _
      · exact declares_put name t scope rest h
      · exact declares_put name t scope rest h

theorem Yields.of_variableDecl (knows : Knows hints ctx.classes st ctx' fs) (proper : name ≠ "this") {at_ : Span}
    {got : Option Sigil} {u : Unit} (yields : Yields (variableDecl ctx at_ name (some τ) got) st u st') :
    Declares [(name, some τ)] st st' := by
  unfold variableDecl at yields
  obtain ⟨_, -, yields⟩ := yields.of_seq
  dsimp only at yields
  split at yields
  · obtain ⟨found, looked, yields⟩ := yields.of_seq
    obtain ⟨rfl, -⟩ := looked.of_pure
    split at yields
    · next untyped =>
        -- Every global in scope has its type already.
        cases (knows.agrees.known name proper none untyped).1
    · obtain ⟨-, rfl⟩ := yields.of_pure
      exact .refl _ st
  · obtain ⟨isLocal, -, yields⟩ := yields.of_seq
    split at yields
    · exact (not_yields_refused yields).elim
    · exact yields.of_declare

/-- A known global without a type gets one. -/
def withType (name : String) (type : Option Sigil) (st : State) : State :=
  match type, lookup? st.scopes name with
  | some t, some none =>
    ⟨retype name type st.scopes, { st.hints with globalTypes := st.hints.globalTypes.put name t }⟩
  | _, _ => st

/-- Gives a known global its type if it has none. -/
def settleGlobal (name : String) (type : Option Sigil) : Checking Unit := do
  if let some t := type then
    if let some none ← find? name then
      setType name type
      modify fun st => { st with hints := { st.hints with globalTypes := st.hints.globalTypes.put name t } }

/-- The state behind the declaration of a global variable. -/
def withGlobal (name : String) (type : Option Sigil) (st : State) : State :=
  withType name type
    ⟨if (st.scopes.headD []).has name then st.scopes else addToLast name st.scopes, st.hints.addGlobal name⟩

theorem mem_withGlobal (name : String) (type : Option Sigil) (st : State) :
    name ∈ (withGlobal name type st).hints.globals := by
  have added : name ∈ (st.hints.addGlobal name).globals := by
    simp only [Hints.addGlobal, addNew]
    split
    · next known => simpa using known
    · simp
  unfold withGlobal withType
  split
  · exact added
  · exact added

theorem Yields.of_settleGlobal {type : Option Sigil} {u : Unit} (yields : Yields (settleGlobal name type) st u st') :
    st' = withType name type st := by
  unfold settleGlobal at yields
  unfold withType
  cases type with
  | none =>
      obtain ⟨-, rfl⟩ := yields.of_pure
      rfl
  | some t =>
      obtain ⟨found, looked, yields⟩ := yields.of_seq
      obtain ⟨rfl, -⟩ := looked.of_pure
      split at yields
      · next untyped =>
          obtain ⟨_, st₁, retyped, yields⟩ := yields.of_bind
          obtain rfl := retyped.of_modify
          obtain rfl := yields.of_modify
          rw [untyped]
      · next other =>
          obtain ⟨-, rfl⟩ := yields.of_pure
          split
          · next untyped => exact (other untyped).elim
          · rfl

theorem Yields.of_declareGlobal {type : Option Sigil} {at_ : Span} {u : Unit}
    (yields : Yields (declareGlobal classes name type at_) st u st') :
    classes.has name = false ∧ st' = withGlobal name type st := by
  unfold declareGlobal at yields
  dsimp only at yields
  split at yields
  · exact (not_yields_refused yields).elim
  · next noClass =>
      refine ⟨by simpa using noClass, ?_⟩
      obtain ⟨_, st₁, added, yields⟩ := yields.of_bind
      obtain rfl := added.of_modify
      obtain ⟨isLocal, looked, yields⟩ := yields.of_seq
      obtain ⟨rfl, -⟩ := looked.of_pure
      unfold withGlobal
      split at yields
      · next known =>
          rw [if_pos known]
          exact Yields.of_settleGlobal yields
      · next unknown =>
          obtain ⟨_, st₁, last, yields⟩ := yields.of_bind
          obtain rfl := last.of_modify
          rw [if_neg unknown]
          exact Yields.of_settleGlobal yields

/-- Where no global is found later, what is assigned to is a variable. -/
theorem Yields.of_assignment (knows : Knows hints ctx.classes st ctx' fs)
    (bound : st'.hints.globals ⊆ hints.globals) {at_ : Span} {got : Option Sigil} {u : Unit}
    (yields : Yields (assignment ctx at_ name got) st u st') : st' = st ∧ fs.isVariable ctx' name := by
  unfold assignment at yields
  obtain ⟨found, looked, yields⟩ := yields.of_seq
  obtain ⟨rfl, -⟩ := looked.of_pure
  split at yields
  · next unknown =>
      dsimp only at yields
      split at yields
      · exact (not_yields_refused yields).elim
      · obtain ⟨_, -, yields⟩ := yields.of_seq
        obtain ⟨-, rfl⟩ := yields.of_declareGlobal
        have visible := knows.visible name (bound (mem_withGlobal name none st))
        rw [unknown] at visible
        cases visible
  · next type known =>
      dsimp only at yields
      split at yields
      · exact (not_yields_refused yields).elim
      · next other =>
          obtain ⟨typed, isVariable⟩ := knows.agrees.known name (by simpa using other) type known
          obtain ⟨_, -, yields⟩ := yields.of_seq
          subst typed
          obtain ⟨-, rfl⟩ := yields.of_pure
          exact ⟨rfl, isVariable⟩

theorem assign_eq (knows : Knows hints classes st ctx' fs) (stands : ctx'.hints = hints)
    (isVariable : fs.isVariable ctx' name) (s : Sigil) : fs.assign ctx' name s = fs := by
  rw [Infer.Facts.assign, knows.settled]
  simp only [List.contains_nil, Bool.false_eq_true, if_false]
  split
  · next isMain =>
      have isMain : ctx'.routine = mainRoutine := by simpa using isMain
      have known : fs.globals.has name := by
        simp only [Infer.Facts.isVariable, isMain, knows.outside isMain, Infer.Frame.knows, Infer.Frame.empty, stands,
          Bool.or_eq_true] at isVariable
        rcases isVariable with (isLocal | known) | isGlobal
        · simp [Assoc.has] at isLocal
        · exact known
        · rw [knows.globals]
          exact knows.typed name (by simpa using isGlobal)
      rw [Infer.Facts.settleGlobal, if_pos known]
  · rfl

/-- Behind a declaration both know the new variable. -/
theorem knows_declare (knows : Knows hints classes st ctx' fs) (given : ctx'.hints = hints)
    (room : Room hints classes ctx' fs [(name, some τ)]) (declares : Declares [(name, some τ)] st st') :
    Knows hints classes st' ctx' (fs.declare ctx' name (some τ)) ∧
      Grows ctx' [name] fs (fs.declare ctx' name (some τ)) := by
  have visible : ∀ x ∈ hints.globals, (lookup? st'.scopes x).isSome :=
    fun x mem => declares.visible x (knows.visible x mem)
  by_cases isMain : ctx'.routine = mainRoutine
  · have gathered : hints.globalTypes.get? name = some τ := room.gathered isMain _ List.mem_cons_self
    have isGlobal : hints.globalTypes.has name := by rw [← Assoc.isSome_get?, gathered]; rfl
    have same : fs.declare ctx' name (some τ) = fs := by simp [Infer.Facts.declare, isMain, given, isGlobal]
    have own : fs.var ctx'.routine name = τ := by
      rw [Infer.Facts.var, isMain, knows.outside isMain, knows.globals, gathered]
      rfl
    have isVariable : fs.isVariable ctx' name := by simp [Infer.Facts.isVariable, knows.globals, isGlobal]
    rw [same]
    refine ⟨{ knows with
      found := declares.hints.trans knows.found
      visible := visible
      held := fun scope' mem x other t known => ?_ }, rfl, fun _ _ => rfl, fun _ => .inl⟩
    rcases declares.held scope' mem x t known with new | ⟨scope, before, known⟩
    · cases List.mem_singleton.mp new
      exact ⟨congrArg some own.symm, isVariable⟩
    · exact knows.held scope before x other t known
  · have fresh : fs.isVariable ctx' name = false := room.fresh isMain _ List.mem_cons_self
    have unknown : (fs.frame ctx'.routine).knows name = false := by
      simp only [Infer.Facts.isVariable, Bool.or_eq_false_iff] at fresh
      exact fresh.1.1
    simp only [Infer.Frame.knows, Bool.or_eq_false_iff] at unknown
    have noParam : (fs.frame ctx'.routine).params.get? name = none := (Assoc.get?_eq_none_iff _ _).mpr unknown.1.1
    have settles : fs.declare ctx' name (some τ) = fs.settleLocal ctx'.routine name τ := by
      simp [Infer.Facts.declare, isMain, unknown.1.2]
    rw [settles]
    constructor
    case right =>
      refine ⟨rfl, fun r other => ?_, fun x known => ?_⟩
      · rw [Infer.Facts.settleLocal, Infer.Facts.frame_setFrame, if_neg other]
      · exact ((isVariable_settleLocal x).mp known).imp_right List.mem_singleton.mpr
    case left =>
      refine { knows with
        found := declares.hints.trans knows.found
        visible := visible
        outside := fun is => absurd is isMain
        held := fun scope' mem x other t known => ?held
        classes := fun c other isClass => ?classes
        settled := ?settled }
      case held =>
        rw [var_settleLocal x noParam, isVariable_settleLocal x]
        rcases declares.held scope' mem x t known with new | ⟨scope, before, known⟩
        · cases List.mem_singleton.mp new
          exact ⟨by rw [if_pos rfl], .inr rfl⟩
        · obtain ⟨typed, isVariable⟩ := knows.held scope before x other t known
          have distinct : x ≠ name := by
            rintro rfl
            simp [fresh] at isVariable
          exact ⟨by rw [if_neg distinct, typed], .inl isVariable⟩
      case classes =>
        have distinct : c ≠ name := by
          rintro rfl
          simpa [isClass] using room.apart _ List.mem_cons_self
        rw [Bool.eq_false_iff]
        intro isVariable
        rcases (isVariable_settleLocal c).mp isVariable with before | same
        · simp [knows.classes c other isClass] at before
        · exact distinct same
      case settled =>
        rw [Infer.Facts.settleLocal, Infer.Facts.frame_setFrame, if_pos rfl]
        simp [knows.settled]

/-! ## Parts of statements -/

theorem Yields.of_inScope {α : Type} {x : Checking α} {a : α} (yields : Yields (inScope x) st a st') :
    ∃ inside, Yields x st.enter a inside ∧ st' = inside.leave := by
  unfold inScope at yields
  obtain ⟨_, st₁, entered, yields⟩ := yields.of_bind
  obtain rfl := entered.of_modify
  obtain ⟨b, inside, within, yields⟩ := yields.of_bind
  obtain ⟨_, st₂, left, yields⟩ := yields.of_bind
  obtain rfl := left.of_modify
  obtain ⟨rfl, rfl⟩ := yields.of_pure
  exact ⟨inside, within, rfl⟩

theorem Yields.of_exprOnly {e e' : Expr} (yields : Yields (exprOnly ctx e) st e' st') :
    ∃ t, Yields (expr ctx e) st (e', t) st := by
  unfold exprOnly at yields
  obtain ⟨r, checked, yields⟩ := yields.of_seq
  obtain ⟨rfl, -⟩ := yields.of_pure
  exact ⟨r.2, checked⟩

/-- Checks an expression that is compared with the subject of a switch. -/
def compared (ctx : Context) (subject : Option Sigil) (v : Expr) : Checking Expr := do
  let (value, type) ← expr ctx v
  if let (some s, some t) := (subject, type) then
    if s.isStr != t.isStr then
      warn .type value.span ("Case value of type '" ++ t.name ++
        "' compared with switch subject of type '" ++ s.name ++ "'")
  return value

theorem Yields.of_compared {subject : Option Sigil} {v v' : Expr} (yields : Yields (compared ctx subject v) st v' st') :
    ∃ t, Yields (expr ctx v) st (v', t) st := by
  unfold compared at yields
  obtain ⟨⟨value, t⟩, checked, yields⟩ := yields.of_seq
  have same : value = v' := by
    dsimp only at yields
    split at yields
    · split at yields
      · obtain ⟨_, -, yields⟩ := yields.of_seq
        exact yields.of_pure.1
      · exact yields.of_pure.1
    · exact yields.of_pure.1
  exact ⟨t, same ▸ checked⟩

theorem Yields.of_clauseValue {subject : Option Sigil} {v v' : Expr}
    (yields : Yields (clauseValue ctx subject v) st v' st') : ∃ t, Yields (expr ctx v) st (v', t) st := by
  unfold clauseValue at yields
  split at yields
  · exact Yields.of_compared yields
  · exact Yields.of_compared yields
  · exact Yields.of_compared yields
  · obtain ⟨_, -, yields⟩ := yields.of_seq
    exact Yields.of_compared yields

theorem Yields.of_target {b b' k k' : Expr} (yields : Yields (target ctx b k) st (b', k') st') :
    (isStaticTarget ctx st b k ∧ b' = b ∧ k' = k) ∨
      ¬isStaticTarget ctx st b k ∧ ∃ t u, Yields (expr ctx b) st (b', t) st ∧ Yields (expr ctx k) st (k', u) st := by
  have inner (yields : Yields (do
      let base ← exprOnly ctx b
      let key ← exprOnly ctx k
      return (base, key) : Checking (Expr × Expr)) st (b', k') st') :
      ∃ t u, Yields (expr ctx b) st (b', t) st ∧ Yields (expr ctx k) st (k', u) st := by
    obtain ⟨b₁, base, yields⟩ := yields.of_seq
    obtain ⟨k₁, key, yields⟩ := yields.of_seq
    cases yields.of_pure.1
    obtain ⟨t, base⟩ := base.of_exprOnly
    obtain ⟨u, key⟩ := key.of_exprOnly
    exact ⟨t, u, base, key⟩
  unfold target at yields
  dsimp only at yields
  split at yields
  · next i name j field same =>
      obtain ⟨rfl, rfl⟩ := Prod.mk.inj same
      obtain ⟨known, looked, yields⟩ := yields.of_seq
      obtain ⟨rfl, -⟩ := looked.of_pure
      split at yields
      · next visible =>
          refine .inr ⟨?_, inner yields⟩
          simp [isStaticTarget, Option.isSome_iff_ne_none.mp visible]
      · next hidden =>
          split at yields
          · next isClass =>
              have hidden : lookup? st.scopes name = none := by simpa using hidden
              refine .inl ⟨by simp [isStaticTarget, hidden, isClass], ?_⟩
              split at yields
              · split at yields
                · exact (not_yields_refused yields).elim
                · cases yields.of_pure.1
                  exact ⟨rfl, rfl⟩
              · exact (not_yields_refused yields).elim
          · next noClass => exact .inr ⟨by simp [isStaticTarget, noClass], inner yields⟩
  · next other =>
      refine .inr ⟨?_, inner yields⟩
      unfold isStaticTarget
      split
      · exact (other _ _ _ _ rfl).elim
      · exact Bool.false_ne_true

namespace Follows

theorem option (stands : ctx.Stands hints ctx') (knows : Knows hints ctx.classes st ctx' fs) {o o' : Option Expr}
    {t : Option Sigil} (yields : Yields (exprOption ctx o) st (o', t) st') :
    Follows hints ctx.classes ctx' [] st fs (o.toList.flatMap (ask ctx st))
      (recorded (Expr.optionSteps ctx' ((Infer.valueOption ctx' o').run fs).1)) st
      ((Infer.valueOption ctx' o').run fs).2 := by
  unfold exprOption at yields
  cases o with
  | none =>
      cases yields.of_pure.1
      exact nothing knows
  | some e =>
      obtain ⟨r, checked, yields⟩ := yields.of_seq
      cases yields.of_pure.1
      have answers := value stands knows checked
      rw [recorded_option]
      show Follows _ _ _ _ _ _ (ask ctx st e ++ []) ((Infer.expr ctx' fs r.1).visits ++ []) _ _
      rwa [List.append_nil, List.append_nil]

/-- Of what is assigned to, a class and its static field are passed over. -/
theorem target (stands : ctx.Stands hints ctx') (knows : Knows hints ctx.classes st ctx' fs) {b b' k k' : Expr}
    (yields : Yields (target ctx b k) st (b', k') st') :
    Follows hints ctx.classes ctx' [] st fs
      (if isStaticTarget ctx st b k then (b.visits ++ k.visits).map fun _ => none else ask ctx st b ++ ask ctx st k)
      ((Infer.expr ctx' fs b').visits ++ (Infer.expr ctx' fs k').visits) st fs := by
  obtain ⟨static_, rfl, rfl⟩ | ⟨static_, t, u, base, key⟩ := yields.of_target
  · rw [if_pos static_, visits_expr, visits_expr, ← List.map_append]
    refine ⟨?_, knows, .refl ctx' fs, rfl⟩
    apply List.forall₂_map_left_iff.mpr
    apply List.forall₂_map_right_iff.mpr
    exact List.forall₂_same.mpr fun _ _ _ => nofun
  · rw [if_neg static_]
    exact (value stands knows base).seq (value stands knows key)

end Follows

/-! ## Statements -/

theorem Yields.grown {α : Type} {x : Checking α} {a : α} [Steady MoreGlobals x] (yields : Yields x st a st') :
    st.hints.globals ⊆ st'.hints.globals :=
  yields.related (R := MoreGlobals)

theorem Yields.moves {α : Type} {x : Checking α} {a : α} [Steady MoreGlobals x] (yields : Yields x st a st') :
    after x st = st' :=
  yields.after_eq (R := MoreGlobals)

section Statements

variable (hints)

/-- What inference makes of a checked statement follows the checker. -/
def StmtFollows (ctx : Context) (s : Stmt) : Prop :=
  ∀ ⦃ctx' : Infer.Context⦄ ⦃st st' : State⦄ ⦃fs : Infer.Facts⦄ ⦃s' : Stmt⦄, ctx.Stands hints ctx' →
    Yields (stmt ctx s) st s' st' → Knows hints ctx.classes st ctx' fs → st'.hints.globals ⊆ hints.globals →
    Room hints ctx.classes ctx' fs s.declarations →
    Follows hints ctx.classes ctx' s.declarations st fs (asked ctx st s)
      (recorded (((Infer.stmt ctx' s').run fs).1.steps ctx')) st' ((Infer.stmt ctx' s').run fs).2

/-- What inference makes of checked statements follows the checker. -/
def StmtsFollow (ctx : Context) (ss : List Stmt) : Prop :=
  ∀ ⦃left : Bool⦄ ⦃ctx' : Infer.Context⦄ ⦃st st' : State⦄ ⦃fs : Infer.Facts⦄ ⦃ss' : List Stmt⦄, ctx.Stands hints ctx' →
    Yields (stmts ctx false left ss) st ss' st' → Knows hints ctx.classes st ctx' fs →
    st'.hints.globals ⊆ hints.globals → Room hints ctx.classes ctx' fs (declarationsOf ss) →
    Follows hints ctx.classes ctx' (declarationsOf ss) st fs (askedOf ctx st ss)
      (recorded (stmtsSteps ctx' ((Infer.stmts ctx' ss').run fs).1)) st' ((Infer.stmts ctx' ss').run fs).2

/-- What inference makes of checked clauses follows the checker. -/
def ClausesFollow (ctx : Context) (cs : List Clause) : Prop :=
  ∀ ⦃subject : Option Sigil⦄ ⦃ctx' : Infer.Context⦄ ⦃st st' : State⦄ ⦃fs : Infer.Facts⦄ ⦃cs' : List Clause⦄,
    ctx.Stands hints ctx' → Yields (clauses ctx subject cs) st cs' st' → Knows hints ctx.classes st ctx' fs →
    st'.hints.globals ⊆ hints.globals → Room hints ctx.classes ctx' fs (declarationsInClauses cs) →
    Follows hints ctx.classes ctx' (declarationsInClauses cs) st fs (askedInClauses ctx st cs)
      (recorded (clausesSteps ctx' ((Infer.clauses ctx' cs').run fs).1)) st' ((Infer.clauses ctx' cs').run fs).2

/-- What inference makes of checked handlers follows the checker. -/
def CatchesFollow (ctx : Context) (cs : List Catch) : Prop :=
  ∀ ⦃ctx' : Infer.Context⦄ ⦃st st' : State⦄ ⦃fs : Infer.Facts⦄ ⦃cs' : List Catch⦄, ctx.Stands hints ctx' →
    Yields (catches ctx cs) st cs' st' → Knows hints ctx.classes st ctx' fs → st'.hints.globals ⊆ hints.globals →
    Room hints ctx.classes ctx' fs (declarationsInCatches cs) →
    Follows hints ctx.classes ctx' (declarationsInCatches cs) st fs (askedInCatches ctx st cs)
      (recorded (catchesSteps ctx' ((Infer.catches ctx' cs').run fs).1)) st' ((Infer.catches ctx' cs').run fs).2

end Statements

/-- Checks a statement that may be missing. -/
def stmtOption (ctx : Context) : Option Stmt → Checking (Option Stmt)
  | some s => some <$> stmt ctx s
  | none => pure none

instance (o : Option Stmt) : Steady MoreGlobals (stmtOption ctx o) := by
  cases o <;> (unfold stmtOption; infer_instance)

/-- Records the sigils of a statement that may be missing. -/
def inferOption (ctx : Infer.Context) : Option Stmt → Infer.Inferring (Option Stmt)
  | some s => some <$> Infer.stmt ctx s
  | none => pure none

/-- The variables declared in a statement that may be missing. -/
def declarationsOption (o : Option Stmt) : Assoc (Option Sigil) := o.elim [] Stmt.declarations

/-- The expressions of a statement that may be missing. -/
def askedOption (ctx : Context) (st : State) (o : Option Stmt) : List (Option Question) := o.elim [] (asked ctx st)

theorem follows_option {o o' : Option Stmt} (each : ∀ s ∈ o, StmtFollows hints ctx s) (stands : ctx.Stands hints ctx')
    (yields : Yields (stmtOption ctx o) st o' st') (knows : Knows hints ctx.classes st ctx' fs)
    (bound : st'.hints.globals ⊆ hints.globals) (room : Room hints ctx.classes ctx' fs (declarationsOption o)) :
    Follows hints ctx.classes ctx' (declarationsOption o) st fs (askedOption ctx st o)
      (recorded (Stmt.optionSteps ctx' ((inferOption ctx' o').run fs).1)) st' ((inferOption ctx' o').run fs).2 := by
  cases o with
  | none =>
      obtain ⟨rfl, rfl⟩ := yields.of_pure
      exact .nothing knows
  | some s =>
      rw [stmtOption, ← bind_pure_comp] at yields
      obtain ⟨s', st₁, checked, yields⟩ := yields.of_bind
      obtain ⟨rfl, rfl⟩ := yields.of_pure
      exact each s rfl stands checked knows bound room

theorem stmt_ifElse (s : Span) (c : Expr) (a : Stmt) (b : Option Stmt) : stmt ctx (.ifElse s c a b) = do
    let c ← exprOnly ctx c
    let a ← stmt ctx a
    let b ← stmtOption ctx b
    return .ifElse s c a b := by
  cases b <;> simp only [stmt, stmtOption]

theorem asked_ifElse (s : Span) (c : Expr) (a : Stmt) (b : Option Stmt) : asked ctx st (.ifElse s c a b) =
    ask ctx st c ++ asked ctx st a ++ askedOption ctx (after (stmt ctx a) st) b := by
  cases b <;> simp only [asked] <;> rfl

theorem declarations_ifElse (s : Span) (c : Expr) (a : Stmt) (b : Option Stmt) :
    (Stmt.ifElse s c a b).declarations = a.declarations ++ declarationsOption b := by
  cases b <;> simp only [Stmt.declarations] <;> rfl

theorem infer_ifElse (s : Span) (c : Expr) (a : Stmt) (b : Option Stmt) : Infer.stmt ctx' (.ifElse s c a b) = do
    let c ← Infer.value ctx' c
    let a ← Infer.stmt ctx' a
    let b ← inferOption ctx' b
    return .ifElse s c a b := by
  cases b <;> simp only [Infer.stmt, inferOption]

theorem follows_ifElse {s : Span} {c : Expr} {a : Stmt} {b : Option Stmt} (first : StmtFollows hints ctx a)
    (second : ∀ b' ∈ b, StmtFollows hints ctx b') : StmtFollows hints ctx (.ifElse s c a b) := by
  intro ctx' st st' fs s' stands yields knows bound room
  rw [stmt_ifElse] at yields
  obtain ⟨c', cond, yields⟩ := yields.of_seq
  obtain ⟨t, cond⟩ := cond.of_exprOnly
  obtain ⟨a', st₁, checked, yields⟩ := yields.of_bind
  obtain ⟨b', st₂, other, yields⟩ := yields.of_bind
  obtain ⟨rfl, rfl⟩ := yields.of_pure
  rw [declarations_ifElse] at room ⊢
  rw [asked_ifElse, checked.moves, infer_ifElse]
  have begun := Follows.value stands knows cond
  have then_ := first stands checked knows (List.Subset.trans other.grown bound) room.left
  have else_ := follows_option second stands other then_.knows bound (room.right then_.grows)
  show Follows _ _ _ _ _ _ _ (recorded ((Stmt.ifElse s (Infer.expr ctx' fs c') _ _).steps ctx')) _ _
  rw [Stmt.steps_ifElse, recorded_append, recorded_append, recorded_expr]
  exact (begun.seq then_).seq else_

theorem Knows.enter (knows : Knows hints classes st ctx' fs) : Knows hints classes st.enter ctx' fs :=
  { knows with
    held := fun scope mem x other t known => by
      rcases List.mem_cons.mp mem with rfl | mem
      · cases known
      · exact knows.held scope mem x other t known }

theorem Room.nothing : Room hints classes ctx' fs [] where
  distinct := List.nodup_nil
  typed _ := nofun
  apart _ := nofun
  gathered _ _ := nofun
  fresh _ _ := nofun

theorem after_option (o : Option Stmt) :
    after (stmtOption ctx o) st = o.elim st fun s => after (stmt ctx s) st := by
  cases o with
  | none => rfl
  | some s =>
      have steady : Steady MoreGlobals (stmt ctx s) := inferInstance
      have rest (a : Stmt) : Steady MoreGlobals (pure (some a) : Checking (Option Stmt)) := inferInstance
      rw [stmtOption, ← bind_pure_comp, after, result?_bind st steady rest, Option.elim_some, after]
      cases result? (stmt ctx s) st <;> rfl

theorem stmt_for (s : Span) (init : Option Stmt) (cond : Option Expr) (post : Option Stmt) (body : Stmt) :
    stmt ctx (.for_ s init cond post body) = inScope do
      let init ← stmtOption ctx init
      let (cond, _) ← exprOption ctx cond
      let post ← stmtOption ctx post
      return .for_ s init cond post (← stmt ctx.inLoop body) := by
  cases init <;> cases post <;> simp only [stmt, stmtOption]

theorem asked_for (s : Span) (init : Option Stmt) (cond : Option Expr) (post : Option Stmt) (body : Stmt) :
    let begun := after (stmtOption ctx init) st.enter
    asked ctx st (.for_ s init cond post body) = askedOption ctx st.enter init ++ cond.toList.flatMap (ask ctx begun) ++
      askedOption ctx begun post ++ asked ctx.inLoop (after (stmtOption ctx post) begun) body := by
  intro begun
  simp only [begun, after_option]
  cases init <;> cases post <;> simp only [asked] <;> rfl

theorem declarations_for (s : Span) (init : Option Stmt) (cond : Option Expr) (post : Option Stmt) (body : Stmt) :
    (Stmt.for_ s init cond post body).declarations = declarationsOption init ++ body.declarations := by
  cases init <;> simp only [Stmt.declarations] <;> rfl

theorem infer_for (s : Span) (init : Option Stmt) (cond : Option Expr) (post : Option Stmt) (body : Stmt) :
    Infer.stmt ctx' (.for_ s init cond post body) = do
      let init ← inferOption ctx' init
      let cond ← Infer.valueOption ctx' cond
      let post ← inferOption ctx' post
      return .for_ s init cond post (← Infer.stmt ctx' body) := by
  cases init <;> cases post <;> simp only [Infer.stmt, inferOption]

theorem follows_for {s : Span} {init : Option Stmt} {cond : Option Expr} {post : Option Stmt} {body : Stmt}
    (first : ∀ i ∈ init, StmtFollows hints ctx i) (simple : ∀ p ∈ post, p.isSimple)
    (next : ∀ p ∈ post, StmtFollows hints ctx p) (inner : StmtFollows hints ctx.inLoop body) :
    StmtFollows hints ctx (.for_ s init cond post body) := by
  intro ctx' st st' fs s' stands yields knows bound room
  rw [stmt_for] at yields
  obtain ⟨inside, within, rfl⟩ := yields.of_inScope
  obtain ⟨init', st₁, begun, within⟩ := within.of_bind
  obtain ⟨⟨cond', t⟩, tested, within⟩ := within.of_seq
  obtain ⟨post', st₂, stepped, within⟩ := within.of_bind
  obtain ⟨body', st₃, looped, within⟩ := within.of_bind
  obtain ⟨rfl, rfl⟩ := within.of_pure
  have none_ : declarationsOption post = [] := by
    cases post with
    | none => rfl
    | some p => exact Stmt.declarations_of_simple (simple p rfl)
  rw [declarations_for] at room ⊢
  rw [asked_for, begun.moves, stepped.moves, infer_for]
  have enough : st₂.hints.globals ⊆ hints.globals := List.Subset.trans looped.grown bound
  have init_ := follows_option first stands begun knows.enter (List.Subset.trans stepped.grown enough) room.left
  have cond_ := Follows.option stands init_.knows tested
  have post_ := follows_option next stands stepped cond_.knows enough (none_ ▸ Room.nothing)
  rw [none_] at post_
  have before := (init_.seq cond_).seq post_
  rw [List.append_nil, List.append_nil] at before
  have body_ := inner stands.inLoop looped before.knows bound (room.right before.grows)
  show Follows _ _ _ _ _ _ _ (recorded ((Stmt.for_ s _ _ _ _).steps ctx')) _ _
  rw [Stmt.steps_for, recorded_append, recorded_append, recorded_append]
  exact .scope knows (before.seq body_)

theorem stmt_try (s : Span) (body : Stmt) (cs : List Catch) (last : Option Stmt) : stmt ctx (.try_ s body cs last) = do
    let body ← stmt ctx body
    let cs ← catches ctx cs
    let last ← stmtOption ctx last
    return .try_ s body cs last := by
  cases last <;> simp only [stmt, stmtOption]

theorem asked_try (s : Span) (body : Stmt) (cs : List Catch) (last : Option Stmt) :
    let behind := after (stmt ctx body) st
    asked ctx st (.try_ s body cs last) = asked ctx st body ++ askedInCatches ctx behind cs ++
      askedOption ctx (after (catches ctx cs) behind) last := by
  cases last <;> simp only [asked] <;> rfl

theorem declarations_try (s : Span) (body : Stmt) (cs : List Catch) (last : Option Stmt) :
    (Stmt.try_ s body cs last).declarations =
      body.declarations ++ declarationsInCatches cs ++ declarationsOption last := by
  cases last <;> simp only [Stmt.declarations] <;> rfl

theorem infer_try (s : Span) (body : Stmt) (cs : List Catch) (last : Option Stmt) :
    Infer.stmt ctx' (.try_ s body cs last) = do
      let body ← Infer.stmt ctx' body
      let cs ← Infer.catches ctx' cs
      let last ← inferOption ctx' last
      return .try_ s body cs last := by
  cases last <;> simp only [Infer.stmt, inferOption]

theorem follows_try {s : Span} {body : Stmt} {cs : List Catch} {last : Option Stmt} (first : StmtFollows hints ctx body)
    (handlers : CatchesFollow hints ctx cs) (second : ∀ l ∈ last, StmtFollows hints ctx l) :
    StmtFollows hints ctx (.try_ s body cs last) := by
  intro ctx' st st' fs s' stands yields knows bound room
  rw [stmt_try] at yields
  obtain ⟨body', st₁, tried, yields⟩ := yields.of_bind
  obtain ⟨cs', st₂, caught, yields⟩ := yields.of_bind
  obtain ⟨last', st₃, ended, yields⟩ := yields.of_bind
  obtain ⟨rfl, rfl⟩ := yields.of_pure
  rw [declarations_try] at room ⊢
  rw [asked_try, tried.moves, caught.moves, infer_try]
  have enough : st₂.hints.globals ⊆ hints.globals := List.Subset.trans ended.grown bound
  have body_ := first stands tried knows (List.Subset.trans caught.grown enough) room.left.left
  have before := body_.seq (handlers stands caught body_.knows enough (room.left.right body_.grows))
  have last_ := follows_option second stands ended before.knows bound (room.right before.grows)
  show Follows _ _ _ _ _ _ _ (recorded ((Stmt.try_ s _ _ _).steps ctx')) _ _
  rw [Stmt.steps_try, recorded_append, recorded_append]
  exact before.seq last_

theorem follows_varDecl {s : Span} {name : String} {type : Option Sigil} {init : Option Expr}
    (proper : name ≠ "this") : StmtFollows hints ctx (.varDecl s name type init) := by
  intro ctx' st st' fs s' stands yields knows bound room
  obtain ⟨τ, rfl⟩ := Option.isSome_iff_exists.mp (room.typed (name, type) List.mem_cons_self)
  unfold stmt at yields
  obtain ⟨⟨init', got⟩, valued, yields⟩ := yields.of_seq
  obtain ⟨_, st₁, declared, yields⟩ := yields.of_bind
  obtain ⟨rfl, rfl⟩ := yields.of_pure
  have init_ := Follows.option stands knows valued
  have declares := declared.of_variableDecl init_.knows proper
  have room : Room hints ctx.classes ctx' fs ([] ++ [(name, some τ)]) := room
  obtain ⟨behind, grows⟩ := knows_declare init_.knows stands.given (room.right init_.grows) declares
  have declare_ : Follows hints ctx.classes ctx' [(name, some τ)] st _ [] [] st₁ _ :=
    ⟨.nil, behind, grows, declares.around⟩
  have all := init_.seq declare_
  rw [List.append_nil, List.append_nil] at all
  show Follows _ _ _ _ _ _ _ (recorded (Expr.optionSteps ctx' _ ++ [Infer.Step.declare ctx' name (some τ)])) _ _
  rw [recorded_append, recorded_declare, List.append_nil]
  exact all

theorem follows_assign {s : Span} {name : String} {e : Expr} : StmtFollows hints ctx (.assign s name e) := by
  intro ctx' st st' fs s' stands yields knows bound room
  unfold stmt at yields
  obtain ⟨⟨e', got⟩, valued, yields⟩ := yields.of_seq
  obtain ⟨_, st₁, assigned, yields⟩ := yields.of_bind
  obtain ⟨rfl, rfl⟩ := yields.of_pure
  obtain ⟨rfl, isVariable⟩ := assigned.of_assignment knows bound
  have same := assign_eq knows stands.given isVariable (Infer.expr ctx' fs e').sigil
  have value_ := Follows.value stands knows valued
  show Follows _ _ _ _ _ _ _ (recorded (Expr.steps ctx' (Infer.expr ctx' fs e') ++ [Infer.Step.assign ctx' name _])) _
    (fs.assign ctx' name _)
  rw [same, recorded_append, recorded_expr, recorded_assign, List.append_nil]
  exact value_

theorem follows_block {s : Span} {body : List Stmt} (inner : StmtsFollow hints ctx body) :
    StmtFollows hints ctx (.block s body) := by
  intro ctx' st st' fs s' stands yields knows bound room
  unfold stmt at yields
  obtain ⟨inside, within, rfl⟩ := yields.of_inScope
  obtain ⟨body', st₁, checked, within⟩ := within.of_bind
  obtain ⟨rfl, rfl⟩ := within.of_pure
  exact .scope knows (inner stands checked knows.enter bound room)

theorem follows_indexAssign {s : Span} {b k e : Expr} : StmtFollows hints ctx (.indexAssign s b k e) := by
  intro ctx' st st' fs s' stands yields knows bound room
  unfold stmt at yields
  obtain ⟨⟨b', k'⟩, targeted, yields⟩ := yields.of_seq
  obtain ⟨e', valued, yields⟩ := yields.of_seq
  obtain ⟨rfl, rfl⟩ := yields.of_pure
  obtain ⟨t, valued⟩ := valued.of_exprOnly
  show Follows _ _ _ _ _ _ _ (recorded (Expr.steps ctx' (Infer.expr ctx' fs b') ++
    Expr.steps ctx' (Infer.expr ctx' fs k') ++ Expr.steps ctx' (Infer.expr ctx' fs e'))) _ _
  rw [recorded_append, recorded_append, recorded_expr, recorded_expr, recorded_expr]
  exact (Follows.target stands knows targeted).seq (Follows.value stands knows valued)

theorem follows_while {s : Span} {c : Expr} {body : Stmt} (inner : StmtFollows hints ctx.inLoop body) :
    StmtFollows hints ctx (.while_ s c body) := by
  intro ctx' st st' fs s' stands yields knows bound room
  unfold stmt at yields
  obtain ⟨c', cond, yields⟩ := yields.of_seq
  obtain ⟨t, cond⟩ := cond.of_exprOnly
  obtain ⟨body', st₁, looped, yields⟩ := yields.of_bind
  obtain ⟨rfl, rfl⟩ := yields.of_pure
  show Follows _ _ _ _ _ _ _ (recorded (Expr.steps ctx' (Infer.expr ctx' fs c') ++ Stmt.steps ctx' _)) _ _
  rw [recorded_append, recorded_expr]
  exact (Follows.value stands knows cond).seq (inner stands.inLoop looped knows bound room)

theorem follows_doWhile {s : Span} {c : Expr} {body : Stmt} (inner : StmtFollows hints ctx.inLoop body) :
    StmtFollows hints ctx (.doWhile s body c) := by
  intro ctx' st st' fs s' stands yields knows bound room
  unfold stmt at yields
  obtain ⟨body', st₁, looped, yields⟩ := yields.of_bind
  obtain ⟨c', cond, yields⟩ := yields.of_seq
  obtain ⟨t, cond⟩ := cond.of_exprOnly
  obtain ⟨rfl, rfl⟩ := yields.of_pure
  have body_ := inner stands.inLoop looped knows bound room
  have all := body_.seq (Follows.value stands body_.knows cond)
  rw [List.append_nil] at all
  show Follows _ _ _ _ _ _ (asked ctx.inLoop st body ++ ask ctx (after (stmt ctx.inLoop body) st) c)
    (recorded (Stmt.steps ctx' _ ++ Expr.steps ctx' (Infer.expr ctx' _ c'))) _ _
  rw [recorded_append, recorded_expr, looped.moves]
  exact all

theorem follows_switch {s : Span} {e : Expr} {cs : List Clause} (inner : ClausesFollow hints ctx.inSwitch cs) :
    StmtFollows hints ctx (.switch s e cs) := by
  intro ctx' st st' fs s' stands yields knows bound room
  unfold stmt at yields
  obtain ⟨⟨e', subject⟩, valued, yields⟩ := yields.of_seq
  obtain ⟨inside, within, rfl⟩ := yields.of_inScope
  obtain ⟨cs', st₁, checked, within⟩ := within.of_bind
  obtain ⟨rfl, rfl⟩ := within.of_pure
  show Follows _ _ _ _ _ _ _ (recorded (Expr.steps ctx' (Infer.expr ctx' fs e') ++ clausesSteps ctx' _)) _ _
  rw [recorded_append, recorded_expr]
  exact (Follows.value stands knows valued).seq
    (.scope knows (inner stands.inSwitch checked knows.enter bound room))

theorem follows_return {s : Span} {e : Option Expr} : StmtFollows hints ctx (.return_ s e) := by
  intro ctx' st st' fs s' stands yields knows bound room
  cases e with
  | none =>
      unfold stmt at yields
      obtain ⟨rfl, rfl⟩ := yields.of_pure
      exact .nothing knows
  | some e =>
      unfold stmt at yields
      dsimp only at yields
      split at yields
      · exact (not_yields_refused yields).elim
      · obtain ⟨⟨e', t⟩, valued, yields⟩ := yields.of_seq
        obtain ⟨_, -, yields⟩ := yields.of_seq
        obtain ⟨rfl, rfl⟩ := yields.of_pure
        show Follows _ _ _ _ _ _ (ask ctx st e ++ []) (recorded (Expr.steps ctx' (Infer.expr ctx' fs e') ++ [])) _ _
        rw [List.append_nil, List.append_nil, recorded_expr]
        exact Follows.value stands knows valued

/-- A statement that is not passed over is checked. -/
theorem Yields.of_cons {top left : Bool} {s : Stmt} {ss ss' : List Stmt}
    (yields : Yields (stmts ctx top left (s :: ss)) st ss' st') (checks : (top && s.isDecl) = false) :
    ∃ s' st₁ ss'', Yields (stmt ctx s) st s' st₁ ∧ Yields (stmts ctx top s'.isTransfer ss) st₁ ss'' st' ∧
      ss' = s' :: ss'' := by
  have inner (yields : Yields (do
      let s ← stmt ctx s
      return s :: (← stmts ctx top s.isTransfer ss) : Checking (List Stmt)) st ss' st') :
      ∃ s' st₁ ss'', Yields (stmt ctx s) st s' st₁ ∧ Yields (stmts ctx top s'.isTransfer ss) st₁ ss'' st' ∧
        ss' = s' :: ss'' := by
    obtain ⟨s', st₁, first, yields⟩ := yields.of_bind
    obtain ⟨ss'', st₂, others, yields⟩ := yields.of_bind
    obtain ⟨rfl, rfl⟩ := yields.of_pure
    exact ⟨s', st₁, ss'', first, others, rfl⟩
  unfold stmts at yields
  dsimp only at yields
  rw [if_neg (by simp [checks])] at yields
  split at yields
  · obtain ⟨_, -, yields⟩ := yields.of_seq
    exact inner yields
  · exact inner yields

theorem follows_cons {s : Stmt} {ss : List Stmt} (first : StmtFollows hints ctx s) (rest : StmtsFollow hints ctx ss) :
    StmtsFollow hints ctx (s :: ss) := by
  intro left ctx' st st' fs ss' stands yields knows bound room
  obtain ⟨s', st₁, ss'', checked, others, rfl⟩ := yields.of_cons (Bool.false_and s.isDecl)
  have first_ := first stands checked knows (List.Subset.trans others.grown bound) room.left
  have rest_ := rest stands others first_.knows bound (room.right first_.grows)
  show Follows _ _ _ _ _ _ (asked ctx st s ++ askedOf ctx (after (stmt ctx s) st) ss)
    (recorded (Stmt.steps ctx' _ ++ stmtsSteps ctx' _)) _ _
  rw [recorded_append, checked.moves]
  exact first_.seq rest_

theorem follows_case {s : Span} {v : Expr} {body : List Stmt} {cs : List Clause} (inner : StmtsFollow hints ctx body)
    (rest : ClausesFollow hints ctx cs) : ClausesFollow hints ctx (.case_ s v body :: cs) := by
  intro subject ctx' st st' fs cs' stands yields knows bound room
  unfold clauses at yields
  obtain ⟨v', valued, yields⟩ := yields.of_seq
  obtain ⟨t, valued⟩ := valued.of_clauseValue
  obtain ⟨body', st₁, checked, yields⟩ := yields.of_bind
  obtain ⟨cs', st₂, others, yields⟩ := yields.of_bind
  obtain ⟨rfl, rfl⟩ := yields.of_pure
  have value_ := Follows.value stands knows valued
  have body_ := inner stands checked knows (List.Subset.trans others.grown bound) room.left
  have rest_ := rest stands others body_.knows bound (room.right body_.grows)
  show Follows _ _ _ _ _ _ (ask ctx st v ++ askedOf ctx st body ++
      askedInClauses ctx (after (stmts ctx false false body) st) cs)
    (recorded (Expr.steps ctx' (Infer.expr ctx' fs v') ++ stmtsSteps ctx' _ ++ clausesSteps ctx' _)) _ _
  rw [recorded_append, recorded_append, recorded_expr, checked.moves]
  exact (value_.seq body_).seq rest_

theorem follows_default {s : Span} {body : List Stmt} {cs : List Clause} (inner : StmtsFollow hints ctx body)
    (rest : ClausesFollow hints ctx cs) : ClausesFollow hints ctx (.default_ s body :: cs) := by
  intro subject ctx' st st' fs cs' stands yields knows bound room
  unfold clauses at yields
  obtain ⟨body', st₁, checked, yields⟩ := yields.of_bind
  obtain ⟨cs', st₂, others, yields⟩ := yields.of_bind
  obtain ⟨rfl, rfl⟩ := yields.of_pure
  have body_ := inner stands checked knows (List.Subset.trans others.grown bound) room.left
  have rest_ := rest stands others body_.knows bound (room.right body_.grows)
  show Follows _ _ _ _ _ _ (askedOf ctx st body ++ askedInClauses ctx (after (stmts ctx false false body) st) cs)
    (recorded (stmtsSteps ctx' _ ++ clausesSteps ctx' _)) _ _
  rw [recorded_append, checked.moves]
  exact body_.seq rest_

theorem follows_catch {s : Span} {type name : String} {body : Stmt} {cs : List Catch}
    (inner : StmtFollows hints ctx body) (rest : CatchesFollow hints ctx cs) :
    CatchesFollow hints ctx (⟨s, type, name, body⟩ :: cs) := by
  intro ctx' st st' fs cs' stands yields knows bound room
  unfold catches at yields
  obtain ⟨body', st₁, handled, yields⟩ := yields.of_bind
  obtain ⟨cs', st₂, others, yields⟩ := yields.of_bind
  obtain ⟨rfl, rfl⟩ := yields.of_pure
  obtain ⟨inside, within, rfl⟩ := handled.of_inScope
  obtain ⟨_, st₃, declared, checked⟩ := within.of_bind
  have room : Room hints ctx.classes ctx' fs
      (([(name, some (.object ""))] ++ body.declarations) ++ declarationsInCatches cs) := room
  have declares := declared.of_declare
  obtain ⟨behind, grows⟩ := knows_declare knows.enter stands.given room.left.left declares
  have enough : inside.hints.globals ⊆ hints.globals := List.Subset.trans others.grown bound
  have declare_ : Follows hints ctx.classes ctx' [(name, some (.object ""))] st.enter fs [] [] st₃ _ :=
    ⟨.nil, behind, grows, declares.around⟩
  have body_ := inner stands checked behind enough (room.left.right grows)
  have handler := Follows.scope knows (declare_.seq body_)
  have rest_ := rest stands others handler.knows bound (room.right handler.grows)
  show Follows _ _ _ _ _ _ (asked ctx (after (declare name (some (.object ""))) st.enter) body ++ askedInCatches ctx
      (after (stmt ctx body) (after (declare name (some (.object ""))) st.enter)).leave cs)
    (recorded ([Infer.Step.declare ctx' name (some (.object ""))] ++ (Stmt.steps ctx' _ ++ catchesSteps ctx' _))) _ _
  rw [recorded_append, recorded_append, recorded_declare, declared.moves, checked.moves]
  exact handler.seq rest_

mutual

theorem stmtFollows (ctx : Context) (s : Stmt) (proper : s.Proper) : StmtFollows hints ctx s := by
  cases s with
  | varDecl s name type init => exact follows_varDecl (proper.1.ne_keyword .this_)
  | assign s name e => exact follows_assign
  | ifElse s c a b =>
      unfold Stmt.Proper at proper
      apply follows_ifElse (stmtFollows ctx a proper.2.1)
      cases b with
      | none => exact nofun
      | some b =>
          rintro _ ⟨⟩
          exact stmtFollows ctx b proper.2.2
  | for_ s init cond post body =>
      unfold Stmt.Proper at proper
      obtain ⟨properInit, -, properPost, properBody⟩ := proper
      refine follows_for ?first ?simple ?next (stmtFollows ctx.inLoop body properBody)
      case first =>
        cases init with
        | none => exact nofun
        | some i =>
            rintro _ ⟨⟩
            exact stmtFollows ctx i properInit
      case simple =>
        cases post with
        | none => exact nofun
        | some p =>
            rintro _ ⟨⟩
            exact properPost.1
      case next =>
        cases post with
        | none => exact nofun
        | some p =>
            rintro _ ⟨⟩
            exact stmtFollows ctx p properPost.2
  | try_ s body cs last =>
      unfold Stmt.Proper at proper
      apply follows_try (stmtFollows ctx body proper.1) (catchesFollow ctx cs proper.2.1)
      cases last with
      | none => exact nofun
      | some l =>
          rintro _ ⟨⟩
          exact stmtFollows ctx l proper.2.2
  | block s body => exact follows_block (stmtsFollow ctx body proper)
  | print s e | expr s e | throw_ s type e =>
      intro ctx' st st' fs s' stands yields knows bound room
      unfold stmt at yields
      obtain ⟨e', valued, yields⟩ := yields.of_seq
      obtain ⟨rfl, rfl⟩ := yields.of_pure
      obtain ⟨t, valued⟩ := valued.of_exprOnly
      show Follows _ _ _ _ _ _ _ (recorded (Expr.steps ctx' (Infer.expr ctx' fs e'))) _ _
      rw [recorded_expr]
      exact .value stands knows valued
  | indexAssign s b k e => exact follows_indexAssign
  | while_ s c body => exact follows_while (stmtFollows ctx.inLoop body proper.2)
  | doWhile s body c => exact follows_doWhile (stmtFollows ctx.inLoop body proper.2)
  | switch s e cs => exact follows_switch (clausesFollow ctx.inSwitch cs proper.2)
  | return_ s e => exact follows_return
  | break_ s | continue_ s =>
      intro ctx' st st' fs s' stands yields knows bound room
      unfold stmt at yields
      dsimp only at yields
      split at yields
      · exact (not_yields_refused yields).elim
      · obtain ⟨rfl, rfl⟩ := yields.of_pure
        exact .nothing knows
  | func f | class_ c =>
      intro ctx' st st' fs s' stands yields knows bound room
      unfold stmt at yields
      exact (not_yields_fail yields).elim
  | bare | printStmt => exact proper.elim

theorem stmtsFollow (ctx : Context) (ss : List Stmt) (proper : properAll ss) : StmtsFollow hints ctx ss := by
  cases ss with
  | nil =>
      intro left ctx' st st' fs ss' stands yields knows bound room
      unfold stmts at yields
      obtain ⟨rfl, rfl⟩ := yields.of_pure
      exact .nothing knows
  | cons s ss => exact follows_cons (stmtFollows ctx s proper.1) (stmtsFollow ctx ss proper.2)

theorem clausesFollow (ctx : Context) (cs : List Clause) (proper : properClauses cs) : ClausesFollow hints ctx cs := by
  match cs with
  | [] =>
      intro subject ctx' st st' fs cs' stands yields knows bound room
      unfold clauses at yields
      obtain ⟨rfl, rfl⟩ := yields.of_pure
      exact .nothing knows
  | .case_ s v body :: cs => exact follows_case (stmtsFollow ctx body proper.2.1) (clausesFollow ctx cs proper.2.2)
  | .default_ s body :: cs => exact follows_default (stmtsFollow ctx body proper.1) (clausesFollow ctx cs proper.2)

theorem catchesFollow (ctx : Context) (cs : List Catch) (proper : properCatches cs) : CatchesFollow hints ctx cs := by
  match cs with
  | [] =>
      intro ctx' st st' fs cs' stands yields knows bound room
      unfold catches at yields
      obtain ⟨rfl, rfl⟩ := yields.of_pure
      exact .nothing knows
  | ⟨s, type, name, body⟩ :: cs =>
      exact follows_catch (stmtFollows ctx body proper.2.1) (catchesFollow ctx cs proper.2.2)

end

end Check

end Lantern
