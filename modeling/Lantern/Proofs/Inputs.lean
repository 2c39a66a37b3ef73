import Lantern.Proofs.Fields
import Lantern.Proofs.Pool
import Lantern.Proofs.Results

/-!
# What input is read for

A call of `input` reads a string or a number, by what the generator takes to belong where the value is
stored. It looks at the sigil of a variable and at that of the elements of a list or map. It does not look at
the type of a field, of an object or of a class, so that numbers are read for those; and whether a map is told
that it is given a string is decided apart from what is read.
-/

namespace Lantern

/-! ## Values that are stored -/

mutual

/-- The declarations and assignments in a statement. -/
def Stmt.stores : Stmt → List Stmt
  | .assign s name e => [.assign s name e]
  | .varDecl s name type init => [.varDecl s name type init]
  | .indexAssign s b k e => [.indexAssign s b k e]
  | .block _ body => storesOf body
  | .ifElse _ _ a b => a.stores ++ (match b with
    | some b => b.stores
    | none => [])
  | .while_ _ _ body | .doWhile _ body _ => body.stores
  | .for_ _ init _ post body => (match init with
    | some i => i.stores
    | none => []) ++ (match post with
    | some p => p.stores
    | none => []) ++ body.stores
  | .switch _ _ cs => storesInClauses cs
  | .try_ _ body cs last => body.stores ++ storesInCatches cs ++ (match last with
    | some l => l.stores
    | none => [])
  | .print .. | .expr .. | .break_ .. | .continue_ .. | .return_ .. | .throw_ .. | .func .. | .class_ .. | .bare ..
  | .printStmt .. => []

/-- The declarations and assignments in statements. -/
def storesOf : List Stmt → List Stmt
  | [] => []
  | s :: ss => s.stores ++ storesOf ss

/-- The declarations and assignments in the clauses of a switch. -/
def storesInClauses : List Clause → List Stmt
  | [] => []
  | .case_ _ _ body :: cs | .default_ _ body :: cs => storesOf body ++ storesInClauses cs

/-- The declarations and assignments in handlers. -/
def storesInCatches : List Catch → List Stmt
  | [] => []
  | ⟨_, _, _, body⟩ :: cs => body.stores ++ storesInCatches cs

end

/-- The value that a declaration or assignment stores. -/
def Stmt.value? : Stmt → Option Expr
  | .assign _ _ e | .indexAssign _ _ _ e => some e
  | .varDecl _ _ _ init => init
  | _ => none

/-! ## The sigil of input -/

/-- If the expression is a call of `input`, a number is recorded for it. -/
def Expr.Settled : Expr → Prop
  | .call i callee _ => callee = LibFunc.input.name → i.sigil = some .int
  | _ => True

/-- The statements store only what is settled. -/
def AllSettled (ss : List Stmt) : Prop := ∀ s ∈ ss, ∀ e ∈ s.value?, e.Settled

theorem AllSettled.append {xs ys : List Stmt} (first : AllSettled xs) (second : AllSettled ys) :
    AllSettled (xs ++ ys) :=
  List.forall_mem_append.mpr ⟨first, second⟩

theorem AllSettled.option {o : Option Stmt} : (∀ s ∈ o, AllSettled s.stores) → AllSettled (match o with
    | some s => s.stores
    | none => []) := by
  cases o with
  | none => exact fun _ => List.forall_mem_nil _
  | some s => exact fun settled => settled s rfl

theorem allSettled_storesOf {ss : List Stmt} (each : ∀ s ∈ ss, AllSettled s.stores) : AllSettled (storesOf ss) := by
  induction ss with
  | nil => exact List.forall_mem_nil _
  | cons s ss ih =>
      obtain ⟨own, others⟩ := List.forall_mem_cons.mp each
      exact own.append (ih others)

namespace Infer

variable {ctx : Context}

theorem settled_expr (apart : Check.Apart ctx.hints) (fs : Facts) (e : Expr) : (expr ctx fs e).Settled := by
  cases e with
  | call i callee args =>
      rintro rfl
      have none_ : ctx.hints.results.get? (SymbolName.func LibFunc.input.name) = none := by
        rw [← Option.not_isSome_iff_eq_none, Assoc.isSome_get?, apart .input]
        exact Bool.false_ne_true
      have input : LibFunc.ofName? LibFunc.input.name = some .input := by decide
      simp only [found, callSigil, none_, input]
      split
      · next f found _ => cases found; rfl
      · rfl
  | _ => trivial

theorem settled_value (apart : Check.Apart ctx.hints) (e : Expr) : Gives (value ctx e) Expr.Settled :=
  fun fs => settled_expr apart fs e

theorem settled_valueOption (apart : Check.Apart ctx.hints) (o : Option Expr) :
    Gives (valueOption ctx o) fun r => ∀ e ∈ r, e.Settled := by
  cases o with
  | none => exact gives_pure fun e mem => absurd mem (Option.not_mem_none e)
  | some e =>
      exact (settled_value apart e).bind fun e' settled => gives_pure fun _ same => Option.some.inj same ▸ settled

mutual

theorem settled_stmt (apart : Check.Apart ctx.hints) (s : Stmt) : Gives (stmt ctx s) fun r => AllSettled r.stores := by
  cases s with
  | block s body =>
      unfold stmt
      exact (settled_stmts apart body).bind fun body' settled => gives_pure settled
  | assign s name e =>
      unfold stmt
      exact (settled_value apart e).bind fun e' settled => .after fun _ => gives_pure
        (List.forall_mem_singleton.mpr fun _ same => Option.some.inj same ▸ settled)
  | indexAssign s b k e =>
      unfold stmt
      exact .after fun _ => .after fun _ => (settled_value apart e).bind fun e' settled => gives_pure
        (List.forall_mem_singleton.mpr fun _ same => Option.some.inj same ▸ settled)
  | varDecl s name type init =>
      unfold stmt
      exact (settled_valueOption apart init).bind fun init' settled => .after fun _ =>
        gives_pure (List.forall_mem_singleton.mpr settled)
  | ifElse s c a b =>
      unfold stmt
      refine .after fun c' => (settled_stmt apart a).bind fun a' ha => ?_
      extract_lets behind
      have step (b' : Option Stmt) (hb : ∀ s ∈ b', AllSettled s.stores) :
          Gives (behind b') fun r => AllSettled r.stores :=
        gives_pure (by unfold Stmt.stores; exact ha.append (.option hb))
      cases b with
      | none => exact step none nofun
      | some b => exact (settled_stmt apart b).some.bind fun _ ⟨b', eq, hb⟩ => step _ (by simpa [eq] using hb)
  | while_ s c body =>
      unfold stmt
      exact .after fun _ => (settled_stmt apart body).bind fun body' settled => gives_pure settled
  | doWhile s body c =>
      unfold stmt
      exact (settled_stmt apart body).bind fun body' settled => .after fun _ => gives_pure settled
  | for_ s init cond post body =>
      unfold stmt
      extract_lets behindInit
      have stepInit (init' : Option Stmt) (hi : ∀ s ∈ init', AllSettled s.stores) :
          Gives (behindInit init') fun r => AllSettled r.stores := by
        refine .after fun cond' => ?_
        extract_lets behindPost
        have stepPost (post' : Option Stmt) (hp : ∀ s ∈ post', AllSettled s.stores) :
            Gives (behindPost post') fun r => AllSettled r.stores :=
          (settled_stmt apart body).bind fun body' hb =>
            gives_pure (by unfold Stmt.stores; exact ((AllSettled.option hi).append (.option hp)).append hb)
        cases post with
        | none => exact stepPost none nofun
        | some p => exact (settled_stmt apart p).some.bind fun _ ⟨p', eq, hp⟩ => stepPost _ (by simpa [eq] using hp)
      cases init with
      | none => exact stepInit none nofun
      | some i => exact (settled_stmt apart i).some.bind fun _ ⟨i', eq, hi⟩ => stepInit _ (by simpa [eq] using hi)
  | switch s e cs =>
      unfold stmt
      exact .after fun _ => (settled_clauses apart cs).bind fun cs' settled => gives_pure settled
  | try_ s body cs last =>
      unfold stmt
      refine (settled_stmt apart body).bind fun body' hb => (settled_catches apart cs).bind fun cs' hc => ?_
      extract_lets behind
      have step (last' : Option Stmt) (hl : ∀ s ∈ last', AllSettled s.stores) :
          Gives (behind last') fun r => AllSettled r.stores :=
        gives_pure (by unfold Stmt.stores; exact (hb.append hc).append (.option hl))
      cases last with
      | none => exact step none nofun
      | some l => exact (settled_stmt apart l).some.bind fun _ ⟨l', eq, hl⟩ => step _ (by simpa [eq] using hl)
  | print s e | expr s e | throw_ s type e | return_ s e =>
      unfold stmt
      exact .after fun _ => gives_pure (List.forall_mem_nil _)
  | break_ s | continue_ s | func f | class_ c | bare e | printStmt s b =>
      unfold stmt
      exact gives_pure (List.forall_mem_nil _)

theorem settled_stmts (apart : Check.Apart ctx.hints) (ss : List Stmt) :
    Gives (stmts ctx ss) fun r => AllSettled (storesOf r) := by
  cases ss with
  | nil => unfold stmts; exact gives_pure (List.forall_mem_nil _)
  | cons s ss =>
      unfold stmts
      exact (settled_stmt apart s).bind fun s' own => (settled_stmts apart ss).bind fun ss' others =>
        gives_pure (own.append others)

theorem settled_clauses (apart : Check.Apart ctx.hints) (cs : List Clause) :
    Gives (clauses ctx cs) fun r => AllSettled (storesInClauses r) := by
  match cs with
  | [] => unfold clauses; exact gives_pure (List.forall_mem_nil _)
  | .case_ s v body :: cs =>
      unfold clauses
      exact .after fun _ => (settled_stmts apart body).bind fun body' own =>
        (settled_clauses apart cs).bind fun cs' others => gives_pure (own.append others)
  | .default_ s body :: cs =>
      unfold clauses
      exact (settled_stmts apart body).bind fun body' own =>
        (settled_clauses apart cs).bind fun cs' others => gives_pure (own.append others)

theorem settled_catches (apart : Check.Apart ctx.hints) (cs : List Catch) :
    Gives (catches ctx cs) fun r => AllSettled (storesInCatches r) := by
  match cs with
  | [] => unfold catches; exact gives_pure (List.forall_mem_nil _)
  | ⟨s, type, name, body⟩ :: cs =>
      unfold catches
      exact .after fun _ => (settled_stmt apart body).bind fun body' own =>
        (settled_catches apart cs).bind fun cs' others => gives_pure (own.append others)

end

/-! ### Items -/

/-- The bodies of a class store only what is settled. -/
def BodiesSettled (c : ClassDecl) : Prop :=
  (∀ m ∈ c.methods, AllSettled m.body.stores) ∧ ∀ k ∈ c.ctors, AllSettled k.body.stores

theorem settled_fields (ctx : Context) (apart : Check.Apart ctx.hints) (fs : List Field) :
    Gives (fields ctx fs) fun r => ∀ f ∈ r, ∀ e ∈ f.init, e.Settled := by
  induction fs with
  | nil => exact gives_pure (List.forall_mem_nil _)
  | cons f fs ih =>
      unfold fields
      refine (settled_valueOption apart f.init).bind fun init settled => ?_
      have rest : Gives (do return { f with init := init } :: (← fields ctx fs)) fun r =>
          ∀ f ∈ r, ∀ e ∈ f.init, e.Settled :=
        ih.bind fun fs' rest => gives_pure (List.forall_mem_cons.mpr ⟨settled, rest⟩)
      split
      · exact .after fun _ => rest
      · exact rest

theorem settled_routine (ctx : Context) (apart : Check.Apart ctx.hints) (hasThis : Bool) (params : List Param)
    (body : Stmt) :
    Gives (routine ctx hasThis params body) fun r => AllSettled r.stores :=
  .after fun _ => .after fun _ => settled_stmt apart body

theorem settled_methods (ctx : Context) (apart : Check.Apart ctx.hints) (ms : List Method) :
    Gives (methods ctx ms) fun r => ∀ m ∈ r, AllSettled m.body.stores := by
  induction ms with
  | nil => exact gives_pure (List.forall_mem_nil _)
  | cons m ms ih =>
      unfold methods
      have own (sym : String) := settled_routine { ctx with routine := sym } apart
      refine (own _ _ m.params m.body).bind fun body settled => ih.bind fun ms' rest => gives_pure ?_
      exact List.forall_mem_cons.mpr ⟨settled, rest⟩

theorem settled_ctors (ctx : Context) (apart : Check.Apart ctx.hints) (ks : List Ctor) :
    Gives (ctors ctx ks) fun r => ∀ k ∈ r, AllSettled k.body.stores := by
  induction ks with
  | nil => exact gives_pure (List.forall_mem_nil _)
  | cons k ks ih =>
      unfold ctors
      have own (sym : String) := settled_routine { ctx with routine := sym } apart
      refine (own _ _ k.params k.body).bind fun body settled => ih.bind fun ks' rest => gives_pure ?_
      exact List.forall_mem_cons.mpr ⟨settled, rest⟩

/-- The parts of an item that are settled once its fields, top-level statements, functions and members are. -/
def FieldsSettled (s : Stmt) : Prop := ∀ c, s = .class_ c → ∀ f ∈ c.fields, ∀ e ∈ f.init, e.Settled

theorem settled_classFields (apart : Check.Apart ctx.hints) (xs : List Stmt) :
    Gives (classFields ctx xs) fun r => ∀ s ∈ r, FieldsSettled s := by
  induction xs with
  | nil => exact gives_pure (List.forall_mem_nil _)
  | cons s xs ih =>
      cases s with
      | class_ c =>
          unfold classFields
          have own := settled_fields { ctx with cls := c.name } apart c.fields
          refine own.bind fun fs settled => ih.bind fun xs' rest => gives_pure ?_
          refine List.forall_mem_cons.mpr ⟨fun c same => ?_, rest⟩
          cases same
          exact settled
      | _ => exact ih.bind fun xs' rest => gives_pure (List.forall_mem_cons.mpr ⟨nofun, rest⟩)

theorem settled_topLevel (apart : Check.Apart ctx.hints) (xs : List Stmt) :
    Gives (topLevel ctx xs) fun r => ∀ s ∈ r, s.isDecl ∧ s ∈ xs ∨ s.isDecl = false ∧ AllSettled s.stores := by
  induction xs with
  | nil => exact gives_pure fun _ mem => absurd mem List.not_mem_nil
  | cons s xs ih =>
      have rest (s' : Stmt) (own : s'.isDecl ∧ s' = s ∨ s'.isDecl = false ∧ AllSettled s'.stores) :
          Gives (do return s' :: (← topLevel ctx xs)) fun r =>
            ∀ x ∈ r, x.isDecl ∧ x ∈ s :: xs ∨ x.isDecl = false ∧ AllSettled x.stores := by
        refine ih.bind fun xs' others => gives_pure (List.forall_mem_cons.mpr ⟨?_, fun x mem => ?_⟩)
        · exact own.imp_left (And.imp_right fun same : s' = s => same ▸ List.mem_cons_self)
        · exact (others x mem).imp_left (And.imp_right (List.mem_cons_of_mem _))
      unfold topLevel
      split
      · next isDecl => exact rest s (.inl ⟨isDecl, rfl⟩)
      · next plain =>
          have both : Gives (stmt ctx s) fun r => r.erase = s.erase ∧ AllSettled r.stores :=
            fun fs => ⟨erase_stmt ctx s fs, settled_stmt apart s fs⟩
          refine both.bind fun s' kept => rest s' (.inr ⟨?_, kept.2⟩)
          rw [← s'.isDecl_erase, kept.1, s.isDecl_erase]
          simpa using plain

theorem settled_funcs (apart : Check.Apart ctx.hints) (xs : List Stmt) :
    Gives (funcs ctx xs) fun r => ∀ s ∈ r, match s with
      | .func f => AllSettled f.body.stores
      | s => s ∈ xs := by
  induction xs with
  | nil => exact gives_pure (List.forall_mem_nil _)
  | cons s xs ih =>
      have later (r : List Stmt) (others : ∀ s ∈ r, match s with
          | .func f => AllSettled f.body.stores
          | s => s ∈ xs) : ∀ x ∈ r, match x with
          | .func f => AllSettled f.body.stores
          | x => x ∈ s :: xs := by
        intro x mem
        have own := others x mem
        cases x <;> first | exact own | exact List.mem_cons_of_mem _ own
      cases s with
      | func f =>
          have own (sym : String) := settled_routine { ctx with routine := sym } apart
          refine (own _ _ f.params f.body).bind fun body settled => ih.bind fun xs' rest => gives_pure ?_
          exact List.forall_mem_cons.mpr ⟨settled, later xs' rest⟩
      | _ =>
          refine ih.bind fun xs' rest => gives_pure ?_
          exact List.forall_mem_cons.mpr ⟨List.mem_cons_self, later xs' rest⟩

theorem settled_classRoutines (apart : Check.Apart ctx.hints) (xs : List Stmt) :
    Gives (classRoutines ctx xs) fun r => ∀ s ∈ r, match s with
      | .class_ c => BodiesSettled c ∧ ∃ d, .class_ d ∈ xs ∧ c.fields = d.fields
      | s => s ∈ xs := by
  induction xs with
  | nil => exact gives_pure (List.forall_mem_nil _)
  | cons s xs ih =>
      have later (r : List Stmt) (others : ∀ s ∈ r, match s with
          | .class_ c => BodiesSettled c ∧ ∃ d, .class_ d ∈ xs ∧ c.fields = d.fields
          | s => s ∈ xs) : ∀ x ∈ r, match x with
          | .class_ c => BodiesSettled c ∧ ∃ d, .class_ d ∈ s :: xs ∧ c.fields = d.fields
          | x => x ∈ s :: xs := by
        intro x mem
        have own := others x mem
        cases x with
        | class_ c =>
            obtain ⟨settled, d, inside, same⟩ := own
            exact ⟨settled, d, List.mem_cons_of_mem _ inside, same⟩
        | _ => exact List.mem_cons_of_mem _ own
      cases s with
      | class_ c =>
          refine (settled_methods { ctx with cls := c.name } apart c.methods).bind fun ms hm =>
            (settled_ctors { ctx with cls := c.name } apart c.ctors).bind fun ks hk =>
            ih.bind fun xs' rest => gives_pure ?_
          exact List.forall_mem_cons.mpr ⟨⟨⟨hm, hk⟩, c, List.mem_cons_self, rfl⟩, later xs' rest⟩
      | _ =>
          refine ih.bind fun xs' rest => gives_pure ?_
          exact List.forall_mem_cons.mpr ⟨List.mem_cons_self, later xs' rest⟩

/-- An item stores only what is settled, in the initial values of its fields as elsewhere. -/
def ItemSettled : Stmt → Prop
  | .func f => AllSettled f.body.stores
  | .class_ c => BodiesSettled c ∧ ∀ f ∈ c.fields, ∀ e ∈ f.init, e.Settled
  | s => AllSettled s.stores

theorem settled_items (ctx : Context) (apart : Check.Apart ctx.hints) (xs : List Stmt) :
    Gives (items ctx xs) fun r => ∀ s ∈ r, ItemSettled s := by
  refine .after fun _ => (settled_classFields apart xs).bind fun xs₁ ofFields => ?_
  refine (settled_topLevel apart xs₁).bind fun xs₂ ofTop => (settled_funcs apart xs₂).bind fun xs₃ ofFuncs fs => ?_
  have settled := settled_classRoutines apart xs₃ fs
  intro s mem
  have last := settled s mem
  cases s with
  | func f => exact ofFuncs _ last
  | class_ c =>
      obtain ⟨bodies, d, inside, same⟩ := last
      refine ⟨bodies, same ▸ ?_⟩
      rcases ofTop _ (ofFuncs _ inside) with ⟨-, first⟩ | ⟨plain, -⟩
      · exact ofFields _ first d rfl
      · cases plain
  | _ =>
      rcases ofTop _ (ofFuncs _ last) with ⟨isDecl, -⟩ | ⟨-, own⟩
      · cases isDecl
      · exact own

end Infer

/-! ## Code that reads and stores -/

namespace Emit

open Assembly

/-- A call of `input`. -/
def inputCall (i : Info) : Expr := .call i LibFunc.input.name []

/-- Whether a value is a call of `input`. -/
def isInputCall : Option Expr → Bool
  | some (.call _ callee []) => callee == LibFunc.input.name
  | _ => false

theorem of_isInputCall {o : Option Expr} (isInput : isInputCall o = true) : ∃ i, o = some (inputCall i) := by
  unfold isInputCall at isInput
  split at isInput
  · next i callee => exact ⟨i, by rw [inputCall, ← eq_of_beq isInput]⟩
  · cases isInput

/-- The instructions that read a string or a number. -/
def inputCode (readStr : Bool) : List Instr :=
  if readStr then
    [⟨.setarg, [.arg 0, fixedAddr "fmt_read_str"], ""⟩, ⟨.setarg, [.arg 1, inputBuffer], ""⟩, ⟨.xor, [eax, eax], ""⟩,
      ⟨.call, [.label "scanf"], ""⟩, ⟨.setarg, [.arg 0, inputBuffer], ""⟩, ⟨.call, [.label "lm_str_trim"], ""⟩]
  else
    [⟨.setarg, [.arg 0, fixedAddr "fmt_read_int"], ""⟩, ⟨.setarg, [.arg 1, .addr inputWord], ""⟩, ⟨.xor, [eax, eax], ""⟩,
      ⟨.call, [.label "scanf"], ""⟩, ⟨.mov, [rax, .data inputWord], ""⟩]

/-- What input is stored in. -/
inductive Destination where
  /-- A variable at a place. -/
  | named (place : Operand) (sigil : Sigil)
  /-- An element of a list. -/
  | element (sigil : Sigil)
  /-- An entry of a map. -/
  | entry (sigil : Sigil)
  /-- A field of an object, with its declared type. -/
  | field (type : Option Sigil)
  /-- A static field in its word, with its declared type. -/
  | static (word : String) (type : Option Sigil)
  /-- A field of a new object, with its declared type. -/
  | initial (name : String) (type : Option Sigil)
  deriving Repr, DecidableEq

namespace Destination

/-- Whether strings belong there. -/
def holdsStr : Destination → Bool
  | named _ s | element s | entry s => s.isStr
  | field type | static _ type | initial _ type => type.any Sigil.isStr

/-- Whether the generator looks at what belongs there before it reads. -/
def looks : Destination → Bool
  | named .. | element _ | entry _ => true
  | field _ | static .. | initial .. => false

/-- The instructions that store what was read into an object or collection under a key; `pool` holds the
    names of fields in the end. -/
def storeCode (pool : List String) (object key : Operand) : Destination → List Instr
  | named place _ => [⟨.mov, [place, rax], ""⟩]
  | static word _ => [⟨.mov, [.data word, rax], ""⟩]
  | element _ => [⟨.setarg, [.arg 0, object], ""⟩, ⟨.setarg, [.arg 1, key], ""⟩, ⟨.setarg, [.arg 2, rax], ""⟩,
      ⟨.call, [.label "lm_array_set"], ""⟩]
  | entry _ | field _ => [⟨.setarg, [.arg 0, object], ""⟩, ⟨.setarg, [.arg 1, key], ""⟩, ⟨.setarg, [.arg 2, rax], ""⟩,
      ⟨.setarg, [.arg 3, strFlag false], ""⟩, ⟨.call, [.label "lm_map_set"], ""⟩]
  | initial name type => fieldCode pool object (strFlag (type.any Sigil.isStr)) name

/-- The instructions that read input and store it. -/
def code (pool : List String) (object key : Operand) (d : Destination) : List Instr :=
  inputCode (d.looks && d.holdsStr) ++ d.storeCode pool object key

end Destination

/-- Where an assignment to an element or field stores its value. -/
def Env.elementOf? (env : Env) (b k : Expr) : Option Destination :=
  match staticRef? env b k with
  | some (cls, name) => (env.classes.staticField? cls name).map fun word =>
      .static word ((env.classes.findField? cls name).bind Field.type)
  | none => match b.sigil with
    | .object cls => some (.field ((k.strValue?.bind (env.classes.findField? cls)).bind Field.type))
    | .map e => some (.entry e.sigil)
    | s => some (.element s.elemSigil)

/-- Where a declaration or assignment stores its value. -/
def Env.destination? (env : Env) : Stmt → Option Destination
  | .assign _ name _ | .varDecl _ name _ _ =>
    (env.lookup? name).map fun place => .named place (env.facts.var env.routine name)
  | .indexAssign _ b k _ => env.elementOf? b k
  | _ => none

/-- A step emits the code that reads input and stores it; `pool` holds all its strings in the end. -/
def Reads {α : Type} (pool : List String) (d : Destination) (x : Emitting α) : Prop :=
  ∀ g : Gen, (x.run g).2.pool <+: pool → ∃ added object key,
    (x.run g).2.code.toList = g.code.toList ++ added ∧ d.code pool object key <:+: added

section Reads

variable {α β : Type} {pool : List String} {d : Destination}

theorem Reads.of_adds {x : Emitting α} (object key : Operand) (adds : Adds pool x (d.code pool object key)) :
    Reads pool d x :=
  fun g inside => ⟨_, object, key, adds g inside, List.infix_rfl⟩

theorem Reads.after {x : Emitting α} {f : α → Emitting β} [first : Grows x] (rest : ∀ a, Reads pool d (f a)) :
    Reads pool d (x >>= f) := by
  intro g inside
  obtain ⟨added, object, key, same, within_⟩ := rest (x.run g).1 (x.run g).2 inside
  obtain ⟨before, own⟩ := (first.grow g).code
  refine ⟨before ++ added, object, key, ?_, within_.trans (List.suffix_append _ _).isInfix⟩
  rw [← List.append_assoc, own]
  exact same

theorem Reads.before {x : Emitting α} {f : α → Emitting β} [rest : ∀ a, Grows (f a)] (first : Reads pool d x) :
    Reads pool d (x >>= f) := by
  intro g inside
  have later := (rest (x.run g).1).grow (x.run g).2
  obtain ⟨added, object, key, same, within_⟩ := first g (later.pool.trans inside)
  obtain ⟨behind, own⟩ := later.code
  refine ⟨added ++ behind, object, key, ?_, within_.trans (List.prefix_append _ _).isInfix⟩
  rw [← List.append_assoc, ← same]
  exact own.symm

theorem reads_forM {xs : List α} {f : α → Emitting PUnit} [∀ a, Grows (f a)] {x : α} (mem : x ∈ xs)
    (own : Reads pool d (f x)) : Reads pool d (xs.forM f) := by
  induction xs with
  | nil => cases mem
  | cons y xs ih =>
      have : Grows (xs.forM f) := grows_forM
      rcases List.mem_cons.mp mem with rfl | later
      · exact own.before (f := fun _ => xs.forM f)
      · exact Reads.after fun _ => ih later

theorem adds_input (readStr : Bool) : Adds pool (inputForm readStr) (inputCode readStr) := by
  intro g _
  cases readStr
  · show (g.code.push _ |>.push _ |>.push _ |>.push _ |>.push _).toList = _
    simp [inputCode]
  · show (g.code.push _ |>.push _ |>.push _ |>.push _ |>.push _ |>.push _).toList = _
    simp [inputCode]

/-- Input is read by the library unless a variable has its name. -/
theorem valueFor_input {env : Env} (plain : env.isVariable LibFunc.input.name = false) (i : Info) (target : Sigil) :
    valueFor env target (inputCall i) = inputForm target.isStr := by
  simp [valueFor, inputCall, plain]
  rfl

theorem expr_input {env : Env} (plain : env.isVariable LibFunc.input.name = false) (i : Info) (depth : Nat) :
    exprAt depth env (inputCall i) = inputForm false := by
  have none_ : env.lookup? LibFunc.input.name = none :=
    Option.not_isSome_iff_eq_none.mp (by simpa [Env.isVariable] using plain)
  cases depth <;> simp [exprAt, exprWith, inputCall, callByName, none_] <;> rfl

end Reads

/-! ### Statements and initial values -/

section Lowering

variable {env : Env} {pool : List String} {d : Destination} {i : Info}

theorem reads_named (plain : env.isVariable LibFunc.input.name = false) {at_ : Span} {name : String}
    {place : Operand} {s : Sigil} (found : env.lookup? name = some place) :
    Reads pool (.named place s) (do valueFor env s (inputCall i); store env at_ name) := by
  rw [valueFor_input plain]
  unfold store
  rw [found]
  exact .of_adds place place ((adds_input _).bind fun _ => adds_emit _ _)

theorem reads_indexAssign [env.Tidy] (plain : env.isVariable LibFunc.input.name = false) {at_ : Span} {b k : Expr}
    (settled : (inputCall i).sigil = .int) (goes : env.elementOf? b k = some d) :
    Reads pool d (indexAssign env at_ b k (inputCall i)) := by
  have input (target : Sigil) := valueFor_input plain i target
  unfold Env.elementOf? at goes
  unfold indexAssign
  split
  · next cls name static_ =>
      rw [static_] at goes
      obtain ⟨word, found, rfl⟩ := Option.map_eq_some_iff.mp goes
      rw [found, settled]
      dsimp only
      rw [input]
      exact .of_adds rax rax ((adds_input _).bind fun _ => adds_emit _ _)
  · next none_ =>
      rw [none_] at goes
      refine .after fun _ => .after fun object => ?_
      cases base : b.sigil with
      | object cls =>
          rw [base] at goes
          obtain rfl := Option.some.inj goes
          simp only [Sigil.isKeyed, if_true, input, settled]
          refine .after fun _ => .after fun key => ?_
          rw [← bind_assoc]
          exact .before (.of_adds object key ((adds_input _).bind fun _ => adds_call _ rfl))
      | map e =>
          rw [base] at goes
          obtain rfl := Option.some.inj goes
          simp only [Sigil.isKeyed, if_true, input, settled]
          refine .after fun _ => .after fun key => ?_
          rw [← bind_assoc]
          exact .before (.of_adds object key ((adds_input _).bind fun _ => adds_call _ rfl))
      | int | bool | str | list =>
          rw [base] at goes
          obtain rfl := Option.some.inj goes
          simp only [Sigil.isKeyed, Bool.false_eq_true, if_false, input]
          refine .after fun _ => .after fun key => ?_
          rw [← bind_assoc]
          exact .before (.of_adds object key ((adds_input _).bind fun _ => adds_call _ rfl))

/-- A declaration or assignment reads a string where the generator looks and strings belong, and else a number. -/
theorem reads_stmt [env.Tidy] (plain : env.isVariable LibFunc.input.name = false) {s : Stmt}
    (value : s.value? = some (inputCall i)) (settled : (inputCall i).Settled) (goes : env.destination? s = some d) :
    Reads pool d (stmt env s) := by
  have sigil : (inputCall i).sigil = .int := by simp [inputCall, Expr.sigil, Expr.info, settled rfl]
  cases s with
  | assign s name e =>
      obtain rfl := Option.some.inj value
      obtain ⟨place, found, rfl⟩ := Option.map_eq_some_iff.mp goes
      exact reads_named plain found
  | varDecl s name type init =>
      obtain rfl : init = some (inputCall i) := value
      obtain ⟨place, found, rfl⟩ := Option.map_eq_some_iff.mp goes
      exact reads_named plain found
  | indexAssign s b k e =>
      obtain rfl := Option.some.inj value
      exact reads_indexAssign plain sigil goes
  | _ => cases goes

/-- The initial value of a static field is a number. -/
theorem grows_staticField (env : Env) [env.Tidy] (c : ClassDecl) (f : Field) : Grows (do
    match f.init with
    | some e => expr env e
    | none => defaultValue f.type
    emit .mov [.data (SymbolName.staticField c.name f.name), rax] : Emitting Unit) := by
  dsimp only
  split <;> infer_instance

theorem reads_staticInit [env.Tidy] (plain : env.isVariable LibFunc.input.name = false) {c : ClassDecl} {f : Field}
    (mem : f ∈ c.fields) (isStatic : f.isStatic) (init : f.init = some (inputCall i)) (type : Option Sigil) :
    Reads pool (.static (SymbolName.staticField c.name f.name) type) (staticInit env c) := by
  have each := grows_staticField env c
  refine reads_forM (List.mem_filter.mpr ⟨mem, isStatic⟩) ?_
  rw [init]
  dsimp only
  rw [show expr env (inputCall i) = inputForm false from expr_input plain i _]
  exact .of_adds rax rax ((adds_input _).bind fun _ => adds_emit _ _)

theorem reads_setFields {initial : Expr → Emitting Unit} [each : ∀ e, Tidy 0 (initial e)]
    (reads : initial (inputCall i) = inputForm false) (settled : (inputCall i).sigil = .int) {obj : Operand}
    {fs : List Field} {f : Field} (mem : f ∈ fs) (init : f.init = some (inputCall i)) :
    Reads pool (.initial f.name f.type) (setFields obj initial fs) := by
  induction fs with
  | nil => cases mem
  | cons k fs ih =>
      unfold setFields
      rcases List.mem_cons.mp mem with rfl | later
      · have one : Reads pool (.initial f.name f.type) (do
            inputForm false
            call "lm_map_set" [obj, ← str f.name, rax, strFlag (f.type.any Sigil.isStr)]) :=
          .of_adds obj obj ((adds_input _).bind fun _ => adds_str (adds_call _ rfl))
        have whole := one.before (f := fun _ => setFields obj initial fs)
        simp only [bind_assoc] at whole
        rw [init]
        dsimp only
        rw [reads]
        cases type : f.type with
        | none =>
            rw [type] at whole
            simp only [Option.map_some, settled, Option.getD_some]
            exact whole
        | some t =>
            rw [type] at whole
            exact whole
      · dsimp only
        split
        · exact .after fun _ => .after fun _ => .after fun _ => ih later
        · exact .after fun _ => .after fun _ => .after fun _ => ih later

/-- A number is read for the initial value of a field of a new object, whose map is told what was declared. -/
theorem reads_new [tidy : env.Tidy] (plain : env.isVariable LibFunc.input.name = false) (settled : (inputCall i).Settled)
    {cls : String} {f : Field} (mem : f ∈ env.classes.flatFields cls) (init : f.init = some (inputCall i)) (j : Info)
    (args : List Expr) : Reads pool (.initial f.name f.type) (expr env (.new_ j cls args)) := by
  have sigil : (inputCall i).sigil = .int := by simp [inputCall, Expr.sigil, Expr.info, settled rfl]
  obtain ⟨c, known⟩ := ClassTable.get?_of_mem_flatFields mem
  show Reads _ _ (exprAt env.classes.length env (.new_ j cls args))
  cases bound : env.classes.length with
  | zero =>
      rw [List.length_eq_zero_iff.mp bound] at known
      cases known
  | succ depth =>
      have := tidy_valuesWith (exprAt depth env) env (fun _ => inferInstance) tidy args
      show Reads _ _ (newObject env (exprAt depth env) _ cls _)
      unfold newObject
      rw [known]
      refine .after fun _ => .after fun _ => .after fun _ => .after fun _ => .before ?_
      exact reads_setFields (expr_input plain i depth) sigil mem init

end Lowering

end Emit

/-! ## Programs -/

/-- Inference leaves every value that a routine stores settled. -/
theorem Emit.settled_of_mem {classes : ClassTable} {items : List Stmt} (settled : ∀ s ∈ items, Infer.ItemSettled s)
    (members : ∀ c ∈ classes, .class_ c ∈ items) {s : Source} (mem : s ∈ sources classes items) :
    AllSettled s.body.stores := by
  simp only [sources, List.mem_append, List.mem_filterMap, List.mem_flatMap] at mem
  obtain ⟨item, inside, made⟩ | ⟨c, inside, member⟩ := mem
  · cases item with
    | func f =>
        obtain rfl := Option.some.inj made
        exact settled _ inside
    | _ => cases made
  · obtain ⟨⟨methods, ctors⟩, -⟩ := settled _ (members c inside)
    simp only [Source.ofClass, List.mem_append, List.mem_map] at member
    obtain ⟨m, inside, rfl⟩ | ⟨k, inside, rfl⟩ := member
    · unfold Source.method
      split <;> exact methods m inside
    · exact ctors k (mem_of_mem_ctorsByArity inside)

/-- Where a checked program stores what `input` returns, the code reads a string if it is stored in a variable or
    in an element of a list or map and strings belong there; for fields it reads a number, whatever their type.
    A map is told that it is given a string only by the initial value of a field of a new object, and there
    exactly if the field is declared so. -/
theorem Program.input_reads {file : Nat} {source : String} {p p' : Program} {hints : Hints}
    (accepted : Program.accept? file source = some (p, p', hints)) {env : Emit.Env} (tidy : env.Tidy)
    (table : env.classes = (p'.infer hints).classes) (plain : env.isVariable LibFunc.input.name = false)
    (pool : List String) (i : Info) :
    (∀ s, ((∃ r ∈ Emit.sources (p'.infer hints).classes (p'.infer hints).program.items, s ∈ r.body.stores) ∨
        s ∈ storesOf (p'.infer hints).topLevel) →
      s.value? = some (Emit.inputCall i) → ∀ d, env.destination? s = some d → Emit.Reads pool d (Emit.stmt env s)) ∧
    ∀ c ∈ (p'.infer hints).classes, ∀ f ∈ c.fields, f.init = some (Emit.inputCall i) →
      (f.isStatic →
        Emit.Reads pool (.static (SymbolName.staticField c.name f.name) f.type) (Emit.staticInit env c)) ∧
      ∀ cls, f ∈ (p'.infer hints).classes.flatFields cls → ∀ j args,
        Emit.Reads pool (.initial f.name f.type) (Emit.expr env (.new_ j cls args)) := by
  obtain ⟨-, checked⟩ := Program.of_accept? accepted
  have apart : Check.Apart hints := p.gives_apart.of_outcome checked
  have settled : ∀ s ∈ (p'.infer hints).program.items, Infer.ItemSettled s :=
    Infer.settled_items ⟨hints, ClassTable.ofItems p'.items, SymbolName.mainRoutine, ""⟩ apart p'.items _
  have members : ∀ c ∈ (p'.infer hints).classes, .class_ c ∈ (p'.infer hints).program.items :=
    fun c => ClassTable.mem_of_mem_ofItems
  have top : AllSettled (storesOf (p'.infer hints).topLevel) := by
    refine allSettled_storesOf fun s mem => ?_
    obtain ⟨inside, plain⟩ := List.mem_filter.mp mem
    have own := settled s inside
    cases s <;> first | exact own | cases plain
  refine ⟨fun s stores value d goes => ?_, fun c known f mem init => ⟨fun isStatic => ?_, fun cls held j args => ?_⟩⟩
  · refine Emit.reads_stmt plain value ?_ goes
    rcases stores with ⟨r, mem, inside⟩ | inside
    · exact Emit.settled_of_mem settled members mem s inside _ value
    · exact top s inside _ value
  · exact Emit.reads_staticInit plain mem isStatic init f.type
  · exact Emit.reads_new plain ((settled _ (members c known)).2 f mem _ init) (table ▸ held) init j args

/-- A variable that is declared as a string, in which input is stored. -/
def reading : String := "var s: string; s = input();"

theorem Program.input_reads_string : ∃ p p' hints i s, Program.accept? 0 reading = some (p, p', hints) ∧
    s ∈ storesOf (p'.infer hints).topLevel ∧ s.value? = some (Emit.inputCall i) ∧
    Emit.Reads ((p'.infer hints).finish hints 0).pool (.named (.data (SymbolName.globalVar "s")) .str)
      (Emit.stmt ((p'.infer hints).env hints) s) := by
  have found : (Program.accept? 0 reading).any (fun r =>
      let env := (r.2.1.infer r.2.2).env r.2.2
      decide (env.isVariable LibFunc.input.name = false) && (storesOf (r.2.1.infer r.2.2).topLevel).any fun s =>
        Emit.isInputCall s.value? &&
          decide (env.destination? s = some (.named (.data (SymbolName.globalVar "s")) .str))) = true := by
    decide +kernel
  simp only [Option.any_eq_true, List.any_eq_true, Bool.and_eq_true, decide_eq_true_eq] at found
  obtain ⟨⟨p, p', hints⟩, accepted, plain, s, mem, isInput, goes⟩ := found
  obtain ⟨i, value⟩ := Emit.of_isInputCall isInput
  exact ⟨p, p', hints, i, s, accepted, mem, value,
    (Program.input_reads accepted ⟨fun _ => List.not_mem_nil.elim⟩ rfl plain _ i).1 s (.inr mem) value _ goes⟩

/-- A static field that is declared as a string, in which input is stored. -/
def misreading : String := "class A \x7b static var s: string = \"x\"; \x7d A.s = input();"

/-- A number is read and stored in the word of the field, and no string is read anywhere. -/
theorem Program.input_misreads : ∃ p p' hints, Program.accept? 0 misreading = some (p, p', hints) ∧
    ((p'.infer hints).classes.findField? "A" "s").bind Field.type = some .str ∧
    ∃ r ∈ (p'.generate hints 0).1.routines, r.name = SymbolName.mainRoutine ∧
      Emit.inputCode false ++ [⟨.mov, [.data (SymbolName.staticField "A" "s"), Emit.rax], ""⟩] <:+: r.code ∧
      ¬ Emit.inputCode true <:+: r.code := by
  have reads : ((Program.accept? 0 misreading).any fun (_, p', hints) =>
      decide (((p'.infer hints).classes.findField? "A" "s").bind Field.type = some .str) &&
      decide (∃ r ∈ (p'.generate hints 0).1.routines, r.name = SymbolName.mainRoutine ∧
        Emit.inputCode false ++ [⟨.mov, [.data (SymbolName.staticField "A" "s"), Emit.rax], ""⟩] <:+: r.code ∧
        ¬ Emit.inputCode true <:+: r.code)) = true := by
    rewrite [show Program.accept? 0 misreading = _ from Program.accept?_ofList 0 _]
    decide +kernel
  obtain ⟨⟨p, p', hints⟩, accepted, reads⟩ := (Option.any_eq_true _ _).mp reads
  simp only [Bool.and_eq_true, decide_eq_true_eq] at reads
  exact ⟨p, p', hints, accepted, reads⟩

end Lantern
