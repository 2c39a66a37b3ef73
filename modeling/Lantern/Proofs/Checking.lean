import Mathlib
import Lantern.Proofs.Emission
import Lantern.Proofs.Scopes

/-!
# What checked programs resolve

The scopes of the checker hold the names that are visible where it stands. So each name that it finds,
and each global that it makes, is one that the finished program knows, and a program that passes the
checks resolves.
-/

namespace Lantern

/-! ## Names of association lists -/

namespace Assoc

variable {α : Type}

theorem has_put (xs : Assoc α) (name other : String) (value : α) :
    (xs.put name value).has other ↔ other = name ∨ xs.has other := by
  unfold put
  split
  · next known =>
      have kept : has (xs.map fun x => if x.1 == name then (name, value) else x) other ↔ xs.has other := by
        simp only [has, List.any_map, List.any_eq_true, Function.comp_apply]
        refine exists_congr fun x => and_congr_right fun _ => ?_
        split
        · next same => simp_all
        · rfl
      rw [kept]
      refine ⟨.inr, Or.rec (fun same => same ▸ known) id⟩
  · simp only [has, List.any_append, List.any_cons, List.any_nil, Bool.or_false, Bool.or_eq_true,
      beq_iff_eq]
    rw [or_comm, eq_comm]

theorem isSome_get? (xs : Assoc α) (name : String) : (xs.get? name).isSome = xs.has name := by
  rw [get?, Option.isSome_map, List.isSome_find?]
  rfl

end Assoc

namespace Check

/-- A scope holds exactly the given names. -/
def Holds (s : Scope) (names : List String) : Prop := ∀ x, s.has x ↔ x ∈ names

theorem isSome_lookup? {scopes : List Scope} {W : Scopes} (holds : List.Forall₂ Holds scopes W)
    (name : String) : (lookup? scopes name).isSome ↔ name ∈ W.flatten := by
  induction holds with
  | nil => simp [lookup?]
  | @cons s names scopes W own rest ih =>
      have here : (s.get? name).isSome ↔ name ∈ names := by rw [Assoc.isSome_get?]; exact own name
      rw [List.flatten_cons, List.mem_append, ← here, ← ih, lookup?]
      cases s.get? name <;> simp

theorem holds_retype {scopes : List Scope} {W : Scopes} (holds : List.Forall₂ Holds scopes W)
    (name : String) (type : Option Sigil) : List.Forall₂ Holds (retype name type scopes) W := by
  induction holds with
  | nil => exact .nil
  | @cons s names scopes W own rest ih =>
      unfold retype
      split
      · next known =>
          refine .cons (fun x => ?_) rest
          rw [Assoc.has_put, ← own x]
          exact ⟨Or.rec (fun same => same ▸ known) id, .inr⟩
      · exact .cons own ih

theorem holds_addToLast {V : Scopes} {last : List String} {scopes : List Scope}
    (holds : List.Forall₂ Holds scopes (V ++ [last])) (name : String) :
    List.Forall₂ Holds (addToLast name scopes) (V ++ [name :: last]) := by
  induction V generalizing scopes with
  | nil =>
      obtain ⟨s, rest, own, none_, rfl⟩ := List.forall₂_cons_right_iff.mp holds
      obtain rfl := List.forall₂_nil_right_iff.mp none_
      refine .cons (fun x => ?_) .nil
      rw [List.mem_cons, ← own x]
      split
      · next known => exact ⟨.inr, Or.rec (fun same => same ▸ known) id⟩
      · exact Assoc.has_put s name x none
  | cons names V ih =>
      obtain ⟨s, rest, own, others, rfl⟩ := List.forall₂_cons_right_iff.mp holds
      obtain ⟨t, rest', rfl⟩ : ∃ t rest', rest = t :: rest' := by
        cases rest with
        | nil => exact absurd (List.forall₂_nil_left_iff.mp others) (by simp)
        | cons t rest' => exact ⟨t, rest', rfl⟩
      exact .cons own (ih others)

/-- The scopes of a state hold the given names, innermost first, and behind them only globals. -/
def Describes (V : Scopes) (st : State) : Prop :=
  ∃ last, last ⊆ st.hints.globals ∧ List.Forall₂ Holds st.scopes (V ++ [last])

theorem Describes.found {V : Scopes} {st : State} (described : Describes V st) {name : String}
    (found : (lookup? st.scopes name).isSome) : name ∈ V.flatten ∨ name ∈ st.hints.globals := by
  obtain ⟨last, global, holds⟩ := described
  have inside := (isSome_lookup? holds name).mp found
  rw [List.flatten_append, List.mem_append] at inside
  exact inside.imp_right fun own => global (by simpa using own)

/-! ## Steps of checking -/

/-- A step of checking leads from scopes `V` to scopes `W`, and a property of its result holds whatever
    globals are found later. -/
def Keeps {α : Type} (V W : Scopes) (x : Checking α) (Q : α → List String → Prop) : Prop :=
  ∀ st, Describes V st → (x.run st).Gives fun r => Describes W r.2 ∧
    st.hints.globals ⊆ r.2.hints.globals ∧ ∀ G, r.2.hints.globals ⊆ G → Q r.1 G

section Keeps

variable {α β : Type} {U V W : Scopes} {P : α → List String → Prop} {Q : β → List String → Prop}

theorem keeps_pure {a : α} (holds : ∀ G, P a G) : Keeps V V (pure a) P :=
  fun _ described => Checked.gives_pure ⟨described, List.Subset.refl _, fun G _ => holds G⟩

theorem keeps_fail {at_ : Span} {message : String} : Keeps V W (fail at_ message : Checking α) P :=
  fun _ _ _ _ eq => by cases eq

theorem keeps_refused {at_ : Span} {message : String} {f : α → Checking β} :
    Keeps V W (fail at_ message >>= f) Q :=
  fun _ _ _ _ eq => by cases eq

theorem Keeps.mono {P' : α → List String → Prop} {x : Checking α} (keeps : Keeps V W x P)
    (le : ∀ a G, P a G → P' a G) : Keeps V W x P' :=
  fun st described => (keeps st described).mono fun _ ⟨behind, grown, holds⟩ =>
    ⟨behind, grown, fun G enough => le _ G (holds G enough)⟩

/-- What a step gives may be used by what follows it. -/
theorem Keeps.bind_of {x : Checking α} {f : α → Checking β} {R : α → Prop} (first : Keeps V W x P)
    (gives : Gives x R) (rest : ∀ a, R a → Keeps W U (f a) fun b G => P a G → Q b G) :
    Keeps V U (x >>= f) Q := by
  intro st described
  have both := fun log r eq => And.intro (first st described log r eq) (gives st log r eq)
  refine Checked.Gives.bind both fun r ⟨⟨between, grown, holds⟩, given⟩ => ?_
  refine (rest r.1 given r.2 between).mono fun r' ⟨behind, grown', later⟩ => ?_
  exact ⟨behind, List.Subset.trans grown grown',
    fun G enough => later G enough (holds G (List.Subset.trans grown' enough))⟩

theorem Keeps.bind {x : Checking α} {f : α → Checking β} (first : Keeps V W x P)
    (rest : ∀ a, Keeps W U (f a) fun b G => P a G → Q b G) : Keeps V U (x >>= f) Q :=
  first.bind_of gives_true fun a _ => rest a

theorem Keeps.some {x : Checking α} (keeps : Keeps V W x P) :
    Keeps V W (some <$> x) fun o G => ∃ a, o = some a ∧ P a G := by
  rw [← bind_pure_comp]
  exact keeps.bind fun a => keeps_pure fun G holds => ⟨a, rfl, holds⟩

theorem keeps_find? (name : String) :
    Keeps V V (find? name) fun r G => r.isSome → name ∈ V.flatten ∨ name ∈ G :=
  fun _ described => Checked.gives_pure ⟨described, List.Subset.refl _,
    fun _ enough found => (described.found found).imp_right (@enough name)⟩

theorem keeps_isKnown (name : String) :
    Keeps V V (isKnown name) fun b G => b = true → name ∈ V.flatten ∨ name ∈ G :=
  (keeps_find? name).bind fun _ => keeps_pure fun _ found => found

theorem keeps_modify {f : State → State} (step : ∀ st, Describes V st → Describes W (f st) ∧
    st.hints.globals ⊆ (f st).hints.globals) : Keeps V W (modify f) fun _ _ => True :=
  fun st described => Checked.gives_pure ⟨(step st described).1, (step st described).2, fun _ _ => trivial⟩

theorem keeps_setType (name : String) (type : Option Sigil) :
    Keeps V V (setType name type) fun _ _ => True :=
  keeps_modify fun _ ⟨last, global, holds⟩ =>
    ⟨⟨last, global, holds_retype holds name type⟩, List.Subset.refl _⟩

theorem keeps_declare (names : List String) (name : String) (type : Option Sigil) :
    Keeps (names :: V) ((name :: names) :: V) (declare name type) fun _ _ => True := by
  refine keeps_modify ?_
  rintro ⟨scopes, hints⟩ ⟨last, global, holds⟩
  obtain ⟨s, rest, own, others, rfl⟩ := List.forall₂_cons_right_iff.mp holds
  have put : Holds (s.put name type) (name :: names) := fun x => by
    rw [Assoc.has_put, List.mem_cons, own x]
  dsimp only
  split
  · next known =>
      have here : s.has name := by rw [← Assoc.isSome_get?, known]; rfl
      refine ⟨⟨last, global, .cons (fun x => ?_) others⟩, List.Subset.refl _⟩
      rw [List.mem_cons, ← own x]
      exact ⟨.inr, Or.rec (fun same => same ▸ here) id⟩
  · exact ⟨⟨last, global, .cons put others⟩, List.Subset.refl _⟩
  · exact ⟨⟨last, global, .cons put others⟩, List.Subset.refl _⟩

theorem keeps_inScope {x : Checking α} (inside : Keeps ([] :: V) W x P) (only : ∃ names, W = names :: V) :
    Keeps V V (inScope x) P := by
  obtain ⟨names, rfl⟩ := only
  have enter : Keeps V ([] :: V) (modify fun st : State => { st with scopes := [] :: st.scopes })
      fun _ _ => True :=
    keeps_modify fun st ⟨last, global, holds⟩ =>
      ⟨⟨last, global, .cons (fun x => by simp [Assoc.has]) holds⟩, List.Subset.refl _⟩
  have leave : Keeps (names :: V) V (modify fun st : State => { st with scopes := st.scopes.tail })
      fun _ _ => True := by
    refine keeps_modify ?_
    rintro ⟨scopes, hints⟩ ⟨last, global, holds⟩
    obtain ⟨s, rest, -, others, rfl⟩ := List.forall₂_cons_right_iff.mp holds
    exact ⟨⟨last, global, others⟩, List.Subset.refl _⟩
  exact enter.bind fun _ => inside.bind fun a => leave.bind fun _ => keeps_pure fun _ _ holds _ => holds

/-- A step of checking that neither opens nor fills a scope. -/
class Still (x : Checking α) : Prop where
  keeps : ∀ V, Keeps V V x fun _ _ => True

instance (a : α) : Still (pure a : Checking α) := ⟨fun _ => keeps_pure fun _ => trivial⟩

instance (x : Checking α) (f : α → Checking β) [first : Still x] [rest : ∀ a, Still (f a)] :
    Still (x >>= f) :=
  ⟨fun V => (first.keeps V).bind fun a => ((rest a).keeps V).mono fun _ _ _ _ => trivial⟩

instance (c : Prop) [Decidable c] (x y : Checking α) [Still x] [Still y] : Still (if c then x else y) := by
  split <;> infer_instance

instance (at_ : Span) (message : String) : Still (fail at_ message : Checking α) :=
  ⟨fun _ => keeps_fail⟩

instance (kind : Warning) (at_ : Span) (message : String) : Still (warn kind at_ message) :=
  ⟨fun _ _ described => fun _ _ eq => by
    obtain rfl := Except.ok.inj eq
    exact ⟨described, List.Subset.refl _, fun _ _ => trivial⟩⟩

instance (name : String) : Still (find? name) := ⟨fun _ => (keeps_find? name).mono fun _ _ _ => trivial⟩
instance (name : String) : Still (isKnown name) := ⟨fun _ => (keeps_isKnown name).mono fun _ _ _ => trivial⟩
instance (name : String) (type : Option Sigil) : Still (setType name type) :=
  ⟨fun _ => keeps_setType name type⟩

instance (name : String) : Still (isLocal name) :=
  ⟨fun _ _ described => Checked.gives_pure ⟨described, List.Subset.refl _, fun _ _ => trivial⟩⟩

instance : Still atGlobalScope :=
  ⟨fun _ _ described => Checked.gives_pure ⟨described, List.Subset.refl _, fun _ _ => trivial⟩⟩

theorem Keeps.after {x : Checking α} {f : α → Checking β} [still : Still x]
    (rest : ∀ a, Keeps V W (f a) Q) : Keeps V W (x >>= f) Q :=
  (still.keeps V).bind fun a => (rest a).mono fun _ _ holds _ => holds

instance (at_ : Span) (want got : Option Sigil) (what : String) :
    Still (checkAssignable at_ want got what) := by
  unfold checkAssignable
  split <;> infer_instance

instance (at_ : Span) (op : BinaryOp) (l r : Option Sigil) : Still (binaryType at_ op l r) := by
  unfold binaryType
  split
  · infer_instance
  · split
    · split
      · infer_instance
      · infer_instance
    · infer_instance

instance (e : Expr) : Still (isClassRef e) := by
  unfold isClassRef
  split <;> infer_instance

instance (ctx : Context) (at_ : Span) (o : Expr) (type : Option Sigil) (name : String) :
    Still (memberType ctx at_ o type name) := by
  unfold memberType
  split
  · infer_instance
  · refine ⟨fun V => .after fun classRef => ?_⟩
    split
    · exact Still.keeps V
    · next f _ =>
        have typed : Still (match f.type with
            | some t => pure (some t)
            | none => pure (f.init.bind literalType)) := by
          split <;> infer_instance
        exact Still.keeps V

instance (at_ : Span) (m : Method) (count : Nat) : Still (callMethod at_ m count) := by
  unfold callMethod
  infer_instance

instance (ps : List Param) (args : List (Expr × Option Sigil)) : Still (checkArgs ps args) := by
  induction ps generalizing args with
  | nil => unfold checkArgs; infer_instance
  | cons p ps ih =>
      cases args with
      | nil => unfold checkArgs; infer_instance
      | cons a rest => unfold checkArgs; infer_instance

instance (ctx : Context) (at_ : Span) (cls : String) (count : Nat) : Still (newType ctx at_ cls count) := by
  unfold newType
  split <;> infer_instance

instance (key : Expr) (type : Option Sigil) : Still (checkKey key type) := by
  unfold checkKey
  split <;> infer_instance

instance (ctx : Context) (at_ : Span) (got : Option Sigil) : Still (checkReturn ctx at_ got) :=
  inferInstanceAs (Still (checkAssignable _ _ _ _))

end Keeps

/-! ## Expressions -/

namespace Context

/-- Whether the place is inside a routine. -/
def inRoutine (ctx : Context) : Bool := !ctx.routine.isEmpty

/-- What names may stand for where a context is checked, if the program has the globals `G`. -/
def setting (ctx : Context) (G : List String) : Setting :=
  { classes := ctx.classes
    funcs := ctx.funcs.map FuncDecl.name
    globals := G
    inRoutine := ctx.inRoutine
    receiver := !(ctx.cls.isEmpty || ctx.isStatic)
    breaks := !(ctx.loops == 0 && ctx.switches == 0)
    continues := !(ctx.loops == 0) }

/-- The classes have names. -/
def Named (ctx : Context) : Prop := ∀ c ∈ ctx.classes, c.name ≠ ""

theorem setting_inLoop (ctx : Context) (G : List String) : ctx.inLoop.setting G = (ctx.setting G).inLoop := by
  simp [setting, inLoop, Setting.inLoop, inRoutine]

theorem setting_inSwitch (ctx : Context) (G : List String) :
    ctx.inSwitch.setting G = (ctx.setting G).inSwitch := by
  simp [setting, inSwitch, Setting.inSwitch, inRoutine]

theorem mem_funcs {ctx : Context} {name : String} (known : (ctx.func? name).isSome) :
    name ∈ ctx.funcs.map FuncDecl.name := by
  obtain ⟨f, mem, same⟩ := List.find?_isSome.mp known
  exact List.mem_map.mpr ⟨f, mem, by simpa using same⟩

end Context

/-- The nearest method of a class is found among its static methods if it is static. -/
theorem isSome_staticMethod? {t : ClassTable} {cls name : String} {k : ClassDecl} {m : Method}
    (found : t.findMethod? cls name = some (k, m)) (static : m.isStatic) :
    (t.staticMethod? cls name).isSome := by
  obtain ⟨c, inside, own⟩ := List.exists_of_findSome?_eq_some found
  obtain ⟨m', here, same⟩ := Option.map_eq_some_iff.mp own
  obtain ⟨rfl, rfl⟩ := Prod.mk.inj same
  rw [ClassTable.staticMethod?, Option.isSome_map, List.find?_isSome]
  refine ⟨c, inside, List.any_eq_true.mpr ⟨m', List.mem_of_find?_eq_some here, ?_⟩⟩
  simp [static, List.find?_some here]

theorem isSome_staticField? {t : ClassTable} {cls name : String} {f : Field}
    (found : t.findField? cls name = some f) (static : f.isStatic) :
    (t.staticField? cls name).isSome := by
  obtain ⟨c, inside, here⟩ := List.exists_of_findSome?_eq_some found
  rw [ClassTable.staticField?, Option.isSome_map, List.find?_isSome]
  refine ⟨c, inside, List.any_eq_true.mpr ⟨f, List.mem_of_find?_eq_some here, ?_⟩⟩
  simp [static, List.find?_some here]

section Expressions

variable {V : Scopes} (ctx : Context)

/-- A name used as a value is a variable, or its type is that of the class it stands for. -/
theorem keeps_identType (at_ : Span) (name : String) :
    Keeps V V (identType ctx at_ name) fun type G =>
      (ctx.setting G).Knows V name ∨ ctx.classes.has name ∧ type = some (.object name) := by
  unfold identType
  split
  · next isThis =>
      split
      · exact keeps_refused
      · next receiver =>
          exact keeps_pure fun G => .inl (.inl ⟨by simpa [Context.setting] using receiver, by simpa using isThis⟩)
  · refine (keeps_find? name).bind fun found => ?_
    split
    · exact keeps_pure fun G known => .inl (.inr (known rfl))
    · split
      · next isClass => exact keeps_pure fun G _ => .inr ⟨isClass, rfl⟩
      · split
        · exact keeps_refused
        · exact keeps_fail

theorem keeps_isClassRef (i : Info) (name : String) :
    Keeps V V (isClassRef (.ident i name)) fun b G => b = false → name ∈ V.flatten ∨ name ∈ G :=
  (keeps_isKnown name).bind fun known => keeps_pure fun _ found isFalse => found (by simpa using isFalse)

theorem keeps_methodType_class (at_ : Span) (i : Info) {cls : String} (named : cls ≠ "") (name : String)
    (count : Nat) :
    Keeps V V (methodType ctx at_ (.ident i cls) (some (.object cls)) name count) fun _ G =>
      (cls ∈ V.flatten ∨ cls ∈ G) ∨ (ctx.classes.staticMethod? cls name).isSome := by
  have receiver : receiverClass? (some (.object cls)) = some cls := by
    simp [receiverClass?, named]
  unfold methodType
  rw [receiver]
  refine (keeps_isClassRef i cls).bind fun classRef => ?_
  split
  · split
    · exact keeps_fail
    · next m found =>
        split
        · exact keeps_refused
        · next static =>
            exact (Still.keeps V).mono fun _ _ _ _ => .inr (isSome_staticMethod? found (by simpa using static))
  · next isVariable =>
      have known {x : Checking (Option Sigil)} [still : Still x] : Keeps V V x fun _ G =>
          (classRef = false → cls ∈ V.flatten ∨ cls ∈ G) →
            (cls ∈ V.flatten ∨ cls ∈ G) ∨ (ctx.classes.staticMethod? cls name).isSome :=
        (still.keeps V).mono fun _ _ _ known => .inl (known (by simpa using isVariable))
      split
      · exact known
      · exact known

theorem keeps_callType (at_ : Span) (name : String) (args : List (Expr × Option Sigil)) :
    Keeps V V (callType ctx at_ name args) fun _ G => (ctx.setting G).Calls V name args.length := by
  unfold callType
  refine (keeps_isKnown name).bind fun known => ?_
  split
  · next isKnown => exact keeps_pure fun G found => .inl (.inr (found isKnown))
  · split
    · next f isLibrary =>
        split
        · exact keeps_refused
        · next fits =>
            refine keeps_pure fun G _ => .inr ?_
            rw [isLibrary]
            simpa using fits
    · next notLibrary =>
        split
        · split
          · exact keeps_refused
          · exact keeps_fail
        · next f declared =>
            have func : name ∈ ctx.funcs.map FuncDecl.name := Context.mem_funcs (by simp [declared])
            split
            · exact keeps_refused
            · refine .after fun _ => keeps_pure fun G _ => .inr ?_
              rw [notLibrary]
              exact func

instance (at_ : Span) (receiver : Expr) (type : Option Sigil) (name : String) (count : Nat) :
    Still (methodType ctx at_ receiver type name count) := by
  unfold methodType
  split
  · infer_instance
  · refine ⟨fun V => .after fun classRef => ?_⟩
    split
    · split
      · exact Still.keeps V
      · exact Still.keeps V
    · split
      · exact Still.keeps V
      · exact Still.keeps V

/-- The method called on a name that is no variable is a static method of the class of that name. -/
theorem keeps_methodType (at_ : Span) (receiver : Expr) (type : Option Sigil) (name : String) (count : Nat) :
    Keeps V V (methodType ctx at_ receiver type name count) fun _ G =>
      ∀ i cls, receiver = .ident i cls → type = some (.object cls) → cls ≠ "" →
        (cls ∈ V.flatten ∨ cls ∈ G) ∨ (ctx.classes.staticMethod? cls name).isSome := by
  by_cases isClass : ∃ i cls, receiver = .ident i cls ∧ type = some (.object cls) ∧ cls ≠ ""
  · obtain ⟨i, cls, rfl, rfl, nonempty⟩ := isClass
    refine (keeps_methodType_class ctx at_ i nonempty name count).mono fun _ G known i' cls' same _ _ => ?_
    obtain ⟨-, rfl⟩ := Expr.ident.inj same
    exact known
  · refine (Still.keeps V).mono fun _ G _ i cls isName isType nonempty => ?_
    exact (isClass ⟨i, cls, isName, isType, nonempty⟩).elim

theorem ne_of_has (named : ctx.Named) {name : String} (known : ctx.classes.has name) : name ≠ "" := by
  obtain ⟨c, mem, same⟩ := List.any_eq_true.mp known
  obtain rfl : c.name = name := by simpa using same
  exact named c mem

/-- The receiver of a call is a variable, or the checker takes it for the class of its name. -/
theorem resolves_receiver (named : ctx.Named) (r : Expr) (inner : Keeps V V (expr ctx r) fun _ G => r.Resolves (ctx.setting G) V) :
    Keeps V V (expr ctx r) fun r' G => r.Resolves (ctx.setting G) V ∧
      ∀ j cls, r = .ident j cls → (ctx.setting G).Knows V cls ∨
        r'.1 = r ∧ r'.2 = some (.object cls) ∧ cls ≠ "" := by
  by_cases isName : ∃ j cls, r = .ident j cls
  · obtain ⟨j, cls, rfl⟩ := isName
    unfold expr
    refine (keeps_identType ctx j.span cls).bind fun type => keeps_pure fun G known => ⟨?_, ?_⟩
    · exact known.imp_right And.left
    · rintro j' cls' same
      obtain ⟨rfl, rfl⟩ := Expr.ident.inj same
      exact known.imp_right fun ⟨isClass, isType⟩ => ⟨rfl, isType, ne_of_has ctx named isClass⟩
  · exact inner.mono fun _ _ own => ⟨own, fun j cls same => (isName ⟨j, cls, same⟩).elim⟩

theorem resolves_method (named : ctx.Named) (i : Info) (r : Expr) (name : String) (args : List Expr)
    (receiver : Keeps V V (expr ctx r) fun _ G => r.Resolves (ctx.setting G) V)
    (rest : Keeps V V (exprs ctx args) fun r G =>
      allResolve (ctx.setting G) V args ∧ r.length = args.length) :
    Keeps V V (expr ctx (.method i r name args)) fun _ G =>
      (Expr.method i r name args).Resolves (ctx.setting G) V := by
  unfold expr
  refine (resolves_receiver ctx named r receiver).bind fun r' => rest.bind fun args' =>
    (keeps_methodType ctx i.span r'.1 r'.2 name args'.length).bind fun _ =>
    keeps_pure fun G sends inner ⟨own, isName⟩ => ⟨Setting.sends_iff.mpr ?_, own, inner.1⟩
  rintro j cls rfl
  rcases isName j cls rfl with known | ⟨same, isType, nonempty⟩
  · exact .inl known
  · exact (sends j cls same isType nonempty).imp_left .inr

mutual

theorem resolves_expr (named : ctx.Named) (e : Expr) (proper : e.Proper) :
    Keeps V V (expr ctx e) fun _ G => e.Resolves (ctx.setting G) V := by
  cases e with
  | number | bool | str => unfold expr; exact keeps_pure fun _ => trivial
  | ident i name =>
      unfold expr
      exact (keeps_identType ctx i.span name).bind fun _ => keeps_pure fun _ known =>
        known.imp_right And.left
  | binary i op l r =>
      unfold expr
      exact (resolves_expr named l proper.1).bind fun _ => (resolves_expr named r proper.2).bind fun _ =>
        .after fun _ => keeps_pure fun _ right left => ⟨left, right⟩
  | unary i op e =>
      unfold expr
      exact (resolves_expr named e proper).bind fun _ => keeps_pure fun _ inner => inner
  | ternary i c a b =>
      unfold expr
      exact (resolves_expr named c proper.1).bind fun _ => (resolves_expr named a proper.2.1).bind fun _ =>
        (resolves_expr named b proper.2.2).bind fun _ => keeps_pure fun _ hb ha hc => ⟨hc, ha, hb⟩
  | list i es =>
      unfold expr
      exact (resolves_exprs named es proper).bind fun _ => keeps_pure fun _ inner => inner.1
  | map i es =>
      unfold expr
      exact (resolves_keys named es proper).bind fun _ => (resolves_values named es proper).bind fun _ =>
        keeps_pure fun _ values keys => entriesResolve_iff.mpr ⟨keys, values⟩
  | index i b k =>
      unfold expr
      exact (resolves_expr named b proper.1).bind fun _ => (resolves_expr named k proper.2).bind fun _ =>
        keeps_pure fun _ hk hb => ⟨hb, hk⟩
  | member i o name =>
      unfold expr
      exact (resolves_expr named o proper).bind fun _ => .after fun _ => keeps_pure fun _ inner => inner
  | call i callee args =>
      unfold expr
      refine (resolves_exprs named args proper).bind fun args' => (keeps_callType ctx i.span callee args').bind fun _ =>
        keeps_pure fun _ calls inner => ⟨?_, inner.1⟩
      rwa [← inner.2]
  | method i r name args =>
      exact resolves_method ctx named i r name args (resolves_expr named r proper.1) (resolves_exprs named args proper.2)
  | new_ i cls args =>
      unfold expr
      exact (resolves_exprs named args proper).bind fun _ => .after fun _ => keeps_pure fun _ inner => inner.1
  | super i =>
      unfold expr
      split
      · exact keeps_refused
      · next receiver =>
          refine keeps_pure fun G => ?_
          simp only [Bool.or_eq_true, not_or] at receiver
          simp [Expr.Resolves, Context.setting, receiver]
  | step i op first t =>
      unfold expr
      exact (resolves_expr named t proper.2).bind fun _ => keeps_pure fun _ inner => ⟨proper.1, inner⟩
  | funcRef i name =>
      unfold expr
      split
      · exact keeps_refused
      · next known => exact keeps_pure fun _ => Context.mem_funcs (by simpa [Option.isSome_iff_ne_none] using known)

theorem resolves_exprs (named : ctx.Named) (es : List Expr) (proper : properExprs es) :
    Keeps V V (exprs ctx es) fun r G => allResolve (ctx.setting G) V es ∧ r.length = es.length := by
  match es with
  | [] => unfold exprs; exact keeps_pure fun _ => ⟨trivial, rfl⟩
  | e :: es =>
      unfold exprs
      exact (resolves_expr named e proper.1).bind fun _ => (resolves_exprs named es proper.2).bind fun _ =>
        keeps_pure fun _ rest first => ⟨⟨first, rest.1⟩, congrArg (· + 1) rest.2⟩

theorem resolves_keys (named : ctx.Named) (es : List (Expr × Expr)) (proper : properEntries es) :
    Keeps V V (keys ctx es) fun _ G => ∀ e ∈ es, e.1.Resolves (ctx.setting G) V := by
  match es with
  | [] => unfold keys; exact keeps_pure fun _ => nofun
  | (k, v) :: es =>
      unfold keys
      exact (resolves_expr named k proper.1).bind fun _ => .after fun _ => (resolves_keys named es proper.2.2).bind fun _ =>
        keeps_pure fun _ rest first => List.forall_mem_cons.mpr ⟨first, rest⟩

theorem resolves_values (named : ctx.Named) (es : List (Expr × Expr)) (proper : properEntries es) :
    Keeps V V (values ctx es) fun _ G => ∀ e ∈ es, e.2.Resolves (ctx.setting G) V := by
  match es with
  | [] => unfold values; exact keeps_pure fun _ => nofun
  | (k, v) :: es =>
      unfold values
      exact (resolves_expr named v proper.2.1).bind fun _ => (resolves_values named es proper.2.2).bind fun _ =>
        keeps_pure fun _ rest first => List.forall_mem_cons.mpr ⟨first, rest⟩

end

theorem resolves_exprOnly (named : ctx.Named) {e : Expr} (proper : e.Proper) :
    Keeps V V (exprOnly ctx e) fun _ G => e.Resolves (ctx.setting G) V :=
  (resolves_expr ctx named e proper).bind fun _ => keeps_pure fun _ inner => inner

theorem resolves_exprOption (named : ctx.Named) {o : Option Expr} (proper : ∀ e ∈ o, e.Proper) :
    Keeps V V (exprOption ctx o) fun _ G => ∀ e ∈ o, e.Resolves (ctx.setting G) V := by
  cases o with
  | none => exact keeps_pure fun _ => nofun
  | some e =>
      refine (resolves_expr ctx named e (proper e rfl)).bind fun _ => keeps_pure fun _ inner => ?_
      simpa using inner

end Expressions

/-! ## Statements -/

section Statements

variable {V : Scopes}

theorem keeps_target {ctx : Context} (named : ctx.Named) {base key : Expr} (properBase : base.Proper)
    (properKey : key.Proper) :
    Keeps V V (target ctx base key) fun _ G => (ctx.setting G).Targets V base key := by
  have checked : Keeps V V (do
      let base ← exprOnly ctx base
      let key ← exprOnly ctx key
      return (base, key)) fun _ G => base.Resolves (ctx.setting G) V ∧ key.Resolves (ctx.setting G) V :=
    (resolves_exprOnly ctx named properBase).bind fun _ => (resolves_exprOnly ctx named properKey).bind
      fun _ => keeps_pure fun _ second first => ⟨first, second⟩
  have targets {i j : Info} {cls field : String} {G : List String} (isClass : ctx.classes.has cls)
      (static : (ctx.setting G).Knows V cls ∨ (ctx.classes.staticField? cls field).isSome) :
      (ctx.setting G).Targets V (.ident i cls) (.str j field) := by
    refine ⟨.inr isClass, trivial, fun _ _ _ _ isName isText => ?_⟩
    obtain ⟨-, rfl⟩ := Expr.ident.inj isName
    obtain ⟨-, rfl⟩ := Expr.str.inj isText
    exact static
  unfold target
  split
  · next i cls j field both =>
      obtain ⟨rfl, rfl⟩ := Prod.mk.inj both
      have variable_ {G : List String} (known : (ctx.setting G).Knows V cls) :
          (ctx.setting G).Targets V (.ident i cls) (.str j field) :=
        ⟨.inl known, trivial, fun _ _ _ _ isName _ => (Expr.ident.inj isName).2 ▸ .inl known⟩
      refine (keeps_isKnown cls).bind fun known => ?_
      split
      · next isKnown => exact checked.mono fun _ _ _ found => variable_ (.inr (found isKnown))
      · split
        · next isClass =>
            split
            · next f found =>
                split
                · exact keeps_refused
                · next static =>
                    exact keeps_pure fun G _ => targets isClass
                      (.inr (isSome_staticField? found (by simpa using static)))
            · exact keeps_refused
        · next noClass =>
            exact checked.mono fun _ G ⟨first, _⟩ _ => variable_ (first.resolve_right noClass)
  · next other =>
      exact checked.mono fun _ G ⟨first, second⟩ => ⟨first, second, fun i j cls field isName isText =>
        (other i cls j field (by rw [isName, isText])).elim⟩

/-- A global that is made is one of the globals from then on. -/
theorem keeps_global (name : String) {k : Unit → Checking Unit} [rest : Still (k ())] :
    Keeps V V (do
      modify fun st => { st with hints := st.hints.addGlobal name }
      if ← isLocal name then k ()
      else
        let r ← modify fun st => { st with scopes := addToLast name st.scopes }
        k r) fun _ G => name ∈ G := by
  rintro st ⟨last, global, holds⟩
  have known : name ∈ (st.hints.addGlobal name).globals := mem_addNew.mpr (.inr rfl)
  have grown : st.hints.globals ⊆ (st.hints.addGlobal name).globals :=
    fun _ old => mem_addNew.mpr (.inl old)
  have behind (scopes : List Scope) (described : Describes V ⟨scopes, st.hints.addGlobal name⟩) :
      ((k ()).run ⟨scopes, st.hints.addGlobal name⟩).Gives fun r => Describes V r.2 ∧
        st.hints.globals ⊆ r.2.hints.globals ∧ ∀ G, r.2.hints.globals ⊆ G → name ∈ G :=
    (rest.keeps V _ described).mono fun r ⟨described', grown', _⟩ =>
      ⟨described', List.Subset.trans grown grown', fun G enough => enough (grown' known)⟩
  show (StateT.run (if (st.scopes.headD []).has name then k () else
    (modify fun st => { st with scopes := addToLast name st.scopes }) >>= k)
      ⟨st.scopes, st.hints.addGlobal name⟩).Gives _
  split
  · exact behind st.scopes ⟨last, List.Subset.trans global grown, holds⟩
  · exact behind (addToLast name st.scopes) ⟨name :: last,
      List.cons_subset.mpr ⟨known, List.Subset.trans global grown⟩, holds_addToLast holds name⟩

theorem keeps_declareGlobal (classes : ClassTable) (name : String) (type : Option Sigil) (at_ : Span) :
    Keeps V V (declareGlobal classes name type at_) fun _ G => name ∈ G := by
  have typed (t : Sigil) : Still (do
      setType name (some t)
      modify fun st : State => { st with
        hints := { st.hints with globalTypes := st.hints.globalTypes.put name t } }) :=
    ⟨fun V => .after fun _ => keeps_modify fun _ ⟨last, global, holds⟩ =>
      ⟨⟨last, global, holds⟩, List.Subset.refl _⟩⟩
  unfold declareGlobal
  dsimp only
  split
  · exact keeps_refused
  · cases type with
    | none => exact keeps_global name (k := fun _ => pure ())
    | some t =>
        refine @keeps_global V name _ ⟨fun V => Keeps.after fun r => ?_⟩
        split
        · exact (typed t).keeps V
        · exact Still.keeps V

instance (classes : ClassTable) (name : String) (type : Option Sigil) (at_ : Span) :
    Still (declareGlobal classes name type at_) :=
  ⟨fun _ => (keeps_declareGlobal classes name type at_).mono fun _ _ _ => trivial⟩

theorem keeps_assignment (ctx : Context) (at_ : Span) (name : String) (got : Option Sigil) :
    Keeps V V (assignment ctx at_ name got) fun _ G => (ctx.setting G).Knows V name := by
  unfold assignment
  refine (keeps_find? name).bind fun found => ?_
  split
  · dsimp only
    split
    · exact keeps_refused
    · exact .after fun _ => (keeps_declareGlobal _ _ _ _).mono fun _ _ known _ => .inr (.inr known)
  · next type =>
      have known {x : Checking Unit} [still : Still x] : Keeps V V x fun _ G =>
          ((some type).isSome = true → name ∈ V.flatten ∨ name ∈ G) → (ctx.setting G).Knows V name :=
        (still.keeps V).mono fun _ _ _ known => .inr (known rfl)
      exact known

theorem resolves_clauseValue (ctx : Context) (named : ctx.Named) (subject : Option Sigil) {v : Expr}
    (proper : v.Proper) :
    Keeps V V (clauseValue ctx subject v) fun _ G => v.Resolves (ctx.setting G) V := by
  unfold clauseValue
  split
  on_goal 4 => refine .after fun _ => ?_
  all_goals
    refine (resolves_expr ctx named _ proper).bind ?_
    rintro ⟨v', type⟩
    dsimp only
    split
    · split
      · exact .after fun _ => keeps_pure fun _ inner => inner
      · exact keeps_pure fun _ inner => inner
    · exact keeps_pure fun _ inner => inner

/-- A declared variable joins the innermost scope of a routine. Outside of routines it is global. -/
theorem keeps_variableDecl (ctx : Context) (inside : ctx.inRoutine → V ≠ []) (s : Span) (name : String)
    (type got : Option Sigil) (init : Option Expr) :
    Keeps V (V.behind ctx.inRoutine (.varDecl s name type init)) (variableDecl ctx s name type got)
      fun _ _ => True := by
  unfold variableDecl
  refine .after fun _ => ?_
  dsimp only
  split
  · next outside =>
      have outside : ctx.inRoutine = false := by simp [Context.inRoutine, outside]
      rw [outside]
      refine .after fun found => ?_
      split
      · exact Still.keeps V
      · exact Still.keeps V
  · next within =>
      have within : ctx.inRoutine = true := by simpa [Context.inRoutine] using within
      obtain ⟨names, V, rfl⟩ := List.exists_cons_of_ne_nil (inside within)
      rw [within]
      refine .after fun isLocal => ?_
      split
      · exact keeps_refused
      · exact keeps_declare names name _

theorem keeps_option {α : Type} {ctx : Context} {V W : Scopes} {o : Option Stmt} {k : Option Stmt → Checking α}
    {Q : α → List String → Prop}
    (each : ∀ s, o = some s → Keeps V (V.behind ctx.inRoutine s) (stmt ctx s) fun _ G =>
      s.Resolves (ctx.setting G) V)
    (rest : ∀ o', Keeps (V.behindOption ctx.inRoutine o) W (k o') fun a G =>
      (∀ s ∈ o, s.Resolves (ctx.setting G) V) → Q a G) :
    Keeps V W (match o with
      | some s => (some <$> stmt ctx s) >>= k
      | none => pure none >>= k) Q := by
  cases o with
  | none => exact (rest none).mono fun _ _ holds => holds nofun
  | some s =>
      refine (each s rfl).some.bind fun o' => (rest o').mono fun _ G holds ⟨_, _, inner⟩ => holds ?_
      simpa using inner

/-- A counted loop, given what its parts do. -/
theorem resolves_for (ctx : Context) (V : Scopes) (named : ctx.Named) (s : Span) (init : Option Stmt)
    (cond : Option Expr) (post : Option Stmt) (body : Stmt) (proper : ∀ e ∈ cond, e.Proper)
    (simple : ∀ p ∈ post, p.isSimple)
    (first : ∀ i, init = some i → Keeps ([] :: V) (Scopes.behind ([] :: V) ctx.inRoutine i) (stmt ctx i)
      fun _ G => i.Resolves (ctx.setting G) ([] :: V))
    (next : ∀ W : Scopes, W ≠ [] → ∀ p, post = some p → Keeps W (W.behind ctx.inRoutine p) (stmt ctx p)
      fun _ G => p.Resolves (ctx.setting G) W)
    (inner : ∀ W : Scopes, W ≠ [] → Keeps W (W.behind ctx.inRoutine body) (stmt ctx.inLoop body)
      fun _ G => body.Resolves (ctx.inLoop.setting G) W) :
    Keeps V V (stmt ctx (.for_ s init cond post body)) fun _ G =>
      (Stmt.for_ s init cond post body).Resolves (ctx.setting G) V := by
  obtain ⟨names, inside⟩ := Scopes.exists_behindOption [] V ctx.inRoutine init
  unfold stmt
  refine keeps_inScope (W := Scopes.behind (names :: V) ctx.inRoutine body) ?_
    (Scopes.exists_behind names V _ body)
  refine keeps_option first fun init' => ?_
  rw [inside]
  refine (resolves_exprOption ctx named proper).bind fun (cond', _) => ?_
  refine keeps_option (next _ (List.cons_ne_nil _ _)) fun post' => ?_
  rw [Scopes.behindOption_eq simple]
  refine (inner _ (List.cons_ne_nil _ _)).bind fun body' => keeps_pure fun G hb hp hc hi => ?_
  rw [Context.setting_inLoop] at hb
  have inside : Scopes.behindOption ([] :: V) (ctx.setting G).inRoutine init = names :: V := inside
  rw [Stmt.resolves_for_iff, inside]
  exact ⟨hi, hc, fun p mem => ⟨simple p mem, hp p mem⟩, hb⟩

mutual

theorem resolves_stmt (ctx : Context) (V : Scopes) (named : ctx.Named) (inside : ctx.inRoutine → V ≠ [])
    (s : Stmt) (proper : s.Proper) : Keeps V (V.behind ctx.inRoutine s) (stmt ctx s) fun _ G =>
      s.Resolves (ctx.setting G) V := by
  cases s with
  | block s body =>
      rw [Scopes.behind_eq rfl]
      unfold stmt
      exact keeps_inScope ((resolves_stmts ctx ([] :: V) named (fun _ => List.cons_ne_nil _ _) false body
        proper).bind fun _ => keeps_pure fun _ inner => inner) (Scopes.exists_behindAll [] V _ body)
  | print s e | expr s e | throw_ s type e =>
      rw [Scopes.behind_eq rfl]
      unfold stmt
      exact (resolves_exprOnly ctx named proper).bind fun _ => keeps_pure fun _ inner => inner
  | varDecl s name type init =>
      unfold stmt
      exact (resolves_exprOption ctx named proper.2).bind fun (_, got) =>
        (keeps_variableDecl ctx inside s name type got init).bind fun _ => keeps_pure fun _ _ inner => inner
  | assign s name e =>
      rw [Scopes.behind_eq rfl]
      unfold stmt
      exact (resolves_expr ctx named e proper).bind fun (_, got) =>
        (keeps_assignment ctx s name got).bind fun _ => keeps_pure fun _ known inner => ⟨inner, known⟩
  | indexAssign s b k e =>
      rw [Scopes.behind_eq rfl]
      unfold stmt
      exact (keeps_target named proper.1 proper.2.1).bind fun _ =>
        (resolves_exprOnly ctx named proper.2.2).bind fun _ => keeps_pure fun _ inner target => ⟨target, inner⟩
  | ifElse s c a b =>
      cases b with
      | none =>
          unfold stmt
          exact (resolves_exprOnly ctx named proper.1).bind fun _ =>
            (resolves_stmt ctx V named inside a proper.2.1).bind fun _ =>
              keeps_pure fun _ ha hc => ⟨hc, ha, trivial⟩
      | some b =>
          rw [← Scopes.behind_behind (a := a) (b := b) rfl]
          unfold stmt
          exact (resolves_exprOnly ctx named proper.1).bind fun _ =>
            (resolves_stmt ctx V named inside a proper.2.1).bind fun _ =>
            (resolves_stmt ctx _ named (fun routine => Scopes.behind_ne_nil (inside routine) a) b
              proper.2.2).some.bind fun _ => keeps_pure fun _ ⟨_, _, hb⟩ ha hc => ⟨hc, ha, hb⟩
  | while_ s c body =>
      unfold stmt
      refine (resolves_exprOnly ctx named proper.1).bind fun _ =>
        (resolves_stmt ctx.inLoop V named inside body proper.2).bind fun _ =>
          keeps_pure fun G inner cond => ⟨cond, ?_⟩
      rwa [← Context.setting_inLoop]
  | doWhile s body c =>
      unfold stmt
      refine (resolves_stmt ctx.inLoop V named inside body proper.2).bind fun _ =>
        (resolves_exprOnly ctx named proper.1).bind fun _ => keeps_pure fun G cond inner => ⟨?_, cond⟩
      rwa [← Context.setting_inLoop]
  | for_ s init cond post body =>
      rw [Scopes.behind_eq rfl]
      unfold Stmt.Proper at proper
      refine resolves_for ctx V named s init cond post body proper.2.1 ?_ ?_ ?_ ?_
      · rintro p isPost
        obtain rfl : post = some p := isPost
        exact proper.2.2.1.1
      · rintro i rfl
        exact resolves_stmt ctx _ named (fun _ => List.cons_ne_nil _ _) i proper.1
      · rintro W nonempty p rfl
        exact resolves_stmt ctx W named (fun _ => nonempty) p proper.2.2.1.2
      · exact fun W nonempty => resolves_stmt ctx.inLoop W named (fun _ => nonempty) body proper.2.2.2
  | switch s e cs =>
      rw [Scopes.behind_eq rfl]
      unfold stmt
      refine (resolves_expr ctx named e proper.1).bind fun (_, subject) => keeps_inScope
        ((resolves_clauses ctx.inSwitch ([] :: V) named (fun _ => List.cons_ne_nil _ _) subject cs
          proper.2).bind fun _ => keeps_pure fun G inner subject => ⟨subject, ?_⟩) ?_
      · rwa [← Context.setting_inSwitch]
      · exact Scopes.exists_behindClauses [] V _ cs
  | break_ s =>
      rw [Scopes.behind_eq rfl]
      unfold stmt
      split
      · exact keeps_refused
      · next around =>
          exact keeps_pure fun _ => by simpa [Stmt.Resolves, Context.setting, imp_iff_not_or] using around
  | continue_ s =>
      rw [Scopes.behind_eq rfl]
      unfold stmt
      split
      · exact keeps_refused
      · next around => exact keeps_pure fun _ => by simpa [Stmt.Resolves, Context.setting] using around
  | return_ s e =>
      rw [Scopes.behind_eq rfl]
      cases e with
      | none => unfold stmt; exact keeps_pure fun _ => nofun
      | some e =>
          unfold stmt
          split
          · exact keeps_refused
          · refine (resolves_expr ctx named e (proper e rfl)).bind fun _ => .after fun _ =>
              keeps_pure fun _ inner => ?_
            simpa [Stmt.Resolves] using inner
  | try_ s body cs last =>
      cases last with
      | none =>
          unfold stmt
          exact (resolves_stmt ctx V named inside body proper.1).bind fun _ =>
            (resolves_catches ctx _ named cs proper.2.1).bind fun _ =>
              keeps_pure fun _ hc hb => ⟨hb, hc, trivial⟩
      | some l =>
          rw [← Scopes.behind_behind (a := body) (b := l) rfl]
          unfold stmt
          exact (resolves_stmt ctx V named inside body proper.1).bind fun _ =>
            (resolves_catches ctx _ named cs proper.2.1).bind fun _ =>
            (resolves_stmt ctx _ named (fun routine => Scopes.behind_ne_nil (inside routine) body) l
              proper.2.2).some.bind fun _ => keeps_pure fun _ ⟨_, _, hl⟩ hc hb => ⟨hb, hc, hl⟩
  | func f | class_ c => unfold stmt; exact keeps_fail
  | bare e | printStmt s b => exact proper.elim
termination_by sizeOf s
decreasing_by all_goals (subst_vars; simp <;> omega)

theorem resolves_stmts (ctx : Context) (V : Scopes) (named : ctx.Named) (inside : ctx.inRoutine → V ≠ [])
    (left : Bool) (ss : List Stmt) (proper : properAll ss) :
    Keeps V (V.behindAll ctx.inRoutine ss) (stmts ctx false left ss) fun _ G =>
      stmtsResolve (ctx.setting G) V ss := by
  match ss with
  | [] => unfold stmts; exact keeps_pure fun _ => trivial
  | s :: ss =>
      unfold stmts
      have step : Keeps V (V.behindAll ctx.inRoutine (s :: ss)) (do
          let s ← stmt ctx s
          return s :: (← stmts ctx false s.isTransfer ss)) fun _ G =>
            stmtsResolve (ctx.setting G) V (s :: ss) :=
        (resolves_stmt ctx V named inside s proper.1).bind fun s' =>
          (resolves_stmts ctx _ named (fun routine => Scopes.behind_ne_nil (inside routine) s) s'.isTransfer ss
            proper.2).bind fun _ => keeps_pure fun _ rest first => ⟨first, rest⟩
      cases left with
      | true => exact .after fun _ => step
      | false => exact step
termination_by sizeOf ss
decreasing_by all_goals (simp <;> omega)

theorem resolves_clauses (ctx : Context) (V : Scopes) (named : ctx.Named) (inside : ctx.inRoutine → V ≠ [])
    (subject : Option Sigil) (cs : List Clause) (proper : properClauses cs) :
    Keeps V (V.behindClauses ctx.inRoutine cs) (clauses ctx subject cs) fun _ G =>
      clausesResolve (ctx.setting G) V cs := by
  match cs with
  | [] => unfold clauses; exact keeps_pure fun _ => trivial
  | .case_ s v body :: cs =>
      unfold clauses
      exact (resolves_clauseValue ctx named subject proper.1).bind fun _ =>
        (resolves_stmts ctx V named inside false body proper.2.1).bind fun _ =>
        (resolves_clauses ctx _ named (fun routine => Scopes.behindAll_ne_nil (inside routine) body) subject cs
          proper.2.2).bind fun _ => keeps_pure fun _ rest hb hv => ⟨hv, hb, rest⟩
  | .default_ s body :: cs =>
      unfold clauses
      exact (resolves_stmts ctx V named inside false body proper.1).bind fun _ =>
        (resolves_clauses ctx _ named (fun routine => Scopes.behindAll_ne_nil (inside routine) body) subject cs
          proper.2).bind fun _ => keeps_pure fun _ rest hb => ⟨hb, rest⟩
termination_by sizeOf cs
decreasing_by all_goals (simp <;> omega)

theorem resolves_catches (ctx : Context) (V : Scopes) (named : ctx.Named) (cs : List Catch)
    (proper : properCatches cs) :
    Keeps V V (catches ctx cs) fun _ G => catchesResolve (ctx.setting G) V cs := by
  match cs with
  | [] => unfold catches; exact keeps_pure fun _ => trivial
  | ⟨s, type, name, body⟩ :: cs =>
      unfold catches
      have handler : Keeps V V (inScope do
          declare name (some (.object ""))
          stmt ctx body) fun _ G => body.Resolves (ctx.setting G) ([name] :: V) :=
        keeps_inScope ((keeps_declare [] name _).bind fun _ =>
          (resolves_stmt ctx ([name] :: V) named (fun _ => List.cons_ne_nil _ _) body proper.2.1).mono
            fun _ _ inner _ => inner) (Scopes.exists_behind [name] V _ body)
      exact handler.bind fun _ => (resolves_catches ctx V named cs proper.2.2).bind fun _ =>
        keeps_pure fun _ rest first => ⟨first, rest⟩
termination_by sizeOf cs
decreasing_by all_goals (simp <;> omega)

end

end Statements

/-! ## Globals and parameters -/

mutual

theorem still_gatherGlobals (classes : ClassTable) (s : Stmt) : Still (gatherGlobals classes s) := by
  cases s with
  | varDecl s name type init => unfold gatherGlobals; infer_instance
  | block s body =>
      have := still_gatherGlobalsOf classes body
      unfold gatherGlobals
      infer_instance
  | ifElse s c a b =>
      have := still_gatherGlobals classes a
      cases b with
      | none => unfold gatherGlobals; infer_instance
      | some b =>
          have := still_gatherGlobals classes b
          unfold gatherGlobals
          infer_instance
  | while_ s c body =>
      have := still_gatherGlobals classes body
      unfold gatherGlobals
      infer_instance
  | doWhile s body c =>
      have := still_gatherGlobals classes body
      unfold gatherGlobals
      infer_instance
  | for_ s init cond post body =>
      have := still_gatherGlobals classes body
      cases init with
      | none => unfold gatherGlobals; infer_instance
      | some i =>
          have := still_gatherGlobals classes i
          unfold gatherGlobals
          infer_instance
  | switch s e cs =>
      have := still_gatherClauseGlobals classes cs
      unfold gatherGlobals
      infer_instance
  | try_ s body cs last =>
      have := still_gatherGlobals classes body
      have := still_gatherCatchGlobals classes cs
      cases last with
      | none => unfold gatherGlobals; infer_instance
      | some l =>
          have := still_gatherGlobals classes l
          unfold gatherGlobals
          infer_instance
  | _ => unfold gatherGlobals; infer_instance

theorem still_gatherGlobalsOf (classes : ClassTable) (ss : List Stmt) :
    Still (gatherGlobalsOf classes ss) := by
  match ss with
  | [] => unfold gatherGlobalsOf; infer_instance
  | s :: ss =>
      have := still_gatherGlobals classes s
      have := still_gatherGlobalsOf classes ss
      unfold gatherGlobalsOf
      infer_instance

theorem still_gatherClauseGlobals (classes : ClassTable) (cs : List Clause) :
    Still (gatherClauseGlobals classes cs) := by
  match cs with
  | [] => unfold gatherClauseGlobals; infer_instance
  | .case_ s v body :: cs | .default_ s body :: cs =>
      have := still_gatherGlobalsOf classes body
      have := still_gatherClauseGlobals classes cs
      unfold gatherClauseGlobals
      infer_instance

theorem still_gatherCatchGlobals (classes : ClassTable) (cs : List Catch) :
    Still (gatherCatchGlobals classes cs) := by
  match cs with
  | [] => unfold gatherCatchGlobals; infer_instance
  | ⟨s, type, name, body⟩ :: cs =>
      have := still_gatherGlobals classes body
      have := still_gatherCatchGlobals classes cs
      unfold gatherCatchGlobals
      infer_instance

end

theorem keeps_declareParams (at_ : Span) (names : List String) (V : Scopes) (ps : List Param) :
    Keeps (names :: V) (((ps.map Param.name).reverse ++ names) :: V) (declareParams at_ ps)
      fun _ _ => True := by
  induction ps generalizing names with
  | nil => exact keeps_pure fun _ => trivial
  | cons p ps ih =>
      unfold declareParams
      refine .after fun isLocal => ?_
      dsimp only
      split
      · exact keeps_refused
      · have rest := ih (p.name :: names)
        rw [List.map_cons, List.reverse_cons, List.append_assoc]
        exact (keeps_declare names p.name p.type).bind fun _ => rest.mono fun _ _ _ _ => trivial

/-- The body of a routine resolves where its parameters are known. -/
theorem resolves_routine (ctx : Context) (named : ctx.Named) (params : List Param) (body : Stmt)
    (proper : body.Proper) : Keeps [] [] (routine ctx params body) fun _ G =>
      body.Resolves (ctx.setting G) (Scopes.entry (!(ctx.cls.isEmpty || ctx.isStatic)) params) := by
  have declared (names : List String) : Keeps [names] (Scopes.behind
      [(params.map Param.name).reverse ++ names] ctx.inRoutine body) (do
        declareParams body.span params
        stmt ctx body) fun _ G => body.Resolves (ctx.setting G) [(params.map Param.name).reverse ++ names] :=
    (keeps_declareParams body.span names [] params).bind fun _ =>
      (resolves_stmt ctx _ named (fun _ => List.cons_ne_nil _ _) body proper).mono fun _ _ inner _ => inner
  unfold routine Scopes.entry
  cases receiver : ctx.cls.isEmpty || ctx.isStatic with
  | true =>
      exact keeps_inScope (declared []) (Scopes.exists_behind ((params.map Param.name).reverse ++ []) [] _ body)
  | false =>
      have body' := (keeps_declare [] "this" (some (.object ctx.cls))).bind fun _ =>
        (declared ["this"]).mono fun _ _ inner _ => inner
      exact keeps_inScope body' (Scopes.exists_behind ((params.map Param.name).reverse ++ ["this"]) [] _ body)

/-! ## Items -/

theorem Context.setting_inside (d : Declarations) (G : List String) {symbol : String} (named : symbol ≠ "")
    (cls : String) (isStatic : Bool) :
    setting { outside d with routine := symbol, cls := cls, isStatic := isStatic } G =
      ((outside d).setting G).inside !(cls.isEmpty || isStatic) := by
  simp [setting, Setting.inside, outside, inRoutine, named]

section Items

variable {d : Declarations} (named : (Context.outside d).Named)

include named

/-- A routine with a symbol of its own. -/
theorem resolves_inside {symbol : String} (isSymbol : symbol ≠ "") (cls : String) (isStatic : Bool)
    (params : List Param) {body : Stmt} (proper : body.Proper) :
    Keeps [] [] (routine { Context.outside d with routine := symbol, cls := cls, isStatic := isStatic } params
      body) fun _ G => body.Resolves (((Context.outside d).setting G).inside !(cls.isEmpty || isStatic))
        (Scopes.entry (!(cls.isEmpty || isStatic)) params) := by
  let ctx := { Context.outside d with routine := symbol, cls := cls, isStatic := isStatic }
  refine (resolves_routine ctx named params body proper).mono fun _ G inner => ?_
  rwa [Context.setting_inside d G isSymbol] at inner

theorem resolves_func (f : FuncDecl) (proper : f.body.Proper) :
    Keeps [] [] (func (Context.outside d) f) fun _ G =>
      (Stmt.func f).ItemResolves ((Context.outside d).setting G) :=
  (resolves_inside named (by simp [SymbolName.func]) "" false f.params proper).bind fun _ =>
    keeps_pure fun _ inner => inner

theorem resolves_fields (cls : String) (fs : List Field) (proper : ∀ f ∈ fs, ∀ e ∈ f.init, e.Proper) :
    Keeps [] [] (fields { Context.outside d with cls := cls } fs) fun _ G => ∀ f ∈ fs, ∀ e ∈ f.init,
      e.Resolves ((Context.outside d).setting G) [] := by
  induction fs with
  | nil => exact keeps_pure fun _ => List.forall_mem_nil _
  | cons f fs ih =>
      obtain ⟨own, others⟩ := List.forall_mem_cons.mp proper
      have same (G : List String) : Context.setting { Context.outside d with cls := cls, isStatic := true } G =
          (Context.outside d).setting G := by simp [Context.setting, Context.outside, Context.inRoutine]
      unfold fields
      refine (resolves_exprOption { Context.outside d with cls := cls, isStatic := true } named own).bind
        fun (init, got) => .after fun _ => (ih others).bind fun _ => keeps_pure fun G rest first => ?_
      rw [same] at first
      exact List.forall_mem_cons.mpr ⟨first, rest⟩

theorem resolves_methods {cls : String} (isName : cls ≠ "") (ms : List Method)
    (proper : ∀ m ∈ ms, m.body.Proper) :
    Keeps [] [] (methods { Context.outside d with cls := cls } ms) fun _ G => ∀ m ∈ ms,
      m.body.Resolves (((Context.outside d).setting G).inside !m.isStatic)
        (Scopes.entry (!m.isStatic) m.params) := by
  induction ms with
  | nil => exact keeps_pure fun _ => List.forall_mem_nil _
  | cons m ms ih =>
      obtain ⟨own, others⟩ := List.forall_mem_cons.mp proper
      have isSymbol : methodSymbol cls m ≠ "" := by
        unfold methodSymbol
        split <;> simp [SymbolName.staticMethod, SymbolName.method]
      unfold methods
      refine (resolves_inside named isSymbol cls m.isStatic m.params own).bind fun _ =>
        (ih others).bind fun _ => keeps_pure fun G rest first => List.forall_mem_cons.mpr ⟨?_, rest⟩
      have isClass : cls.isEmpty = false := by simpa using isName
      simpa [isClass] using first

theorem resolves_ctors {cls : String} (isName : cls ≠ "") (ks : List Ctor)
    (proper : ∀ k ∈ ks, k.body.Proper) :
    Keeps [] [] (ctors { Context.outside d with cls := cls } ks) fun _ G => ∀ k ∈ ks,
      k.body.Resolves (((Context.outside d).setting G).inside true) (Scopes.entry true k.params) := by
  induction ks with
  | nil => exact keeps_pure fun _ => List.forall_mem_nil _
  | cons k ks ih =>
      obtain ⟨own, others⟩ := List.forall_mem_cons.mp proper
      unfold ctors
      refine (resolves_inside named (by simp [SymbolName.ctor]) cls false k.params own).bind fun _ =>
        (ih others).bind fun _ => keeps_pure fun G rest first => List.forall_mem_cons.mpr ⟨?_, rest⟩
      have isClass : cls.isEmpty = false := by simpa using isName
      simpa [isClass] using first

theorem resolves_class (c : ClassDecl) (proper : (Stmt.class_ c).Proper) :
    Keeps [] [] (class_ (Context.outside d) c) fun _ G =>
      (Stmt.class_ c).ItemResolves ((Context.outside d).setting G) := by
  obtain ⟨isName, ofFields, ofMethods, ofCtors⟩ := Stmt.proper_class.mp proper
  exact (resolves_fields named c.name c.fields fun f mem => (ofFields f mem).2).bind fun _ =>
    (resolves_methods named isName.nonempty c.methods fun m mem => (properMethods_iff.mp ofMethods m mem).2.2).bind
      fun _ => (resolves_ctors named isName.nonempty c.ctors fun k mem => (properCtors_iff.mp ofCtors k mem).2).bind
        fun _ => keeps_pure fun _ ctors methods fields => ⟨fields, methods, ctors⟩

theorem resolves_decls (ss : List Stmt) (proper : ∀ s ∈ ss, s.isDecl → s.Proper) :
    Keeps [] [] (decls (Context.outside d) ss) fun _ G => ∀ s ∈ ss, s.isDecl →
      s.ItemResolves ((Context.outside d).setting G) := by
  induction ss with
  | nil => exact keeps_pure fun _ => List.forall_mem_nil _
  | cons s ss ih =>
      obtain ⟨own, others⟩ := List.forall_mem_cons.mp proper
      cases s with
      | func f =>
          exact (resolves_func named f (Stmt.proper_func.mp (own rfl)).2.2).bind fun _ => (ih others).bind fun _ =>
            keeps_pure fun _ rest first => List.forall_mem_cons.mpr ⟨fun _ => first, rest⟩
      | class_ c =>
          exact (resolves_class named c (own rfl)).bind fun _ => (ih others).bind fun _ =>
            keeps_pure fun _ rest first => List.forall_mem_cons.mpr ⟨fun _ => first, rest⟩
      | _ =>
          exact (ih others).bind fun _ => keeps_pure fun _ rest => List.forall_mem_cons.mpr ⟨nofun, rest⟩

/-- Statements at the top level resolve, and declarations among them are passed over. -/
theorem resolves_topLevel (left : Bool) (ss : List Stmt) (proper : properAll ss) :
    Keeps [] [] (stmts (Context.outside d) true left ss) fun _ G => ∀ s ∈ ss, s.isDecl = false →
      s.ItemResolves ((Context.outside d).setting G) := by
  induction ss generalizing left with
  | nil => unfold stmts; exact keeps_pure fun _ => nofun
  | cons s ss ih =>
      unfold stmts
      rw [Bool.true_and]
      have step : Keeps [] [] (do
          let s ← stmt (Context.outside d) s
          return s :: (← stmts (Context.outside d) true s.isTransfer ss)) fun _ G =>
            ∀ s' ∈ s :: ss, s'.isDecl = false → s'.ItemResolves ((Context.outside d).setting G) :=
        (resolves_stmt (Context.outside d) [] named nofun s proper.1).bind fun s' =>
          (ih s'.isTransfer proper.2).bind fun _ => keeps_pure fun _ rest first =>
            List.forall_mem_cons.mpr ⟨fun plain => (Stmt.itemResolves_iff plain).mpr first, rest⟩
      cases isDecl : s.isDecl with
      | true =>
          refine (ih left proper.2).bind fun _ => keeps_pure fun _ rest => List.forall_mem_cons.mpr ⟨?_, rest⟩
          exact fun plain => absurd (isDecl.symm.trans plain) nofun
      | false =>
          cases left with
          | true => exact .after fun _ => step
          | false => exact step

omit named in
/-- The declarations among statements at the top level stay as they are. -/
theorem declarations_stmts (ctx : Context) (left : Bool) (ss : List Stmt) :
    Gives (stmts ctx true left ss) fun r => ∀ s, s.isDecl → (s ∈ r ↔ s ∈ ss) := by
  induction ss generalizing left with
  | nil => unfold stmts; exact gives_pure fun _ _ => Iff.rfl
  | cons s ss ih =>
      have step : Gives (do
          let s ← stmt ctx s
          return s :: (← stmts ctx true s.isTransfer ss)) fun r =>
            s.isDecl = false → ∀ s', s'.isDecl → (s' ∈ r ↔ s' ∈ s :: ss) := by
        refine (erase_stmt ctx s).bind fun t same => (ih t.isTransfer).bind fun r rest => gives_pure ?_
        intro plain s' isDecl
        have other : t.isDecl = false := by rw [← t.isDecl_erase, same, s.isDecl_erase, plain]
        have fresh (u : Stmt) (plain : u.isDecl = false) : s' ≠ u := fun eq => by simp [eq, plain] at isDecl
        simp [rest s' isDecl, fresh s plain, fresh t other]
      unfold stmts
      rw [Bool.true_and]
      cases isDecl : s.isDecl with
      | true => exact (ih left).bind fun r rest => gives_pure fun s' isDecl => by simp [rest s' isDecl]
      | false =>
          cases left with
          | true => exact .after fun _ => step.mono fun _ holds => holds isDecl
          | false => exact step.mono fun _ holds => holds isDecl

/-- Every item of a program that passes the checks resolves. -/
theorem resolves_items (xs : List Stmt) (proper : properAll xs) :
    Keeps [] [] (items d xs) fun _ G => ∀ s ∈ xs, s.ItemResolves ((Context.outside d).setting G) := by
  have := still_gatherGlobalsOf d.classes (xs.filter (!·.isDecl))
  refine .after fun _ => (resolves_topLevel named false xs proper).bind_of (declarations_stmts _ _ xs)
    fun ys same => (resolves_decls named ys fun s mem isDecl =>
      properAll_iff.mp proper s ((same s isDecl).mp mem)).mono fun _ G declared plain s mem => ?_
  cases isDecl : s.isDecl with
  | true => exact declared s ((same s isDecl).mpr mem) isDecl
  | false => exact plain s mem isDecl

end Items

end Check

/-! ## Programs -/

/-- What the names of a checked program may stand for, outside of routines. -/
def Program.setting (p : Program) (hints : Hints) : Setting :=
  { classes := classesOf p.items, funcs := (funcsOf p.items).map FuncDecl.name, globals := hints.globals,
    inRoutine := false, receiver := false, breaks := false, continues := false }

/-- Every name of a program that passes the checks stands for something. -/
theorem Program.gives_resolves (p : Program) (proper : properAll p.items) :
    p.check.Gives fun r => ∀ s ∈ p.items, s.ItemResolves (p.setting r.2) := by
  refine (Check.gives_gather Check.Declarations.distinct_empty p.items).bind fun d ⟨_, funcs, classes⟩ =>
    Checked.gives_true.bind fun _ _ => ?_
  have funcs : d.funcs = funcsOf p.items := funcs
  have classes : d.classes = classesOf p.items := classes
  have named : (Check.Context.outside d).Named := fun c mem =>
    (Stmt.proper_class.mp (properAll_iff.mp proper _ (mem_classesOf.mp (classes ▸ mem)))).1.nonempty
  have start : Check.Describes [] ⟨[[]], d.hints⟩ :=
    ⟨[], List.nil_subset _, .cons (fun x => by simp [Assoc.has]) .nil⟩
  refine (Check.resolves_items named p.items proper _ start).bind fun (xs, st) ⟨_, _, holds⟩ =>
    Checked.gives_pure ?_
  have same : (Check.Context.outside d).setting st.hints.globals = p.setting st.hints := by
    simp [Check.Context.setting, Check.Context.outside, Check.Context.inRoutine, Program.setting, funcs, classes]
  exact same ▸ holds st.hints.globals (List.Subset.refl _)

end Lantern
