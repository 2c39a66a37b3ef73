import Lantern.Infer.Unbounded
import Lantern.Proofs.Hierarchy

/-!
# Searches along the bases

The search of inference is over within a number of classes just where a walk along the bases is. Where every chain of
bases ends, more classes than there are will do for every search, and inference with it is inference with the bounded
walk. Where bases come round, no number will do for a search for what none of them has.
-/

namespace Lantern

namespace ClassTable

variable {α : Type} {t : ClassTable} {look : ClassDecl → Option α} {name : String} {n m : Nat} {r r' : Option α}

/-! ## The bounded walk -/

theorem lineageFrom_of_get? {seen : List String} {name : String} {c : ClassDecl} (fresh : name ∉ seen)
    (found : t.get? name = some c) (bound : Nat) :
    t.lineageFrom (bound + 1) seen name = c :: t.lineageFrom bound (name :: seen) c.base := by
  simp [lineageFrom, fresh, found]

/-- Following bases meets each class at most once, also where they come round: more steps than there are
    classes make no difference. -/
theorem lineageFrom_succ {seen : List String} (nodup : seen.Nodup) (known : ∀ name ∈ seen, t.has name) {bound : Nat}
    (enough : t.length ≤ bound + seen.length) (name : String) :
    t.lineageFrom (bound + 1) seen name = t.lineageFrom bound seen name := by
  have room {seen : List String} {name : String} {c : ClassDecl} (nodup : seen.Nodup)
      (known : ∀ name ∈ seen, t.has name) (met : name ∉ seen) (found : t.get? name = some c) :
      (name :: seen).Nodup ∧ (∀ x ∈ name :: seen, t.has x) ∧ seen.length < t.length := by
    have nodup' : (name :: seen).Nodup := List.nodup_cons.mpr ⟨met, nodup⟩
    have known' : ∀ x ∈ name :: seen, t.has x := List.forall_mem_cons.mpr ⟨has_iff.mpr ⟨c, found⟩, known⟩
    exact ⟨nodup', known', length_le_of_known nodup' known'⟩
  induction bound generalizing seen name with
  | zero =>
      by_cases met : name ∈ seen
      · simp [lineageFrom, met]
      cases found : t.get? name with
      | none => simp [lineageFrom, met, found]
      | some c =>
          obtain ⟨-, -, lt⟩ := room nodup known met found
          omega
  | succ bound ih =>
      by_cases met : name ∈ seen
      · simp [lineageFrom, met]
      cases found : t.get? name with
      | none => simp [lineageFrom, met, found]
      | some c =>
          obtain ⟨nodup', known', -⟩ := room nodup known met found
          have enough' : t.length ≤ bound + (name :: seen).length := by
            rw [List.length_cons]
            omega
          rw [lineageFrom_of_get? met found, lineageFrom_of_get? met found, ih nodup' known' enough']

theorem lineageFrom_eq {bound : Nat} (enough : t.length ≤ bound) (name : String) :
    t.lineageFrom bound [] name = t.lineage name := by
  induction bound, enough using Nat.le_induction with
  | base => rfl
  | succ bound enough ih => rw [lineageFrom_succ List.nodup_nil nofun (by simpa using enough), ih]

/-! ## Walks -/

/-- With room for one more class than the walk has steps, the search finds what the walk does. -/
theorem Walk.search_eq (walk : t.Walk look name n r) {bound : Nat} (room : n < bound) :
    t.search look bound name = some r := by
  induction walk generalizing bound with
  | free =>
      obtain ⟨bound, rfl⟩ := Nat.exists_eq_succ_of_ne_zero (Nat.ne_of_gt room)
      rw [search, if_pos rfl]
  | unknown named none_ =>
      obtain ⟨bound, rfl⟩ := Nat.exists_eq_succ_of_ne_zero (Nat.ne_of_gt room)
      rw [search, if_neg named, none_]
  | found named known here =>
      obtain ⟨bound, rfl⟩ := Nat.exists_eq_succ_of_ne_zero (Nat.ne_of_gt room)
      rw [search, if_neg named, known]
      simp only [here]
  | base named known missing _ ih =>
      obtain ⟨bound, rfl⟩ := Nat.exists_eq_succ_of_ne_zero (Nat.ne_of_gt (Nat.zero_lt_of_lt room))
      rw [search, if_neg named, known]
      simp only [missing, ih (Nat.lt_of_succ_lt_succ room)]

theorem walk_of_search {bound : Nat} (found : t.search look bound name = some r) :
    ∃ n < bound, t.Walk look name n r := by
  induction bound generalizing name with
  | zero => cases found
  | succ bound ih =>
      rw [search] at found
      by_cases named : name = ""
      · rw [if_pos named] at found
        cases found
        exact ⟨0, bound.succ_pos, named ▸ .free⟩
      rw [if_neg named] at found
      cases known : t.get? name with
      | none =>
          rw [known] at found
          cases found
          exact ⟨0, bound.succ_pos, .unknown named known⟩
      | some c =>
          rw [known] at found
          cases here : look c with
          | some a =>
              simp only [here] at found
              cases found
              exact ⟨0, bound.succ_pos, .found named known here⟩
          | none =>
              simp only [here] at found
              obtain ⟨n, lt, rest⟩ := ih found
              exact ⟨n + 1, Nat.succ_lt_succ lt, .base named known here rest⟩

/-- The search is over within its bound just where the walk is, with what it finds. -/
theorem search_eq_some_iff {bound : Nat} : t.search look bound name = some r ↔ ∃ n < bound, t.Walk look name n r :=
  ⟨walk_of_search, fun ⟨_, room, walk⟩ => walk.search_eq room⟩

/-- Among classes that go on to each other and do not have what is looked for, the search is over within no bound. -/
theorem search_eq_none {around : String → Prop}
    (on : ∀ name, around name → name ≠ "" ∧ ∃ c, t.get? name = some c ∧ look c = none ∧ around c.base)
    (start : around name) (bound : Nat) : t.search look bound name = none := by
  induction bound generalizing name with
  | zero => rfl
  | succ bound ih =>
      obtain ⟨named, c, known, missing, next⟩ := on name start
      rw [search, if_neg named, known]
      simp only [missing, ih next]

/-- From a name there is one walk. -/
theorem Walk.length_unique (walk : t.Walk look name n r) (walk' : t.Walk look name m r') : n = m := by
  induction walk generalizing m with
  | free =>
      cases walk' with
      | free => rfl
      | unknown named | found named | base named => exact absurd rfl named
  | unknown named none_ =>
      cases walk' with
      | free => exact absurd rfl named
      | unknown => rfl
      | found _ known | base _ known => cases none_.symm.trans known
  | found named known here =>
      cases walk' with
      | free => exact absurd rfl named
      | unknown _ none_ => cases none_.symm.trans known
      | found => rfl
      | base _ known' missing =>
          cases known.symm.trans known'
          cases here.symm.trans missing
  | base named known missing _ ih =>
      cases walk' with
      | free => exact absurd rfl named
      | unknown _ none_ => cases none_.symm.trans known
      | found _ known' here =>
          cases known.symm.trans known'
          cases here.symm.trans missing
      | base _ known' _ rest =>
          cases known.symm.trans known'
          rw [ih rest]

/-- With room for one more class than the walk has steps, and none of the names that were seen on its way, the bounded
    walk finds the same. -/
theorem Walk.findSome?_lineageFrom (walk : t.Walk look name n r) {bound : Nat} (room : n < bound) {seen : List String}
    (passed : ∀ s ∈ seen, ∀ m r', t.Walk look s m r' → n < m) :
    ((t.lineageFrom bound seen name).takeWhile (!·.name.isEmpty)).findSome? look = r := by
  induction walk generalizing bound seen with
  | free =>
      have unnamed : ∀ c ∈ (t.lineageFrom bound seen "").head?, c.name = "" := by
        intro c mem
        cases bound with
        | zero => cases room
        | succ bound =>
            unfold lineageFrom at mem
            split at mem
            · cases mem
            · split at mem
              · cases mem
              · next known =>
                  cases mem
                  exact name_of_get? known
      cases all : t.lineageFrom bound seen "" with
      | nil => rfl
      | cons c cs =>
          have : c.name = "" := unnamed c (all ▸ rfl)
          simp [this]
  | unknown _ none_ =>
      obtain ⟨bound, rfl⟩ := Nat.exists_eq_succ_of_ne_zero (Nat.ne_of_gt room)
      unfold lineageFrom
      split
      · rfl
      · rw [none_]
        rfl
  | @found name c a named known here =>
      obtain ⟨bound, rfl⟩ := Nat.exists_eq_succ_of_ne_zero (Nat.ne_of_gt room)
      have fresh : name ∉ seen := fun mem => (passed name mem 0 _ (.found named known here)).false
      have called : c.name ≠ "" := name_of_get? known ▸ named
      rw [lineageFrom_of_get? fresh known, List.takeWhile_cons_of_pos (by simpa using called),
        List.findSome?_cons, here]
  | @base name c n r named known missing rest ih =>
      obtain ⟨bound, rfl⟩ := Nat.exists_eq_succ_of_ne_zero (Nat.ne_of_gt (Nat.zero_lt_of_lt room))
      have whole : t.Walk look name (n + 1) r := .base named known missing rest
      have fresh : name ∉ seen := fun mem => (passed name mem _ _ whole).false
      have called : c.name ≠ "" := name_of_get? known ▸ named
      rw [lineageFrom_of_get? fresh known, List.takeWhile_cons_of_pos (by simpa using called),
        List.findSome?_cons, missing]
      refine ih (Nat.lt_of_succ_lt_succ room) fun s mem m r' walk => ?_
      rcases List.mem_cons.mp mem with rfl | before
      · exact whole.length_unique walk ▸ n.lt_succ_self
      · exact n.lt_succ_self.trans (passed s before m r' walk)

/-- Every chain of bases ends, and has fewer classes than the bound. -/
structure Within (t : ClassTable) (bound : Nat) : Prop where
  rooted : t.Rooted
  enough : t.length < bound

/-- Where every chain of bases ends within the bound, the search finds what the bounded walk finds. -/
theorem Within.search_eq {bound : Nat} (room : t.Within bound) (look : ClassDecl → Option α) (name : String) :
    t.search look bound name = some (t.nearest? look name) := by
  obtain ⟨r, n, le, walk⟩ := room.rooted.walks look name
  have none_ : ∀ s ∈ ([] : List String), ∀ m r', t.Walk look s m r' → n < m := nofun
  have found := walk.findSome?_lineageFrom (Nat.lt_succ_of_le le) none_
  rw [walk.search_eq (lt_of_le_of_lt le room.enough), nearest?, ← lineageFrom_eq t.length.le_succ, found]

end ClassTable

/-! ## Inference with searches -/

namespace Infer

variable {ctx : Context} {bound : Nat}

theorem memberSigil?_eq (room : ctx.classes.Within bound) (fs : Facts) (o : Expr) (name : String) :
    memberSigil? bound ctx fs o name = some (memberSigil ctx fs o name) := by
  unfold memberSigil? memberSigil Facts.staticField?
  cases o.sigil with
  | object cls =>
      dsimp only
      rw [room.search_eq]
      split <;> rfl
  | _ => rfl

theorem methodSigil?_eq (room : ctx.classes.Within bound) (fs : Facts) (r : Expr) (name : String) :
    methodSigil? bound ctx fs r name = some (methodSigil ctx fs r name) := by
  dsimp only [methodSigil?, methodSigil, methodResult?]
  rw [room.search_eq]
  rfl

mutual

theorem expr?_eq (room : ctx.classes.Within bound) (fs : Facts) (e : Expr) :
    expr? bound ctx fs e = some (expr ctx fs e) := by
  cases e with
  | number | bool | str | ident | super | funcRef => rfl
  | binary i op l r => simp [expr?, expr, expr?_eq room fs l, expr?_eq room fs r]
  | index i l r => simp [expr?, expr, expr?_eq room fs l, expr?_eq room fs r]
  | unary i op e => simp [expr?, expr, expr?_eq room fs e]
  | step i op first e => simp [expr?, expr, expr?_eq room fs e]
  | ternary i c a b => simp [expr?, expr, expr?_eq room fs c, expr?_eq room fs a, expr?_eq room fs b]
  | list i es => simp [expr?, expr, exprs?_eq room fs es]
  | map i es => simp [expr?, expr, entries?_eq room fs es]
  | member i o name =>
      cases resolved : i.resolved <;>
        simp [expr?, expr, expr?_eq room fs o, resolved, memberSigil?_eq room]
  | call i callee args => simp [expr?, expr, exprs?_eq room fs args]
  | method i r name args =>
      cases resolved : i.resolved <;>
        simp [expr?, expr, expr?_eq room fs r, exprs?_eq room fs args, resolved, methodSigil?_eq room]
  | new_ i cls args => simp [expr?, expr, exprs?_eq room fs args]

theorem exprs?_eq (room : ctx.classes.Within bound) (fs : Facts) (es : List Expr) :
    exprs? bound ctx fs es = some (exprs ctx fs es) := by
  cases es with
  | nil => rfl
  | cons e es => simp [exprs?, exprs, expr?_eq room fs e, exprs?_eq room fs es]

theorem entries?_eq (room : ctx.classes.Within bound) (fs : Facts) (es : List (Expr × Expr)) :
    entries? bound ctx fs es = some (entries ctx fs es) := by
  match es with
  | [] => rfl
  | (k, v) :: es => simp [entries?, entries, expr?_eq room fs k, expr?_eq room fs v, entries?_eq room fs es]

end

/-- All searches of the step are over, and it does what it does with bounded walks. -/
def Ends {α : Type} (x : Searching α) (y : Inferring α) : Prop := ∀ fs, x.run fs = some (y.run fs)

section Ends

variable {α β : Type}

theorem Ends.pure (a : α) : Ends (pure a) (pure a) := fun _ => rfl

theorem Ends.modify (f : Facts → Facts) : Ends (modify f) (modify f) := fun _ => rfl

theorem Ends.bind {x : Searching α} {y : Inferring α} {f : α → Searching β} {g : α → Inferring β} (first : Ends x y)
    (rest : ∀ a, Ends (f a) (g a)) : Ends (x >>= f) (y >>= g) := by
  intro fs
  rw [StateT.run_bind, first fs]
  exact rest _ _

theorem Ends.map {x : Searching α} {y : Inferring α} (f : α → β) (ends : Ends x y) : Ends (f <$> x) (f <$> y) := by
  intro fs
  rw [StateT.run_map, ends fs]
  rfl

end Ends

theorem ends_value (room : ctx.classes.Within bound) (e : Expr) : Ends (value? bound ctx e) (value ctx e) := by
  intro fs
  show expr? bound ctx fs e >>= (fun e => some (e, fs)) = _
  rw [expr?_eq room]
  rfl

theorem ends_valueOption (room : ctx.classes.Within bound) (o : Option Expr) :
    Ends (valueOption? bound ctx o) (valueOption ctx o) := by
  cases o with
  | none => exact .pure none
  | some e => exact (ends_value room e).bind fun _ => .pure _

mutual

theorem ends_stmt (room : ctx.classes.Within bound) (s : Stmt) : Ends (stmt? bound ctx s) (stmt ctx s) := by
  cases s with
  | break_ | continue_ | func | class_ | bare | printStmt => exact .pure _
  | block s body => exact (ends_stmts room body).bind fun _ => .pure _
  | print s e => exact (ends_value room e).bind fun _ => .pure _
  | expr s e => exact (ends_value room e).bind fun _ => .pure _
  | throw_ s type e => exact (ends_value room e).bind fun _ => .pure _
  | assign s name e => exact (ends_value room e).bind fun _ => (Ends.modify _).bind fun _ => .pure _
  | indexAssign s b k e =>
      exact (ends_value room b).bind fun _ => (ends_value room k).bind fun _ =>
        (ends_value room e).bind fun _ => .pure _
  | varDecl s name type init =>
      exact (ends_valueOption room init).bind fun _ => (Ends.modify _).bind fun _ => .pure _
  | return_ s e => exact (ends_valueOption room e).bind fun _ => .pure _
  | ifElse s c a b =>
      have first := ends_value room c
      have yes := ends_stmt room a
      cases b with
      | none => exact first.bind fun _ => yes.bind fun _ => (Ends.pure none).bind fun _ => .pure _
      | some b =>
          exact first.bind fun _ => yes.bind fun _ => ((ends_stmt room b).map some).bind fun _ => .pure _
  | while_ s c body => exact (ends_value room c).bind fun _ => (ends_stmt room body).bind fun _ => .pure _
  | doWhile s body c => exact (ends_stmt room body).bind fun _ => (ends_value room c).bind fun _ => .pure _
  | for_ s init cond post body =>
      have test := ends_valueOption room cond
      have inside := ends_stmt room body
      have none_ := Ends.pure (none : Option Stmt)
      cases init with
      | none =>
          cases post with
          | none => exact none_.bind fun _ => test.bind fun _ => none_.bind fun _ => inside.bind fun _ => .pure _
          | some p =>
              have last := (ends_stmt room p).map some
              exact none_.bind fun _ => test.bind fun _ => last.bind fun _ => inside.bind fun _ => .pure _
      | some i =>
          have first := (ends_stmt room i).map some
          cases post with
          | none => exact first.bind fun _ => test.bind fun _ => none_.bind fun _ => inside.bind fun _ => .pure _
          | some p =>
              have last := (ends_stmt room p).map some
              exact first.bind fun _ => test.bind fun _ => last.bind fun _ => inside.bind fun _ => .pure _
  | switch s e cs => exact (ends_value room e).bind fun _ => (ends_clauses room cs).bind fun _ => .pure _
  | try_ s body cs last =>
      have guarded := ends_stmt room body
      have handled := ends_catches room cs
      cases last with
      | none => exact guarded.bind fun _ => handled.bind fun _ => (Ends.pure none).bind fun _ => .pure _
      | some l =>
          exact guarded.bind fun _ => handled.bind fun _ => ((ends_stmt room l).map some).bind fun _ => .pure _

theorem ends_stmts (room : ctx.classes.Within bound) (ss : List Stmt) :
    Ends (stmts? bound ctx ss) (stmts ctx ss) := by
  cases ss with
  | nil => exact .pure []
  | cons s ss => exact (ends_stmt room s).bind fun _ => (ends_stmts room ss).bind fun _ => .pure _

theorem ends_clauses (room : ctx.classes.Within bound) (cs : List Clause) :
    Ends (clauses? bound ctx cs) (clauses ctx cs) := by
  match cs with
  | [] => exact .pure []
  | .case_ s v body :: cs =>
      exact (ends_value room v).bind fun _ => (ends_stmts room body).bind fun _ =>
        (ends_clauses room cs).bind fun _ => .pure _
  | .default_ s body :: cs =>
      exact (ends_stmts room body).bind fun _ => (ends_clauses room cs).bind fun _ => .pure _

theorem ends_catches (room : ctx.classes.Within bound) (cs : List Catch) :
    Ends (catches? bound ctx cs) (catches ctx cs) := by
  match cs with
  | [] => exact .pure []
  | ⟨s, type, name, body⟩ :: cs =>
      exact (Ends.modify _).bind fun _ => (ends_stmt room body).bind fun _ =>
        (ends_catches room cs).bind fun _ => .pure _

end

theorem ends_fields (room : ctx.classes.Within bound) (fs : List Field) :
    Ends (fields? bound ctx fs) (fields ctx fs) := by
  induction fs with
  | nil => exact .pure []
  | cons f fs ih =>
      unfold fields? fields
      refine (ends_valueOption room f.init).bind fun _ => ?_
      split
      · exact (Ends.modify _).bind fun _ => ih.bind fun _ => .pure _
      · exact (Ends.pure _).bind fun _ => ih.bind fun _ => .pure _

theorem ends_routine (room : ctx.classes.Within bound) (hasThis : Bool) (params : List Param) (body : Stmt) :
    Ends (routine? bound ctx hasThis params body) (routine ctx hasThis params body) :=
  (Ends.modify _).bind fun _ => (Ends.modify _).bind fun _ => ends_stmt room body

theorem ends_methods (room : ctx.classes.Within bound) (ms : List Method) :
    Ends (methods? bound ctx ms) (methods ctx ms) := by
  induction ms with
  | nil => exact .pure []
  | cons m ms ih => exact (ends_routine (by exact room) _ _ _).bind fun _ => ih.bind fun _ => .pure _

theorem ends_ctors (room : ctx.classes.Within bound) (ks : List Ctor) :
    Ends (ctors? bound ctx ks) (ctors ctx ks) := by
  induction ks with
  | nil => exact .pure []
  | cons k ks ih => exact (ends_routine (by exact room) _ _ _).bind fun _ => ih.bind fun _ => .pure _

theorem ends_classFields (room : ctx.classes.Within bound) (xs : List Stmt) :
    Ends (classFields? bound ctx xs) (classFields ctx xs) := by
  induction xs with
  | nil => exact .pure []
  | cons s xs ih =>
      cases s with
      | class_ c => exact (ends_fields (by exact room) c.fields).bind fun _ => ih.bind fun _ => .pure _
      | _ => exact ih.bind fun _ => .pure _

theorem ends_topLevel (room : ctx.classes.Within bound) (xs : List Stmt) :
    Ends (topLevel? bound ctx xs) (topLevel ctx xs) := by
  induction xs with
  | nil => exact .pure []
  | cons s xs ih =>
      unfold topLevel? topLevel
      split
      · exact (Ends.pure s).bind fun _ => ih.bind fun _ => .pure _
      · exact (ends_stmt room s).bind fun _ => ih.bind fun _ => .pure _

theorem ends_funcs (room : ctx.classes.Within bound) (xs : List Stmt) :
    Ends (funcs? bound ctx xs) (funcs ctx xs) := by
  induction xs with
  | nil => exact .pure []
  | cons s xs ih =>
      cases s with
      | func f => exact (ends_routine (by exact room) _ _ _).bind fun _ => ih.bind fun _ => .pure _
      | _ => exact ih.bind fun _ => .pure _

theorem ends_classRoutines (room : ctx.classes.Within bound) (xs : List Stmt) :
    Ends (classRoutines? bound ctx xs) (classRoutines ctx xs) := by
  induction xs with
  | nil => exact .pure []
  | cons s xs ih =>
      cases s with
      | class_ c =>
          exact (ends_methods (by exact room) c.methods).bind fun _ =>
            (ends_ctors (by exact room) c.ctors).bind fun _ => ih.bind fun _ => .pure _
      | _ => exact ih.bind fun _ => .pure _

theorem ends_items (room : ctx.classes.Within bound) (xs : List Stmt) : Ends (items? bound ctx xs) (items ctx xs) :=
  (Ends.modify _).bind fun _ => (ends_classFields room xs).bind fun _ => (ends_topLevel room _).bind fun _ =>
    (ends_funcs room _).bind fun _ => ends_classRoutines room _

end Infer

/-- Where every chain of bases ends, no search meets more classes than there are, and inference finds what it finds
    with the bounded walk. -/
theorem Program.infer?_eq {p : Program} (rooted : (ClassTable.ofItems p.items).Rooted) {bound : Nat}
    (enough : (ClassTable.ofItems p.items).length < bound) (hints : Hints) :
    p.infer? bound hints = some (p.infer hints) := by
  have room : (ClassTable.ofItems p.items).Within bound := ⟨rooted, enough⟩
  dsimp only [infer?, infer]
  rw [Infer.ends_items (by exact room)]
  rfl

/-! ## Bases that come round -/

/-- Two classes that extend each other, and a member that neither of them has. -/
def roundBases : String := "class A extends B \x7b \x7d class B extends A \x7b \x7d print(A.x); print(7);"

/-- Whether items are those of the text, wherever they stand. -/
def areRoundBases : List Stmt → Bool
  | [.class_ ⟨_, "A", "B", [], [], []⟩, .class_ ⟨_, "B", "A", [], [], []⟩,
      .print _ (.member ⟨_, none, _⟩ (.ident _ "A") "x"), .print _ (.number _ 7)] => true
  | _ => false

/-- The classes of the text, declared at the given places. -/
def ClassTable.round (s s' : Span) : ClassTable := [⟨s, "A", "B", [], [], []⟩, ⟨s', "B", "A", [], [], []⟩]

theorem ClassTable.search_round {α : Type} (s s' : Span) {look : ClassDecl → Option α} (missing : ∀ c, look c = none)
    (bound : Nat) : (ClassTable.round s s').search look bound "A" = none := by
  refine search_eq_none (fun name (near : name = "A" ∨ name = "B") => ?_) (.inl rfl) bound
  obtain rfl | rfl := near
  · exact ⟨by decide, _, rfl, missing _, .inr rfl⟩
  · exact ⟨by decide, _, rfl, missing _, .inl rfl⟩

namespace Infer

/-- What is known where the main routine begins, if there are no hints. -/
def Facts.begun : Facts := ⟨[(SymbolName.mainRoutine, .empty)], [], []⟩

/-- Where the main routine of a program without hints stands. -/
def Context.main (t : ClassTable) : Context := ⟨.empty, t, SymbolName.mainRoutine, ""⟩

theorem expr?_round (bound : Nat) (s s' si : Span) (sx : Option Sigil) (i : Info) :
    expr? bound (.main (.round s s')) .begun (.member ⟨si, none, sx⟩ (.ident i "A") "x") = none := by
  have sought : (ClassTable.round s s').search (Facts.begun.ownStatic? "x") bound "A" = none :=
    ClassTable.search_round s s' (fun _ => rfl) bound
  show (Option.bind ((ClassTable.round s s').search (Facts.begun.ownStatic? "x") bound "A")
    fun r => some (r.getD .str)).bind _ = none
  rw [sought]
  rfl

end Infer

theorem Program.classes_of_areRoundBases {p : Program} (round : areRoundBases p.items) :
    ∃ s s', ClassTable.ofItems p.items = .round s s' := by
  unfold areRoundBases at round
  split at round
  · next s s' _ _ _ _ _ _ items => exact ⟨s, s', by rw [items]; rfl⟩
  · cases round

/-- Inference of the text without hints ends within no bound. -/
theorem Program.infer?_of_areRoundBases {p : Program} (round : areRoundBases p.items) (bound : Nat) :
    p.infer? bound .empty = none := by
  unfold areRoundBases at round
  split at round
  · next s s' _ si sx i _ _ items =>
      have table : ClassTable.ofItems p.items = .round s s' := by rw [items]; rfl
      have fields : Infer.classFields? bound (.main (.round s s')) p.items = pure p.items := by rw [items]; rfl
      have top : (Infer.topLevel? bound (.main (.round s s')) p.items).run .begun = none := by
        rw [items]
        -- searched below the value, the statement, the rest of the items and the two classes
        show (((((Infer.expr? bound (.main (.round s s')) .begun (.member ⟨si, none, sx⟩ (.ident i "A") "x")).bind
          _).bind _).bind _).bind _).bind _ = none
        rw [Infer.expr?_round]
        rfl
      have all : (Infer.items? bound (.main (.round s s')) p.items).run ⟨[], [], []⟩ = none := by
        unfold Infer.items?
        rw [fields]
        show ((Infer.topLevel? bound (.main (.round s s')) p.items).run .begun).bind _ = none
        rw [top]
        rfl
      unfold infer?
      rw [table]
      show ((Infer.items? bound (.main (.round s s')) p.items).run ⟨[], [], []⟩).bind _ = none
      rw [all]
      rfl
  · cases round

/-- The text is read without error. -/
theorem Program.exists_areRoundBases : ∃ tokens p, (Token.readAll 0 roundBases).outcome.1 = some tokens ∧
    Program.parse tokens = .ok p ∧ areRoundBases p.items := by
  have read : ((Token.readAll 0 roundBases).outcome.1.bind fun tokens => (Program.parse tokens).toOption).any
      (areRoundBases ·.items) := by decide +kernel
  obtain ⟨p, made, round⟩ := Option.any_eq_true _ _ |>.mp read
  obtain ⟨tokens, spelled, parsed⟩ := Option.bind_eq_some_iff.mp made
  refine ⟨tokens, p, spelled, ?_, round⟩
  cases out : Program.parse tokens with
  | error e => rw [out] at parsed; cases parsed
  | ok q => rw [out] at parsed; cases parsed; rfl

end Lantern
