import Lantern.Nasm
import Lantern.Proofs.Images

/-!
# What instructions refer to

Jumps of a generated routine lead to labels of the same routine, and calls and operands name what the
image holds or asks for. A step of code generation is anchored when its instructions are so in the
finished image. For labels the argument runs backwards: whoever makes a label also places it, so the
jumps in between may rely on it.
-/

namespace Lantern

open Assembly

/-! ## Images without loose ends -/

namespace Assembly

/-- Whether an operation jumps inside its routine. -/
def Op.isJump : Op → Bool
  | .jmp | .jz | .jnz | .jge | .jle => true
  | _ => false

/-- A label stands in the code. -/
def Marks (code : List Instr) (l : String) : Prop := ⟨.label, [.label l], ""⟩ ∈ code

namespace Image

/-- The words and addresses that the text of an image defines. -/
def Defines (p : Image) : Operand → Prop
  | .data s => s ∈ p.globals ∨ s = Emit.inputWord
  | .addr s => s ∈ p.strings.map StringLit.label ∨ s ∈ p.routines.map Routine.name ∨
      s = Emit.inputWord ∨ s = "input_buf" ∨ s ∈ Nasm.fixedData.map StringLit.label
  | _ => True

/-- An instruction inside the given code of a routine refers to nothing that is missing. -/
structure Resolves (p : Image) (code : List Instr) (i : Instr) : Prop where
  jump : i.op.isJump → ∃ l, i.args = [.label l] ∧ Marks code l
  call : i.op = .call → i.args = [.reg .r11] ∨
    ∃ f, i.args = [.label f] ∧ (f ∈ p.routines.map Routine.name ∨ f ∈ p.externs)
  operands : ∀ o ∈ i.args, p.Defines o

/-- Every routine sets its frame up once, first, takes it down once, last, and refers to nothing that
    is missing. -/
structure Closed (p : Image) : Prop where
  frame : ∀ r ∈ p.routines, ∃ body, r.code = ⟨.prologue, [], ""⟩ :: body ++ [⟨.epilogue, [], ""⟩] ∧
    ∀ i ∈ body, i.op ≠ .prologue ∧ i.op ≠ .epilogue
  resolves : ∀ r ∈ p.routines, ∀ i ∈ r.code, p.Resolves r.code i

end Image

end Assembly

namespace Emit

/-- The code of a routine and the image it belongs to. -/
structure Site where
  image : Image
  code : List Instr

/-- What the names of labels start with. The one of labels around the test behind a call is not among them, since
    that test needs none where exceptions are delivered directly. -/
abbrev labelBases : List String :=
  ["case", "catch", "catchexit", "cont", "defcase", "docont", "doend", "doloop", "else", "endif", "endloop", "endtry",
   "epi", "finally", "forcont", "forend", "forloop", "loop", "nextcatch", "nocomma", "pdone", "pint", "plist",
   "plistend", "pmap", "pmapend", "pnext", "pow", "powend", "ret", "rethrow", "scend", "scfalse", "sctrue",
   "switchend", "unwind"]

/-- A label of the routine: one that was made, and stands in the code. -/
def Site.Labels (S : Site) (l : String) : Prop := Marks S.code l ∧ ∃ base ∈ labelBases, ∃ n, l = tag base n

/-- An instruction between the first and the last of a routine. It concerns the frame no more, places
    only labels that were made, and refers to nothing that is missing. -/
structure Site.Takes (S : Site) (i : Instr) : Prop where
  frame : i.op ≠ .prologue ∧ i.op ≠ .epilogue
  mark : i.op = .label → ∃ base ∈ labelBases, ∃ n, i.args = [.label (tag base n)]
  resolves : S.image.Resolves S.code i

/-- The site holds what has been generated so far. -/
structure Gen.Inside (S : Site) (g : Gen) : Prop where
  code : g.code.toList <+: S.code
  pool : g.pool <+: S.image.strings.map StringLit.value
  externs : g.externs ⊆ S.image.externs

theorem Gen.Inside.of_before {S : Site} {g g' : Gen} (inside : g'.Inside S) (before : g.Before g') :
    g.Inside S :=
  ⟨before.code.trans inside.code, before.pool.trans inside.pool,
    List.Subset.trans before.externs inside.externs⟩

/-- A step of code generation all of whose instructions the site takes. -/
class Anchored (S : Site) {α : Type} (x : Emitting α) : Prop where
  grow : ∀ g : Gen, g.Before (x.run g).2
  adds : ∀ g : Gen, (x.run g).2.Inside S →
    ∃ added, (x.run g).2.code.toList = g.code.toList ++ added ∧ ∀ i ∈ added, S.Takes i

/-- The image defines an operand. -/
class Defined (S : Site) (o : Operand) : Prop where
  defines : S.image.Defines o

/-- The image defines every operand. -/
class AllDefined (S : Site) (os : List Operand) : Prop where
  each : ∀ o ∈ os, S.image.Defines o

/-- The routine has a label. -/
class Marked (S : Site) (l : String) : Prop where
  label : S.Labels l

-- Operands and labels that come with such a proof: the search for instances finds it in their type.
instance {S : Site} (o : { o // S.image.Defines o }) : Defined S o.1 := ⟨o.2⟩
instance {S : Site} (os : { os : List Operand // ∀ o ∈ os, S.image.Defines o }) : AllDefined S os.1 :=
  ⟨os.2⟩
instance {S : Site} (l : { l // S.Labels l }) : Marked S l.1 := ⟨l.2⟩

/-- A step that places a label. -/
class Places {α : Type} (l : String) (x : Emitting α) : Prop where
  placed : ∀ g : Gen, Marks (x.run g).2.code.toList l

/-- Whether an operation does not jump. -/
@[reducible] def isStraight : Op → Bool
  | .jmp | .jz | .jnz | .jge | .jle => false
  | _ => true

/-- Whether an operation is about the flow of control or the frame. -/
@[reducible] def isControl : Op → Bool
  | .jmp | .jz | .jnz | .jge | .jle | .call | .label | .prologue | .epilogue => true
  | _ => false

section Basics

variable {S : Site} {α β : Type}

theorem Anchored.quiet {x : Emitting α} (grow : ∀ g : Gen, g.Before (x.run g).2)
    (code : ∀ g : Gen, (x.run g).2.code = g.code) : Anchored S x :=
  ⟨grow, fun g _ => ⟨[], by simp [code g], by simp⟩⟩

theorem Anchored.push {x : Emitting α} (i : Instr) (grow : ∀ g : Gen, g.Before (x.run g).2)
    (code : ∀ g : Gen, (x.run g).2.code = g.code.push i)
    (takes : ∀ g : Gen, (x.run g).2.Inside S → S.Takes i) : Anchored S x :=
  ⟨grow, fun g inside => ⟨[i], by simp [code g], by simpa using takes g inside⟩⟩

theorem Anchored.seq {x : Emitting α} {f : α → Emitting β} (first : Anchored S x)
    (grows : ∀ g : Gen, (x.run g).2.Before ((f (x.run g).1).run (x.run g).2).2)
    (rest : ∀ g : Gen, (x.run g).2.Inside S → Anchored S (f (x.run g).1)) : Anchored S (x >>= f) := by
  refine ⟨fun g => (first.grow g).trans (grows g), fun g inside => ?_⟩
  have inside' : ((f (x.run g).1).run (x.run g).2).2.Inside S := inside
  have mid := inside'.of_before (grows g)
  obtain ⟨left, code, takes⟩ := first.adds g mid
  obtain ⟨right, code', takes'⟩ := (rest g mid).adds (x.run g).2 inside'
  refine ⟨left ++ right, ?_, fun i mem => (List.mem_append.mp mem).elim (takes i) (takes' i)⟩
  show ((f (x.run g).1).run (x.run g).2).2.code.toList = _
  rw [code', code, List.append_assoc]

instance (a : α) : Anchored S (pure a : Emitting α) := .quiet (fun g => .refl g) fun _ => rfl

instance (x : Emitting α) (f : α → Emitting β) [first : Anchored S x] [rest : ∀ a, Anchored S (f a)] :
    Anchored S (x >>= f) :=
  first.seq (fun _ => (rest _).grow _) fun _ _ => rest _

instance (priority := 2000) (x : Emitting α) (y : Emitting β) [first : Anchored S x]
    [rest : Anchored S y] : Anchored S (x >>= fun _ => y) :=
  first.seq (fun _ => rest.grow _) fun _ _ => rest

instance (c : Prop) [Decidable c] (x y : Emitting α) [Anchored S x] [Anchored S y] :
    Anchored S (if c then x else y) := by
  split <;> infer_instance

theorem anchored_forM {xs : List α} {f : α → Emitting PUnit} (each : ∀ x ∈ xs, Anchored S (f x)) :
    Anchored S (xs.forM f) := by
  induction xs with
  | nil => exact inferInstanceAs (Anchored S (pure PUnit.unit))
  | cons x xs ih =>
      have := each x (by simp)
      have := ih fun y inside => each y (by simp [inside])
      exact inferInstanceAs (Anchored S (f x >>= fun _ => xs.forM f))

/-! ### Operands -/

instance (r : Reg) : Defined S (.reg r) := ⟨trivial⟩
instance (v : Int64) : Defined S (.imm v) := ⟨trivial⟩
instance (i : Int) : Defined S (.slot i) := ⟨trivial⟩
instance (l : String) : Defined S (.label l) := ⟨trivial⟩
instance (i : Int) : Defined S (.arg i) := ⟨trivial⟩
instance : Defined S rax := ⟨trivial⟩
instance : Defined S rbx := ⟨trivial⟩
instance : Defined S rdx := ⟨trivial⟩
instance : Defined S r11 := ⟨trivial⟩
instance : Defined S al := ⟨trivial⟩
instance : Defined S eax := ⟨trivial⟩
instance : Defined S edx := ⟨trivial⟩
instance (n : Int) : Defined S (imm n) := ⟨trivial⟩
instance (isStr : Bool) : Defined S (strFlag isStr) := ⟨trivial⟩
instance (env : Env) : Defined S env.retSlot := ⟨trivial⟩
instance : Defined S inputBuffer := ⟨.inr (.inr (.inr (.inl rfl)))⟩
instance : Defined S (.addr inputWord) := ⟨.inr (.inr (.inl rfl))⟩
instance : Defined S (.data inputWord) := ⟨.inr rfl⟩

instance (c : Prop) [Decidable c] (a b : Operand) [Defined S a] [Defined S b] :
    Defined S (if c then a else b) := by
  split <;> infer_instance

/-- A name of the data that every program holds; found by evaluating it. -/
class Fixed (name : String) : Prop where
  fixed : name ∈ Nasm.fixedData.map StringLit.label

instance (name : String) [fixed : Fixed name] : Defined S (fixedAddr name) :=
  ⟨.inr (.inr (.inr (.inr fixed.fixed)))⟩

instance : AllDefined S [] := ⟨by simp⟩

instance (o : Operand) (os : List Operand) [first : Defined S o] [rest : AllDefined S os] :
    AllDefined S (o :: os) :=
  ⟨List.forall_mem_cons.mpr ⟨first.defines, rest.each⟩⟩

/-! ### Small steps -/

theorem isControl_cases (op : Op) : isControl op = false →
    (op ≠ .prologue ∧ op ≠ .epilogue) ∧ op ≠ .label ∧ op.isJump = false ∧ op ≠ .call := by
  cases op <;> decide

theorem isStraight_cases (op : Op) : isStraight op = false →
    (op ≠ .prologue ∧ op ≠ .epilogue) ∧ op ≠ .label ∧ op ≠ .call := by
  cases op <;> decide

theorem takes_plain {op : Op} {args : List Operand} (plain : isControl op = false)
    (each : ∀ o ∈ args, S.image.Defines o) : S.Takes ⟨op, args, ""⟩ := by
  obtain ⟨frame, noLabel, noJump, noCall⟩ := isControl_cases op plain
  exact ⟨frame, fun isLabel => absurd isLabel noLabel,
    fun isJump => absurd (noJump.symm.trans isJump) nofun, fun isCall => absurd isCall noCall, each⟩

instance (op : Op) (args : List Operand) [plain : Unset (isControl op)] [all : AllDefined S args] :
    Anchored S (emit op args) :=
  .push ⟨op, args, ""⟩ (fun g => g.before_push op args) (fun _ => rfl)
    fun _ _ => takes_plain plain.unset all.each

instance (l : String) [marked : Marked S l] : Anchored S (place l) := by
  obtain ⟨-, base, listed, n, rfl⟩ := marked.label
  exact .push ⟨.label, [.label (tag base n)], ""⟩ (fun g => g.before_push _ _) (fun _ => rfl) fun _ _ =>
    ⟨⟨nofun, nofun⟩, fun _ => ⟨base, listed, n, rfl⟩, nofun, nofun, by simp [Image.Defines]⟩

instance (op : Op) (l : String) [bent : Unset (isStraight op)] [marked : Marked S l] :
    Anchored S (jump op l) := by
  obtain ⟨frame, noLabel, noCall⟩ := isStraight_cases op bent.unset
  exact .push ⟨op, [.label l], ""⟩ (fun g => g.before_push _ _) (fun _ => rfl) fun _ _ =>
    ⟨frame, fun isLabel => absurd isLabel noLabel, fun _ => ⟨l, rfl, marked.label.1⟩,
      fun isCall => absurd isCall noCall, by simp [Image.Defines]⟩

instance : Anchored S testResult := inferInstanceAs (Anchored S (emit _ _))

instance : Anchored S zero := inferInstanceAs (Anchored S (emit _ _))

instance (base : String) : Anchored S (newLabel base) := .quiet (fun g => g.before_bump) fun _ => rfl

instance (s : String) : Anchored S (str s) := .quiet (fun g => g.before_pooled s) fun _ => rfl

instance (at_ : Span) (message : String) : Anchored S (warn at_ message) :=
  .quiet (Grows.grow (x := warn at_ message)) fun _ => rfl

instance (n : Nat) : Anchored S (popTemps n) := .quiet (Grows.grow (x := popTemps n)) fun _ => rfl

instance (env : Env) : Anchored S (pushTemp env) :=
  .quiet (Grows.grow (x := pushTemp env)) fun _ => rfl

instance (priority := 3000) (env : Env) (f : Operand → Emitting α) [rest : ∀ i, Anchored S (f (.slot i))] :
    Anchored S (pushTemp env >>= f) :=
  Anchored.seq inferInstance (fun _ => (rest _).grow _) fun _ _ => rest _

instance (priority := 3000) (env : Env) (f : Operand → Emitting α) [∀ i, Anchored S (f (.slot i))] :
    Anchored S (spill env >>= f) := by
  simp only [spill, bind_assoc, pure_bind]
  infer_instance

theorem lt_length_of_addNew {xs ys : List String} {x : String} (inside : addNew xs x <+: ys) :
    xs.idxOf x < ys.length := by
  have added : xs.idxOf x < (addNew xs x).length := by
    unfold addNew
    split
    · next known => exact List.idxOf_lt_length_of_mem (by simpa using known)
    · have := List.idxOf_le_length (l := xs) (a := x)
      simp only [List.length_append, List.length_singleton]
      omega
  exact added.trans_le inside.length_le

/-- The labels of an image's pool are those of the places in it. -/
class Pooled (S : Site) : Prop where
  labels : ∀ n, n < S.image.strings.length → poolLabel n ∈ S.image.strings.map StringLit.label

/-- A string that has joined the pool is one of the image's. -/
instance (priority := 3000) (s : String) (f : Operand → Emitting α) [pooled : Pooled S]
    [grows : ∀ o, Grows (f o)] [rest : ∀ o : { o // S.image.Defines o }, Anchored S (f o.1)] :
    Anchored S (str s >>= f) := by
  refine Anchored.seq inferInstance (fun g => (grows _).grow _) fun g inside => ?_
  have room : g.pool.idxOf s < S.image.strings.length := by
    simpa using lt_length_of_addNew inside.pool
  exact rest ⟨.addr (poolLabel (g.pool.idxOf s)), .inl (pooled.labels _ room)⟩

/-- Whoever makes a label places it. -/
instance (priority := 3000) (base : String) [listed : Listed base labelBases] (f : String → Emitting α)
    [grows : ∀ l, Grows (f l)] [places : ∀ l, Places l (f l)] [rest : ∀ l : { l // S.Labels l }, Anchored S (f l.1)] :
    Anchored S (newLabel base >>= f) := by
  refine ⟨fun g => (g.before_bump).trans ((grows _).grow _), fun g inside => ?_⟩
  have placed := inside.code.subset ((places (tag base g.labels)).placed g.bump)
  exact (rest ⟨tag base g.labels, placed, base, listed.mem, g.labels, rfl⟩).adds g.bump inside

instance (l : String) : Places l (place l) := by
  refine ⟨fun g => ?_⟩
  have run : ((place l).run g).2 = g.push .label [.label l] := rfl
  simp [run, Marks, Gen.push]

instance (priority := 3000) (l : String) (y : Emitting α) [rest : Grows y] :
    Places l (place l >>= fun _ => y) := by
  refine ⟨fun g => ?_⟩
  have placed : Marks ((place l).run g).2.code.toList l := Places.placed g
  exact (rest.grow ((place l).run g).2).code.subset placed

instance (priority := 2000) (l : String) (x : Emitting α) (y : Emitting β) [rest : Places l y] :
    Places l (x >>= fun _ => y) :=
  ⟨fun g => rest.placed (x.run g).2⟩

instance (priority := low) (l : String) (x : Emitting α) (y : Emitting β) [first : Places l x]
    [rest : Grows y] : Places l (x >>= fun _ => y) :=
  ⟨fun g => (rest.grow (x.run g).2).code.subset (first.placed g)⟩

instance (l : String) (x : Emitting α) (f : α → Emitting β) [rest : ∀ a, Places l (f a)] :
    Places l (x >>= f) :=
  ⟨fun g => (rest (x.run g).1).placed (x.run g).2⟩

instance (i : Nat) (args : List Operand) [all : AllDefined S args] : Anchored S (setArgsFrom i args) := by
  have each := all.each
  clear all
  induction args generalizing i with
  | nil => unfold setArgsFrom; infer_instance
  | cons a rest ih =>
      obtain ⟨first, others⟩ := List.forall_mem_cons.mp each
      have : Defined S a := ⟨first⟩
      have := ih (i + 1) others
      unfold setArgsFrom
      infer_instance

instance (args : List Operand) [AllDefined S args] : Anchored S (setArgs args) := by
  have : Anchored S (modify fun g : Gen => { g with maxCallArgs := max g.maxCallArgs args.length } :
      Emitting Unit) :=
    .quiet (fun _ => ⟨List.prefix_rfl, List.prefix_rfl, le_rfl, List.Subset.refl _⟩) fun _ => rfl
  unfold setArgs
  infer_instance

/-- What a call of the run-time library asks for is one of the image's external names. -/
theorem anchored_external (name : String) : Anchored S (do
    modify fun g => { g with externs := addNew g.externs name }
    emit .call [.label name] : Emitting Unit) := by
  refine .push ⟨.call, [.label name], ""⟩ (fun g => ?_) (fun _ => rfl) fun g inside => ?_
  · have asked : g.Before { g with externs := addNew g.externs name } :=
      ⟨List.prefix_rfl, List.prefix_rfl, le_rfl, fun _ old => mem_addNew.mpr (.inl old)⟩
    exact asked.trans (Gen.before_push _ _ _)
  · have asked := inside.externs (mem_addNew.mpr (.inr rfl))
    exact ⟨⟨nofun, nofun⟩, nofun, nofun, fun _ => .inr ⟨name, rfl, .inr asked⟩, by simp [Image.Defines]⟩

instance (name : String) (args : List Operand) [AllDefined S args] : Anchored S (call name args) := by
  have := anchored_external (S := S) name
  dsimp only [call]
  infer_instance

end Basics

/-! ## Environments -/

/-- The symbol of a method. -/
def methodSymbol (c : ClassDecl) (m : Method) : String :=
  if m.isStatic then SymbolName.staticMethod c.name m.name else SymbolName.method c.name m.name

/-- The image holds what the names of an environment stand for. -/
class Env.Backed (S : Site) (env : Env) : Prop where
  words : ∀ s ∈ env.words, s ∈ S.image.globals
  funcs : ∀ f ∈ env.funcs, SymbolName.func f ∈ S.image.routines.map Routine.name
  tables : ∀ c ∈ env.classes, SymbolName.methodTable c.name ∈ S.image.globals
  statics : ∀ c ∈ env.classes, ∀ f ∈ c.fields, f.isStatic →
    SymbolName.staticField c.name f.name ∈ S.image.globals
  methods : ∀ c ∈ env.classes, ∀ m ∈ c.methods,
    methodSymbol c m ∈ S.image.routines.map Routine.name
  ctors : ∀ c ∈ env.classes, ∀ k ∈ c.ctors,
    SymbolName.ctor c.name k.params.length ∈ S.image.routines.map Routine.name

/-- The labels of a loop or switch are placed. -/
def LoopFrame.Marked (S : Site) (l : LoopFrame) : Prop :=
  S.Labels l.exit ∧ (l.isSwitch = false → S.Labels l.next)

/-- The labels that the code below an environment may leave for are placed, exceptions are delivered directly, and
    pending last blocks are anchored under any such labels. -/
class Env.Anchored (S : Site) (env : Env) : Prop where
  settled : env.Settled
  ret : S.Labels env.retLabel
  loops : ∀ l ∈ env.loops, l.Marked S
  target : S.Labels env.target.label
  lasts : ∀ l ∈ env.lasts, ∀ loops : List LoopFrame, (∀ f ∈ loops, f.Marked S) →
    Emit.Anchored S (l.run loops)

section Backed

variable {S : Site} {env : Env} [backed : env.Backed S]

theorem defined_of_lookup {name : String} {o : Operand} (found : env.lookup? name = some o) :
    Defined S o := by
  unfold Env.lookup? at found
  split at found
  · obtain rfl := Option.some.inj found
    infer_instance
  · split at found
    · next known =>
        obtain rfl := Option.some.inj found
        exact ⟨.inl (backed.words _ (by simpa using known))⟩
    · cases found

theorem defined_of_staticField {cls name s : String}
    (found : env.classes.staticField? cls name = some s) : Defined S (.data s) := by
  obtain ⟨c, first, rfl⟩ := Option.map_eq_some_iff.mp found
  obtain ⟨f, inside, isStatic, rfl⟩ : ∃ f ∈ c.fields, f.isStatic ∧ f.name = name := by
    simpa using List.find?_some first
  exact ⟨.inl (backed.statics c (ClassTable.mem_of_mem_lineage (List.mem_of_find?_eq_some first)) f inside isStatic)⟩

theorem routine_of_staticMethod {cls name s : String}
    (found : env.classes.staticMethod? cls name = some s) : s ∈ S.image.routines.map Routine.name := by
  obtain ⟨c, first, rfl⟩ := Option.map_eq_some_iff.mp found
  obtain ⟨m, inside, isStatic, rfl⟩ : ∃ m ∈ c.methods, m.isStatic ∧ m.name = name := by
    simpa using List.find?_some first
  have known := backed.methods c (ClassTable.mem_of_mem_lineage (List.mem_of_find?_eq_some first)) m inside
  simpa [methodSymbol, isStatic] using known

end Backed

/-! ## Forms of expressions -/

/-- A target that a routine of the image or a register stands for. -/
class Callee (S : Site) (o : Operand) : Prop where
  callee : o = .reg .r11 ∨ ∃ f, o = .label f ∧ f ∈ S.image.routines.map Routine.name

instance {S : Site} : Callee S r11 := ⟨.inl rfl⟩

theorem callee_of_routine {S : Site} {f : String} (known : f ∈ S.image.routines.map Routine.name) :
    Callee S (.label f) := ⟨.inr ⟨f, rfl, known⟩⟩

/-- The code of every operand is anchored. -/
class AllAnchored (S : Site) (vs : List Value) : Prop where
  each : ∀ v ∈ vs, Anchored S v.code

/-- The code of every key and value is anchored. -/
class EntriesAnchored (S : Site) (es : List (Value × Value)) : Prop where
  each : ∀ e ∈ es, Anchored S e.1.code ∧ Anchored S e.2.code

-- The layouts below are long, and the search for their instances goes as deep as they are.
set_option synthInstance.maxSize 8000

section Forms

variable {S : Site} (env : Env) (at_ : Span) (c a b l r v : Value) [Tidy 0 c.code] [Tidy 0 a.code]
  [Tidy 0 b.code] [Tidy 0 l.code] [Tidy 0 r.code] [Tidy 0 v.code] [Anchored S c.code]
  [Anchored S a.code] [Anchored S b.code] [Anchored S l.code] [Anchored S r.code] [Anchored S v.code]

instance [backed : env.Backed S] (name : String) : Anchored S (funcRef env at_ name) := by
  unfold funcRef
  split
  · next known =>
      have : Defined S (.addr (SymbolName.func name)) :=
        ⟨.inr (.inl (backed.funcs name (by simpa using known)))⟩
      infer_instance
  · infer_instance

instance [backed : env.Backed S] (name : String) : Anchored S (ident env at_ name) := by
  unfold ident
  split
  · next found =>
      have := defined_of_lookup (S := S) found
      infer_instance
  · split
    · next known =>
        have : Defined S (.addr (SymbolName.func name)) :=
          ⟨.inr (.inl (backed.funcs name (by simpa using known)))⟩
        infer_instance
    · infer_instance

instance (op : Op) [Unset (isControl op)] : Anchored S (flagValue op) := by
  unfold flagValue
  infer_instance

instance (op : UnaryOp) : Anchored S (unary op v) := by
  cases op <;> unfold unary <;> infer_instance

instance : Anchored S (ternary c a b) := by
  unfold ternary
  infer_instance

instance (c : Prop) [Decidable c] (a b : Op) [Unset (isControl a)] [Unset (isControl b)] :
    Unset (isControl (if c then a else b)) := by
  split <;> infer_instance

instance (c : Prop) [Decidable c] (a b : Op) [Unset (isStraight a)] [Unset (isStraight b)] :
    Unset (isStraight (if c then a else b)) := by
  split <;> infer_instance

instance (isOr : Bool) : Anchored S (shortCircuit isOr l r) := by
  cases isOr <;> dsimp only [shortCircuit] <;> infer_instance

instance : Anchored S (powerForm env l r) := by
  unfold powerForm
  infer_instance

instance (op : BinaryOp) : Anchored S (wordOp op) := by
  cases op <;> dsimp only [wordOp, compareOp?] <;> infer_instance

instance (op : BinaryOp) : Anchored S (strictBinary env op l r) := by
  dsimp only [strictBinary]
  infer_instance

instance (op : BinaryOp) : Anchored S (binary env op l r) := by
  cases op <;> unfold binary <;> infer_instance

end Forms

section Calls

variable {S : Site} (env : Env) [tidy : env.Tidy] [anchored : env.Anchored S] (at_ : Span)

theorem AllAnchored.head {v : Value} {vs : List Value} (all : AllAnchored S (v :: vs)) :
    Anchored S v.code := all.each v (by simp)

theorem AllAnchored.tail {v : Value} {vs : List Value} (all : AllAnchored S (v :: vs)) :
    AllAnchored S vs := ⟨fun w inside => all.each w (by simp [inside])⟩

instance (depth : Nat) : Anchored S (replay env depth) :=
  anchored_forM fun l inside => anchored.lasts l (List.mem_of_mem_take inside) env.loops anchored.loops

instance : Marked S env.target.label := ⟨anchored.target⟩

instance : Anchored S (raise env) := by
  rw [anchored.settled.raise]
  infer_instance

instance : Anchored S (checkException env) := by
  rw [anchored.settled.checkException]
  infer_instance

instance (target : Operand) [callee : Callee S target] : Anchored S (emit .call [target]) := by
  refine .push ⟨.call, [target], ""⟩ (fun g => g.before_push _ _) (fun _ => rfl) fun _ _ => ?_
  refine ⟨⟨nofun, nofun⟩, nofun, nofun, fun _ => ?_, ?_⟩
  · rcases callee.callee with rfl | ⟨f, rfl, known⟩
    · exact .inl rfl
    · exact .inr ⟨f, rfl, .inl known⟩
  · rcases callee.callee with rfl | ⟨f, rfl, -⟩ <;> simp [Image.Defines]

instance (target : Operand) [Callee S target] (args : List Operand) [AllDefined S args] :
    Anchored S (callRoutine env target args) := by
  unfold callRoutine
  infer_instance

instance (address : Operand) [Defined S address] (args : List Operand) [AllDefined S args] :
    Anchored S (callAddress env address args) := by
  unfold callAddress
  infer_instance

omit tidy anchored in
theorem anchored_evalArgs {α : Type} (vs : List Value) (all : AllAnchored S vs)
    (f : List Operand → Emitting α)
    (rest : ∀ os : { os : List Operand // ∀ o ∈ os, S.image.Defines o }, Anchored S (f os.1)) :
    Anchored S (evalArgs env vs >>= f) := by
  induction vs generalizing f with
  | nil => simpa [evalArgs] using rest ⟨[], by simp⟩
  | cons v vs ih =>
      have := all.head
      have (i : Int) : Anchored S (evalArgs env vs >>= fun ts => f (.slot i :: ts)) :=
        ih all.tail _ fun os => rest ⟨.slot i :: os.1, List.forall_mem_cons.mpr ⟨trivial, os.2⟩⟩
      simp only [evalArgs, bind_assoc, pure_bind]
      infer_instance

omit tidy anchored in
instance (priority := 3000) {α : Type} (vs : List Value) [all : AllAnchored S vs]
    (f : List Operand → Emitting α)
    [rest : ∀ os : { os : List Operand // ∀ o ∈ os, S.image.Defines o }, Anchored S (f os.1)] :
    Anchored S (evalArgs env vs >>= f) :=
  anchored_evalArgs env vs all f rest

instance (receiver : Operand) [Defined S receiver] (args : List Operand) [AllDefined S args] :
    Anchored S (callMethod env receiver args) := by
  unfold callMethod
  infer_instance

variable (args : List Value) [AllAnchored S args] [backed : env.Backed S]

omit tidy in
theorem anchored_construct {c : ClassDecl} (known : c ∈ env.classes) (obj : Operand) [Defined S obj] :
    Anchored S (construct env at_ c obj args) := by
  dsimp only [construct]
  split
  · next some_ =>
      obtain ⟨k, inside, count⟩ : ∃ k ∈ c.ctors, k.params.length = args.length := by simpa using some_
      have := callee_of_routine (count ▸ backed.ctors c known k inside)
      infer_instance
  · infer_instance

variable [Pooled S] [AllTidy args]

instance (name : String) : Anchored S (superCall env at_ name args) := by
  unfold superCall
  split <;> infer_instance

instance (cls name : String) : Anchored S (staticCall env at_ cls name args) := by
  unfold staticCall
  split
  · next found =>
      have := callee_of_routine (routine_of_staticMethod (S := S) found)
      infer_instance
  · infer_instance

instance (receiver : Value) [Tidy 0 receiver.code] [Anchored S receiver.code] (name : String) :
    Anchored S (dispatch env receiver name args) := by
  unfold dispatch
  infer_instance

instance (receiver : Value) [Tidy 0 receiver.code] [Anchored S receiver.code] (name : String) :
    Anchored S (methodCall env at_ receiver name args) := by
  unfold methodCall
  split
  · infer_instance
  · split <;> infer_instance

instance (name field : String) : Anchored S (loadStatic env at_ name field) := by
  unfold loadStatic
  split
  · next found =>
      have := defined_of_staticField (S := S) found
      infer_instance
  · infer_instance

end Calls

section Collections

variable {S : Site} (env : Env) (at_ : Span) (b k v x d : Value) [Tidy 0 b.code]
  [Tidy 0 k.code] [Tidy 0 v.code] [Tidy 0 x.code] [Tidy 0 d.code] [Anchored S b.code]
  [Anchored S k.code] [Anchored S v.code] [Anchored S x.code] [Anchored S d.code]

instance : Anchored S (key v) := by
  unfold key
  split <;> infer_instance

theorem anchored_pushElems (list : Operand) [Defined S list] (vs : List Value) (all : AllAnchored S vs) :
    Anchored S (pushElems list vs) := by
  induction vs with
  | nil => unfold pushElems; infer_instance
  | cons v vs ih =>
      have := all.head
      have := ih all.tail
      unfold pushElems
      infer_instance

instance (list : Operand) [Defined S list] (vs : List Value) [all : AllAnchored S vs] :
    Anchored S (pushElems list vs) :=
  anchored_pushElems list vs all

instance (vs : List Value) [AllAnchored S vs] : Anchored S (listLit env vs) := by
  unfold listLit
  infer_instance

theorem anchored_putEntries (map : Operand) [Defined S map] (es : List (Value × Value))
    (all : EntriesAnchored S es) : Anchored S (putEntries env map es) := by
  induction es with
  | nil => unfold putEntries; infer_instance
  | cons e es ih =>
      obtain ⟨_, _⟩ := all.each e (by simp)
      have := ih ⟨fun e' inside => all.each e' (by simp [inside])⟩
      unfold putEntries
      infer_instance

instance (map : Operand) [Defined S map] (es : List (Value × Value)) [all : EntriesAnchored S es] :
    Anchored S (putEntries env map es) :=
  anchored_putEntries env map es all

instance (es : List (Value × Value)) [EntriesAnchored S es] : Anchored S (mapLit env es) := by
  unfold mapLit
  infer_instance

variable [Pooled S]

instance [env.Backed S] : Anchored S (index env at_ b k) := by
  unfold index
  split
  · infer_instance
  · dsimp only
    infer_instance

instance [env.Backed S] (name : String) : Anchored S (member env at_ v name) := by
  unfold member
  split <;> infer_instance

instance (op : StepOp) : Unset (isControl (stepInstr op)) := by
  cases op <;> exact ⟨rfl⟩

instance (op : StepOp) (first : Bool) (place : Operand) [Defined S place] :
    Anchored S (stepPlace op first place) := by
  unfold stepPlace
  infer_instance

instance [env.Backed S] (op : StepOp) (first : Bool) (name : String) :
    Anchored S (stepVar env at_ op first name) := by
  unfold stepVar
  split
  · next found =>
      have := defined_of_lookup (S := S) found
      infer_instance
  · infer_instance

instance [env.Backed S] (op : StepOp) (first : Bool) : Anchored S (stepElement env at_ op first b k) := by
  unfold stepElement
  split
  · split
    · next found =>
        have := defined_of_staticField (S := S) found
        infer_instance
    · infer_instance
  · dsimp only
    infer_instance

instance : Fixed "word_false" := ⟨by decide⟩
instance : Fixed "word_true" := ⟨by decide⟩
instance : Fixed "word_object" := ⟨by decide⟩
instance : Fixed "fmt_int" := ⟨by decide⟩
instance : Fixed "fmt_str" := ⟨by decide⟩
instance : Fixed "fmt_quoted" := ⟨by decide⟩
instance : Fixed "fmt_read_int" := ⟨by decide⟩
instance : Fixed "fmt_read_str" := ⟨by decide⟩
instance : Fixed "fmt_read_line" := ⟨by decide⟩
instance : Fixed "newline" := ⟨by decide⟩
instance : Fixed "comma" := ⟨by decide⟩
instance : Fixed "colon" := ⟨by decide⟩
instance : Fixed "lbracket" := ⟨by decide⟩
instance : Fixed "rbracket" := ⟨by decide⟩
instance : Fixed "lbrace" := ⟨by decide⟩
instance : Fixed "rbrace" := ⟨by decide⟩

instance (c : Prop) [Decidable c] (a b : String) [Fixed a] [Fixed b] : Fixed (if c then a else b) := by
  split <;> infer_instance

instance : Anchored S boolWord := by
  unfold boolWord
  infer_instance

instance (format : String) [Fixed format] : Anchored S (readString format) := by
  unfold readString
  infer_instance

instance : Anchored S (lenForm v) := by
  unfold lenForm
  infer_instance

instance : Anchored S (strForm v) := by
  unfold strForm
  split <;> infer_instance

instance : Anchored S (numForm v) := by
  unfold numForm
  infer_instance

instance : Anchored S (containsForm env v x) := by
  dsimp only [containsForm]
  infer_instance

instance : Anchored S (deleteForm env v k) := by
  unfold deleteForm
  infer_instance

instance : Anchored S (getOrForm env v k d) := by
  unfold getOrForm
  infer_instance

instance : Anchored S (freeForm v) := by
  unfold freeForm
  infer_instance

instance (readStr : Bool) : Anchored S (inputForm readStr) := by
  unfold inputForm
  infer_instance

instance (f : LibFunc) (readStr : Bool) (args : List Value) [all : AllAnchored S args] :
    Anchored S (libraryCall env at_ f readStr args) := by
  unfold libraryCall
  split
  · infer_instance
  · split
    case h_1 => infer_instance
    case h_2 | h_3 | h_4 | h_8 =>
      have := all.head
      infer_instance
    case h_5 | h_6 =>
      have := all.head
      have := all.tail.head
      infer_instance
    case h_7 =>
      have := all.head
      have := all.tail.head
      have := all.tail.tail.head
      infer_instance
    case h_9 | h_10 | h_11 => infer_instance

instance [env.Tidy] [env.Anchored S] [backed : env.Backed S] (name : String) (args : List Value)
    [AllAnchored S args] : Anchored S (callByName env at_ name args) := by
  unfold callByName
  split
  · next found =>
      have := defined_of_lookup (S := S) found
      infer_instance
  · split
    · infer_instance
    · split
      · next known =>
          have := callee_of_routine (backed.funcs name (by simpa using known))
          infer_instance
      · infer_instance

instance (type : Option Sigil) : Anchored S (defaultValue type) := by
  unfold defaultValue
  split <;> infer_instance

theorem anchored_setFields (obj : Operand) [Defined S obj] (initial : Expr → Emitting Unit)
    (tidy : ∀ e, Tidy 0 (initial e)) (each : ∀ e, Anchored S (initial e)) (fs : List Field) :
    Anchored S (setFields obj initial fs) := by
  induction fs with
  | nil => unfold setFields; infer_instance
  | cons f fs ih =>
      unfold setFields
      dsimp only
      split <;> infer_instance

instance (obj : Operand) [Defined S obj] (initial : Expr → Emitting Unit)
    [tidy : ∀ e, Tidy 0 (initial e)] [each : ∀ e, Anchored S (initial e)] (fs : List Field) :
    Anchored S (setFields obj initial fs) :=
  anchored_setFields obj initial tidy each fs

instance [env.Tidy] [env.Anchored S] [backed : env.Backed S] (initial : Expr → Emitting Unit)
    [∀ e, Tidy 0 (initial e)] [∀ e, Anchored S (initial e)] (cls : String) (args : List Value)
    [AllTidy args] [AllAnchored S args] : Anchored S (newObject env initial at_ cls args) := by
  unfold newObject
  split
  · infer_instance
  · next c found =>
      have known := List.mem_of_find?_eq_some found
      have : Defined S (.data (SymbolName.methodTable c.name)) := ⟨.inl (backed.tables c known)⟩
      have (i : Int) : Anchored S (construct env at_ c (.slot i) args) :=
        anchored_construct env at_ args known (.slot i)
      dsimp only
      infer_instance

end Collections

/-! ## Expressions -/

section Expressions

-- The linter looks at each theorem of the block below by itself.
set_option linter.unusedSectionVars false

variable {S : Site} [Pooled S] (initial : Expr → Emitting Unit) [tidy : ∀ e, Tidy 0 (initial e)]
  [each : ∀ e, Anchored S (initial e)] (env : Env) [inOrder : env.Tidy] [env.Anchored S] [env.Backed S]

instance (e : Expr) : Tidy 0 (exprWith initial env e) := tidy_exprWith initial env tidy inOrder e

instance (es : List Expr) : AllTidy (valuesWith initial env es) :=
  tidy_valuesWith initial env tidy inOrder es

mutual

theorem anchored_exprWith (e : Expr) : Anchored S (exprWith initial env e) := by
  cases e with
  | number | str | super | funcRef | ident => unfold exprWith; infer_instance
  | bool i v => unfold exprWith; infer_instance
  | binary i op l r =>
      have := anchored_exprWith l
      have := anchored_exprWith r
      unfold exprWith
      infer_instance
  | unary i op e =>
      have := anchored_exprWith e
      unfold exprWith
      infer_instance
  | ternary i c a b =>
      have := anchored_exprWith c
      have := anchored_exprWith a
      have := anchored_exprWith b
      unfold exprWith
      infer_instance
  | list i es =>
      have := anchored_valuesWith es
      unfold exprWith
      infer_instance
  | map i es =>
      have := anchored_entriesWith es
      unfold exprWith
      infer_instance
  | index i b k =>
      have := anchored_exprWith b
      have := anchored_exprWith k
      unfold exprWith
      infer_instance
  | member i o name =>
      have := anchored_exprWith o
      unfold exprWith
      infer_instance
  | call i callee args =>
      have := anchored_valuesWith args
      unfold exprWith
      infer_instance
  | method i r name args =>
      have := anchored_exprWith r
      have := anchored_valuesWith args
      unfold exprWith
      infer_instance
  | new_ i cls args =>
      have := anchored_valuesWith args
      unfold exprWith
      infer_instance
  | step i op first t =>
      cases t with
      | index j b k =>
          have := anchored_exprWith b
          have := anchored_exprWith k
          unfold exprWith
          infer_instance
      | member j o name =>
          have := anchored_exprWith o
          unfold exprWith
          infer_instance
      | _ => unfold exprWith; infer_instance

theorem anchored_valuesWith (es : List Expr) : AllAnchored S (valuesWith initial env es) := by
  cases es with
  | nil => exact ⟨by simp [valuesWith]⟩
  | cons e es =>
      exact ⟨List.forall_mem_cons.mpr ⟨anchored_exprWith e, (anchored_valuesWith es).each⟩⟩

theorem anchored_entriesWith (es : List (Expr × Expr)) :
    EntriesAnchored S (entriesWith initial env es) := by
  cases es with
  | nil => exact ⟨by simp [entriesWith]⟩
  | cons e es =>
      obtain ⟨k, v⟩ := e
      exact ⟨List.forall_mem_cons.mpr ⟨⟨anchored_exprWith k, anchored_exprWith v⟩,
        (anchored_entriesWith es).each⟩⟩

end

end Expressions

section Statements

variable {S : Site} [Pooled S] (env : Env) [env.Tidy] [anchored : env.Anchored S] [backed : env.Backed S]

instance anchored_exprAt (depth : Nat) (e : Expr) : Anchored S (exprAt depth env e) := by
  induction depth generalizing e with
  | zero => exact anchored_exprWith _ env e
  | succ depth ih => exact anchored_exprWith _ env e

instance (e : Expr) : Anchored S (expr env e) :=
  inferInstanceAs (Anchored S (exprAt env.classes.length env e))

instance (e : Expr) : Anchored S (value env e).code := inferInstanceAs (Anchored S (expr env e))

instance (es : List Expr) : AllAnchored S (es.map (value env)) := by
  refine ⟨fun v inside => ?_⟩
  obtain ⟨e, -, rfl⟩ := List.mem_map.mp inside
  infer_instance

instance (target : Sigil) (e : Expr) : Anchored S (valueFor env target e) := by
  unfold valueFor
  split <;> infer_instance

instance (at_ : Span) (name : String) : Anchored S (store env at_ name) := by
  unfold store
  split
  · next found =>
      have := defined_of_lookup (S := S) found
      infer_instance
  · infer_instance

instance (format : String) [Fixed format] (args : List Operand) [AllDefined S args] :
    Anchored S (printf format args) :=
  inferInstanceAs (Anchored S (call _ _))

instance (t : Operand) [Defined S t] : Anchored S (increment t) := by
  unfold increment
  infer_instance

instance (loop endL skip : String) [Marked S loop] [Marked S endL] [Marked S skip] (i n : Operand)
    [Defined S i] [Defined S n] : Anchored S (loopHead loop endL skip i n) := by
  unfold loopHead
  infer_instance

instance (loop endL skip : String) (i n : Operand) : Places loop (loopHead loop endL skip i n) := by
  unfold loopHead
  infer_instance

instance (loop endL skip : String) (i n : Operand) : Places skip (loopHead loop endL skip i n) := by
  unfold loopHead
  infer_instance

instance (s : Sigil) : Anchored S (printList env s) := by
  unfold printList
  infer_instance

instance : Anchored S (printMap env) := by
  unfold printMap
  infer_instance

instance (base k : Value) [Tidy 0 base.code] [Tidy 0 k.code] [Anchored S base.code] [Anchored S k.code] :
    Anchored S (printEntry env base k) := by
  unfold printEntry
  infer_instance

instance (v : Value) [Tidy 0 v.code] [Anchored S v.code] : Anchored S (printValue env v) := by
  unfold printValue
  split <;> infer_instance

instance (e : Expr) : Anchored S (print env e) := by
  unfold print
  split <;> infer_instance

instance (at_ : Span) (goOn : Bool) : Anchored S (leave env at_ goOn) := by
  unfold leave
  split
  · next l found =>
      obtain ⟨exit, next⟩ := anchored.loops l (List.mem_of_find?_eq_some found)
      have : Marked S (if goOn then l.next else l.exit) := by
        refine ⟨?_⟩
        cases goOn with
        | false => exact exit
        | true => exact next (by simpa using List.find?_some found)
      infer_instance
  · infer_instance

instance : Marked S env.retLabel := ⟨anchored.ret⟩

instance (e : Option Expr) : Anchored S (returnStmt env e) := by
  dsimp only [returnStmt]
  split <;> infer_instance

instance (type : String) (e : Expr) : Anchored S (throwStmt env type e) := by
  dsimp only [throwStmt]
  infer_instance

instance (at_ : Span) (base k e : Expr) : Anchored S (indexAssign env at_ base k e) := by
  unfold indexAssign
  split
  · split
    · next found =>
        have := defined_of_staticField (S := S) found
        infer_instance
    · infer_instance
  · dsimp only
    infer_instance

instance (exc : Operand) [Defined S exc] (type next : String) [Marked S next] :
    Anchored S (testCatch exc type next) := by
  unfold testCatch
  infer_instance

instance (at_ : Span) (kind : NodeKind) : Anchored S (unsupported at_ kind) := by
  unfold unsupported
  infer_instance

instance (known : Bool) (label : String) [Marked S label] : Anchored S (jumpUnless known label) := by
  unfold jumpUnless
  infer_instance

instance (endL : String) [Marked S endL] (c : Option Expr) : Anchored S (loopTest env endL c) := by
  cases c <;> unfold loopTest <;> infer_instance

instance (strSubject : Bool) (subject : Operand) [Defined S subject] (v : Expr) :
    Anchored S (compareValue strSubject subject v) := by
  unfold compareValue
  infer_instance

instance (exit next : String) [out : Marked S exit] [on : Marked S next] :
    (env.inFrame exit next false).Anchored S :=
  ⟨anchored.settled, anchored.ret, List.forall_mem_cons.mpr ⟨⟨out.label, fun _ => on.label⟩, anchored.loops⟩,
    anchored.target, anchored.lasts⟩

instance (exit : String) [out : Marked S exit] : (env.inFrame exit "" true).Anchored S :=
  ⟨anchored.settled, anchored.ret, List.forall_mem_cons.mpr ⟨⟨out.label, nofun⟩, anchored.loops⟩, anchored.target,
    anchored.lasts⟩

instance (exit next : String) (isSwitch : Bool) : (env.inFrame exit next isSwitch).Backed S :=
  ⟨backed.words, backed.funcs, backed.tables, backed.statics, backed.methods, backed.ctors⟩

instance (label : String) (last : Option LastBlock) : (env.guarded label last).Backed S :=
  ⟨backed.words, backed.funcs, backed.tables, backed.statics, backed.methods, backed.ctors⟩

omit [Pooled S] [env.Tidy] backed in
theorem anchored_guarded (label : String) [caught : Marked S label] (last : Option LastBlock)
    (each : ∀ l ∈ last, ∀ loops : List LoopFrame, (∀ f ∈ loops, f.Marked S) →
      Anchored S (l.run loops)) : (env.guarded label last).Anchored S := by
  refine ⟨le_rfl, anchored.ret, anchored.loops, caught.label, fun l inside loops marked => ?_⟩
  rcases List.mem_append.mp inside with own | outer
  · exact each l (by simpa using own) loops marked
  · exact anchored.lasts l outer loops marked

end Statements

/-! ## Statements -/

section Clauses

variable {S : Site} {env : Env}

theorem mem_of_defaultLabel {cs : List Clause} {ls : List String} {l : String}
    (found : defaultLabel? cs ls = some l) : l ∈ ls := by
  induction cs generalizing ls with
  | nil => simp [defaultLabel?] at found
  | cons c cs ih =>
      cases ls with
      | nil => cases c <;> simp [defaultLabel?] at found
      | cons l' ls =>
          cases c with
          | case_ => exact List.mem_cons_of_mem _ (ih found)
          | default_ =>
              rcases Option.or_eq_some_iff.mp found with later | ⟨-, here⟩
              · exact List.mem_cons_of_mem _ (ih later)
              · exact (Option.some.inj here) ▸ List.mem_cons_self

theorem anchored_clauseBodies {cs : List Clause}
    (bodies : ∀ c ∈ cs, Anchored S (stmts env (clauseBody c))) {ls : List String}
    (labels : ∀ l ∈ ls, S.Labels l) : Anchored S (clauseBodies env cs ls) := by
  induction cs generalizing ls with
  | nil => cases ls <;> exact inferInstanceAs (Anchored S (pure ()))
  | cons c cs ih =>
      cases ls with
      | nil => cases c <;> exact inferInstanceAs (Anchored S (pure ()))
      | cons l ls =>
          obtain ⟨label, others⟩ := List.forall_mem_cons.mp labels
          have : Marked S l := ⟨label⟩
          have := bodies c (by simp)
          have := ih (fun c' inside => bodies c' (by simp [inside])) others
          rw [clauseBodies_cons]
          infer_instance

theorem places_clauseBodies {cs : List Clause} (tidy : ∀ c ∈ cs, Tidy 0 (stmts env (clauseBody c)))
    {ls : List String} {i : Nat} {l : String} (inside : i < cs.length) (own : ls[i]? = some l) :
    Places l (clauseBodies env cs ls) := by
  induction cs generalizing ls i with
  | nil => simp at inside
  | cons c cs ih =>
      have others (c' : Clause) (mem : c' ∈ cs) := tidy c' (by simp [mem])
      have := tidy c (by simp)
      cases ls with
      | nil => simp at own
      | cons l' ls =>
          have := grows_clauseBodies others ls
          rw [clauseBodies_cons]
          cases i with
          | zero =>
              obtain rfl : l' = l := by simpa using own
              infer_instance
          | succ i =>
              have := ih others (by simpa using inside) (by simpa using own)
              infer_instance

/-- The jumps to clauses may rely on whoever takes their labels to place them. -/
theorem anchored_compareClauses {α : Type} [Pooled S] [env.Tidy] [env.Anchored S] [env.Backed S]
    (strSubject : Bool) (subject : Operand) [Defined S subject] (cs : List Clause)
    (f : List String → Emitting α) (grows : ∀ ls, Grows (f ls))
    (places : ∀ (ls : List String) (i : Nat) (l : String), i < cs.length → ls[i]? = some l → Places l (f ls))
    (rest : ∀ ls : List String, (∀ l ∈ ls, S.Labels l) → Anchored S (f ls)) :
    Anchored S (compareClauses env strSubject subject cs >>= f) := by
  induction cs generalizing f with
  | nil => simpa [compareClauses] using rest [] (by simp)
  | cons c cs ih =>
      have first (l : String) (ls : List String) : Places l (f (l :: ls)) := places _ 0 l (by simp) rfl
      have others (l : { l // S.Labels l }) :
          Anchored S (compareClauses env strSubject subject cs >>= fun ls => f (l.1 :: ls)) := by
        refine ih _ (fun ls => grows _) (fun ls i l' inside own => ?_) fun ls marked => ?_
        · exact places (l.1 :: ls) (i + 1) l' (by simpa using inside) (by simpa using own)
        · exact rest _ (List.forall_mem_cons.mpr ⟨l.2, marked⟩)
      cases c with
      | case_ s v body =>
          simp only [compareClauses_case, bind_assoc, pure_bind]
          infer_instance
      | default_ s body =>
          simp only [compareClauses, bind_assoc, pure_bind]
          infer_instance

end Clauses

theorem anchored_handlers {S : Site} [Pooled S] {env : Env} [env.Tidy] [env.Anchored S] [env.Backed S]
    {cs : List Catch} (tidy : ∀ c ∈ cs, Tidy 0 (stmt env c.body))
    (bodies : ∀ c ∈ cs, Anchored S (stmt env c.body)) (exc : Operand) [Defined S exc] (lastL : String)
    [Marked S lastL] : Anchored S (handlers env exc lastL cs) := by
  induction cs with
  | nil => exact inferInstanceAs (Anchored S (pure false))
  | cons c cs ih =>
      have others (c' : Catch) (mem : c' ∈ cs) := tidy c' (by simp [mem])
      have := tidy c (by simp)
      have := bodies c (by simp)
      have := ih others fun c' inside => bodies c' (by simp [inside])
      have := tidy_handlers others exc lastL
      rw [handlers_cons]
      infer_instance

mutual

theorem anchored_stmt {S : Site} [Pooled S] (env : Env) [tidy : env.Tidy] [anchored : env.Anchored S]
    [backed : env.Backed S] (s : Stmt) : Anchored S (stmt env s) := by
  cases s with
  | print s e => exact inferInstanceAs (Anchored S (print env e))
  | printStmt s b =>
      exact inferInstanceAs
        (Anchored S (do unsupported b.span b.kind; printf "fmt_int" [rax]; printf "newline" []))
  | expr s e => exact inferInstanceAs (Anchored S (expr env e))
  | bare e => exact inferInstanceAs (Anchored S (warn _ _))
  | assign s name e => exact inferInstanceAs (Anchored S (do valueFor env _ e; store env s name))
  | indexAssign s b k e => exact inferInstanceAs (Anchored S (indexAssign env s b k e))
  | varDecl s name type init =>
      cases init with
      | none => exact inferInstanceAs (Anchored S (do defaultValue type; store env s name))
      | some e => exact inferInstanceAs (Anchored S (do valueFor env _ e; store env s name))
  | block s body => exact anchored_stmts env body
  | ifElse s c a b =>
      have := anchored_stmt (S := S) env a
      have := anchored_stmt? (S := S) env b
      rw [stmt_ifElse]
      infer_instance
  | while_ s c body =>
      have ih (env' : Env) [env'.Tidy] [env'.Anchored S] [env'.Backed S] := anchored_stmt (S := S) env' body
      rw [stmt_while]
      infer_instance
  | doWhile s body c =>
      have ih (env' : Env) [env'.Tidy] [env'.Anchored S] [env'.Backed S] := anchored_stmt (S := S) env' body
      rw [stmt_doWhile]
      infer_instance
  | for_ s init cond post body =>
      have := anchored_stmt? (S := S) env init
      have := anchored_stmt? (S := S) env post
      have ih (env' : Env) [env'.Tidy] [env'.Anchored S] [env'.Backed S] := anchored_stmt (S := S) env' body
      rw [stmt_for]
      infer_instance
  | switch s e cs =>
      have grows (env' : Env) [tidy' : env'.Tidy] (ls : List String) :=
        grows_clauseBodies (tidy_clauses env' tidy' cs) ls
      have compares (i : Int) (endL : { l // S.Labels l }) : Anchored S (do
          let labels ← compareClauses env e.sigil.isStr (.slot i) cs
          jump .jmp ((defaultLabel? cs labels).getD endL.1)
          clauseBodies (env.inFrame endL.1 "" true) cs labels
          place endL.1
          popTemps 1) := by
        refine anchored_compareClauses _ _ cs _ (fun ls => inferInstance) (fun ls k l inside own => ?_)
          fun ls marked => ?_
        · have := places_clauseBodies (tidy_clauses (env.inFrame endL.1 "" true) inferInstance cs) inside own
          infer_instance
        · have : Marked S ((defaultLabel? cs ls).getD endL.1) := by
            cases found : defaultLabel? cs ls with
            | none => exact ⟨endL.2⟩
            | some l => exact ⟨marked l (mem_of_defaultLabel found)⟩
          have := anchored_clauseBodies (anchored_clauses (S := S) (env.inFrame endL.1 "" true) cs) marked
          infer_instance
      rw [stmt_switch]
      infer_instance
  | break_ s => exact inferInstanceAs (Anchored S (leave env s false))
  | continue_ s => exact inferInstanceAs (Anchored S (leave env s true))
  | return_ s e => exact inferInstanceAs (Anchored S (returnStmt env e))
  | throw_ s type e => exact inferInstanceAs (Anchored S (throwStmt env type e))
  | try_ s body cs last =>
      have := anchored_stmt? (S := S) env last
      have block : ∀ l ∈ lastBlock? env last, ∀ loops : List LoopFrame, (∀ f ∈ loops, f.Marked S) →
          Anchored S (l.run loops) := by
        intro l own loops marked
        cases last with
        | none => simp [lastBlock?] at own
        | some last =>
            obtain rfl : _ = l := by simpa [lastBlock?] using own
            have : Env.Anchored S { env with loops := loops } :=
              ⟨anchored.settled, anchored.ret, marked, anchored.target, anchored.lasts⟩
            have : Env.Backed S { env with loops := loops } :=
              ⟨backed.words, backed.funcs, backed.tables, backed.statics, backed.methods, backed.ctors⟩
            exact anchored_stmt { env with loops := loops } last
      have (label : String) : (env.guarded label (lastBlock? env last)).Tidy :=
        tidy_guarded tidy label _ (Meaning.tidy_lastBlock tidy last)
      have (label : String) [Marked S label] : (env.guarded label (lastBlock? env last)).Anchored S :=
        anchored_guarded env label _ block
      have ih (env' : Env) [env'.Tidy] [env'.Anchored S] [env'.Backed S] := anchored_stmt (S := S) env' body
      have caught (env' : Env) [tidy' : env'.Tidy] [env'.Anchored S] [env'.Backed S] (exc : Operand)
          [Defined S exc] (lastL : String) [Marked S lastL] :=
        anchored_handlers (tidy_catches env' tidy' cs) (anchored_catches (S := S) env' cs) exc lastL
      have (env' : Env) [tidy' : env'.Tidy] (exc : Operand) (lastL : String) :=
        tidy_handlers (tidy_catches env' tidy' cs) exc lastL
      rw [stmt_try]
      infer_instance
  | func f => exact inferInstanceAs (Anchored S (warn _ _))
  | class_ c => exact inferInstanceAs (Anchored S (warn _ _))

theorem anchored_stmt? {S : Site} [Pooled S] (env : Env) [tidy : env.Tidy] [anchored : env.Anchored S]
    [backed : env.Backed S] (s : Option Stmt) : Anchored S (stmt? env s) := by
  cases s with
  | none => exact inferInstanceAs (Anchored S (pure ()))
  | some s => exact anchored_stmt env s

theorem anchored_stmts {S : Site} [Pooled S] (env : Env) [tidy : env.Tidy] [anchored : env.Anchored S]
    [backed : env.Backed S] (ss : List Stmt) : Anchored S (stmts env ss) := by
  cases ss with
  | nil => exact inferInstanceAs (Anchored S (pure ()))
  | cons s ss =>
      have := anchored_stmt (S := S) env s
      have := anchored_stmts (S := S) env ss
      exact inferInstanceAs (Anchored S (do stmt env s; stmts env ss))

theorem anchored_clauses {S : Site} [Pooled S] (env : Env) [tidy : env.Tidy] [anchored : env.Anchored S]
    [backed : env.Backed S] (cs : List Clause) : ∀ c ∈ cs, Anchored S (stmts env (clauseBody c)) := by
  cases cs with
  | nil => simp
  | cons c cs =>
      refine List.forall_mem_cons.mpr ⟨?_, anchored_clauses env cs⟩
      cases c with
      | case_ s v body => exact anchored_stmts env body
      | default_ s body => exact anchored_stmts env body

theorem anchored_catches {S : Site} [Pooled S] (env : Env) [tidy : env.Tidy] [anchored : env.Anchored S]
    [backed : env.Backed S] (cs : List Catch) : ∀ c ∈ cs, Anchored S (stmt env c.body) := by
  cases cs with
  | nil => simp
  | cons c cs =>
      obtain ⟨s, type, name, body⟩ := c
      exact List.forall_mem_cons.mpr ⟨anchored_stmt env body, anchored_catches env cs⟩

end

/-! ## Routines -/

section Routines

variable {S : Site} (env : Env)

/-- Between the frame being set up and being taken down a routine does what the site takes. -/
theorem framed {x inner : Emitting Unit} (parts : x = do emit .prologue []; inner; emit .epilogue [])
    [anchored : Anchored S inner] {g : Gen} (empty : g.code = #[]) (inside : (x.run g).2.Inside S)
    (whole : S.code = (x.run g).2.code.toList) :
    ∃ body, S.code = ⟨.prologue, [], ""⟩ :: body ++ [⟨.epilogue, [], ""⟩] ∧ ∀ i ∈ body, S.Takes i := by
  let opened := g.push .prologue []
  have closed : (x.run g).2 = (inner.run opened).2.push .epilogue [] := by rw [parts]; rfl
  rw [closed] at inside whole
  obtain ⟨body, code, takes⟩ := anchored.adds opened (inside.of_before (Gen.before_push _ _ _))
  have start : opened.code.toList = [⟨.prologue, [], ""⟩] := by simp [opened, Gen.push, empty]
  refine ⟨body, ?_, takes⟩
  rw [start] at code
  simp only [whole, Gen.push, Array.toList_push, code]
  rfl

instance (t : Tail) [back : Marked S t.ret] [out : Marked S t.unwind] : (env.enter t).Anchored S :=
  ⟨Nat.zero_le _, back.label, by simp [Env.enter], out.label, by simp [Env.enter]⟩

instance (t : Tail) [backed : env.Backed S] : (env.enter t).Backed S :=
  ⟨backed.words, backed.funcs, backed.tables, backed.statics, backed.methods, backed.ctors⟩

instance (i : Nat) (names : List String) : Anchored S (loadParams env i names) := by
  induction names generalizing i with
  | nil => unfold loadParams; infer_instance
  | cons name names ih => unfold loadParams; infer_instance

variable [Pooled S]

instance [env.Tidy] [env.Anchored S] [env.Backed S] (s : Stmt) : Anchored S (stmt env s) :=
  anchored_stmt env s

instance [env.Tidy] [env.Anchored S] [env.Backed S] (ss : List Stmt) :
    Anchored S (stmts env ss) :=
  anchored_stmts env ss

/-- What a routine does before its frame is taken down. -/
def routineInner (names : List String) (body : Stmt) : Emitting Unit := do
  loadParams env 0 names
  let t ← newTail
  stmt (env.enter t) body
  zero
  place t.ret
  emit .xor [edx, edx]
  jump .jmp t.epilogue
  place t.unwind
  zero
  place t.epilogue

theorem routineCode_eq (names : List String) (body : Stmt) : routineCode env names body = (do
    emit .prologue []
    routineInner env names body
    emit .epilogue []) := by
  simp only [routineCode, routineInner, routineEnd, bind_assoc]

instance [env.Backed S] (names : List String) (body : Stmt) : Anchored S (routineInner env names body) := by
  simp only [routineInner, newTail, bind_assoc, pure_bind]
  infer_instance

end Routines

/-! ## The main routine -/

theorem mem_of_mem_upsert {α : Type} {key : α → String} {xs : List α} {x y : α}
    (inside : y ∈ upsert key xs x) : y ∈ xs ∨ y = x := by
  unfold upsert at inside
  split at inside
  · obtain ⟨z, mem, rfl⟩ := List.mem_map.mp inside
    split
    · exact .inr rfl
    · exact .inl mem
  · simpa using inside

theorem mem_of_mem_upserts {α : Type} {key : α → String} {xs ys : List α} {y : α}
    (inside : y ∈ ys.foldl (upsert key) xs) : y ∈ xs ∨ y ∈ ys := by
  induction ys generalizing xs with
  | nil => exact .inl inside
  | cons x ys ih =>
      rcases ih inside with old | later
      · rcases mem_of_mem_upsert old with old | rfl
        · exact .inl old
        · exact .inr List.mem_cons_self
      · exact .inr (List.mem_cons_of_mem _ later)

section Main

variable {S : Site} [Pooled S] (env : Env) [tidy : env.Tidy] [anchored : env.Anchored S]
  [backed : env.Backed S]

omit [Pooled S] tidy anchored in
theorem routine_of_flatMethods {cls : String} {m : MethodEntry}
    (inside : m ∈ env.classes.flatMethods cls) : m.symbol ∈ S.image.routines.map Routine.name := by
  have own := (mem_of_mem_upserts inside).resolve_left List.not_mem_nil
  simp only [List.mem_flatMap, List.mem_map, List.mem_filter, ClassTable.ancestry, List.mem_reverse] at own
  obtain ⟨c, line, method, ⟨mem, own⟩, rfl⟩ := own
  have known := backed.methods c (ClassTable.mem_of_mem_lineage line) method mem
  have isStatic : method.isStatic = false := by simpa using own
  rwa [methodSymbol, isStatic] at known

omit [Pooled S] tidy anchored in
theorem routine_of_superEntries {cls : String} {m : MethodEntry}
    (inside : m ∈ env.classes.superEntries cls) : m.symbol ∈ S.image.routines.map Routine.name := by
  simp only [ClassTable.superEntries, List.mem_flatMap] at inside
  obtain ⟨c, -, entry⟩ := inside
  split at entry
  · obtain ⟨m', mem, rfl⟩ := List.mem_map.mp entry
    exact routine_of_flatMethods env (m := m') mem
  · cases entry

omit tidy anchored in
theorem anchored_methodTable {c : ClassDecl} (known : c ∈ env.classes) :
    Anchored S (methodTable env c) := by
  have : Defined S (.data (SymbolName.methodTable c.name)) := ⟨.inl (backed.tables c known)⟩
  have each : ∀ m ∈ env.classes.flatMethods c.name ++ env.classes.superEntries c.name,
      Anchored S (do call "lm_map_set" [.data (SymbolName.methodTable c.name), ← str m.key, .addr m.symbol,
        imm 0] : Emitting Unit) := by
    intro m mem
    have symbol : m.symbol ∈ S.image.routines.map Routine.name :=
      (List.mem_append.mp mem).elim (routine_of_flatMethods env) (routine_of_superEntries env)
    have : Defined S (.addr m.symbol) := ⟨.inr (.inl symbol)⟩
    infer_instance
  have := anchored_forM each
  unfold methodTable
  infer_instance

theorem anchored_staticInit {c : ClassDecl} (known : c ∈ env.classes) : Anchored S (staticInit env c) := by
  refine anchored_forM fun f mem => ?_
  obtain ⟨mem, isStatic⟩ := List.mem_filter.mp mem
  have : Defined S (.data (SymbolName.staticField c.name f.name)) :=
    ⟨.inl (backed.statics c known f mem isStatic)⟩
  cases f.init <;> infer_instance

instance (seed : Int64) : Anchored S (prelude env seed) := by
  have := anchored_forM fun c known => anchored_methodTable (S := S) env (c := c) known
  have := anchored_forM fun c known => anchored_staticInit (S := S) env (c := c) known
  unfold prelude
  infer_instance

end Main

/-- What the main routine does before its frame is taken down. -/
def mainInner (env : Env) (seed : Int64) (items : List Stmt) : Emitting Unit := do
  let t ← newTail
  prelude (env.enter t) seed
  stmts (env.enter t) items
  place t.ret
  zero
  jump .jmp t.epilogue
  place t.unwind
  call "lm_exception_uncaught" [rdx]
  emit .mov [rax, imm 1]
  place t.epilogue

theorem mainCode_eq (env : Env) (seed : Int64) (items : List Stmt) : mainCode env seed items = (do
    emit .prologue []
    mainInner env seed items
    emit .epilogue []) := by
  simp only [mainCode, mainInner, mainEnd, bind_assoc]

instance {S : Site} [Pooled S] (env : Env) [env.Backed S] (seed : Int64) (items : List Stmt) :
    Anchored S (mainInner env seed items) := by
  simp only [mainInner, newTail, bind_assoc, pure_bind]
  infer_instance

end Emit

/-! ## Images -/

namespace Inference

variable (t : Inference) (hints : Hints) (seed : Int64)

omit t in
/-- A constructor that is not generated has given way to one with as many parameters. -/
theorem arity_ctorsByArity {ctors : List Ctor} {k : Ctor} (inside : k ∈ ctors) :
    ∃ k' ∈ Emit.ctorsByArity ctors, k'.params.length = k.params.length := by
  have kept (ks : List Ctor) (old : (∃ k' ∈ ks, k'.params.length = k.params.length) ∨ k ∈ ctors) :
      ∃ k' ∈ ctors.foldl (fun ks k => ks.filter (·.params.length != k.params.length) ++ [k]) ks,
        k'.params.length = k.params.length := by
    clear inside
    induction ctors generalizing ks with
    | nil => simpa using old
    | cons x xs ih =>
        refine ih _ ?_
        by_cases same : x.params.length = k.params.length
        · exact .inl ⟨x, by simp, same⟩
        · rcases old with ⟨k', mem, eq⟩ | mem
          · exact .inl ⟨k', by simp [mem, eq, Ne.symm same], eq⟩
          · rcases List.mem_cons.mp mem with rfl | mem
            · exact absurd rfl same
            · exact .inr mem
  obtain ⟨k', mem, eq⟩ := kept [] (.inr inside)
  exact ⟨k', List.mem_mergeSort.mpr mem, eq⟩

/-- The image of a program holds what the names in its code stand for. -/
theorem backed_generate (code : List Instr) : (t.env hints).Backed ⟨(t.generate hints seed).1, code⟩ := by
  obtain ⟨rs, main, whole, made, -, -⟩ := t.generate_eq hints seed
  have words {s : String} (inside : s ∈ Emit.globalWords hints t.classes t.program.items) :
      s ∈ (t.generate hints seed).1.globals := by
    simpa [whole, Emit.sorted] using inside
  have named {s : Emit.Source} (inside : s ∈ Emit.sources t.classes t.program.items) :
      s.symbol ∈ (t.generate hints seed).1.routines.map Routine.name := by
    have mem : s.symbol ∈ rs.map Routine.name := made.names ▸ List.mem_map_of_mem inside
    rw [whole, List.map_append]
    exact List.mem_append_left _ mem
  have ofClass {c : ClassDecl} {s : Emit.Source} (known : c ∈ t.classes) (inside : s ∈ Emit.Source.ofClass c) :
      s ∈ Emit.sources t.classes t.program.items :=
    List.mem_append_right _ (List.mem_flatMap.mpr ⟨c, known, inside⟩)
  refine ⟨fun s inside => words inside, fun f inside => ?_, fun c known => words ?_,
    fun c known f inside isStatic => words ?_, fun c known m inside => ?_, fun c known k inside => ?_⟩
  · obtain ⟨item, mem, isFunc⟩ := List.mem_filterMap.mp inside
    cases item with
    | func decl =>
        obtain rfl : decl.name = f := by simpa using isFunc
        exact named (List.mem_append_left _ (List.mem_filterMap.mpr ⟨.func decl, mem, rfl⟩))
    | _ => simp at isFunc
  · refine mem_foldl_addNew.mpr (.inr (List.mem_append_right _ ?_))
    exact List.mem_flatMap.mpr ⟨c, known, List.mem_cons_self⟩
  · refine mem_foldl_addNew.mpr (.inr (List.mem_append_right _ ?_))
    refine List.mem_flatMap.mpr ⟨c, known, List.mem_cons_of_mem _ (List.mem_map.mpr ⟨f, ?_, rfl⟩)⟩
    exact List.mem_filter.mpr ⟨inside, isStatic⟩
  · have source := named (ofClass known (List.mem_append_left _ (List.mem_map_of_mem inside)))
    have symbol : (Emit.Source.method c m).symbol = Emit.methodSymbol c m := by
      unfold Emit.Source.method Emit.methodSymbol
      split <;> rfl
    exact symbol ▸ source
  · obtain ⟨k', mem, same⟩ := arity_ctorsByArity inside
    have source := named (ofClass known (List.mem_append_right _ (List.mem_map_of_mem mem)))
    exact same ▸ source

theorem takes_generate (r : Routine) (mem : r ∈ (t.generate hints seed).1.routines) :
    ∃ body, r.code = ⟨.prologue, [], ""⟩ :: body ++ [⟨.epilogue, [], ""⟩] ∧
      ∀ i ∈ body, Emit.Site.Takes ⟨(t.generate hints seed).1, r.code⟩ i := by
  obtain ⟨rs, main, whole, made, -, mainCode⟩ := t.generate_eq hints seed
  let image := (t.generate hints seed).1
  have strings : image.strings.map StringLit.value = (t.finish hints seed).pool := by
    simp only [image, whole]
    exact Emit.pool_of_strings _
  have pooled : Emit.Pooled ⟨image, r.code⟩ := by
    refine ⟨fun n room => ?_⟩
    simp only [image, whole, Emit.poolStrings, List.length_mapIdx] at room ⊢
    exact List.mem_map.mpr ⟨_, List.mem_mapIdx.mpr ⟨n, room, rfl⟩, rfl⟩
  have inside {g : Emit.Gen} (leads : g.Leads (t.finish hints seed)) (code : r.code = g.code.toList) :
      g.Inside ⟨image, r.code⟩ := by
    refine ⟨code ▸ List.prefix_rfl, strings ▸ leads.pool, fun name mem => ?_⟩
    simpa [image, whole, Emit.sorted] using leads.externs mem
  have backed := t.backed_generate hints seed r.code
  have cases : r ∈ rs ∨ r = main := by simpa [whole] using mem
  rcases cases with mem | rfl
  · obtain ⟨s, g, code, leads⟩ := made.mem mem
    have : (s.env (t.env hints)).Backed ⟨image, r.code⟩ :=
      ⟨backed.words, backed.funcs, backed.tables, backed.statics, backed.methods, backed.ctors⟩
    have into := inside (leads.trans (Emit.leads_afterMain ..)) code
    exact Emit.framed (S := ⟨image, r.code⟩) (Emit.routineCode_eq (s.env (t.env hints)) s.names s.body)
      (g := g.cleared) rfl into code
  · have into := inside (g := t.finish hints seed) ⟨List.prefix_rfl, le_rfl, List.Subset.refl _⟩ mainCode
    exact Emit.framed (S := ⟨image, r.code⟩) (Emit.mainCode_eq (t.env hints) seed t.topLevel)
      (g := (t.startOfMain hints).cleared) rfl into mainCode

end Inference

/-- The code of a program is closed: no jump, call, word or address in it is left without a
    definition, whatever the program and the hints are. -/
theorem Program.closed_generate (p : Program) (hints : Hints) (seed : Int64) :
    (p.generate hints seed).1.Closed := by
  refine ⟨fun r mem => ?_, fun r mem i inside => ?_⟩
  · obtain ⟨body, code, takes⟩ := (p.infer hints).takes_generate hints seed r mem
    exact ⟨body, code, fun i inside => (takes i inside).frame⟩
  · obtain ⟨body, code, takes⟩ := (p.infer hints).takes_generate hints seed r mem
    rw [code, List.cons_append, List.mem_cons, List.mem_append, List.mem_singleton] at inside
    rcases inside with rfl | inside | rfl
    · exact ⟨nofun, nofun, by simp⟩
    · exact (takes i inside).resolves
    · exact ⟨nofun, nofun, by simp⟩

end Lantern
