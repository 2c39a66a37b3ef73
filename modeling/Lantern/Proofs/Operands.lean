import Lantern.Proofs.References
import Lantern.Proofs.Returns

/-!
# The forms of generated instructions

Code is generated for a machine without regard to what its instructions can hold, but few combinations of
operands arise. Words are computed in four registers, from a register, a constant, a slot or a word of data;
addresses are only moved, loaded and passed on; parts of registers occur where flags become words, and in a
register that is cleared or tested. A step of code generation that keeps to these forms does so however its
parts nest.
-/

namespace Lantern

open Assembly

namespace Assembly

/-- A register that words are computed in. -/
def Reg.isFree : Reg → Bool
  | .rax | .rbx | .rdx | .r11 => true
  | _ => false

/-- The low half of such a register. -/
def Reg.isHalf : Reg → Bool
  | .eax | .edx => true
  | _ => false

namespace Operand

/-- Whether an operand is a register that words are computed in. -/
def isFree : Operand → Bool
  | .reg r => r.isFree
  | _ => false

/-- Whether an operand keeps a word: a register, a slot or a word of data. -/
def isPlace : Operand → Bool
  | .slot _ | .data _ => true
  | o => o.isFree

/-- Whether an operand has a word to compute with: what keeps one, or a constant. -/
def isWord : Operand → Bool
  | .imm _ => true
  | o => o.isPlace

/-- Whether an operand has a value to be moved or passed on: a word, or the address of a symbol. -/
def isValue : Operand → Bool
  | .addr _ => true
  | o => o.isWord

theorem reg_of_isFree {o : Operand} (free : o.isFree) : ∃ r : Reg, o = .reg r ∧ r.isFree := by
  cases o with
  | reg r => exact ⟨r, rfl, free⟩
  | _ => cases free

theorem isPlace_of_isFree {o : Operand} (free : o.isFree) : o.isPlace := by
  cases o <;> first | exact free | rfl

theorem isWord_of_isPlace {o : Operand} (keeps : o.isPlace) : o.isWord := by
  cases o <;> first | exact keeps | rfl

theorem isValue_of_isWord {o : Operand} (word : o.isWord) : o.isValue := by
  cases o <;> first | exact word | rfl

end Operand

/-- An operation that computes from two words. -/
def Op.computes : Op → Bool
  | .add | .sub | .imul | .cmp => true
  | _ => false

/-- An operation that turns a flag into a byte. -/
def Op.isFlag : Op → Bool
  | .sete | .setne | .setl | .setg | .setle | .setge => true
  | _ => false

/-- The forms that generated instructions have. -/
inductive Instr.Formed : Instr → Prop
  | move {d s : Operand} (keeps : d.isPlace) (value : s.isValue) : Formed ⟨.mov, [d, s], ""⟩
  | load {r : Reg} (free : r.isFree) (symbol : String) : Formed ⟨.lea, [.reg r, .addr symbol], ""⟩
  | compute {op : Op} {r : Reg} {s : Operand} (computes : op.computes) (free : r.isFree) (word : s.isWord) :
      Formed ⟨op, [.reg r, s], ""⟩
  | itself {op : Op} {r : Reg} (either : op = .xor ∨ op = .test) (own : r.isFree ∨ r.isHalf) :
      Formed ⟨op, [.reg r, .reg r], ""⟩
  | select {r s : Reg} (free : r.isFree) (other : s.isFree) : Formed ⟨.cmovnz, [.reg r, .reg s], ""⟩
  | widen {r : Reg} (free : r.isFree) : Formed ⟨.movzx, [.reg r, .reg .al], ""⟩
  | flag {op : Op} (isFlag : op.isFlag) : Formed ⟨op, [.reg .al], ""⟩
  | alone {op : Op} {r : Reg} (either : op = .neg ∨ op = .idiv) (free : r.isFree) : Formed ⟨op, [.reg r], ""⟩
  | extend : Formed ⟨.cqo, [], ""⟩
  | pass (i : Int) {s : Operand} (value : s.isValue) : Formed ⟨.setarg, [.arg i, s], ""⟩
  | fetch (i j : Int) : Formed ⟨.loadparam, [.arg i, .slot j], ""⟩
  | mark (l : String) : Formed ⟨.label, [.label l], ""⟩
  | jump {op : Op} (isJump : op.isJump) (l : String) : Formed ⟨op, [.label l], ""⟩
  | call (f : String) : Formed ⟨.call, [.label f], ""⟩
  | callAt : Formed ⟨.call, [.reg .r11], ""⟩
  | enter : Formed ⟨.prologue, [], ""⟩
  | leave : Formed ⟨.epilogue, [], ""⟩

end Assembly

namespace Emit

/-- A step of code generation whose instructions have the forms. -/
class Forms {α : Type} (x : Emitting α) : Prop where
  adds : ∀ g : Gen, ∃ added : List Instr, (∀ i ∈ added, i.Formed) ∧
    (x.run g).2.code.toList = g.code.toList ++ added

/-- The code of each operand keeps to the forms. -/
class AllForm (vs : List Value) : Prop where
  each : ∀ v ∈ vs, Forms v.code

/-- The code of each entry keeps to the forms. -/
class EntriesForm (es : List (Value × Value)) : Prop where
  each : ∀ e ∈ es, Forms e.1.code ∧ Forms e.2.code

/-- The code of each pending last block keeps to the forms. -/
class Env.Forms (env : Env) : Prop where
  lasts : ∀ l ∈ env.lasts, ∀ loops, Emit.Forms (l.run loops)

/-! ## Steps -/

section Steps

variable {α β : Type}

theorem forms_quiet {x : Emitting α} (code : ∀ g : Gen, (x.run g).2.code = g.code) : Forms x :=
  ⟨fun g => ⟨[], nofun, by simp [code g]⟩⟩

theorem forms_emit {op : Op} {args : List Operand} (formed : Instr.Formed ⟨op, args, ""⟩) :
    Forms (emit op args) :=
  ⟨fun _ => ⟨[_], List.forall_mem_singleton.mpr formed, Array.toList_push⟩⟩

theorem Forms.seq_of {R : α → Prop} {x : Emitting α} {f : α → Emitting β} (first : Forms x)
    (gives : ∀ g : Gen, R (x.run g).1) (rest : ∀ a, R a → Forms (f a)) : Forms (x >>= f) := by
  refine ⟨fun g => ?_⟩
  obtain ⟨added, formed, own⟩ := first.adds g
  obtain ⟨added', formed', later⟩ := (rest _ (gives g)).adds (x.run g).2
  refine ⟨added ++ added', List.forall_mem_append.mpr ⟨formed, formed'⟩, ?_⟩
  rw [← List.append_assoc, ← own]
  exact later

theorem Forms.seq {x : Emitting α} {f : α → Emitting β} (first : Forms x) (rest : ∀ a, Forms (f a)) :
    Forms (x >>= f) :=
  first.seq_of (R := fun _ => True) (fun _ => trivial) fun a _ => rest a

instance (a : α) : Forms (pure a : Emitting α) := forms_quiet fun _ => rfl

instance (x : Emitting α) (f : α → Emitting β) [first : Forms x] [rest : ∀ a, Forms (f a)] :
    Forms (x >>= f) := first.seq rest

instance (priority := 2000) (x : Emitting α) (y : Emitting β) [first : Forms x] [rest : Forms y] :
    Forms (x >>= fun _ => y) := first.seq fun _ => rest

instance (c : Prop) [Decidable c] (x y : Emitting α) [Forms x] [Forms y] : Forms (if c then x else y) := by
  split <;> infer_instance

theorem forms_forM {xs : List α} {f : α → Emitting PUnit} (each : ∀ x ∈ xs, Forms (f x)) :
    Forms (xs.forM f) := by
  induction xs with
  | nil => exact inferInstanceAs (Forms (pure ()))
  | cons x xs ih =>
      obtain ⟨first, others⟩ := List.forall_mem_cons.mp each
      exact first.seq fun _ => ih others

/-! ### Operands -/

instance : Fact rax.isFree := ⟨rfl⟩
instance : Fact rbx.isFree := ⟨rfl⟩
instance : Fact rdx.isFree := ⟨rfl⟩
instance : Fact r11.isFree := ⟨rfl⟩
instance (i : Int) : Fact (Operand.slot i).isPlace := ⟨rfl⟩
instance (s : String) : Fact (Operand.data s).isPlace := ⟨rfl⟩
instance (env : Env) : Fact env.retSlot.isPlace := ⟨rfl⟩
instance (v : Int64) : Fact (Operand.imm v).isWord := ⟨rfl⟩
instance (n : Int) : Fact (imm n).isWord := ⟨rfl⟩
instance (isStr : Bool) : Fact (strFlag isStr).isWord := ⟨rfl⟩
instance (s : String) : Fact (Operand.addr s).isValue := ⟨rfl⟩
instance (name : String) : Fact (fixedAddr name).isValue := ⟨rfl⟩
instance : Fact inputBuffer.isValue := ⟨rfl⟩

instance (o : Operand) [free : Fact o.isFree] : Fact o.isPlace := ⟨Operand.isPlace_of_isFree free.out⟩
instance (o : Operand) [keeps : Fact o.isPlace] : Fact o.isWord := ⟨Operand.isWord_of_isPlace keeps.out⟩
instance (o : Operand) [word : Fact o.isWord] : Fact o.isValue := ⟨Operand.isValue_of_isWord word.out⟩

instance (c : Prop) [Decidable c] (a b : Operand) [Fact a.isValue] [Fact b.isValue] :
    Fact (if c then a else b).isValue := by
  split <;> infer_instance

instance : Fact (([] : List Operand).all Operand.isValue) := ⟨rfl⟩

instance (o : Operand) (os : List Operand) [first : Fact o.isValue] [rest : Fact (os.all Operand.isValue)] :
    Fact ((o :: os).all Operand.isValue) :=
  ⟨by rw [List.all_cons, first.out, rest.out]; rfl⟩

-- Operands that come with a proof: the search for instances finds it in their type.
instance (os : { os : List Operand // os.all Operand.isValue }) : Fact (os.1.all Operand.isValue) := ⟨os.2⟩

/-! ### Operations -/

instance : Fact Op.add.computes := ⟨rfl⟩
instance : Fact Op.sub.computes := ⟨rfl⟩
instance : Fact Op.imul.computes := ⟨rfl⟩
instance : Fact Op.cmp.computes := ⟨rfl⟩
instance (op : StepOp) : Fact (stepInstr op).computes := by cases op <;> exact ⟨rfl⟩

instance : Fact Op.sete.isFlag := ⟨rfl⟩
instance : Fact Op.setne.isFlag := ⟨rfl⟩
instance : Fact Op.setl.isFlag := ⟨rfl⟩
instance : Fact Op.setg.isFlag := ⟨rfl⟩
instance : Fact Op.setle.isFlag := ⟨rfl⟩
instance : Fact Op.setge.isFlag := ⟨rfl⟩

instance : Fact Op.jmp.isJump := ⟨rfl⟩
instance : Fact Op.jz.isJump := ⟨rfl⟩
instance : Fact Op.jnz.isJump := ⟨rfl⟩
instance : Fact Op.jge.isJump := ⟨rfl⟩
instance : Fact Op.jle.isJump := ⟨rfl⟩

instance (c : Prop) [Decidable c] (a b : Op) [Fact a.isFlag] [Fact b.isFlag] :
    Fact (if c then a else b).isFlag := by
  split <;> infer_instance

instance (c : Prop) [Decidable c] (a b : Op) [Fact a.isJump] [Fact b.isJump] :
    Fact (if c then a else b).isJump := by
  split <;> infer_instance

/-! ### Small steps -/

instance (d s : Operand) [keeps : Fact d.isPlace] [value : Fact s.isValue] : Forms (emit .mov [d, s]) :=
  forms_emit (.move keeps.out value.out)

instance (d : Operand) (symbol : String) [free : Fact d.isFree] : Forms (emit .lea [d, .addr symbol]) := by
  obtain ⟨r, rfl, own⟩ := Operand.reg_of_isFree free.out
  exact forms_emit (.load own symbol)

instance (d : Operand) (name : String) [Fact d.isFree] : Forms (emit .lea [d, fixedAddr name]) :=
  inferInstanceAs (Forms (emit .lea [d, .addr name]))

instance (op : Op) (d s : Operand) [computes : Fact op.computes] [free : Fact d.isFree] [word : Fact s.isWord] :
    Forms (emit op [d, s]) := by
  obtain ⟨r, rfl, own⟩ := Operand.reg_of_isFree free.out
  exact forms_emit (.compute computes.out own word.out)

instance : Forms (emit .cmovnz [rax, rbx]) := forms_emit (.select rfl rfl)
instance : Forms (emit .movzx [rax, al]) := forms_emit (.widen rfl)
instance (op : Op) [isFlag : Fact op.isFlag] : Forms (emit op [al]) := forms_emit (.flag isFlag.out)
instance : Forms (emit .neg [rax]) := forms_emit (.alone (.inl rfl) rfl)
instance : Forms (emit .idiv [rbx]) := forms_emit (.alone (.inr rfl) rfl)
instance : Forms (emit .cqo []) := forms_emit .extend
instance : Forms (emit .prologue []) := forms_emit .enter
instance : Forms (emit .epilogue []) := forms_emit .leave
instance : Forms (emit .test [eax, eax]) := forms_emit (.itself (.inr rfl) (.inr rfl))
instance : Forms (emit .test [rdx, rdx]) := forms_emit (.itself (.inr rfl) (.inl rfl))
instance : Forms (emit .xor [edx, edx]) := forms_emit (.itself (.inl rfl) (.inr rfl))
instance : Forms testResult := forms_emit (.itself (.inr rfl) (.inl rfl))
instance : Forms zero := forms_emit (.itself (.inl rfl) (.inr rfl))
instance (f : String) : Forms (emit .call [.label f]) := forms_emit (.call f)
instance : Forms (emit .call [r11]) := forms_emit .callAt
instance (l : String) : Forms (place l) := forms_emit (.mark l)
instance (op : Op) (l : String) [isJump : Fact op.isJump] : Forms (jump op l) := forms_emit (.jump isJump.out l)

instance (i : Int) (s : Operand) [value : Fact s.isValue] : Forms (emit .setarg [.arg i, s]) :=
  forms_emit (.pass i value.out)

instance (i j : Int) : Forms (emit .loadparam [.arg i, .slot j]) := forms_emit (.fetch i j)

instance (base : String) : Forms (newLabel base) := forms_quiet fun _ => rfl
instance (at_ : Span) (message : String) : Forms (warn at_ message) := forms_quiet fun _ => rfl
instance (n : Nat) : Forms (popTemps n) := forms_quiet fun _ => rfl

instance (priority := 3000) (env : Env) (f : Operand → Emitting α) [rest : ∀ i, Forms (f (.slot i))] :
    Forms (pushTemp env >>= f) :=
  Forms.seq_of (forms_quiet fun _ => rfl) (R := fun o => ∃ i, o = .slot i) (fun _ => ⟨_, rfl⟩)
    fun _ ⟨i, slot⟩ => slot ▸ rest i

instance (priority := 3000) (env : Env) (f : Operand → Emitting α) [∀ i, Forms (f (.slot i))] :
    Forms (spill env >>= f) := by
  simp only [spill, bind_assoc, pure_bind]
  infer_instance

instance (priority := 3000) (s : String) (f : Operand → Emitting α) [rest : ∀ l, Forms (f (.addr l))] :
    Forms (str s >>= f) :=
  Forms.seq_of (forms_quiet fun _ => rfl) (R := fun o => ∃ l, o = .addr l) (fun _ => ⟨_, rfl⟩)
    fun _ ⟨l, address⟩ => address ▸ rest l

theorem forms_setArgsFrom (i : Nat) (args : List Operand) (values : args.all Operand.isValue) :
    Forms (setArgsFrom i args) := by
  induction args generalizing i with
  | nil => exact inferInstanceAs (Forms (pure ()))
  | cons a rest ih =>
      obtain ⟨value, values⟩ := Bool.and_eq_true_iff.mp (List.all_cons ▸ values)
      have : Fact a.isValue := ⟨value⟩
      have := ih (i + 1) values
      unfold setArgsFrom
      infer_instance

instance (args : List Operand) [values : Fact (args.all Operand.isValue)] : Forms (setArgs args) := by
  have := forms_setArgsFrom 0 args values.out
  have : Forms (modify fun g => { g with maxCallArgs := max g.maxCallArgs args.length } : Emitting Unit) :=
    forms_quiet fun _ => rfl
  unfold setArgs
  infer_instance

instance (name : String) (args : List Operand) [Fact (args.all Operand.isValue)] : Forms (call name args) := by
  have : Forms (modify fun g => { g with externs := addNew g.externs name } : Emitting Unit) :=
    forms_quiet fun _ => rfl
  unfold call
  infer_instance

end Steps

/-- A variable is a slot or a word of data. -/
theorem isPlace_of_lookup {env : Env} {name : String} {o : Operand} (found : env.lookup? name = some o) :
    Fact o.isPlace := by
  unfold Env.lookup? at found
  split at found
  · exact Option.some.inj found ▸ inferInstance
  · split at found
    · exact Option.some.inj found ▸ inferInstance
    · cases found

/-! ## Forms of expressions -/

section Operands

variable (env : Env) (at_ : Span) (c a b k l r v x d : Value) [Forms c.code] [Forms a.code] [Forms b.code]
  [Forms k.code] [Forms l.code] [Forms r.code] [Forms v.code] [Forms x.code] [Forms d.code]

theorem AllForm.head {v : Value} {vs : List Value} (all : AllForm (v :: vs)) : Forms v.code :=
  all.each v List.mem_cons_self

theorem AllForm.tail {v : Value} {vs : List Value} (all : AllForm (v :: vs)) : AllForm vs :=
  ⟨fun v' mem => all.each v' (List.mem_cons_of_mem _ mem)⟩

instance (name : String) : Forms (ident env at_ name) := by
  unfold ident
  split
  · next found =>
      have := isPlace_of_lookup found
      infer_instance
  · infer_instance

instance (name : String) : Forms (funcRef env at_ name) := by
  unfold funcRef
  infer_instance

instance (name : String) : Forms (store env at_ name) := by
  unfold store
  split
  · next found =>
      have := isPlace_of_lookup found
      infer_instance
  · infer_instance

instance (op : Op) [Fact op.isFlag] : Forms (flagValue op) := by
  unfold flagValue
  infer_instance

instance (op : UnaryOp) : Forms (unary op v) := by
  unfold unary
  split <;> infer_instance

instance : Forms (ternary c a b) := by
  unfold ternary
  infer_instance

instance (isOr : Bool) : Forms (shortCircuit isOr l r) := by
  cases isOr <;> dsimp only [shortCircuit] <;> infer_instance

instance : Forms (powerForm env l r) := by
  unfold powerForm
  infer_instance

instance (op : BinaryOp) : Forms (wordOp op) := by
  cases op <;> dsimp only [wordOp, compareOp?] <;> infer_instance

instance (op : BinaryOp) : Forms (strictBinary env op l r) := by
  unfold strictBinary
  infer_instance

instance (op : BinaryOp) : Forms (binary env op l r) := by
  unfold binary
  split <;> infer_instance

instance : Forms (key v) := by
  unfold key
  split <;> infer_instance

theorem forms_pushElems (list : Operand) [Fact list.isValue] (vs : List Value) (all : AllForm vs) :
    Forms (pushElems list vs) := by
  induction vs with
  | nil => exact inferInstanceAs (Forms (pure ()))
  | cons v vs ih =>
      have := all.head
      have := ih all.tail
      unfold pushElems
      infer_instance

instance (vs : List Value) [all : AllForm vs] : Forms (listLit env vs) := by
  have (i : Int) := forms_pushElems (.slot i) vs all
  unfold listLit
  infer_instance

theorem forms_putEntries (map : Operand) [Fact map.isValue] (es : List (Value × Value)) (all : EntriesForm es) :
    Forms (putEntries env map es) := by
  induction es with
  | nil => exact inferInstanceAs (Forms (pure ()))
  | cons e es ih =>
      obtain ⟨_, _⟩ := all.each e List.mem_cons_self
      have := ih ⟨fun e' mem => all.each e' (List.mem_cons_of_mem _ mem)⟩
      unfold putEntries
      infer_instance

instance (es : List (Value × Value)) [all : EntriesForm es] : Forms (mapLit env es) := by
  have (i : Int) := forms_putEntries env (.slot i) es all
  unfold mapLit
  infer_instance

instance (kind : NodeKind) : Forms (unsupported at_ kind) := by
  unfold unsupported
  infer_instance

instance (op : StepOp) (first : Bool) (place : Operand) [Fact place.isPlace] : Forms (stepPlace op first place) := by
  unfold stepPlace
  infer_instance

instance (op : StepOp) (first : Bool) (name : String) : Forms (stepVar env at_ op first name) := by
  unfold stepVar
  split
  · next found =>
      have := isPlace_of_lookup found
      infer_instance
  · infer_instance

instance (cls field : String) : Forms (loadStatic env at_ cls field) := by
  unfold loadStatic
  split <;> infer_instance

instance : Forms (index env at_ b k) := by
  unfold index
  split <;> infer_instance

instance (name : String) : Forms (member env at_ v name) := by
  unfold member
  split <;> infer_instance

instance (op : StepOp) (first : Bool) : Forms (stepElement env at_ op first b k) := by
  unfold stepElement
  split
  · split <;> infer_instance
  · set_option synthInstance.maxSize 1000 in
    infer_instance

instance : Forms boolWord := by
  unfold boolWord
  infer_instance

instance (format : String) : Forms (readString format) := by
  unfold readString
  infer_instance

instance : Forms (lenForm v) := by
  unfold lenForm
  infer_instance

instance : Forms (strForm v) := by
  unfold strForm
  split <;> infer_instance

instance : Forms (numForm v) := by
  unfold numForm
  infer_instance

instance : Forms (containsForm env v x) := by
  unfold containsForm
  infer_instance

instance : Forms (deleteForm env v k) := by
  unfold deleteForm
  infer_instance

instance : Forms (getOrForm env v k d) := by
  unfold getOrForm
  infer_instance

instance : Forms (freeForm v) := by
  unfold freeForm
  infer_instance

instance (readStr : Bool) : Forms (inputForm readStr) := by
  unfold inputForm
  infer_instance

end Operands

section Calls

variable (env : Env) [forms : env.Forms] (at_ : Span) (args : List Value) [all : AllForm args]

instance (depth : Nat) : Forms (replay env depth) :=
  forms_forM fun l mem => forms.lasts l (List.mem_of_mem_take mem) env.loops

instance : Forms (raise env) := by
  unfold raise
  infer_instance

instance : Forms (checkException env) := by
  unfold checkException
  infer_instance

instance (f : String) (ops : List Operand) [Fact (ops.all Operand.isValue)] :
    Forms (callRoutine env (.label f) ops) := by
  unfold callRoutine
  infer_instance

instance (address : Operand) (ops : List Operand) [Fact address.isValue] [Fact (ops.all Operand.isValue)] :
    Forms (callAddress env address ops) := by
  unfold callAddress
  infer_instance

instance (receiver : Operand) (ops : List Operand) [Fact receiver.isValue] [Fact (ops.all Operand.isValue)] :
    Forms (callMethod env receiver ops) := by
  unfold callMethod
  infer_instance

omit forms in
/-- Arguments are computed into slots. -/
theorem forms_evalArgs (vs : List Value) (all : AllForm vs) :
    Forms (evalArgs env vs) ∧ ∀ g : Gen, ((evalArgs env vs).run g).1.all Operand.isValue := by
  induction vs with
  | nil => exact ⟨inferInstanceAs (Forms (pure [])), fun _ => rfl⟩
  | cons v vs ih =>
      have := all.head
      have := (ih all.tail).1
      unfold evalArgs
      exact ⟨inferInstance, fun g => (ih all.tail).2 _⟩

omit forms in
instance (priority := 3000) {α : Type} (f : List Operand → Emitting α)
    [rest : ∀ os : { os : List Operand // os.all Operand.isValue }, Forms (f os.1)] :
    Forms (evalArgs env args >>= f) :=
  (forms_evalArgs env args all).1.seq_of (forms_evalArgs env args all).2 fun os values => rest ⟨os, values⟩

instance (f : LibFunc) (readStr : Bool) : Forms (libraryCall env at_ f readStr args) := by
  unfold libraryCall
  split
  · infer_instance
  · split
    case h_1 | h_9 | h_10 | h_11 => infer_instance
    case h_2 | h_3 | h_4 | h_8 =>
      have := all.head
      infer_instance
    case h_5 | h_6 =>
      have := all.head
      have := all.tail.head
      infer_instance
    case h_7 =>
      have := all.head
      have := all.tail.head
      have := all.tail.tail.head
      infer_instance

instance (name : String) : Forms (callByName env at_ name args) := by
  unfold callByName
  split
  · next found =>
      have := isPlace_of_lookup found
      infer_instance
  · split <;> infer_instance

instance (cls name : String) : Forms (staticCall env at_ cls name args) := by
  unfold staticCall
  split <;> infer_instance

instance (name : String) : Forms (superCall env at_ name args) := by
  unfold superCall
  split <;> infer_instance

instance (receiver : Value) [Forms receiver.code] (name : String) : Forms (methodCall env at_ receiver name args) := by
  unfold methodCall
  split
  · infer_instance
  · split
    · infer_instance
    · unfold dispatch
      infer_instance

instance (c : ClassDecl) (obj : Operand) [Fact obj.isValue] : Forms (construct env at_ c obj args) := by
  unfold construct
  infer_instance

instance (type : Option Sigil) : Forms (defaultValue type) := by
  unfold defaultValue
  split <;> infer_instance

theorem forms_setFields (obj : Operand) [Fact obj.isValue] (initial : Expr → Emitting Unit)
    (each : ∀ e, Forms (initial e)) (fs : List Field) : Forms (setFields obj initial fs) := by
  induction fs with
  | nil => exact inferInstanceAs (Forms (pure ()))
  | cons f fs ih =>
      unfold setFields
      dsimp only
      split <;> infer_instance

theorem forms_newObject (initial : Expr → Emitting Unit) (each : ∀ e, Forms (initial e)) (cls : String) :
    Forms (newObject env initial at_ cls args) := by
  unfold newObject
  split
  · infer_instance
  · have (i : Int) := forms_setFields (.slot i) initial each (env.classes.flatFields cls)
    infer_instance

end Calls

/-! ## Expressions -/

section Expressions

-- The linter looks at each theorem of the block below by itself.
set_option linter.unusedSectionVars false

variable {env : Env} [env.Forms] (initial : Expr → Emitting Unit) (each : ∀ e, Forms (initial e))

include each

mutual

theorem forms_exprWith (e : Expr) : Forms (exprWith initial env e) := by
  cases e with
  | number | bool | str | ident | super | funcRef => unfold exprWith; infer_instance
  | binary i op l r =>
      have := forms_exprWith l
      have := forms_exprWith r
      unfold exprWith
      infer_instance
  | unary i op e =>
      have := forms_exprWith e
      unfold exprWith
      infer_instance
  | ternary i c a b =>
      have := forms_exprWith c
      have := forms_exprWith a
      have := forms_exprWith b
      unfold exprWith
      infer_instance
  | list i es =>
      have := forms_valuesWith es
      unfold exprWith
      infer_instance
  | map i es =>
      have := forms_entriesWith es
      unfold exprWith
      infer_instance
  | index i b k =>
      have := forms_exprWith b
      have := forms_exprWith k
      unfold exprWith
      infer_instance
  | member i o name =>
      have := forms_exprWith o
      unfold exprWith
      infer_instance
  | call i callee args =>
      have := forms_valuesWith args
      unfold exprWith
      infer_instance
  | method i r name args =>
      have := forms_exprWith r
      have := forms_valuesWith args
      unfold exprWith
      infer_instance
  | new_ i cls args =>
      have := forms_valuesWith args
      unfold exprWith
      exact forms_newObject env i.span _ initial each cls
  | step i op first t =>
      cases t with
      | index j b k =>
          have := forms_exprWith b
          have := forms_exprWith k
          unfold exprWith
          infer_instance
      | member j o name =>
          have := forms_exprWith o
          unfold exprWith
          infer_instance
      | _ => unfold exprWith; infer_instance

theorem forms_valuesWith (es : List Expr) : AllForm (valuesWith initial env es) := by
  cases es with
  | nil => exact ⟨nofun⟩
  | cons e es => exact ⟨List.forall_mem_cons.mpr ⟨forms_exprWith e, (forms_valuesWith es).each⟩⟩

theorem forms_entriesWith (es : List (Expr × Expr)) : EntriesForm (entriesWith initial env es) := by
  match es with
  | [] => exact ⟨nofun⟩
  | (k, v) :: es =>
      exact ⟨List.forall_mem_cons.mpr ⟨⟨forms_exprWith k, forms_exprWith v⟩, (forms_entriesWith es).each⟩⟩

end

end Expressions

section Values

variable (env : Env) [env.Forms]

theorem forms_exprAt (depth : Nat) (e : Expr) : Forms (exprAt depth env e) := by
  induction depth generalizing e with
  | zero => exact forms_exprWith _ (fun _ => inferInstance) e
  | succ depth ih => exact forms_exprWith _ ih e

instance (e : Expr) : Forms (expr env e) := forms_exprAt env _ e

instance (e : Expr) : Forms (value env e).code := inferInstanceAs (Forms (expr env e))

instance (es : List Expr) : AllForm (es.map (value env)) :=
  ⟨List.forall_mem_map.mpr fun _ _ => inferInstance⟩

instance (target : Sigil) (e : Expr) : Forms (valueFor env target e) := by
  unfold valueFor
  split <;> infer_instance

end Values

/-! ## Statements -/

section Statements

-- The code that prints a map is one long block.
set_option synthInstance.maxSize 1000

variable (env : Env) [forms : env.Forms]

instance (format : String) (args : List Operand) [Fact (args.all Operand.isValue)] : Forms (printf format args) := by
  unfold printf
  infer_instance

instance (o : Operand) [Fact o.isPlace] : Forms (increment o) := by
  unfold increment
  infer_instance

instance (loop endL skip : String) (i n : Operand) [Fact i.isPlace] [Fact n.isWord] :
    Forms (loopHead loop endL skip i n) := by
  unfold loopHead
  infer_instance

instance (s : Sigil) : Forms (printList env s) := by
  unfold printList
  infer_instance

instance : Forms (printMap env) := by
  unfold printMap
  infer_instance

instance (b k : Value) [Forms b.code] [Forms k.code] : Forms (printEntry env b k) := by
  unfold printEntry
  infer_instance

instance (v : Value) [Forms v.code] : Forms (printValue env v) := by
  unfold printValue
  split <;> infer_instance

instance (e : Expr) : Forms (print env e) := by
  unfold print
  dsimp only
  split <;> infer_instance

instance (at_ : Span) (goOn : Bool) : Forms (leave env at_ goOn) := by
  unfold leave
  split <;> infer_instance

instance (e : Option Expr) : Forms (returnStmt env e) := by
  unfold returnStmt
  dsimp only
  cases e <;> infer_instance

instance (type : String) (e : Expr) : Forms (throwStmt env type e) := by
  unfold throwStmt
  infer_instance

instance (at_ : Span) (base k e : Expr) : Forms (indexAssign env at_ base k e) := by
  unfold indexAssign
  split
  · split <;> infer_instance
  · infer_instance

instance (exc : Operand) [Fact exc.isValue] (type next : String) : Forms (testCatch exc type next) := by
  unfold testCatch
  infer_instance

instance (known : Bool) (label : String) : Forms (jumpUnless known label) := by
  unfold jumpUnless
  infer_instance

instance (endL : String) (c : Option Expr) : Forms (loopTest env endL c) := by
  unfold loopTest
  cases c <;> infer_instance

instance (strSubject : Bool) (subject : Operand) [Fact subject.isWord] (v : Expr) :
    Forms (compareValue strSubject subject v) := by
  unfold compareValue
  infer_instance

theorem forms_compareClauses (strSubject : Bool) (subject : Operand) [Fact subject.isWord] (cs : List Clause) :
    Forms (compareClauses env strSubject subject cs) := by
  induction cs with
  | nil => exact inferInstanceAs (Forms (pure []))
  | cons c cs ih =>
      cases c with
      | case_ s v body =>
          rw [compareClauses_case]
          infer_instance
      | default_ s body =>
          unfold compareClauses
          infer_instance

omit forms in
theorem forms_clauseBodies {cs : List Clause} (bodies : ∀ c ∈ cs, Forms (stmts env (clauseBody c)))
    (ls : List String) : Forms (clauseBodies env cs ls) := by
  induction cs generalizing ls with
  | nil => cases ls <;> exact inferInstanceAs (Forms (pure ()))
  | cons c cs ih =>
      obtain ⟨own, others⟩ := List.forall_mem_cons.mp bodies
      cases ls with
      | nil => cases c <;> exact inferInstanceAs (Forms (pure ()))
      | cons l ls =>
          have := ih others ls
          rw [clauseBodies_cons]
          infer_instance

omit forms in
theorem forms_handlers {cs : List Catch} (bodies : ∀ c ∈ cs, Forms (stmt env c.body)) (exc : Operand)
    [Fact exc.isValue] (lastL : String) : Forms (handlers env exc lastL cs) := by
  induction cs with
  | nil => exact inferInstanceAs (Forms (pure false))
  | cons c cs ih =>
      obtain ⟨own, others⟩ := List.forall_mem_cons.mp bodies
      have := ih others
      rw [handlers_cons]
      infer_instance

instance (exit next : String) (isSwitch : Bool) : (env.inFrame exit next isSwitch).Forms := ⟨forms.lasts⟩

theorem forms_guarded (label : String) {last : Option LastBlock}
    (own : ∀ l ∈ last, ∀ loops, Forms (l.run loops)) : (env.guarded label last).Forms := by
  refine ⟨fun l mem loops => ?_⟩
  rcases List.mem_append.mp mem with new | old
  · exact own l (by simpa using new) loops
  · exact forms.lasts l old loops

mutual

theorem forms_stmt (env : Env) [forms : env.Forms] (s : Stmt) : Forms (stmt env s) := by
  cases s with
  | print s e => exact inferInstanceAs (Forms (print env e))
  | expr s e => exact inferInstanceAs (Forms (expr env e))
  | bare e => exact inferInstanceAs (Forms (warn _ _))
  | func f | class_ c => exact inferInstanceAs (Forms (warn _ _))
  | printStmt s b =>
      exact inferInstanceAs (Forms (do unsupported b.span b.kind; printf "fmt_int" [rax]; printf "newline" []))
  | throw_ s type e => exact inferInstanceAs (Forms (throwStmt env type e))
  | return_ s e => exact inferInstanceAs (Forms (returnStmt env e))
  | indexAssign s b k e => exact inferInstanceAs (Forms (indexAssign env s b k e))
  | assign s name e => exact inferInstanceAs (Forms (do valueFor env _ e; store env s name))
  | varDecl s name type init =>
      cases init with
      | none => exact inferInstanceAs (Forms (do defaultValue type; store env s name))
      | some e => exact inferInstanceAs (Forms (do valueFor env _ e; store env s name))
  | block s body => exact forms_stmts env body
  | ifElse s c a b =>
      have := forms_stmt env a
      have := forms_stmt? env b
      rw [stmt_ifElse]
      infer_instance
  | while_ s c body =>
      have (exit next : String) := forms_stmt (env.inFrame exit next false) body
      rw [stmt_while]
      infer_instance
  | doWhile s body c =>
      have (exit next : String) := forms_stmt (env.inFrame exit next false) body
      rw [stmt_doWhile]
      infer_instance
  | for_ s init cond post body =>
      have := forms_stmt? env init
      have := forms_stmt? env post
      have (exit next : String) := forms_stmt (env.inFrame exit next false) body
      rw [stmt_for]
      infer_instance
  | switch s e cs =>
      have (i : Int) := forms_compareClauses env e.sigil.isStr (.slot i) cs
      have (endL : String) (ls : List String) :=
        forms_clauseBodies (env.inFrame endL "" true) (forms_clauses (env.inFrame endL "" true) cs) ls
      rw [stmt_switch]
      infer_instance
  | break_ s => exact inferInstanceAs (Forms (leave env s false))
  | continue_ s => exact inferInstanceAs (Forms (leave env s true))
  | try_ s body cs last =>
      have := forms_stmt? env last
      have block : ∀ l ∈ lastBlock? env last, ∀ loops, Forms (l.run loops) := by
        intro l isLast loops
        cases last with
        | none => cases isLast
        | some last =>
            obtain rfl := Option.some.inj isLast
            have : Env.Forms { env with loops := loops } := ⟨forms.lasts⟩
            exact forms_stmt { env with loops := loops } last
      have guarded (label : String) := forms_guarded env label block
      have (label : String) := forms_stmt (env.guarded label (lastBlock? env last)) body
      have (label : String) (i : Int) (lastL : String) :=
        forms_handlers (env.guarded label (lastBlock? env last))
          (forms_catches (env.guarded label (lastBlock? env last)) cs) (.slot i) lastL
      rw [stmt_try]
      infer_instance

theorem forms_stmt? (env : Env) [env.Forms] (o : Option Stmt) : Forms (stmt? env o) := by
  cases o with
  | none => exact inferInstanceAs (Forms (pure ()))
  | some s => exact forms_stmt env s

theorem forms_stmts (env : Env) [env.Forms] (ss : List Stmt) : Forms (stmts env ss) := by
  cases ss with
  | nil => exact inferInstanceAs (Forms (pure ()))
  | cons s ss =>
      have := forms_stmt env s
      have := forms_stmts env ss
      exact inferInstanceAs (Forms (do stmt env s; stmts env ss))

theorem forms_clauses (env : Env) [env.Forms] (cs : List Clause) :
    ∀ c ∈ cs, Forms (stmts env (clauseBody c)) := by
  match cs with
  | [] => exact nofun
  | .case_ s v body :: cs => exact List.forall_mem_cons.mpr ⟨forms_stmts env body, forms_clauses env cs⟩
  | .default_ s body :: cs => exact List.forall_mem_cons.mpr ⟨forms_stmts env body, forms_clauses env cs⟩

theorem forms_catches (env : Env) [env.Forms] (cs : List Catch) : ∀ c ∈ cs, Forms (stmt env c.body) := by
  match cs with
  | [] => exact nofun
  | ⟨s, type, name, body⟩ :: cs => exact List.forall_mem_cons.mpr ⟨forms_stmt env body, forms_catches env cs⟩

end

end Statements

/-! ## Routines -/

section Routines

variable (env : Env)

instance (t : Tail) : (env.enter t).Forms := ⟨nofun⟩

instance : Forms newTail := by
  unfold newTail
  infer_instance

instance (t : Tail) : Forms (routineEnd t) := by
  unfold routineEnd
  infer_instance

instance (t : Tail) : Forms (mainEnd t) := by
  unfold mainEnd
  infer_instance

instance (i : Nat) (names : List String) : Forms (loadParams env i names) := by
  induction names generalizing i with
  | nil => exact inferInstanceAs (Forms (pure ()))
  | cons name names ih => unfold loadParams; infer_instance

instance (names : List String) (body : Stmt) : Forms (routineCode env names body) := by
  have (t : Tail) := forms_stmt (env.enter t) body
  unfold routineCode
  infer_instance

instance (c : ClassDecl) : Forms (methodTable env c) := by
  have (table : String) (ms : List MethodEntry) : Forms (ms.forM fun m => do
      call "lm_map_set" [.data table, ← str m.key, .addr m.symbol, imm 0]) :=
    forms_forM fun _ _ => inferInstance
  unfold methodTable
  infer_instance

instance [env.Forms] (c : ClassDecl) : Forms (staticInit env c) := by
  refine forms_forM fun f _ => ?_
  cases f.init <;> infer_instance

instance (seed : Int64) (items : List Stmt) : Forms (mainCode env seed items) := by
  have (t : Tail) (cs : List ClassDecl) : Forms (cs.forM (methodTable (env.enter t))) :=
    forms_forM fun _ _ => inferInstance
  have (t : Tail) (cs : List ClassDecl) : Forms (cs.forM (staticInit (env.enter t))) :=
    forms_forM fun _ _ => inferInstance
  have (t : Tail) := forms_stmts (env.enter t) items
  unfold mainCode prelude
  infer_instance

theorem Forms.formed {x : Emitting Unit} [forms : Forms x] {g : Gen} (empty : g.code = #[]) {i : Instr}
    (mem : i ∈ (x.run g).2.code.toList) : i.Formed := by
  obtain ⟨added, formed, code⟩ := forms.adds g
  rw [code, empty] at mem
  exact formed i mem

end Routines

end Emit

/-- Every instruction of a program has one of the forms. -/
theorem Inference.formed_generate (t : Inference) (hints : Hints) (seed : Int64) {r : Routine}
    (mem : r ∈ (t.generate hints seed).1.routines) {i : Instr} (inside : i ∈ r.code) : i.Formed := by
  obtain ⟨rs, main, routines, -, made, -, code⟩ := t.routines_generate hints seed
  rw [routines, List.mem_append, List.mem_singleton] at mem
  rcases mem with mem | rfl
  · obtain ⟨s, -, -, g, code, -⟩ := Emit.mem_of_makes made mem
    exact Emit.Forms.formed (g := g.cleared) rfl (code ▸ inside)
  · exact Emit.Forms.formed (g := Emit.Gen.cleared _) rfl (code ▸ inside)

end Lantern
