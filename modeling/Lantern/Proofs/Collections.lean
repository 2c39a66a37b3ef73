import Lantern.Nasm
import Lantern.Proofs.Calls
import Lantern.Proofs.Delivery

/-!
# Printing collections

A list or map is printed by a loop in generated code, which asks the run-time library for one element
after the other. Whatever the collection holds, the loop ends with the text of all its elements in
order and separators between them, and it leaves everything but three temporaries as it was.
-/

namespace Lantern

open Assembly

/-! ## What is put out -/

/-- The characters that the printing routine puts out for the characters of a format and the values
    behind it: strings are given by their address, numbers are written in decimal. -/
def formatted (contents : Word → String) : List Char → List Word → List Char
  | '%' :: 's' :: cs, v :: vs => (contents v).toList ++ formatted contents cs vs
  | '%' :: 'l' :: 'l' :: 'd' :: cs, v :: vs => (toString v.toInt).toList ++ formatted contents cs vs
  | c :: cs, vs => c :: formatted contents cs vs
  | [], _ => []

/-- What an event puts out, where strings are what stands at addresses. -/
def Event.output (contents : Word → String) : Event → String
  | .print (format :: vs) => String.ofList (formatted contents (contents format).toList vs)
  | _ => ""

/-- What has been put out in a run. -/
def output (contents : Word → String) (trace : List Event) : String :=
  String.join (trace.map (Event.output contents))

/-- A string between quotes. -/
def quoted (s : String) : String := "\"" ++ s ++ "\""

/-- How a word is printed as an element of a collection: a string between quotes, or a number. -/
def shownAs (contents : Word → String) (isString : Bool) (v : Word) : String :=
  if isString then quoted (contents v) else toString v.toInt

section Output

variable {contents : Word → String}

theorem output_print (trace : List Event) (vs : List Word) :
    output contents (trace ++ [Event.print vs]) = output contents trace ++ (Event.print vs).output contents := by
  simp [output, String.join_append]

/-- A format without directives is put out as it stands. -/
theorem output_plain {format : Word} (plain : '%' ∉ (contents format).toList) :
    (Event.print [format]).output contents = contents format := by
  have all (cs : List Char) (plain : '%' ∉ cs) : formatted contents cs [] = cs := by
    induction cs with
    | nil => rfl
    | cons c cs ih =>
        obtain ⟨other, plain⟩ := List.ne_and_not_mem_of_not_mem_cons plain
        simp [formatted, ih plain]
  rw [Event.output, all _ plain, String.ofList_toList]

theorem output_element {format v : Word} {isString : Bool}
    (held : contents format = if isString then "\"%s\"" else "%lld") :
    (Event.print [format, v]).output contents = shownAs contents isString v := by
  rw [Event.output, held]
  cases isString with
  | false =>
      have text : formatted contents "%lld".toList [v] = (toString v.toInt).toList ++ [] := rfl
      simp only [Bool.false_eq_true, if_false, text, shownAs, List.append_nil, String.ofList_toList]
  | true =>
      have text : formatted contents "\"%s\"".toList [v] = '"' :: ((contents v).toList ++ ['"']) := rfl
      apply String.toList_inj.mp
      simp only [if_true, text, shownAs, quoted, String.toList_ofList, String.toList_append]
      rfl

end Output

/-- A text and others behind it, each after a separator. -/
theorem intercalate_cons (sep s : String) (rest : List String) :
    sep.intercalate (s :: rest) = s ++ String.join (rest.map (sep ++ ·)) := by
  induction rest generalizing s with
  | nil => simp
  | cons t rest ih =>
      rw [String.intercalate_cons_cons, ih, List.map_cons, String.join_cons, String.append_assoc, String.append_assoc]

namespace Collections

open Machine
open Emit (Text Gen Emitting Lays lays_bind lays_emit layout shown)
open Meaning (Steady)

variable {W : Type}

/-! ## The surroundings -/

/-- The routines of the run-time library that the code for printing collections calls. -/
def asked : List String :=
  ["printf", "lm_array_length", "lm_array_get", "lm_map_size", "lm_map_key_at", "lm_map_value_at",
   "lm_map_value_is_string"]

/-- A host that is only shown things: nothing that is asked about a collection, and no printing, takes
    it out of the states `alive`, and every fixed string stands at its address. -/
structure Steadfast (H : Host W) (alive : W → Prop) (contents : Word → String) : Prop where
  keeps : ∀ name ∈ asked, ∀ w args, alive w → alive (H.answer w name args).world
  fixed : ∀ d ∈ Nasm.fixedData, contents (H.address d.label) = d.value

/-- What a run of printing code refers to: the program around it, and the state it starts from. -/
structure Scenery (W : Type) where
  host : Host W
  routines : List Routine
  text : Text
  contents : Word → String
  alive : W → Prop
  start : Machine W

/-- Nothing in the program is in the way of the code. -/
structure Scenery.Sound (C : Scenery W) : Prop extends Steadfast C.host C.alive C.contents where
  foreign : ∀ name ∈ asked, C.routines.find? (·.name == name) = none
  distinct : Distinct C.text.code
  bare : C.start.args = []

/-- The run has come to a place of the generator, with a certain frame and a certain text put out, and
    with everything else but registers and the host as in the beginning. -/
structure Moment (C : Scenery W) (g : Gen) (slots : Int → Word) (out : String) (m : Machine W) : Prop where
  here : At C.text g m
  seen : view m = { view C.start with slots := slots, world := m.world, trace := m.trace }
  alive : C.alive m.world
  put : output C.contents m.trace = output C.contents C.start.trace ++ out

namespace Moment

variable {C : Scenery W} {g g' : Gen} {slots slots' : Int → Word} {out : String} {m : Machine W} {op : Op}
  {args : List Operand} {Q : Machine W → Prop}

theorem slots_eq (moment : Moment C g slots out m) : m.slots = slots := congrArg View.slots moment.seen

theorem args_eq (moment : Moment C g slots out m) (sound : C.Sound) : m.args = [] :=
  (congrArg View.args moment.seen).trans sound.bare

/-- The same place, whatever else the generator has changed. -/
theorem of_code (h : Gen) (moment : Moment C g slots out m) (size : h.code.size = g.code.size) :
    Moment C h slots out m :=
  ⟨⟨moment.here.code, size ▸ moment.here.pc⟩, moment.seen, moment.alive, moment.put⟩

/-- Executes an instruction that changes registers and the frame only. -/
theorem next (m' : Machine W) (moment : Moment C g slots out m)
    (laid : C.text.code[g.code.size]? = some ⟨op, args, ""⟩)
    (effect : m.exec C.host C.routines op args = .next m') (seen : view m' = { view m with slots := slots' })
    (pc : m'.pc = m.pc + 1)
    (rest : ∀ n, regs n = regs m' → Moment C (g.push op args) slots' out n → Reach C.host C.routines False n Q) :
    Reach C.host C.routines False m Q := by
  refine moment.here.next laid effect (congrArg View.code seen) pc fun n regs view clock here =>
    rest n regs ⟨here, ?_, ?_, ?_⟩
  · have world : n.world = m.world := congrArg View.world (view.trans seen)
    have trace : n.trace = m.trace := congrArg View.trace (view.trans seen)
    rw [view, seen, moment.seen, world, trace]
  · rw [show n.world = m.world from congrArg View.world (view.trans seen)]
    exact moment.alive
  · rw [show n.trace = m.trace from congrArg View.trace (view.trans seen)]
    exact moment.put

/-- Executes an instruction that changes registers only. -/
theorem registers (m' : Machine W) (moment : Moment C g slots out m)
    (laid : C.text.code[g.code.size]? = some ⟨op, args, ""⟩)
    (effect : m.exec C.host C.routines op args = .next m') (seen : view m' = view m) (pc : m'.pc = m.pc + 1)
    (rest : ∀ n, regs n = regs m' → Moment C (g.push op args) slots out n → Reach C.host C.routines False n Q) :
    Reach C.host C.routines False m Q := by
  refine moment.next m' laid effect ?_ pc rest
  rw [seen, ← moment.slots_eq]
  rfl

/-- Executes an instruction that goes to a label. -/
theorem jump {l : String} (h : Gen) (moment : Moment C g slots out m) (sound : C.Sound)
    (laid : C.text.code[g.code.size]? = some ⟨op, args, ""⟩)
    (target : C.text.code[h.code.size]? = some ⟨.label, [.label l], ""⟩)
    (effect : m.exec C.host C.routines op args = m.jump l)
    (rest : ∀ n, Moment C h slots out n → Reach C.host C.routines False n Q) :
    Reach C.host C.routines False m Q := by
  refine moment.here.jump laid sound.distinct target effect fun n _ view _ here => rest n ⟨here, ?_, ?_, ?_⟩
  · rw [view, moment.seen, show n.world = m.world from congrArg View.world view,
      show n.trace = m.trace from congrArg View.trace view]
  · rw [show n.world = m.world from congrArg View.world view]
    exact moment.alive
  · rw [show n.trace = m.trace from congrArg View.trace view]
    exact moment.put

/-- Asks the run-time library about the collection. -/
theorem ask {name : String} {ops : List Operand} (vs : List Word) (moment : Moment C g slots out m)
    (sound : C.Sound) (lays : Lays C.text (Emit.call name ops) g () g') (known : name ∈ asked)
    (quiet : name ≠ "printf") (values : ops.map (m.read C.host) = vs.map some) (steady : ∀ o ∈ ops, Steady o)
    (rest : ∀ n w, C.alive w → n.rax = (C.host.answer w name vs).rax → Moment C g' slots out n →
      Reach C.host C.routines False n Q) : Reach C.host C.routines False m Q := by
  refine Meaning.asks moment.here lays (sound.foreign name known) (moment.args_eq sound) values steady
    fun n rax view _ here => rest n m.world moment.alive rax ⟨here, ?_, ?_, ?_⟩
  all_goals rw [if_neg quiet] at view
  · rw [view, moment.seen, show n.world = _ from congrArg View.world view,
      show n.trace = m.trace from congrArg View.trace view]
  · rw [show n.world = _ from congrArg View.world view]
    exact sound.keeps name known _ _ moment.alive
  · rw [show n.trace = m.trace from congrArg View.trace view]
    exact moment.put

/-- Prints by a fixed format. -/
theorem print {format : String} {ops : List Operand} (vs : List Word) (moment : Moment C g slots out m)
    (sound : C.Sound) (lays : Lays C.text (Emit.printf format ops) g () g')
    (values : ops.map (m.read C.host) = vs.map some) (steady : ∀ o ∈ ops, Steady o)
    (rest : ∀ n, Moment C g' slots (out ++ (Event.print (C.host.address format :: vs)).output C.contents) n →
      Reach C.host C.routines False n Q) : Reach C.host C.routines False m Q := by
  have known : "printf" ∈ asked := by decide
  have values : (.addr format :: ops).map (m.read C.host) = (C.host.address format :: vs).map some := by
    simp [values]
  refine Meaning.asks moment.here lays (sound.foreign _ known) (moment.args_eq sound) values
    (List.forall_mem_cons.mpr ⟨trivial, steady⟩) fun n _ view _ here => rest n ⟨here, ?_, ?_, ?_⟩
  all_goals rw [if_pos rfl] at view
  · rw [view, moment.seen, show n.world = _ from congrArg View.world view,
      show n.trace = _ from congrArg View.trace view]
  · rw [show n.world = _ from congrArg View.world view]
    exact sound.keeps _ known _ _ moment.alive
  · rw [show n.trace = _ from congrArg View.trace view, output_print, moment.put, String.append_assoc]

/-- Prints a fixed string. -/
theorem plain {name : String} (text : String) (moment : Moment C g slots out m) (sound : C.Sound)
    (lays : Lays C.text (Emit.printf name []) g () g') (known : ⟨name, text⟩ ∈ Nasm.fixedData)
    (plain : '%' ∉ text.toList)
    (rest : ∀ n, Moment C g' slots (out ++ text) n → Reach C.host C.routines False n Q) :
    Reach C.host C.routines False m Q := by
  refine moment.print [] sound lays rfl (by simp) fun n moment => rest n ?_
  have held : C.contents (C.host.address name) = text := sound.fixed ⟨name, text⟩ known
  rwa [output_plain (held ▸ plain), held] at moment

/-- Prints the word in `rax` as an element of a collection. -/
theorem element (isString : Bool) (moment : Moment C g slots out m) (sound : C.Sound)
    (lays : Lays C.text (Emit.printf (if isString then "fmt_quoted" else "fmt_int") [Emit.rax]) g () g')
    (rest : ∀ n, Moment C g' slots (out ++ shownAs C.contents isString m.rax) n →
      Reach C.host C.routines False n Q) : Reach C.host C.routines False m Q := by
  refine moment.print [m.rax] sound lays rfl (by simp) fun n moment => rest n ?_
  have held : C.contents (C.host.address (if isString then "fmt_quoted" else "fmt_int")) =
      if isString then "\"%s\"" else "%lld" := by
    cases isString
    · exact sound.fixed ⟨"fmt_int", "%lld"⟩ (by simp [Nasm.fixedData])
    · exact sound.fixed ⟨"fmt_quoted", "\"%s\""⟩ (by simp [Nasm.fixedData])
  rwa [output_element held] at moment

/-- Passes a label. -/
theorem mark {l : String} (moment : Moment C g slots out m)
    (laid : C.text.code[g.code.size]? = some ⟨.label, [.label l], ""⟩)
    (rest : ∀ n, regs n = regs m → Moment C (g.push .label [.label l]) slots out n →
      Reach C.host C.routines False n Q) : Reach C.host C.routines False m Q :=
  moment.registers m.next laid rfl rfl rfl rest

/-- Fetches a word of the frame. -/
theorem load {i : Int} (moment : Moment C g slots out m)
    (laid : C.text.code[g.code.size]? = some ⟨.mov, [Emit.rax, .slot i], ""⟩)
    (rest : ∀ n, n.rax = slots i → Moment C (g.push .mov [Emit.rax, .slot i]) slots out n →
      Reach C.host C.routines False n Q) : Reach C.host C.routines False m Q := by
  refine moment.registers { m with rax := m.slots i }.next laid rfl rfl rfl fun n regs => rest n ?_
  have rax : n.rax = m.slots i := congrArg Regs.rax regs
  rw [rax, moment.slots_eq]

/-- Gives a word of the frame a value. -/
theorem store {i : Int} {o : Operand} {v : Word} (moment : Moment C g slots out m)
    (laid : C.text.code[g.code.size]? = some ⟨.mov, [.slot i, o], ""⟩) (value : m.read C.host o = some v)
    (rest : ∀ n, Moment C (g.push .mov [.slot i, o]) (Function.update slots i v) out n →
      Reach C.host C.routines False n Q) : Reach C.host C.routines False m Q := by
  refine moment.next { m with slots := Function.update m.slots i v }.next laid ?_
    (moment.slots_eq ▸ rfl) rfl fun n _ => rest n
  simp [Machine.exec, value, Machine.put, Machine.write]

/-- Goes to a label if `rax` is zero. -/
theorem branch {l : String} (h : Gen) (moment : Moment C g slots out m) (sound : C.Sound)
    (test : C.text.code[g.code.size]? = some ⟨.test, [Emit.rax, Emit.rax], ""⟩)
    (laid : C.text.code[(g.push .test [Emit.rax, Emit.rax]).code.size]? = some ⟨.jz, [.label l], ""⟩)
    (target : C.text.code[h.code.size]? = some ⟨.label, [.label l], ""⟩)
    (zero : m.rax = 0 → ∀ n, Moment C h slots out n → Reach C.host C.routines False n Q)
    (other : m.rax ≠ 0 → ∀ n, Moment C ((g.push .test [Emit.rax, Emit.rax]).push .jz [.label l]) slots out n →
      Reach C.host C.routines False n Q) : Reach C.host C.routines False m Q := by
  let f : Flags := ⟨m.rax &&& m.rax == 0, decide (m.rax &&& m.rax < 0)⟩
  refine moment.registers { m with flags := some f }.next test rfl rfl rfl fun n regs moment => ?_
  have flags : n.flags = some f := congrArg Regs.flags regs
  have tests : f.zero = decide (m.rax = 0) := by simp [f, Int64.and_self, beq_eq_decide]
  by_cases isZero : m.rax = 0
  · refine moment.jump h sound laid target ?_ (zero isZero)
    simp [Machine.exec, Machine.jumpIf, Machine.holds?, flags, tests, isZero]
  · refine moment.registers n.next laid ?_ rfl rfl fun n _ => other isZero n
    simp [Machine.exec, Machine.jumpIf, Machine.holds?, flags, tests, isZero]

/-- Goes to a label if `rax` is not less than a word of the frame. -/
theorem leave {l : String} {i : Int} (h : Gen) (moment : Moment C g slots out m) (sound : C.Sound)
    (compare : C.text.code[g.code.size]? = some ⟨.cmp, [Emit.rax, .slot i], ""⟩)
    (laid : C.text.code[(g.push .cmp [Emit.rax, .slot i]).code.size]? = some ⟨.jge, [.label l], ""⟩)
    (target : C.text.code[h.code.size]? = some ⟨.label, [.label l], ""⟩)
    (reached : ¬m.rax < slots i → ∀ n, Moment C h slots out n → Reach C.host C.routines False n Q)
    (less : m.rax < slots i → ∀ n, n.rax = m.rax →
      Moment C ((g.push .cmp [Emit.rax, .slot i]).push .jge [.label l]) slots out n →
      Reach C.host C.routines False n Q) : Reach C.host C.routines False m Q := by
  let f : Flags := ⟨m.rax == m.slots i, decide (m.rax < m.slots i)⟩
  refine moment.registers { m with flags := some f }.next compare rfl rfl rfl fun n regs moment' => ?_
  have flags : n.flags = some f := congrArg Regs.flags regs
  have rax : n.rax = m.rax := congrArg Regs.rax regs
  simp only [f, moment.slots_eq] at flags
  by_cases isLess : m.rax < slots i
  · refine moment'.registers n.next laid ?_ rfl rfl
      fun o regs => less isLess o ((congrArg Regs.rax regs).trans rax)
    simp [Machine.exec, Machine.jumpIf, Machine.holds?, flags, isLess]
  · refine moment'.jump h sound laid target ?_ (reached isLess)
    simp [Machine.exec, Machine.jumpIf, Machine.holds?, flags, isLess]

end Moment

/-- Code prints a text, wherever it stands, and leaves a certain frame as it is. -/
def Prints (C : Scenery W) (x : Emitting Unit) (slots : Int → Word) (text : String) : Prop :=
  ∀ {g g' : Gen} {out : String} {m : Machine W} {Q : Machine W → Prop}, Lays C.text x g () g' →
    Moment C g slots out m →
    (∀ n, Moment C g' slots (out ++ text) n → Reach C.host C.routines False n Q) →
      Reach C.host C.routines False m Q

/-! ## The loop -/

section Loop

open Emit

/-- The rounds of a loop over `n` elements: a comma before every element but the first. -/
def rounds (loop endL skip : String) (i n : Operand) (element : Emitting Unit) : Emitting Unit := do
  place loop
  emit .mov [rax, i]
  emit .cmp [rax, n]
  Emit.jump .jge endL
  testResult
  Emit.jump .jz skip
  printf "comma" []
  place skip
  element
  increment i
  Emit.jump .jmp loop
  place endL

instance (loop endL skip : String) (i n : Operand) (element : Emitting Unit) [Grows element] :
    Grows (rounds loop endL skip i n element) := by
  unfold rounds
  infer_instance

/-- A collection between its brackets. -/
def printBetween (env : Env) (loop endL skip first size last : String)
    (element : Operand → Operand → Emitting Unit) : Emitting Unit := do
  let c ← spill env
  printf first []
  call size [c]
  let n ← spill env
  let i ← pushTemp env
  emit .mov [i, imm 0]
  rounds loop endL skip i n (element c i)
  printf last []
  popTemps 3

instance (env : Env) (loop endL skip first size last : String) (element : Operand → Operand → Emitting Unit)
    [∀ c i, Grows (element c i)] : Grows (printBetween env loop endL skip first size last element) := by
  unfold printBetween
  infer_instance

/-- An element of a list. -/
def printElement (isString : Bool) (c i : Operand) : Emitting Unit := do
  call "lm_array_get" [c, i]
  printf (if isString then "fmt_quoted" else "fmt_int") [rax]

/-- An entry of a map. -/
def printPair (intL nextL : String) (c i : Operand) : Emitting Unit := do
  call "lm_map_key_at" [c, i]
  printf "fmt_quoted" [rax]
  printf "colon" []
  call "lm_map_value_is_string" [c, i]
  testResult
  Emit.jump .jz intL
  call "lm_map_value_at" [c, i]
  printf "fmt_quoted" [rax]
  Emit.jump .jmp nextL
  place intL
  call "lm_map_value_at" [c, i]
  printf "fmt_int" [rax]
  place nextL

instance (isString : Bool) (c i : Operand) : Grows (printElement isString c i) := by
  unfold printElement
  infer_instance

instance (intL nextL : String) (c i : Operand) : Grows (printPair intL nextL c i) := by
  unfold printPair
  infer_instance

theorem printList_eq (env : Env) (s : Sigil) : printList env s = (do
    let loop ← newLabel "plist"
    let endL ← newLabel "plistend"
    let skip ← newLabel "nocomma"
    printBetween env loop endL skip "lbracket" "lm_array_length" "rbracket"
      (printElement s.elemSigil.isStr)) := by
  simp only [printList, printBetween, loopHead, rounds, printElement, bind_assoc]

theorem printMap_eq (env : Env) : printMap env = (do
    let loop ← newLabel "pmap"
    let endL ← newLabel "pmapend"
    let skip ← newLabel "nocomma"
    let intL ← newLabel "pint"
    let nextL ← newLabel "pnext"
    printBetween env loop endL skip "lbrace" "lm_map_size" "rbrace" (printPair intL nextL)) := by
  simp only [printMap, printBetween, loopHead, rounds, printPair, bind_assoc]

end Loop

/-- The frame with a collection, its size and the number of the next element in three temporaries. -/
def frame (slots : Int → Word) (base : Int) (coll size : Word) (k : Nat) : Int → Word :=
  Function.update (Function.update (Function.update slots base coll) (base + 1) size) (base + 2) (Int64.ofNat k)

section Frame

variable (slots : Int → Word) (base : Int) (coll size : Word) (k : Nat)

@[simp] theorem frame_coll : frame slots base coll size k base = coll := by simp [frame]

@[simp] theorem frame_size : frame slots base coll size k (base + 1) = size := by simp [frame]

@[simp] theorem frame_count : frame slots base coll size k (base + 2) = Int64.ofNat k := by
  simp [frame]

theorem frame_step (k' : Nat) : Function.update (frame slots base coll size k) (base + 2) (Int64.ofNat k') =
    frame slots base coll size k' := by
  simp [frame]

theorem frame_outside {i : Int} (outside : ¬(base ≤ i ∧ i < base + 3)) : frame slots base coll size k i = slots i := by
  simp only [frame, Function.update_apply]
  rw [if_neg (by omega), if_neg (by omega), if_neg (by omega)]

end Frame

/-- What is still to be put out when `k` elements have been. -/
def remaining (k : Nat) (rest : List String) : String :=
  if k = 0 then ", ".intercalate rest else String.join (rest.map (", " ++ ·))

theorem remaining_cons (k : Nat) (e : String) (rest : List String) :
    remaining k (e :: rest) = (if k = 0 then "" else ", ") ++ e ++ remaining (k + 1) rest := by
  unfold remaining
  rw [if_neg (Nat.succ_ne_zero k)]
  split
  · rw [intercalate_cons, String.empty_append]
  · rw [List.map_cons, String.join_cons]

variable {C : Scenery W} {slots : Int → Word} {base : Int} {coll size : Word} {es : List String}
  {element : Emitting Unit} {Q : Machine W → Prop}

theorem ofNat_lt_size {k : Nat} (length : size.toInt = es.length) (inside : k ≤ es.length) :
    Int64.ofNat k < size ↔ k < es.length := by
  have most := size.toInt_lt
  rw [Int64.lt_iff_toInt_lt, Int64.toInt_ofNat_of_lt (by omega), length]
  omega

theorem rounds_reach [Emit.Grows element] (sound : C.Sound) {loop endL skip : String} {g g' : Gen}
    (lays : Lays C.text (rounds loop endL skip (.slot (base + 2)) (.slot (base + 1)) element) g () g')
    (length : size.toInt = es.length)
    (prints : ∀ k e, es[k]? = some e → Prints C element (frame slots base coll size k) e) {whole : String}
    (after : ∀ n, Moment C g' (frame slots base coll size es.length) whole n →
      Reach C.host C.routines False n Q)
    {rest : List String} {k : Nat} (left : es.drop k = rest) (inside : k ≤ es.length) {out : String}
    (put : out ++ remaining k rest = whole) {m : Machine W}
    (moment : Moment C g (frame slots base coll size k) out m) : Reach C.host C.routines False m Q := by
  have most := size.toInt_lt
  simp only [rounds, Emit.increment, lays_bind, lays_emit, layout, shown] at lays
  obtain ⟨loopL, load, compare, leave, test, noComma, g₁, comma, skipL, g₂, own, load', add, store, again,
    endL_, rfl⟩ := lays
  -- The index counts the elements that are put out; the text of the rest is still to come.
  induction rest generalizing k out m with
  | nil =>
      have all : k = es.length := by
        have := List.drop_eq_nil_iff.mp left
        omega
      subst all
      refine moment.mark loopL fun _ _ moment => moment.load load fun n rax moment => ?_
      rw [frame_count] at rax
      refine moment.leave _ sound compare leave endL_ (fun _ _ moment => ?_) fun less => ?_
      · refine moment.mark endL_ fun n _ moment => after n ?_
        have done : out = whole := by
          rw [← put]
          unfold remaining
          split <;> simp
        exact done ▸ moment
      · rw [rax, frame_size, ofNat_lt_size length le_rfl] at less
        exact absurd less (Nat.lt_irrefl _)
  | cons e rest ih =>
      have here : es[k]? = some e := by
        rw [← List.head?_drop, left]
        rfl
      have more : k < es.length := (List.getElem?_eq_some_iff.mp here).1
      have fits : k < 2 ^ 63 := by omega
      refine moment.mark loopL fun _ _ moment => moment.load load fun n rax moment => ?_
      rw [frame_count] at rax
      refine moment.leave _ sound compare leave endL_ (fun no => ?_) fun _ n same moment => ?_
      · rw [rax, frame_size, ofNat_lt_size length inside] at no
        exact absurd more no
      rw [rax] at same
      -- From the label behind the comma on, the first round is like the others.
      have behind {n : Machine W} (moment : Moment C g₁ (frame slots base coll size k)
          (out ++ if k = 0 then "" else ", ") n) : Reach C.host C.routines False n Q := by
        refine moment.mark skipL fun _ _ moment => ?_
        refine prints k e here own moment fun n moment => ?_
        refine moment.load load' fun n rax moment => ?_
        rw [frame_count] at rax
        refine moment.registers { n with rax := Int64.ofNat (k + 1), flags := none }.next add ?_ rfl rfl
          fun n regs moment => ?_
        · simp [Machine.exec, Machine.arith, Machine.put, Machine.write, Emit.rax, Emit.imm, Machine.read, rax,
            Int64.ofNat_add]
        have rax : n.rax = Int64.ofNat (k + 1) := congrArg Regs.rax regs
        refine moment.store store (congrArg some rax) fun n moment => ?_
        rw [frame_step] at moment
        refine moment.jump g sound again loopL rfl fun n moment => ?_
        refine ih (by rw [← List.tail_drop, left]; rfl) more ?_ moment
        rw [← put, remaining_cons]
        simp only [String.append_assoc]
      refine moment.branch g₁ sound test noComma skipL (fun zero n moment => behind ?_) fun other n moment => ?_
      · rw [same] at zero
        have first : k = 0 := by
          have := congrArg Int64.toInt zero
          rw [Int64.toInt_ofNat_of_lt fits, Int64.toInt_zero] at this
          exact_mod_cast this
        simpa [first] using moment
      · rw [same] at other
        have later : k ≠ 0 := by
          rintro rfl
          exact other rfl
        exact moment.plain ", " sound comma (by simp [Nasm.fixedData]) (by decide) fun n moment =>
          behind (by simpa [later] using moment)

/-! ## Lists and maps -/

/-- What the run-time library answers about a list: its length and its elements. -/
structure ShowsList (H : Host W) (alive : W → Prop) (list : Word) (xs : List Word) : Prop where
  length : ∀ w, alive w → (H.answer w "lm_array_length" [list]).rax.toInt = xs.length
  get : ∀ w, alive w → ∀ i v, xs[i]? = some v → (H.answer w "lm_array_get" [list, Int64.ofNat i]).rax = v

/-- An entry of a map. -/
structure Entry where
  /-- The address of the key. -/
  key : Word
  /-- The value. -/
  value : Word
  /-- Whether the value is the address of a string. -/
  isString : Bool

/-- How an entry is printed. -/
def Entry.shown (contents : Word → String) (e : Entry) : String :=
  quoted (contents e.key) ++ ": " ++ shownAs contents e.isString e.value

/-- What the run-time library answers about a map: its size and its entries. -/
structure ShowsMap (H : Host W) (alive : W → Prop) (map : Word) (es : List Entry) : Prop where
  size : ∀ w, alive w → (H.answer w "lm_map_size" [map]).rax.toInt = es.length
  key : ∀ w, alive w → ∀ i e, es[i]? = some e →
    (H.answer w "lm_map_key_at" [map, Int64.ofNat i]).rax = e.key
  value : ∀ w, alive w → ∀ i e, es[i]? = some e →
    (H.answer w "lm_map_value_at" [map, Int64.ofNat i]).rax = e.value
  isString : ∀ w, alive w → ∀ i e, es[i]? = some e →
    ((H.answer w "lm_map_value_is_string" [map, Int64.ofNat i]).rax ≠ 0 ↔ e.isString)

theorem prints_element (sound : C.Sound) {isString : Bool} {xs : List Word}
    (shows : ShowsList C.host C.alive coll xs) {k : Nat} {e : String}
    (here : (xs.map (shownAs C.contents isString))[k]? = some e) :
    Prints C (printElement isString (.slot base) (.slot (base + 2))) (frame slots base coll size k) e := by
  rw [List.getElem?_map] at here
  obtain ⟨v, found, rfl⟩ := Option.map_eq_some_iff.mp here
  intro g g' out m Q lays moment rest
  simp only [printElement, lays_bind, shown] at lays
  obtain ⟨g₁, get, print⟩ := lays
  refine moment.ask [coll, Int64.ofNat k] sound get (by decide) (by decide) (by simp [moment.slots_eq])
    (by simp) fun n w alive rax moment => ?_
  rw [shows.get w alive k v found] at rax
  exact moment.element isString sound print fun n => rax ▸ rest n

theorem prints_pair (sound : C.Sound) {intL nextL : String} {pairs : List Entry}
    (shows : ShowsMap C.host C.alive coll pairs) {k : Nat} {text : String}
    (here : (pairs.map (Entry.shown C.contents))[k]? = some text) :
    Prints C (printPair intL nextL (.slot base) (.slot (base + 2))) (frame slots base coll size k) text := by
  rw [List.getElem?_map] at here
  obtain ⟨e, found, rfl⟩ := Option.map_eq_some_iff.mp here
  intro g g' out m Q lays moment rest
  simp only [printPair, lays_bind, layout, shown] at lays
  obtain ⟨g₁, key, g₂, quotedKey, g₃, colon, g₄, asks, test, noString, g₅, value, g₆, string, skip, intL_, g₇, value',
    g₈, number, nextL_, rfl⟩ := lays
  have element {n : Machine W} {g : Gen} {out : String}
      (moment : Moment C g (frame slots base coll size k) out n) :
      [Operand.slot base, .slot (base + 2)].map (n.read C.host) = [coll, Int64.ofNat k].map some := by
    simp [moment.slots_eq]
  refine moment.ask [coll, Int64.ofNat k] sound key (by decide) (by decide) (element moment) (by simp)
    fun n w alive rax moment => ?_
  rw [shows.key w alive k e found] at rax
  refine moment.element true sound quotedKey fun n moment => ?_
  rw [rax] at moment
  refine moment.plain ": " sound colon (by simp [Nasm.fixedData]) (by decide) fun n moment => ?_
  refine moment.ask [coll, Int64.ofNat k] sound asks (by decide) (by decide) (element moment) (by simp)
    fun n w alive rax moment => ?_
  have kind := shows.isString w alive k e found
  rw [← rax] at kind
  -- Both ways ask for the value once more and print it.
  have print {n : Machine W} {g₁ g₂ g₃ : Gen} {out : String}
      (value : Lays C.text (Emit.call "lm_map_value_at" [.slot base, .slot (base + 2)]) g₁ () g₂)
      (string : Lays C.text (Emit.printf (if e.isString then "fmt_quoted" else "fmt_int") [Emit.rax]) g₂ () g₃)
      (moment : Moment C g₁ (frame slots base coll size k) out n)
      (rest : ∀ n, Moment C g₃ (frame slots base coll size k) (out ++ shownAs C.contents e.isString e.value) n →
        Reach C.host C.routines False n Q) : Reach C.host C.routines False n Q := by
    refine moment.ask [coll, Int64.ofNat k] sound value (by decide) (by decide) (element moment) (by simp)
      fun n w alive rax moment => ?_
    rw [shows.value w alive k e found] at rax
    exact moment.element e.isString sound string fun n => rax ▸ rest n
  have whole : out ++ e.shown C.contents = out ++ shownAs C.contents true e.key ++ ": " ++
      shownAs C.contents e.isString e.value := by
    simp only [Entry.shown, shownAs, if_true, String.append_assoc]
  refine moment.branch _ sound test noString intL_ (fun zero n moment => ?_) fun other n moment => ?_
  · have number' : e.isString = false := by simpa [zero] using kind
    refine moment.mark intL_ fun n _ moment => print value' (by simpa [number'] using number) moment fun n moment => ?_
    exact moment.mark nextL_ fun n _ moment => rest n (whole ▸ moment)
  · have isString : e.isString = true := kind.mp other
    refine print value (by simpa [isString] using string) moment fun n moment => ?_
    refine moment.jump g₈ sound skip nextL_ rfl fun n moment => ?_
    exact moment.mark nextL_ fun n _ moment => rest n (whole ▸ moment)

/-- The code of a collection prints its elements between its brackets. -/
theorem prints_between {element : Operand → Operand → Emitting Unit} [∀ c i, Emit.Grows (element c i)]
    (sound : C.Sound) {env : Emit.Env} {loop endL skip open_ ask close first last : String} {g g' : Gen}
    (lays : Lays C.text (printBetween env loop endL skip open_ ask close element) g () g')
    (opens : ⟨open_, first⟩ ∈ Nasm.fixedData) (closes : ⟨close, last⟩ ∈ Nasm.fixedData)
    (plain : '%' ∉ first.toList ∧ '%' ∉ last.toList) (known : ask ∈ asked) (quiet : ask ≠ "printf")
    (length : ∀ w, C.alive w → (C.host.answer w ask [coll]).rax.toInt = es.length)
    (base_ : base = env.locals.length + 1 + g.temps)
    (prints : ∀ size k e, es[k]? = some e →
      Prints C (element (.slot base) (.slot (base + 2))) (frame slots base coll size k) e)
    {m : Machine W} (moment : Moment C g slots "" m) (rax : m.rax = coll) :
    Reach C.host C.routines False m fun n => ∃ size, Moment C g' (frame slots base coll size es.length)
      (first ++ ", ".intercalate es ++ last) n := by
  simp only [printBetween, lays_bind, lays_emit, layout, shown] at lays
  obtain ⟨keep, g₁, opened, g₂, count, keep', zero, g₃, rounds, g₄, closed, rfl⟩ := lays
  have temps₂ : (g₂.temps : Int) = g.temps + 1 := by
    have := opened.temps
    have := count.temps
    simp at *
    omega
  have second : (env.locals.length : Int) + 1 + g₂.temps = base + 1 := by omega
  have third : (env.locals.length : Int) + 1 + (g₂.lift.push .mov [.slot (base + 1), Emit.rax]).temps = base + 2 := by
    simp
    omega
  simp only [← base_, second, third] at keep opened count keep' zero rounds
  have lifted {g : Gen} {slots : Int → Word} {out : String} {n : Machine W} (moment : Moment C g slots out n) :
      Moment C g.lift slots out n := moment.of_code g.lift rfl
  refine (lifted moment).store keep (congrArg some rax) fun n moment => ?_
  refine moment.plain first sound opened opens plain.1 fun n moment => ?_
  refine moment.ask [coll] sound count known quiet (by simp [moment.slots_eq]) (by simp) fun o w alive rax moment => ?_
  have length := rax ▸ length w alive
  refine (lifted moment).store keep' rfl fun n moment => ?_
  refine (lifted moment).store zero rfl fun n moment => ?_
  refine rounds_reach sound rounds length (prints _) (fun n moment => ?_) rfl (Nat.zero_le _) rfl moment
  refine moment.plain last sound closed closes plain.2 fun n moment => Reach.done ⟨o.rax, ?_⟩
  have text : "" ++ first ++ remaining 0 es ++ last = first ++ ", ".intercalate es ++ last := by
    simp [remaining]
  exact text ▸ moment.of_code _ rfl

/-- A machine has printed a text and stands behind the code that did, in the activation it was in.
    Nothing else can be told from three words of its frame. -/
structure Printed (contents : Word → String) (m n : Machine W) (stop : Nat) (base : Int) (text : String) : Prop where
  out : output contents n.trace = output contents m.trace ++ text
  code : n.code = m.code
  pc : n.pc = stop
  slots : ∀ i, ¬(base ≤ i ∧ i < base + 3) → n.slots i = m.slots i
  data : n.data = m.data
  params : n.params = m.params
  saved : n.saved = m.saved
  callers : n.callers = m.callers
  args : n.args = []

theorem Moment.printed {g : Gen} {n : Machine W} {text : String} {k : Nat} (sound : C.Sound)
    (moment : Moment C g (frame C.start.slots base coll size k) text n) :
    Printed C.contents C.start n g.code.size base text := by
  have seen := moment.seen
  simp only [view, View.mk.injEq] at seen
  obtain ⟨code, slots, params, saved, callers, args, data, -, -⟩ := seen
  exact ⟨moment.put, code, moment.here.pc, fun i outside => slots ▸ frame_outside _ _ _ _ _ outside, data, params, saved,
    callers, args.trans sound.bare⟩

end Collections

open Collections in
/-- Wherever the code for printing a list or a map stands in a routine of a program, it comes to its end
    with the elements printed in order, between brackets and with a separator between two of them. A list
    quotes all its elements or none, by their static type; a map quotes its keys, and each value that the
    run-time library calls a string. Words of the frame below and above the three temporaries of the code,
    variables among them, and the data section stay as they are. -/
theorem Inference.prints_collections (t : Inference) (hints : Hints) (seed : Int64) {r : Assembly.Routine}
    (mem : r ∈ (t.generate hints seed).1.routines) {pool : List String} {env : Emit.Env} {g g' : Emit.Gen}
    {W : Type} {H : Host W} {alive : W → Prop} {contents : Word → String} (shows : Steadfast H alive contents)
    {m : Machine W} (start : m.code = r.code ∧ m.pc = g.code.size ∧ m.args = [] ∧ alive m.world) :
    (∀ s xs, Emit.Lays ⟨r.code, pool⟩ (Emit.printList env s) g () g' → ShowsList H alive m.rax xs →
      ∃ n, Machine.Run H (t.generate hints seed).1.routines False m n ∧
        Printed contents m n g'.code.size (env.locals.length + 1 + g.temps)
          ("[" ++ ", ".intercalate (xs.map (shownAs contents s.elemSigil.isStr)) ++ "]")) ∧
    ∀ es, Emit.Lays ⟨r.code, pool⟩ (Emit.printMap env) g () g' → ShowsMap H alive m.rax es →
      ∃ n, Machine.Run H (t.generate hints seed).1.routines False m n ∧
        Printed contents m n g'.code.size (env.locals.length + 1 + g.temps)
          ("\x7b" ++ ", ".intercalate (es.map (Entry.shown contents)) ++ "\x7d") := by
  obtain ⟨code, pc, args, living⟩ := start
  let C : Scenery W := ⟨H, (t.generate hints seed).1.routines, ⟨r.code, pool⟩, contents, alive, m⟩
  have foreign : ∀ name ∈ asked, C.routines.find? (·.name == name) = none := by
    intro name known
    have listed : name ∈ Emit.runtime := by
      revert name
      decide +kernel
    refine List.find?_eq_none.mpr fun q inside same => (t.delivering_generate hints seed inside).foreign ?_
    obtain rfl : q.name = name := by simpa using same
    exact listed
  have sound : C.Sound := ⟨shows, foreign, (t.delivering_generate hints seed mem).distinct, args⟩
  have moment {g : Emit.Gen} (pc : m.pc = g.code.size) : Moment C g m.slots "" m :=
    ⟨⟨code, pc⟩, rfl, living, by simp [C]⟩
  constructor
  · intro s xs lays list
    rw [printList_eq] at lays
    simp only [Emit.lays_bind, Emit.layout, Emit.shown] at lays
    have opens : (⟨"lbracket", "["⟩ : StringLit) ∈ Nasm.fixedData := by simp [Nasm.fixedData]
    have closes : (⟨"rbracket", "]"⟩ : StringLit) ∈ Nasm.fixedData := by simp [Nasm.fixedData]
    have length (w : W) (live : alive w) : (H.answer w "lm_array_length" [m.rax]).rax.toInt =
        (xs.map (shownAs contents s.elemSigil.isStr)).length := by
      rw [list.length w live, List.length_map]
    obtain ⟨n, run, size, reached⟩ := prints_between sound lays opens closes (by decide) (by decide) (by decide)
      length rfl (fun size k e => prints_element sound list) (moment pc) rfl
    exact ⟨n, run, reached.printed sound⟩
  · intro es lays map
    rw [printMap_eq] at lays
    simp only [Emit.lays_bind, Emit.layout, Emit.shown] at lays
    have opens : (⟨"lbrace", "\x7b"⟩ : StringLit) ∈ Nasm.fixedData := by simp [Nasm.fixedData]
    have closes : (⟨"rbrace", "\x7d"⟩ : StringLit) ∈ Nasm.fixedData := by simp [Nasm.fixedData]
    have length (w : W) (live : alive w) : (H.answer w "lm_map_size" [m.rax]).rax.toInt =
        (es.map (Entry.shown contents)).length := by
      rw [map.size w live, List.length_map]
    obtain ⟨n, run, size, reached⟩ := prints_between sound lays opens closes (by decide) (by decide) (by decide)
      length rfl (fun size k e => prints_pair sound map) (moment pc) rfl
    exact ⟨n, run, reached.printed sound⟩

/-- A step of the generator stands in code that starts as the generator left it. -/
theorem Emit.lays_of_take {x : Emitting Unit} {code : List Instr} {g : Gen}
    (whole : (x.run g).2.code.toList = code.take (x.run g).2.code.size) :
    Lays ⟨code, (x.run g).2.pool⟩ x g () (x.run g).2 := by
  refine ⟨rfl, fun i _ inside => ?_, fun _ => List.prefix_rfl⟩
  rw [← Array.getElem?_toList, whole, List.getElem?_take_of_lt inside]

/-- A library that holds one list, 7 and 5, and knows the addresses of the fixed strings. -/
def Collections.twoElements : Host Unit where
  address name := Int64.ofNat (Nasm.fixedData.findIdx (·.label == name))
  answer w name args :=
    let answer : Word := match name, args with
      | "lm_array_length", _ => 2
      | "lm_array_get", [_, i] => if i = 0 then 7 else 5
      | _, _ => 0
    ⟨w, answer, 0, 0⟩
  stale _ _ := 0
  inRdx _ := false
  typeOf _ _ := none

/-- The fixed strings by their addresses. -/
def Collections.fixedAt (address : Word) : String :=
  ((Nasm.fixedData[address.toNatClampNeg]?).map StringLit.value).getD ""

/-- The main routine of a program that prints a list does so from its sixteenth instruction on. -/
theorem Inference.prints_collections_two : ∃ p p' hints, Program.accept? 0 "print([7, 5]);" = some (p, p', hints) ∧
    ∃ r ∈ ((p'.infer hints).generate hints 0).1.routines, ∃ n,
      Machine.Run Collections.twoElements ((p'.infer hints).generate hints 0).1.routines False
        { Meaning.loaded r.code with pc := 15, rax := 100 } n ∧
      output Collections.fixedAt n.trace = "[7, 5]" := by
  let start (r : Assembly.Routine) : Emit.Gen := { Meaning.blank with labels := 3, code := (r.code.take 15).toArray }
  have laid : ((Program.accept? 0 "print([7, 5]);").any fun (_, p', hints) =>
      ((p'.infer hints).generate hints 0).1.routines.any fun r =>
        let g' := ((Emit.printList ((p'.infer hints).env hints) (.list .int)).run (start r)).2
        decide ((start r).code.size = 15 ∧ g'.code.toList = r.code.take g'.code.size)) = true := by
    decide +kernel
  obtain ⟨⟨p, p', hints⟩, accepted, laid⟩ := (Option.any_eq_true _ _).mp laid
  dsimp only at laid
  obtain ⟨r, mem, laid⟩ := List.any_eq_true.mp laid
  obtain ⟨size, whole⟩ := of_decide_eq_true laid
  have steadfast : Collections.Steadfast Collections.twoElements (fun _ => True) Collections.fixedAt :=
    ⟨fun _ _ _ _ _ => trivial, by decide +kernel⟩
  have list : Collections.ShowsList Collections.twoElements (fun _ => True) 100 [7, 5] := by
    refine ⟨fun _ _ => rfl, fun _ _ i v here => ?_⟩
    match i, here with
    | 0, rfl => rfl
    | 1, rfl => rfl
  obtain ⟨n, run, printed⟩ := ((p'.infer hints).prints_collections hints 0 mem steadfast
    (m := { Meaning.loaded r.code with pc := 15, rax := 100 }) ⟨rfl, size.symm, rfl, trivial⟩).1 (.list .int) [7, 5]
    (Emit.lays_of_take whole) list
  exact ⟨p, p', hints, accepted, r, mem, n, run, printed.out⟩

end Lantern
