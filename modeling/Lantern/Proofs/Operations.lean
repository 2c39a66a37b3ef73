import Lantern.Proofs.Arithmetic
import Lantern.Proofs.Declared
import Lantern.Proofs.Operands
import Lantern.Proofs.Processor

/-!
# Operations as lines

Every instruction that is generated expands to lines that can be encoded, and the one or two lines of an operation
on two operands do to the processor what the operation does to the machine of the instruction model. Where a
value goes through `r10`, the line in between changes nothing else, so that the two lines do what a single one
would, if the processor had it.
-/

namespace Lantern

open Assembly

namespace Nasm

/-! ## What the instruction model says about a processor -/

variable {W : Type} {H : Host W}

/-- The place in memory that an operand names. -/
def located? (H : Host W) (s : Processor) : Operand → Option Word
  | .slot i => some (s.regs .rbp + Convention.slotOffset i)
  | .data x => some (H.address x)
  | _ => none

/-- A machine of the instruction model has the registers of a processor, and knows no other flags. -/
structure Agrees (s : Processor) (m : Machine W) : Prop where
  rax : m.rax = s.regs .rax
  rbx : m.rbx = s.regs .rbx
  rdx : m.rdx = s.regs .rdx
  r11 : m.r11 = s.regs .r11
  flags : ∀ f ∈ m.flags, f = s.status.flags

/-- A machine of the instruction model reads what a processor holds: its registers, and the words at the places
    of slots and symbols. -/
structure Mirrors (H : Host W) (s : Processor) (m : Machine W) : Prop extends Agrees s m where
  words : ∀ o a, located? H s o = some a → m.read H o = some (s.load a)

/-- The machine of the instruction model that reads what a processor holds, and goes on as another does. -/
def Processor.machine (H : Host W) (s : Processor) (m : Machine W) : Machine W :=
  { m with
    rax := s.regs .rax
    rbx := s.regs .rbx
    rdx := s.regs .rdx
    r11 := s.regs .r11
    flags := some s.status.flags
    slots := fun i => s.load (s.regs .rbp + Convention.slotOffset i)
    data := fun x => s.load (H.address x) }

theorem Processor.mirrors_machine (H : Host W) (s : Processor) (m : Machine W) : Mirrors H s (s.machine H m) := by
  refine ⟨⟨rfl, rfl, rfl, rfl, fun f known => (Option.some.inj known).symm⟩, fun o a located => ?_⟩
  cases o with
  | slot | data => exact Option.some.inj located ▸ rfl
  | _ => cases located

/-- A processor has come from one state to another as the machine of the instruction model has come to its own
    by giving a value to an operand. Nothing but `r10` is different besides. -/
structure Follows (H : Host W) (d : Operand) (s : Processor) (m' : Machine W) (s' : Processor) : Prop extends
    Agrees s' m' where
  others : ∀ r, ¬r.isFree → r ≠ .r10 → s'.regs r = s.regs r
  word : ∀ a, located? H s d = some a → m'.read H d = some (s'.load a)
  memory : ∀ b, (∀ a, located? H s d = some a → 8 ≤ distance a b) → s'.memory b = s.memory b

/-- One or two lines do what an instruction does, whatever the processor holds and wherever symbols lie. Only a
    conditional move needs flags that the machine of the instruction model knows. -/
structure Faithful (ls : List Line) (i : Instr) : Prop where
  count : ls.length = 1 ∨ ls.length = 2
  follows : ∃ d s, i.args = [d, s] ∧
    ∀ {W : Type} (H : Host W) (rs : List Routine) (undefined : Word → Word → Bool × Bool) (p : Processor)
      (m : Machine W), Mirrors H p m → (i.op = .cmovnz → m.flags.isSome) →
      ∃ m' p', m.exec H rs i.op [d, s] = .next m' ∧ Processor.run H.address undefined ls p = some p' ∧
        Follows H d p m' p'

section Through

variable {s s' s₀ : Processor} {m m' : Machine W} {d : Operand}

/-- What lies in `r10` and in the flags does not matter to where a processor goes. -/
theorem Follows.of_alike (follows : Follows H d s₀ m' s') (regs : ∀ r, r ≠ .r10 → s₀.regs r = s.regs r)
    (memory : s₀.memory = s.memory) : Follows H d s m' s' := by
  have same : located? H s₀ d = located? H s d := by cases d <;> simp [located?, regs]
  refine ⟨follows.toAgrees, fun r other through => ?_, fun a located => ?_, fun b beyond => ?_⟩
  · rw [follows.others r other through, regs r through]
  · rw [← same] at located
    exact follows.word a located
  · rw [← same] at beyond
    rw [follows.memory b beyond, memory]

theorem Follows.of_through {v : Word} (follows : Follows H d (s.set .r10 v) m' s') : Follows H d s m' s' :=
  follows.of_alike (fun _ other => s.regs_set v other) rfl

/-- A machine that reads what the processor holds still does so when a value is on its way. -/
theorem Mirrors.through (mirrors : Mirrors H s m) (v : Word) : Mirrors H (s.set .r10 v) m := by
  have same {r : Reg} (other : r ≠ .r10) : (s.set .r10 v).regs r = s.regs r := s.regs_set v other
  refine ⟨⟨?_, ?_, ?_, ?_, mirrors.flags⟩, fun o a located => mirrors.words o a ?_⟩
  · rw [same (by decide), mirrors.rax]
  · rw [same (by decide), mirrors.rbx]
  · rw [same (by decide), mirrors.rdx]
  · rw [same (by decide), mirrors.r11]
  · rw [← located]
    cases o <;> simp [located?, same]

end Through

/-! ## Operands -/

section Operands

variable {s : Processor} {m : Machine W}

/-- The low byte of `rax` has the same value on both sides. -/
theorem Agrees.read_byte (agrees : Agrees s m) :
    m.read H (.reg .al) = some (lowByte m.rax) ∧ s.value H.address (.reg .al) = some (lowByte m.rax) := by
  refine ⟨rfl, ?_⟩
  rw [agrees.rax]
  rfl

/-- So has a register that is cleared or tested, whole or by its low half. -/
theorem Agrees.read_own (agrees : Agrees s m) {r : Reg} (own : r.isFree ∨ r.isHalf) :
    ∃ p v, (Place.reg r).part? = some p ∧ p ≠ .byte ∧ p.read v = v ∧ m.read H (.reg r) = some v ∧
      s.value H.address (.reg r) = some v := by
  have half (w : Word) : lowHalf (lowHalf w) = lowHalf w := by simp [lowHalf]
  cases r
  case rax => exact ⟨.whole, s.regs .rax, rfl, nofun, rfl, congrArg some agrees.rax, rfl⟩
  case rbx => exact ⟨.whole, s.regs .rbx, rfl, nofun, rfl, congrArg some agrees.rbx, rfl⟩
  case rdx => exact ⟨.whole, s.regs .rdx, rfl, nofun, rfl, congrArg some agrees.rdx, rfl⟩
  case r11 => exact ⟨.whole, s.regs .r11, rfl, nofun, rfl, congrArg some agrees.r11, rfl⟩
  case eax => exact ⟨.half, _, rfl, nofun, half _, congrArg (some ∘ lowHalf) agrees.rax, rfl⟩
  case edx => exact ⟨.half, _, rfl, nofun, half _, congrArg (some ∘ lowHalf) agrees.rdx, rfl⟩
  all_goals simp [Reg.isFree, Reg.isHalf] at own

/-- A word has the same value on both sides. -/
theorem Mirrors.read (mirrors : Mirrors H s m) {o : Operand} (word : o.isWord) :
    ∃ v, m.read H o = some v ∧ s.value H.address (place o) = some v := by
  cases o with
  | reg r =>
      obtain ⟨-, v, -, -, -, read, value⟩ := mirrors.toAgrees.read_own (H := H) (r := r) (.inl word)
      exact ⟨v, read, value⟩
  | imm v => exact ⟨v, rfl, rfl⟩
  | slot i => exact ⟨_, mirrors.words (.slot i) _ rfl, rfl⟩
  | data x => exact ⟨_, mirrors.words (.data x) _ rfl, rfl⟩
  | addr | label | arg => cases word

/-- Giving a register a value, on both sides. -/
theorem Agrees.write_reg (agrees : Agrees s m) {r : Reg} (free : r.isFree) (v : Word) :
    ∃ m', m.write (.reg r) v = some m' ∧ s.assign H.address (.reg r) v = some (s.set r v) ∧
      Follows H (.reg r) s m' (s.set r v) := by
  have self : v = (s.set r v).regs r := (s.regs_set_self r v).symm
  have same {r' : Reg} (other : r' ≠ r) : s.regs r' = (s.set r v).regs r' := (s.regs_set v other).symm
  have follows {m' : Machine W} (agrees' : Agrees (s.set r v) m') : Follows H (.reg r) s m' (s.set r v) :=
    ⟨agrees', fun r' unfree _ => s.regs_set v (by rintro rfl; exact unfree free), fun _ none_ => (nomatch none_),
      fun _ _ => rfl⟩
  cases r
  case rax =>
    exact ⟨_, rfl, rfl, follows ⟨self, agrees.rbx.trans (same nofun), agrees.rdx.trans (same nofun),
      agrees.r11.trans (same nofun), agrees.flags⟩⟩
  case rbx =>
    exact ⟨_, rfl, rfl, follows ⟨agrees.rax.trans (same nofun), self, agrees.rdx.trans (same nofun),
      agrees.r11.trans (same nofun), agrees.flags⟩⟩
  case rdx =>
    exact ⟨_, rfl, rfl, follows ⟨agrees.rax.trans (same nofun), agrees.rbx.trans (same nofun), self,
      agrees.r11.trans (same nofun), agrees.flags⟩⟩
  case r11 =>
    exact ⟨_, rfl, rfl, follows ⟨agrees.rax.trans (same nofun), agrees.rbx.trans (same nofun),
      agrees.rdx.trans (same nofun), self, agrees.flags⟩⟩
  all_goals cases free

/-- The registers have no part in what is stored. -/
theorem Agrees.store (agrees : Agrees s m) (a v : Word) : Agrees (s.store a v) m := by
  have regs (r : Reg) : s.regs r = (s.store a v).regs r := by rw [Processor.regs_store]
  refine ⟨agrees.rax.trans (regs _), agrees.rbx.trans (regs _), agrees.rdx.trans (regs _),
    agrees.r11.trans (regs _), ?_⟩
  rw [Processor.status_store]
  exact agrees.flags

/-- Giving a place a value, on both sides. -/
theorem Agrees.write (agrees : Agrees s m) {d : Operand} (keeps : d.isPlace) (v : Word) :
    ∃ m' s', m.write d v = some m' ∧ s.assign H.address (place d) v = some s' ∧ Follows H d s m' s' := by
  have stored {a : Word} {m' : Machine W} (agrees : Agrees s m') (located : located? H s d = some a)
      (read : m'.read H d = some v) : Follows H d s m' (s.store a v) := by
    refine ⟨agrees.store a v, fun r _ _ => by rw [Processor.regs_store], fun a' same => ?_, fun b beyond => ?_⟩
    · obtain rfl := Option.some.inj (located.symm.trans same)
      rw [Processor.load_store, read]
    · exact Processor.memory_store (beyond a located)
  cases d with
  | reg r =>
      obtain ⟨m', written, assigned, follows⟩ := agrees.write_reg (H := H) keeps v
      exact ⟨m', _, written, assigned, follows⟩
  | slot i =>
      exact ⟨_, _, rfl, rfl, stored ⟨agrees.rax, agrees.rbx, agrees.rdx, agrees.r11, agrees.flags⟩ rfl
        (by simp [Machine.read])⟩
  | data x =>
      exact ⟨_, _, rfl, rfl, stored ⟨agrees.rax, agrees.rbx, agrees.rdx, agrees.r11, agrees.flags⟩ rfl
        (by simp [Machine.read])⟩
  | imm | addr | label | arg => cases keeps

end Operands

/-! ## Operations -/

section Operations

variable {s : Processor} {m : Machine W} {d : Operand} {r : Reg} {undefined : Word → Word → Bool × Bool}

theorem isWhole_of_isFree (free : r.isFree) : isWhole r := by
  cases r <;> first | rfl | cases free

theorem Agrees.settle (agrees : Agrees s m) {f : Status} {flags : Option Flags} (known : ∀ g ∈ flags, g = f.flags) :
    Agrees (s.settle f) { m with flags := flags } := by
  have regs (r : Reg) : s.regs r = (s.settle f).regs r := by rw [Processor.regs_settle]
  exact ⟨agrees.rax.trans (regs _), agrees.rbx.trans (regs _), agrees.rdx.trans (regs _),
    agrees.r11.trans (regs _), known⟩

theorem Follows.next {m' : Machine W} {s' : Processor} (follows : Follows H d s m' s') : Follows H d s m'.next s' := by
  have read : m'.next.read H d = m'.read H d := by
    cases d with
    | reg r => cases r <;> rfl
    | _ => rfl
  have agrees := follows.toAgrees
  exact ⟨⟨agrees.rax, agrees.rbx, agrees.rdx, agrees.r11, agrees.flags⟩, follows.others,
    fun a located => read.trans (follows.word a located), follows.memory⟩

/-- Where nothing is written at all. -/
theorem Agrees.stay (agrees : Agrees s m) : Follows H (.reg r) s m.next s :=
  ⟨⟨agrees.rax, agrees.rbx, agrees.rdx, agrees.r11, agrees.flags⟩, fun _ _ _ => rfl,
    fun _ none_ => (nomatch none_), fun _ _ => rfl⟩

/-- Where nothing is written but the flags. -/
theorem Follows.of_agrees {m' : Machine W} {f : Status} (agrees : Agrees (s.settle f) m') :
    Follows H (.reg r) s m'.next (s.settle f) :=
  agrees.stay.of_alike (fun _ _ => by rw [Processor.regs_settle]) (Processor.memory_settle s f)

/-- Giving a place a value and going on. -/
theorem Agrees.put (agrees : Agrees s m) (keeps : d.isPlace) (v : Word) :
    ∃ m' s', m.put d (some v) = .next m' ∧ s.assign H.address (place d) v = some s' ∧ Follows H d s m' s' := by
  obtain ⟨m', s', written, assigned, follows⟩ := agrees.write (H := H) keeps v
  refine ⟨m'.next, s', ?_, assigned, follows.next⟩
  simp only [Machine.put, written]

/-- A result is kept and the flags are set, of which the instruction model knows nothing. -/
theorem Agrees.keep (agrees : Agrees s m) (keeps : d.isPlace) (f : Status) (v : Word) :
    ∃ m' s', { m with flags := none }.put d (some v) = .next m' ∧
      (s.settle f).assign H.address (place d) v = some s' ∧ Follows H d s m' s' := by
  have settled : Agrees (s.settle f) { m with flags := none } := agrees.settle nofun
  obtain ⟨m', s', done, assigned, follows⟩ := settled.put (H := H) keeps v
  have same (r : Reg) (_ : r ≠ .r10) : (s.settle f).regs r = s.regs r := by rw [Processor.regs_settle]
  exact ⟨m', s', done, assigned, follows.of_alike same (Processor.memory_settle s f)⟩

/-- Clearing a register, whole or by its low half, and setting the flags. -/
theorem Agrees.keep_own (agrees : Agrees s m) (own : r.isFree ∨ r.isHalf) (f : Status) (v : Word) :
    ∃ m' s', { m with flags := none }.put (.reg r) (some v) = .next m' ∧
      (s.settle f).assign H.address (.reg r) v = some s' ∧ Follows H (.reg r) s m' s' := by
  rcases own with free | half
  · exact agrees.keep (d := .reg r) free f v
  · have written (whole : Operand) (keeps : whole.isPlace) := agrees.keep (H := H) keeps f (wideHalf v)
    cases r
    case eax =>
      obtain ⟨m', s', done, assigned, follows⟩ := written Emit.rax rfl
      exact ⟨m', s', done, assigned, follows.toAgrees, follows.others, fun _ none_ => (nomatch none_),
        follows.memory⟩
    case edx =>
      obtain ⟨m', s', done, assigned, follows⟩ := written Emit.rdx rfl
      exact ⟨m', s', done, assigned, follows.toAgrees, follows.others, fun _ none_ => (nomatch none_),
        follows.memory⟩
    all_goals cases half

/-- An operation on a register and a word, wherever the processor has the word from. -/
theorem Agrees.compute (agrees : Agrees s m) (rs : List Routine) (undefined : Word → Word → Bool × Bool) {op : Op}
    (computes : op.computes) (free : r.isFree) {o : Operand} {q : Place} {b : Word} (read : m.read H o = some b)
    (value : s.value H.address q = some b) :
    ∃ m' s', m.exec H rs op [.reg r, o] = .next m' ∧ s.perform H.address undefined op (.reg r) q = some s' ∧
      Follows H (.reg r) s m' s' := by
  obtain ⟨p, a, size, -, -, left, left'⟩ := agrees.read_own (H := H) (.inl free)
  obtain rfl : p = .whole := by
    have whole := part?_of_isWhole (isWhole_of_isFree free)
    rw [size] at whole
    exact Option.some.inj whole
  have kept {w : Word} {f : Status} (exec : m.exec H rs op [.reg r, o] = { m with flags := none }.put (.reg r) (some w))
      (gives : operate undefined .whole op a b = some (some w, f)) :
      ∃ m' s', m.exec H rs op [.reg r, o] = .next m' ∧ s.perform H.address undefined op (.reg r) q = some s' ∧
        Follows H (.reg r) s m' s' := by
    obtain ⟨m', s', done, assigned, follows⟩ := agrees.keep_own (H := H) (.inl free) f w
    exact ⟨m', s', exec.trans done, (Processor.perform_kept size left' value gives).trans assigned, follows⟩
  cases op
  case add => exact kept (by simp only [Machine.exec, Machine.arith, left, read]) rfl
  case sub => exact kept (by simp only [Machine.exec, Machine.arith, left, read]) rfl
  case imul => exact kept (by simp only [Machine.exec, Machine.arith, left, read]) rfl
  case cmp =>
    have settled : Agrees (s.settle (.arithmetic .whole (a - b) (a.toInt - b.toInt)))
        { m with flags := some ⟨a == b, decide (a < b)⟩ } :=
      agrees.settle fun g known => Option.some.inj known ▸ (Status.flags_difference a b).symm
    refine ⟨_, _, ?_, Processor.perform_settled size left' value rfl, .of_agrees settled⟩
    simp only [Machine.exec, Machine.compare, left, read]
  all_goals cases computes

/-- Clearing or testing a register. -/
theorem Agrees.itself (agrees : Agrees s m) (rs : List Routine) (undefined : Word → Word → Bool × Bool) {op : Op}
    (either : op = .xor ∨ op = .test) (own : r.isFree ∨ r.isHalf) :
    ∃ m' s', m.exec H rs op [.reg r, .reg r] = .next m' ∧
      s.perform H.address undefined op (.reg r) (.reg r) = some s' ∧ Follows H (.reg r) s m' s' := by
  obtain ⟨p, a, size, -, signed, read, value⟩ := agrees.read_own (H := H) own
  rcases either with rfl | rfl
  · obtain ⟨m', s', done, assigned, follows⟩ := agrees.keep_own (H := H) own (.logical p (a ^^^ a)) (a ^^^ a)
    refine ⟨m', s', ?_, (Processor.perform_kept size value value rfl).trans assigned, follows⟩
    simp only [Machine.exec, Machine.arith, read, done]
  · have settled : Agrees (s.settle (.logical p (a &&& a)))
        { m with flags := some ⟨a &&& a == 0, decide (a &&& a < 0)⟩ } := by
      refine agrees.settle fun g known => ?_
      rw [Status.flags_logical, Int64.and_self, signed, ← Option.some.inj known, Int64.and_self]
    refine ⟨_, _, ?_, Processor.perform_settled size value value rfl, .of_agrees settled⟩
    simp only [Machine.exec, Machine.compare, read]

end Operations

/-! ## Lines -/

section Lines

variable {s : Processor} {address : String → Word} {undefined : Word → Word → Bool × Bool} {d o : Operand}
  {r : Reg}

theorem part?_place (keeps : d.isPlace) : (place d).part? = some .whole := by
  cases d with
  | reg r => exact part?_of_isWhole (isWhole_of_isFree keeps)
  | slot | data => rfl
  | imm | addr | label | arg => cases keeps

theorem fits_place (word : o.isWord) {q : Place} (whole : q.part? = some .whole) : (place o).fits q := by
  cases o with
  | imm v => simp [place, Place.fits, whole]
  | reg r => simp [place, Place.fits, whole, part?_of_isWhole (isWhole_of_isFree word)]
  | slot | data => simp only [place, Place.fits, whole]; rfl
  | addr | label | arg => cases word

theorem takes_compute {op : Op} (computes : op.computes) (free : r.isFree) {q : Place} (fits : q.fits (.reg r)) :
    takes op (.reg r) q := by
  have whole := part?_of_isWhole (isWhole_of_isFree free)
  cases op <;> first
    | (cases computes; done)
    | simp [takes, fits, whole, Place.isReg]

theorem takes_reg {op : Op} (either : op = .xor ∨ op = .test) {p : Part} (size : (Place.reg r).part? = some p)
    (large : p ≠ .byte) : takes op (.reg r) (.reg r) := by
  rcases either with rfl | rfl <;> simp [takes, Place.fits, size, large]

/-- A line whose source is a register can be encoded. -/
theorem encodable_of_reg (name : String) {q : Place} (narrow : q.isWide = false) (r : Reg) :
    (Line.instr name [q, .reg r]).isEncodable := by
  cases q <;> simp_all [Line.isEncodable, List.countP_cons, Place.isBracketed, Place.isWide]

theorem narrow_place (keeps : d.isPlace) : (place d).isWide = false := by
  cases d <;> first | rfl | cases keeps

theorem fits_through {q : Place} (whole : q.part? = some .whole) : through.fits q := by
  have size : (Place.reg .r10).part? = some .whole := rfl
  simp [through, Place.fits, whole, size]

theorem value_through (v : Word) : (s.set .r10 v).value address through = some v := by
  rw [through, Processor.value_reg rfl, Processor.regs_set_self]

theorem held_place (keeps : d.isPlace) : (place d).isReg ∨ (place d).isMemory := by
  cases d <;> simp_all [place, Place.isReg, Place.isMemory, Operand.isPlace, Operand.isFree]

theorem memory_of_word (word : o.isWord) : (place o).isBracketed → (place o).isMemory := by
  cases o <;> simp_all [place, Place.isBracketed, Place.isMemory, Operand.isWord, Operand.isPlace, Operand.isFree]

theorem memory_or_addr (value : o.isValue) : (place o).isBracketed → (place o).isMemory ∨ (place o).isAddr := by
  cases o <;> simp_all [place, Place.isBracketed, Place.isMemory, Place.isAddr, Operand.isValue, Operand.isWord,
    Operand.isPlace, Operand.isFree]

/-- A move that need not be split. -/
theorem encodable_mov {q q' : Place} (keeps : q.isReg ∨ q.isMemory)
    (direct : ¬(q.isMemory && (q'.isMemory || q'.isWide)) = true) (plain : q'.isBracketed → q'.isMemory) :
    (Line.instr "mov" [q, q']).isEncodable := by
  cases q <;> cases q' <;>
    simp_all [Line.isEncodable, List.countP_cons, Place.isReg, Place.isMemory, Place.isBracketed, Place.isWide]

/-- A value goes to `r10` first. -/
theorem run_through {q : Place} {v : Word} (value : s.value address q = some v) (fits : q.fits through) (l : Line) :
    Processor.run address undefined [.instr "mov" [through, q], l] s = (s.set .r10 v).execute address undefined l := by
  have moved : s.execute address undefined (.instr "mov" [through, q]) = some (s.set .r10 v) := by
    refine (Processor.execute_eq .mov (encodable_reg (.inr rfl) _) fits).trans ?_
    rw [Processor.perform, value, Option.bind_some, Processor.assign_reg rfl]
  rw [Processor.run_cons, moved, Option.bind_some, Processor.run_single]

/-- The address of a symbol goes to `r10` first. -/
theorem run_lea (x : String) (l : Line) :
    Processor.run address undefined [.instr "lea" [through, .addr x], l] s =
      (s.set .r10 (address x)).execute address undefined l := by
  have loaded : s.execute address undefined (.instr "lea" [through, .addr x]) = some (s.set .r10 (address x)) := by
    refine (Processor.execute_eq .lea (encodable_reg (.inl rfl) _) rfl).trans ?_
    rw [Processor.perform, Processor.assign_reg rfl]
  rw [Processor.run_cons, loaded, Option.bind_some, Processor.run_single]

/-- What lies in `r10` goes on to its place. -/
theorem execute_from (keeps : d.isPlace) (v : Word) :
    (s.set .r10 v).execute address undefined (.instr "mov" [place d, through]) =
      (s.set .r10 v).assign address (place d) v := by
  have carried : (s.set .r10 v).value address (.reg .r10) = some v := value_through v
  have fits : takes .mov (place d) through := fits_through (part?_place keeps)
  refine (Processor.execute_eq .mov (encodable_of_reg _ (narrow_place keeps) _) fits).trans ?_
  rw [Processor.perform, carried, Option.bind_some]

end Lines

/-! ## What one instruction expands to -/

section Expansions

variable {d o : Operand} {r : Reg}

/-- A single line does what an instruction does if its operation does. -/
theorem Faithful.single {op : Op} (encodable : (Line.instr op.name [place d, place o]).isEncodable)
    (taken : takes op (place d) (place o))
    (does : ∀ {W : Type} (H : Host W) (rs : List Routine) (undefined : Word → Word → Bool × Bool) (p : Processor)
      (m : Machine W), Mirrors H p m → (op = .cmovnz → m.flags.isSome) →
      ∃ m' p', m.exec H rs op [d, o] = .next m' ∧ p.perform H.address undefined op (place d) (place o) = some p' ∧
        Follows H d p m' p') :
    Faithful [.instr op.name [place d, place o]] ⟨op, [d, o], ""⟩ := by
  refine ⟨.inl rfl, d, o, rfl, fun H rs undefined p m mirrors known => ?_⟩
  obtain ⟨m', p', done, performed, follows⟩ := does H rs undefined p m mirrors known
  refine ⟨m', p', done, ?_, follows⟩
  rw [Processor.run_single, Processor.execute_eq op encodable taken, performed]

/-- Lines move a value if they give it to its place, from where it is or from `r10`. -/
theorem Faithful.of_carried {ls : List Line} (keeps : d.isPlace) (count : ls.length = 1 ∨ ls.length = 2)
    (carries : ∀ {W : Type} (H : Host W) (undefined : Word → Word → Bool × Bool) (p : Processor) (m : Machine W),
      Mirrors H p m → ∃ v q, m.read H o = some v ∧ (q = p ∨ q = p.set .r10 v) ∧
        Processor.run H.address undefined ls p = q.assign H.address (place d) v) :
    Faithful ls ⟨.mov, [d, o], ""⟩ := by
  refine ⟨count, d, o, rfl, fun H rs undefined p m mirrors _ => ?_⟩
  obtain ⟨v, q, read, way, runs⟩ := carries H undefined p m mirrors
  have exec : m.exec H rs .mov [d, o] = m.put d (some v) := by rw [← read, Machine.exec]
  rcases way with rfl | rfl
  · obtain ⟨m', p', done, assigned, follows⟩ := mirrors.toAgrees.put (H := H) keeps v
    exact ⟨m', p', exec.trans done, runs.trans assigned, follows⟩
  · obtain ⟨m', p', done, assigned, follows⟩ := (mirrors.through v).toAgrees.put (H := H) keeps v
    exact ⟨m', p', exec.trans done, runs.trans assigned, follows.of_through⟩

theorem faithful_move (keeps : d.isPlace) (value : o.isValue) :
    Faithful (move (place d) (place o)) ⟨.mov, [d, o], ""⟩ := by
  have whole := part?_place keeps
  cases isAddr : (place o).isAddr with
  | true =>
      obtain ⟨x, rfl⟩ : ∃ x, o = .addr x := by cases o <;> simp_all [place, Place.isAddr]
      simp only [move, isAddr, Bool.true_and, if_true]
      split
      · refine .of_carried keeps (.inr rfl) fun H undefined p m _ => ⟨H.address x, _, rfl, .inr rfl, ?_⟩
        exact (run_lea x _).trans (execute_from keeps _)
      · next register =>
        obtain ⟨r, rfl⟩ : ∃ r, d = .reg r := by
          cases d <;> simp_all [place, Place.isMemory, Operand.isPlace, Operand.isFree]
        refine .of_carried keeps (.inl rfl) fun H undefined p m _ => ⟨H.address x, p, rfl, .inl rfl, ?_⟩
        rw [Processor.run_single]
        exact Processor.execute_eq .lea (encodable_reg (.inl rfl) r)
          (by simp [takes, place, Place.isReg, Place.isAddr, part?_of_isWhole (isWhole_of_isFree keeps)])
  | false =>
      have word : o.isWord := by cases o <;> simp_all [place, Place.isAddr, Operand.isValue]
      simp only [move, isAddr, Bool.false_and, Bool.false_eq_true, if_false]
      split
      · refine .of_carried keeps (.inr rfl) fun H undefined p m mirrors => ?_
        obtain ⟨v, read, value⟩ := mirrors.read word
        exact ⟨v, _, read, .inr rfl, (run_through value (fits_place word rfl) _).trans (execute_from keeps v)⟩
      · next direct =>
        refine .of_carried keeps (.inl rfl) fun H undefined p m mirrors => ?_
        obtain ⟨v, read, value⟩ := mirrors.read word
        refine ⟨v, p, read, .inl rfl, ?_⟩
        rw [Processor.run_single]
        have encodable := encodable_mov (held_place keeps) direct (memory_of_word word)
        refine (Processor.execute_eq .mov encodable (fits_place word whole)).trans ?_
        rw [Processor.perform, value, Option.bind_some]

example : move (place (.slot 1)) (place (.imm 1099511627776)) =
    [.instr "mov" [through, .imm 1099511627776], .instr "mov" [.mem .rbp (-24), through]] := by decide

theorem combine_reg (op : Op) (r : Reg) (q : Place) : combine op (.reg r) q =
    if q.isWide then [.instr "mov" [through, q], .instr op.name [.reg r, through]]
    else [.instr op.name [.reg r, q]] := by
  simp [combine, Place.isMemory]

theorem faithful_compute {op : Op} (computes : op.computes) (free : r.isFree) (word : o.isWord) :
    Faithful (combine op (.reg r) (place o)) ⟨op, [.reg r, o], ""⟩ := by
  have whole := part?_of_isWhole (isWhole_of_isFree free)
  rw [combine_reg]
  split
  · refine ⟨.inr rfl, .reg r, o, rfl, fun H rs undefined p m mirrors _ => ?_⟩
    obtain ⟨v, read, value⟩ := mirrors.read word
    obtain ⟨m', p', done, performed, follows⟩ :=
      (mirrors.through v).toAgrees.compute rs undefined computes free read (value_through v)
    refine ⟨m', p', done, ?_, follows.of_through⟩
    rw [run_through value (fits_place word rfl)]
    have taken := takes_compute computes free (fits_through whole)
    exact (Processor.execute_eq op (encodable_of_reg _ rfl _) taken).trans performed
  · next narrow =>
    refine .single (d := .reg r) (encodable_reg (.inl (by simpa using narrow)) r)
      (takes_compute computes free (fits_place word whole)) fun H rs undefined p m mirrors _ => ?_
    obtain ⟨v, read, value⟩ := mirrors.read word
    exact mirrors.toAgrees.compute rs undefined computes free read value

theorem faithful_itself {op : Op} (either : op = .xor ∨ op = .test) (own : r.isFree ∨ r.isHalf) :
    Faithful (combine op (.reg r) (.reg r)) ⟨op, [.reg r, .reg r], ""⟩ := by
  have same : combine op (.reg r) (.reg r) = [.instr op.name [.reg r, .reg r]] := by
    rw [combine_reg]
    rfl
  rw [same]
  have size : ∃ p, (Place.reg r).part? = some p ∧ p ≠ .byte := by
    rcases own with free | half
    · exact ⟨.whole, part?_of_isWhole (isWhole_of_isFree free), nofun⟩
    · cases r <;> first | exact ⟨.half, rfl, nofun⟩ | cases half
  obtain ⟨p, size, large⟩ := size
  exact .single (d := .reg r) (o := .reg r) (encodable_of_reg _ rfl _) (takes_reg either size large)
    fun H rs undefined p m mirrors _ => mirrors.toAgrees.itself rs undefined either own

/-- A conditional move reads flags that the instruction model knows. -/
theorem faithful_select {r' : Reg} (free : r.isFree) (other : r'.isFree) :
    Faithful (combine .cmovnz (.reg r) (.reg r')) ⟨.cmovnz, [.reg r, .reg r'], ""⟩ := by
  have whole := part?_of_isWhole (isWhole_of_isFree free)
  have whole' := part?_of_isWhole (isWhole_of_isFree other)
  rw [combine_reg]
  refine .single (d := .reg r) (o := .reg r') (encodable_of_reg _ rfl _)
    (by simp [takes, place, Place.isReg, whole, whole']) fun {W} H rs undefined p m mirrors known => ?_
  obtain ⟨f, isFlags⟩ := Option.isSome_iff_exists.mp (known rfl)
  have zero : f.zero = p.status.zero := by rw [mirrors.flags f isFlags]; rfl
  obtain ⟨v, read, value⟩ := mirrors.read (o := .reg r') other
  cases isZero : p.status.zero with
  | true =>
      refine ⟨m.next, p, ?_, ?_, ?_⟩
      · simp [Machine.exec, Machine.holds?, isFlags, zero, isZero]
      · simp [Processor.perform, isZero]
      · exact mirrors.toAgrees.stay
  | false =>
      obtain ⟨m', p', done, assigned, follows⟩ := mirrors.toAgrees.put (H := H) (d := .reg r) free v
      refine ⟨m', p', ?_, ?_, follows⟩
      · simp [Machine.exec, Machine.holds?, isFlags, zero, isZero, read, done]
      · simp [Processor.perform, isZero, value, assigned]

theorem faithful_load (free : r.isFree) (x : String) :
    Faithful (combine .lea (.reg r) (.addr x)) ⟨.lea, [.reg r, .addr x], ""⟩ := by
  have whole := part?_of_isWhole (isWhole_of_isFree free)
  rw [combine_reg]
  refine .single (d := .reg r) (o := .addr x) (encodable_reg (.inl rfl) r)
    (by simp [takes, place, Place.isReg, whole, Place.isAddr]) fun {W} H rs undefined p m mirrors _ => ?_
  exact mirrors.toAgrees.put (H := H) (d := .reg r) free (H.address x)

theorem faithful_widen (free : r.isFree) :
    Faithful (combine .movzx (.reg r) (.reg .al)) ⟨.movzx, [.reg r, .reg .al], ""⟩ := by
  have whole := part?_of_isWhole (isWhole_of_isFree free)
  rw [combine_reg]
  refine .single (d := .reg r) (o := .reg .al) (encodable_of_reg _ rfl _)
    (by simp [takes, place, Place.isReg, whole]; rfl) fun {W} H rs undefined p m mirrors _ => ?_
  obtain ⟨read, value⟩ := mirrors.toAgrees.read_byte (H := H)
  obtain ⟨m', p', done, assigned, follows⟩ :=
    mirrors.toAgrees.put (H := H) (d := .reg r) free (lowByte m.rax)
  refine ⟨m', p', ?_, ?_, follows⟩
  · rw [Machine.exec, read, done]
  · simp only [place] at assigned ⊢
    simp only [Processor.perform, value, Option.bind_some, assigned]

/-! ### All forms -/

theorem encodable_pair {l l' : Line} (first : l.isEncodable) (second : l'.isEncodable) :
    ∀ line ∈ [l, l'], line.isEncodable :=
  List.forall_mem_cons.mpr ⟨first, List.forall_mem_singleton.mpr second⟩

theorem encodable_move {q q' : Place} (keeps : q.isReg ∨ q.isMemory)
    (plain : q'.isBracketed → q'.isMemory ∨ q'.isAddr) : ∀ l ∈ move q q', l.isEncodable := by
  have narrow : q'.isAddr → q'.isWide = false := by cases q' <;> simp [Place.isAddr, Place.isWide]
  have narrow' : q.isWide = false := by cases q <;> simp_all [Place.isReg, Place.isMemory, Place.isWide]
  unfold move
  split
  · next both =>
    have := narrow (Bool.and_eq_true_iff.mp both).1
    exact encodable_pair (encodable_reg (.inl this) _) (encodable_of_reg _ narrow' _)
  · split
    · next memory address =>
      obtain ⟨r, rfl⟩ : ∃ r, q = .reg r := by cases q <;> simp_all [Place.isReg, Place.isMemory]
      exact List.forall_mem_singleton.mpr (encodable_reg (.inl (narrow address)) r)
    · split
      · exact encodable_pair (encodable_reg (.inr rfl) _) (encodable_of_reg _ narrow' _)
      · next address direct =>
        exact List.forall_mem_singleton.mpr
          (encodable_mov keeps direct fun bracketed => (plain bracketed).resolve_right address)

theorem encodable_combine (op : Op) (r : Reg) (q : Place) : ∀ l ∈ combine op (.reg r) q, l.isEncodable := by
  rw [combine_reg]
  split
  · exact encodable_pair (encodable_reg (.inr rfl) _) (encodable_of_reg _ rfl _)
  · next narrow => exact List.forall_mem_singleton.mpr (encodable_reg (.inl (by simpa using narrow)) r)

/-- An operand alone leaves room enough. -/
theorem encodable_single (name : String) {q : Place} (narrow : q.isWide = false) :
    (Line.instr name [q]).isEncodable := by
  cases bracketed : q.isBracketed <;> simp [Line.isEncodable, bracketed, narrow]

theorem expand_combines (c : Convention) (frame : Int64) {op : Op} (combined : combines op) (d o : Operand) :
    expand c frame ⟨op, [d, o], ""⟩ = combine op (place d) (place o) := by
  cases op <;> first | rfl | cases combined

theorem combines_of_computes {op : Op} (computes : op.computes) : combines op := by
  cases op <;> first | rfl | cases computes

/-- An operation on one operand is a line as it stands. -/
theorem expand_plain (c : Convention) (frame : Int64) {op : Op} (o : Operand)
    (plain : op.isFlag ∨ op.isJump ∨ op = .neg ∨ op = .idiv ∨ op = .call) :
    expand c frame ⟨op, [o], ""⟩ = [.instr op.name [place o]] := by
  cases op <;> first | rfl | simp [Op.isFlag, Op.isJump] at plain

/-- Every line can be encoded, but perhaps the one that reserves the frame. -/
theorem encodable_expand (c : Convention) (frame : Int64) {i : Instr} (formed : i.Formed) :
    ∀ l ∈ expand c frame i, l.isEncodable ∨ i.op = .prologue ∧ l = .instr "sub" [.reg .rsp, .imm frame] := by
  have all {ls : List Line} (encodable : ∀ l ∈ ls, l.isEncodable) :
      ∀ l ∈ ls, l.isEncodable ∨ i.op = .prologue ∧ l = .instr "sub" [.reg .rsp, .imm frame] :=
    fun l mem => .inl (encodable l mem)
  have one {op : Op} {o : Operand} (plain : op.isFlag ∨ op.isJump ∨ op = .neg ∨ op = .idiv ∨ op = .call)
      (narrow : (place o).isWide = false) : ∀ l ∈ expand c frame ⟨op, [o], ""⟩, l.isEncodable := by
    rw [expand_plain c frame o plain]
    exact List.forall_mem_singleton.mpr (encodable_single _ narrow)
  cases formed with
  | move keeps value => exact all (encodable_move (held_place keeps) (memory_or_addr value))
  | load | select | widen => exact all (encodable_combine _ _ _)
  | compute computes =>
      rw [expand_combines c frame (combines_of_computes computes)]
      exact all (encodable_combine _ _ _)
  | itself either =>
      rw [expand_combines c frame (by rcases either with rfl | rfl <;> rfl)]
      exact all (encodable_combine _ _ _)
  | flag isFlag => exact all (one (.inl isFlag) rfl)
  | alone either =>
      refine all (one ?_ rfl)
      rcases either with rfl | rfl <;> simp
  | jump isJump l => exact all (one (.inr (.inl isJump)) rfl)
  | call | callAt => exact all (one (by simp) rfl)
  | extend | mark => exact all (List.forall_mem_singleton.mpr rfl)
  | pass i value =>
      simp only [expand]
      split
      · exact all (encodable_move (.inl rfl) (memory_or_addr value))
      · exact all (List.forall_mem_append.mpr ⟨encodable_move (.inl rfl) (memory_or_addr value),
          List.forall_mem_singleton.mpr (encodable_of_reg _ rfl _)⟩)
  | fetch i j =>
      simp only [expand]
      split
      · exact all (encodable_move (.inr rfl) nofun)
      · exact all (List.forall_mem_cons.mpr ⟨encodable_reg (.inr rfl) _, encodable_move (.inr rfl) nofun⟩)
  | enter => simp [expand, Line.isEncodable, Place.isBracketed, Place.isWide]
  | leave => simp [expand, Line.isEncodable, List.countP_cons, Place.isBracketed, Place.isWide]

/-- The lines of an operation on two operands do what it does. -/
theorem faithful_expand (c : Convention) (frame : Int64) {i : Instr} (formed : i.Formed)
    (operation : i.op ∈ [.mov, .lea, .add, .sub, .imul, .cmp, .xor, .test, .cmovnz, .movzx]) :
    Faithful (expand c frame i) i := by
  cases formed with
  | move keeps value => exact faithful_move keeps value
  | load free x => exact faithful_load free x
  | compute computes free word =>
      rw [expand_combines c frame (combines_of_computes computes)]
      exact faithful_compute computes free word
  | itself either own =>
      rw [expand_combines c frame (by rcases either with rfl | rfl <;> rfl)]
      exact faithful_itself either own
  | select free other => exact faithful_select free other
  | widen free => exact faithful_widen free
  | @flag op isFlag => cases op <;> simp [Op.isFlag] at isFlag operation
  | @jump op isJump => cases op <;> simp [Op.isJump] at isJump operation
  | alone either => rcases either with rfl | rfl <;> simp at operation
  | extend | pass | fetch | mark | call | callAt | enter | leave => simp at operation

end Expansions

end Nasm

/-- The lines that the instructions of a program expand to can be encoded, but for the reservation of a frame, and
    those of an operation on two operands do what the operation does, changing nothing else but `r10`. -/
theorem Inference.expansions_faithful (t : Inference) (hints : Hints) (seed : Int64) (platform : Platform)
    {r : Routine} (mem : r ∈ (t.generate hints seed).1.routines) {i : Instr} (inside : i ∈ r.code) :
    let c := Convention.of platform
    let frame := c.frameSize r.slots r.maxCallArgs
    (∀ l ∈ Nasm.expand c frame i,
      l.isEncodable ∨ i.op = .prologue ∧ l = .instr "sub" [.reg .rsp, .imm frame]) ∧
    (i.op ∈ [.mov, .lea, .add, .sub, .imul, .cmp, .xor, .test, .cmovnz, .movzx] →
      Nasm.Faithful (Nasm.expand c frame i) i) :=
  have formed := t.formed_generate hints seed mem inside
  ⟨Nasm.encodable_expand _ _ formed, Nasm.faithful_expand _ _ formed⟩

/-- A processor that holds nothing but zeros. -/
def Nasm.cleared : Nasm.Processor := ⟨fun _ => 0, fun _ => 0, ⟨false, false, false⟩⟩

/-- The main routine of a program moves a constant beyond 32 bits to `rax`, and so does its text. -/
theorem Inference.expansions_faithful_wide : ∃ p p' hints,
    Program.accept? 0 "print(5000000000);" = some (p, p', hints) ∧
    ∃ r ∈ ((p'.infer hints).generate hints 0).1.routines, ∃ i ∈ r.code,
      i.args = [Emit.rax, Emit.imm 5000000000] ∧
      let c := Convention.of .sysv
      let lines := Nasm.expand c (c.frameSize r.slots r.maxCallArgs) i
      ∃ s, Nasm.Processor.run (fun _ => 0) (fun _ _ => (false, false)) lines Nasm.cleared = some s ∧
        s.regs .rax = 5000000000 := by
  have loads : ((Program.accept? 0 "print(5000000000);").any fun (_, p', hints) =>
      ((p'.infer hints).generate hints 0).1.routines.any fun r => r.code.any fun i =>
        decide (i.op = .mov ∧ i.args = [Emit.rax, Emit.imm 5000000000])) = true := by
    decide +kernel
  obtain ⟨⟨p, p', hints⟩, accepted, loads⟩ := (Option.any_eq_true _ _).mp loads
  obtain ⟨r, mem, loads⟩ := List.any_eq_true.mp loads
  obtain ⟨i, inside, loads⟩ := List.any_eq_true.mp loads
  obtain ⟨op, args⟩ := of_decide_eq_true loads
  refine ⟨p, p', hints, accepted, r, mem, i, inside, args, ?_⟩
  obtain ⟨d, o, two, follows⟩ :=
    (((p'.infer hints).expansions_faithful hints 0 .sysv mem inside).2 (by simp [op])).follows
  obtain ⟨rfl, rfl⟩ : Emit.rax = d ∧ Emit.imm 5000000000 = o := by simpa using args.symm.trans two
  let H : Host Unit := { Meaning.silent with address := fun _ => 0 }
  obtain ⟨m', s, done, run, after⟩ := follows H [] (fun _ _ => (false, false)) Nasm.cleared _
    (Nasm.cleared.mirrors_machine H (Meaning.loaded r.code)) (by simp [op])
  refine ⟨s, run, ?_⟩
  rw [op] at done
  rw [← after.rax, ← Effect.next.inj done]
  rfl

end Lantern
