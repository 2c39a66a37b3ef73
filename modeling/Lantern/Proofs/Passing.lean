import Mathlib
import Lantern.Emit
import Lantern.Proofs.Cpu

/-!
# Passing arguments

A caller places arguments one after the other where its convention wants them, and the routine it
calls sets its frame up and fetches them from there. The places do not disturb each other, neither of
the two frames is touched but for the words that are meant, and the stack stays aligned.
-/

namespace Lantern.Nasm

open Assembly

/-! ## Sizes -/

theorem land_mask {n : Nat} (high : n < 2 ^ 64) : n &&& (2 ^ 64 - 16) = n / 16 * 16 := by
  have mask : 2 ^ 64 - 16 = (2 ^ 60 - 1) <<< 4 := by decide
  have rounded : n / 16 * 16 = (n >>> 4) <<< 4 := by
    simp [Nat.shiftRight_eq_div_pow, Nat.shiftLeft_eq]
  rw [mask, rounded]
  refine Nat.eq_of_testBit_eq fun i => ?_
  have top (outside : ¬i < 64) : n.testBit i = false :=
    Nat.testBit_lt_two_pow (lt_of_lt_of_le high (Nat.pow_le_pow_right (by decide) (by omega)))
  simp only [Nat.testBit_land, Nat.testBit_shiftLeft, Nat.testBit_shiftRight,
    Nat.testBit_two_pow_sub_one]
  by_cases low : 4 ≤ i
  · by_cases inside : i < 64
    · have : i - 4 < 60 := by omega
      simp [low, this]
    · simp [top inside, low]
  · simp [low]

theorem ofInt_and_mask {x : Int} (low : 0 ≤ x) (high : x < 2 ^ 63) :
    Int64.ofInt x &&& -16 = Int64.ofInt (x / 16 * 16) := by
  obtain ⟨n, rfl⟩ := Int.eq_ofNat_of_zero_le low
  have rounded : ((n : Int) / 16 * 16) = ((n / 16 * 16 : Nat) : Int) := by
    push_cast
    rfl
  have high : n < 2 ^ 63 := by exact_mod_cast high
  have mask : (-16 : Int64).toBitVec.toNat = 2 ^ 64 - 16 := by decide
  rw [rounded, Int64.ofInt_eq_ofNat, Int64.ofInt_eq_ofNat]
  apply Int64.toBitVec.inj
  apply BitVec.eq_of_toNat_eq
  rw [Int64.toBitVec_and, BitVec.toNat_and, mask, Int64.toBitVec_ofNat', Int64.toBitVec_ofNat',
    BitVec.toNat_ofNat, BitVec.toNat_ofNat, Nat.mod_eq_of_lt (by omega), Nat.mod_eq_of_lt (by omega),
    land_mask (by omega)]

/-- Bytes of the area for arguments. -/
def outgoingBytes (c : Convention) (n : Int) : Int :=
  c.shadowSpace + 8 * max (n - c.argRegs.length) 0

/-- Bytes of a frame below the saved registers. -/
def frameBytes (c : Convention) (r : Routine) : Int :=
  (8 * r.slots + outgoingBytes c r.maxCallArgs + 23) / 16 * 16 - 8

/-- A frame that the address space has room for. -/
structure Modest (r : Routine) : Prop where
  slots : 0 ≤ r.slots
  room : 8 * r.slots + 8 * r.maxCallArgs ≤ 2 ^ 61

/-- What both conventions have in common. -/
structure Sane (c : Convention) : Prop where
  few : c.argRegs.length ≤ 6
  shadow : c.shadowSpace % 8 = 0 ∧ c.shadowSpace ≤ 32
  whole : ∀ r ∈ c.argRegs, isWhole r = true
  free : ∀ r ∈ c.argRegs, r ≠ .rax ∧ r ≠ .rbx ∧ r ≠ .rbp ∧ r ≠ .rsp ∧ r ≠ .r10
  distinct : c.argRegs.Nodup

theorem sane (p : Platform) : Sane (Convention.of p) := by
  cases p <;> exact ⟨by decide, by decide, by decide, by decide, by decide⟩

section Sizes

variable {c : Convention} {r : Routine}

theorem slotOffset_eq (i : Int) : Convention.slotOffset i = Int64.ofInt (-16 - 8 * i) := by
  rw [Convention.slotOffset, Int64.ofInt_sub, Int64.ofInt_mul]
  rfl

theorem argsBeyondRegs_eq (c : Convention) (i : Int) :
    c.argsBeyondRegs i = Int64.ofInt (i - c.argRegs.length) := by
  rw [Convention.argsBeyondRegs, Int64.ofInt_sub, Int64.ofInt_eq_ofNat]

theorem stackOffset_eq (c : Convention) (i : Int) :
    Int64.ofNat c.shadowSpace + 8 * c.argsBeyondRegs i =
      Int64.ofInt (c.shadowSpace + 8 * (i - c.argRegs.length)) := by
  rw [argsBeyondRegs_eq, Int64.ofInt_add, Int64.ofInt_mul, Int64.ofInt_eq_ofNat]
  rfl

theorem paramOffset_eq (c : Convention) (i : Int) :
    c.paramOffset i = Int64.ofInt (16 + (c.shadowSpace + 8 * (i - c.argRegs.length))) := by
  rw [Convention.paramOffset, Int64.add_assoc, stackOffset_eq, Int64.ofInt_add 16]
  rfl

theorem outgoingArea_eq (sane : Sane c) {n : Nat} (room : (n : Int) ≤ 2 ^ 58) :
    c.outgoingArea n = Int64.ofInt (outgoingBytes c n) := by
  have few := sane.few
  have exact_ : (Int64.ofInt ((n : Int) - c.argRegs.length)).toInt = n - c.argRegs.length :=
    Int64.toInt_ofInt_of_le (by omega) (by omega)
  have most : max (c.argsBeyondRegs n) 0 = Int64.ofInt (max ((n : Int) - c.argRegs.length) 0) := by
    have order : Int64.ofInt ((n : Int) - c.argRegs.length) ≤ 0 ↔ (n : Int) - c.argRegs.length ≤ 0 := by
      rw [Int64.le_iff_toInt_le, exact_]
      rfl
    rw [argsBeyondRegs_eq]
    show (if Int64.ofInt ((n : Int) - c.argRegs.length) ≤ 0 then _ else _) = _
    split
    · next less =>
        rw [max_eq_right (order.mp less)]
        rfl
    · next more => rw [max_eq_left (by have := order.not.mp more; omega)]
  rw [Convention.outgoingArea, outgoingBytes, most, Int64.ofInt_add, Int64.ofInt_mul,
    Int64.ofInt_eq_ofNat]
  rfl

theorem frameSize_eq (sane : Sane c) (modest : Modest r) :
    c.frameSize r.slots r.maxCallArgs = Int64.ofInt (frameBytes c r) := by
  have slots := modest.slots
  have room := modest.room
  have shadow := sane.shadow.2
  have area : outgoingBytes c r.maxCallArgs ≤ 32 + 8 * r.maxCallArgs := by
    unfold outgoingBytes
    omega
  have some_ : 0 ≤ outgoingBytes c r.maxCallArgs := by
    unfold outgoingBytes
    omega
  have body : 8 * Int64.ofInt r.slots + Int64.ofInt (outgoingBytes c r.maxCallArgs) + 23 =
      Int64.ofInt (8 * r.slots + outgoingBytes c r.maxCallArgs + 23) := by
    rw [Int64.ofInt_add, Int64.ofInt_add, Int64.ofInt_mul]
    rfl
  rw [Convention.frameSize, outgoingArea_eq sane (by omega), body,
    ofInt_and_mask (by omega) (by omega), frameBytes, Int64.ofInt_sub]
  rfl

/-- A frame holds its slots above the area for arguments, and leaves the stack aligned. -/
theorem frameBytes_spec (sane : Sane c) (modest : Modest r) :
    8 * r.slots + outgoingBytes c r.maxCallArgs ≤ frameBytes c r ∧ (frameBytes c r + 8) % 16 = 0 ∧
      frameBytes c r ≤ 2 ^ 62 ∧ 0 ≤ outgoingBytes c r.maxCallArgs := by
  have room := modest.room
  have shadow := sane.shadow.2
  have bounds : 0 ≤ outgoingBytes c r.maxCallArgs ∧
      outgoingBytes c r.maxCallArgs ≤ 32 + 8 * r.maxCallArgs := by
    unfold outgoingBytes
    omega
  have slots := modest.slots
  unfold frameBytes
  omega

end Sizes

/-! ## Operands -/

/-- An operand that a call in the given routine may pass. -/
def Passed (r : Routine) : Operand → Prop
  | .slot i => 0 ≤ i ∧ i < r.slots
  | .data _ | .imm _ | .addr _ | .reg .rax => True
  | _ => False

/-- The value of an operand of the model. -/
def Cpu.value (s : Cpu) (address : String → Word) : Operand → Option Word
  | .addr symbol => some (address symbol)
  | o => s.read (place o)

/-- The machine is between the prologue and the epilogue of a routine. -/
structure InFrame (c : Convention) (r : Routine) (s : Cpu) : Prop where
  aligned : (s.regs .rbp).toInt % 16 = 0
  rsp : s.regs .rsp = s.regs .rbp - 8 - c.frameSize r.slots r.maxCallArgs

section Operands

variable {c : Convention} {r : Routine} {s : Cpu} {address : String → Word} {ret : Word}

theorem add_slotOffset (a : Word) (i : Int) : a + Convention.slotOffset i = shift a (-16 - 8 * i) := by
  rw [slotOffset_eq, shift]

theorem InFrame.rsp_eq (inFrame : InFrame c r s) (sane : Sane c) (modest : Modest r) :
    s.regs .rsp = shift (s.regs .rbp) (-8 - frameBytes c r) := by
  rw [inFrame.rsp, frameSize_eq sane modest, shift, Int64.ofInt_sub, Int64.sub_eq_add_neg,
    Int64.sub_eq_add_neg, Int64.sub_eq_add_neg, ← Int64.add_assoc]
  rfl

theorem InFrame.rbp_eq (inFrame : InFrame c r s) (sane : Sane c) (modest : Modest r) :
    s.regs .rbp = shift (s.regs .rsp) (frameBytes c r + 8) := by
  rw [inFrame.rsp_eq sane modest, shift_shift]
  have back : -8 - frameBytes c r + (frameBytes c r + 8) = 0 := by omega
  rw [back, shift_zero]

theorem InFrame.aligned_rsp (inFrame : InFrame c r s) (sane : Sane c) (modest : Modest r) :
    (s.regs .rsp).toInt % 16 = 0 := by
  obtain ⟨-, whole, -, -⟩ := frameBytes_spec sane modest
  have aligned := inFrame.aligned
  rw [inFrame.rsp_eq sane modest, emod_toInt_shift _ _ (by decide)]
  omega

theorem aligned_of_emod {a : Word} (sixteen : a.toInt % 16 = 0) : Aligned a := by
  unfold Aligned
  omega

/-- Every operand that a call may pass has a value. -/
theorem InFrame.value_isSome (inFrame : InFrame c r s) (address : String → Word) {o : Operand}
    (passed : Passed r o) :
    ∃ v, s.value address o = some v := by
  cases o with
  | slot i =>
      have aligned : Aligned (s.regs .rbp + Convention.slotOffset i) := by
        rw [add_slotOffset]
        exact (aligned_of_emod inFrame.aligned).shift (by omega)
      exact ⟨s.memory (s.regs .rbp + Convention.slotOffset i), by
        simp only [Cpu.value, place, Cpu.read, aligned, if_true]⟩
  | reg r =>
      cases r with
      | rax => exact ⟨_, rfl⟩
      | _ => cases passed
  | imm v => exact ⟨v, rfl⟩
  | data d => exact ⟨s.data d, rfl⟩
  | addr d => exact ⟨address d, rfl⟩
  | label | arg => cases passed

theorem move_reg {q : Reg} {src : Place} (plain : src.isAddr = false) :
    move (.reg q) src = [.instr "mov" [.reg q, src]] := by
  have dst : (Place.reg q).isMemory = false := rfl
  simp only [move, plain, dst, Bool.false_and, Bool.false_eq_true, if_false]

theorem move_mem {d : Place} {q : Reg} : move d (.reg q) = [.instr "mov" [d, .reg q]] := by
  have src : (Place.reg q).isAddr = false ∧ (Place.reg q).isMemory = false ∧
    (Place.reg q).isWide = false := ⟨rfl, rfl, rfl⟩
  simp only [move, src, Bool.false_and, Bool.or_false, Bool.and_false, Bool.false_eq_true, if_false]

/-- Moving an operand to a register gives the register the operand's value. -/
theorem run_move {o : Operand} {q : Reg} {v : Word} (passed : Passed r o) (whole : isWhole q = true)
    (value : s.value address o = some v) :
    run address ret (move (.reg q) (place o)) s = some (s.set q v) := by
  cases o with
  | addr d =>
      obtain rfl := Option.some.inj value
      have lines : move (.reg q) (place (.addr d)) = [.instr "lea" [.reg q, .addr d]] := rfl
      rw [lines, run_cons, exec_lea whole, Option.bind_some, run_nil]
  | label | arg => cases passed
  | reg | imm | slot | data =>
      simp only [Cpu.value] at value
      rw [move_reg rfl, run_cons, exec_mov_reg whole value, Option.bind_some, run_nil]

end Operands

/-! ## Placing arguments -/

/-- The distance of a stack argument from `rsp` at the call. -/
def argOffset (c : Convention) (i : Nat) : Int := c.shadowSpace + 8 * ((i : Int) - c.argRegs.length)

/-- Arguments are placed, and nothing has changed that a caller relies on. -/
structure Placing (c : Convention) (area : Int) (s₀ s : Cpu) (vs : List Word) : Prop where
  kept : ∀ q, q = .rax ∨ q = .rbx ∨ q = .rbp ∨ q = .rsp → s.regs q = s₀.regs q
  data : s.data = s₀.data
  above : ∀ d, area ≤ d → d < 2 ^ 63 →
    s.memory (shift (s₀.regs .rsp) d) = s₀.memory (shift (s₀.regs .rsp) d)
  inRegs : ∀ (i : Nat) v q, vs[i]? = some v → c.argRegs[i]? = some q → s.regs q = v
  onStack : ∀ (i : Nat) v, vs[i]? = some v → c.argRegs.length ≤ i →
    s.memory (shift (s₀.regs .rsp) (argOffset c i)) = v

section Placing

variable {c : Convention} {r : Routine} {s₀ s : Cpu} {address : String → Word} {ret : Word}
  {vs : List Word}

theorem Placing.start (c : Convention) (area : Int) (s : Cpu) : Placing c area s s [] :=
  ⟨fun _ _ => rfl, rfl, fun _ _ _ => rfl, by simp, by simp⟩

theorem Placing.value (placing : Placing c (outgoingBytes c r.maxCallArgs) s₀ s vs)
    (inFrame : InFrame c r s₀) (sane : Sane c) (modest : Modest r) {o : Operand}
    (passed : Passed r o) : s.value address o = s₀.value address o := by
  cases o with
  | slot i =>
      obtain ⟨low, high⟩ := passed
      obtain ⟨slots, -, most, -⟩ := frameBytes_spec sane modest
      have rbp := placing.kept .rbp (by simp)
      have place_ : s₀.regs .rbp + Convention.slotOffset i =
          shift (s₀.regs .rsp) (frameBytes c r - 8 - 8 * i) := by
        rw [add_slotOffset, inFrame.rbp_eq sane modest, shift_shift]
        congr 1
        omega
      have same := placing.above (frameBytes c r - 8 - 8 * i) (by omega) (by omega)
      simp only [Cpu.value, place, Cpu.read, rbp, place_, same]
  | reg q =>
      cases q with
      | rax => simp [Cpu.value, place, Cpu.read, placing.kept]
      | _ => cases passed
  | imm v => rfl
  | data d => simp [Cpu.value, place, Cpu.read, placing.data]
  | addr d => rfl
  | label | arg => cases passed

theorem argPlace_eq (c : Convention) (k : Nat) : c.argPlace k = match c.argRegs[k]? with
    | some q => .reg q
    | none => .stack (Int64.ofInt (argOffset c k)) := by
  cases found : c.argRegs[k]? <;> simp only [Convention.argPlace, argOffset, found, ← stackOffset_eq]

theorem getElem?_snoc {v w : Word} {i : Nat} (found : (vs ++ [v])[i]? = some w) :
    i < vs.length ∧ vs[i]? = some w ∨ i = vs.length ∧ w = v := by
  rcases lt_trichotomy i vs.length with before | rfl | behind
  · exact .inl ⟨before, by rwa [List.getElem?_append_left before] at found⟩
  · exact .inr ⟨rfl, by simpa using found.symm⟩
  · rw [List.getElem?_eq_none (by simp; omega)] at found
    cases found

/-- Placing an argument in its register disturbs no other argument. -/
theorem Placing.toReg {area : Int} (placing : Placing c area s₀ s vs) (sane : Sane c) {q : Reg}
    (register : c.argRegs[vs.length]? = some q) (v : Word) :
    Placing c area s₀ (s.set q v) (vs ++ [v]) := by
  obtain ⟨rax, rbx, rbp, rsp, -⟩ := sane.free q (List.mem_of_getElem? register)
  have count := (List.getElem?_eq_some_iff.mp register).1
  refine ⟨?_, placing.data, placing.above, ?_, ?_⟩
  · intro q' caller
    have other : q' ≠ q := by
      rintro rfl
      simp_all
    rw [Cpu.regs_set _ _ other, placing.kept q' caller]
  · intro i w q' found own
    obtain ⟨before, old⟩ | ⟨rfl, rfl⟩ := getElem?_snoc found
    · have other : q' ≠ q := by
        rintro rfl
        have same := (List.getElem?_inj (before.trans count) sane.distinct).mp
          (own.trans register.symm)
        exact absurd same before.ne
      rw [Cpu.regs_set _ _ other, placing.inRegs i w q' old own]
    · obtain rfl := Option.some.inj (register.symm.trans own)
      simp
  · intro i w found beyond
    obtain ⟨-, old⟩ | ⟨rfl, -⟩ := getElem?_snoc found
    · exact placing.onStack i w old beyond
    · omega

/-- Placing an argument on the stack disturbs no other argument. -/
theorem Placing.toStack {area : Int} (placing : Placing c area s₀ s vs) (sane : Sane c)
    (beyond : c.argRegs.length ≤ vs.length) (inside : argOffset c vs.length < area)
    (small : area < 2 ^ 63) (v : Word) :
    Placing c area s₀ ((s.set .r10 v).put (shift (s₀.regs .rsp) (argOffset c vs.length)) v)
      (vs ++ [v]) := by
  have low : 0 ≤ argOffset c vs.length := by
    unfold argOffset
    omega
  refine ⟨?_, placing.data, ?_, ?_, ?_⟩
  · intro q' caller
    have other : q' ≠ .r10 := by
      rintro rfl
      simp at caller
    rw [Cpu.regs_put, Cpu.regs_set _ _ other, placing.kept q' caller]
  · intro d above high
    have other : shift (s₀.regs .rsp) d ≠ shift (s₀.regs .rsp) (argOffset c vs.length) := by
      intro same
      have := shift_inj same (by omega) (by omega)
      omega
    rw [Cpu.memory_put _ _ other, Cpu.memory_set, placing.above d above high]
  · intro i w q' found own
    have free := (sane.free q' (List.mem_of_getElem? own)).2.2.2.2
    have inRegs := (List.getElem?_eq_some_iff.mp own).1
    obtain ⟨-, old⟩ | ⟨rfl, -⟩ := getElem?_snoc found
    · rw [Cpu.regs_put, Cpu.regs_set _ _ free, placing.inRegs i w q' old own]
    · omega
  · intro i w found past
    obtain ⟨before, old⟩ | ⟨rfl, rfl⟩ := getElem?_snoc found
    · have other : shift (s₀.regs .rsp) (argOffset c i) ≠
          shift (s₀.regs .rsp) (argOffset c vs.length) := by
        intro same
        have offsets : argOffset c i + 8 * (vs.length - i) = argOffset c vs.length := by
          unfold argOffset
          omega
        have least : 0 ≤ argOffset c i := by
          unfold argOffset
          omega
        have := shift_inj same (by omega) (by omega)
        omega
      rw [Cpu.memory_put _ _ other, Cpu.memory_set, placing.onStack i w old past]
    · simp

/-- The lines that place an argument do that. -/
theorem Placing.setArg (placing : Placing c (outgoingBytes c r.maxCallArgs) s₀ s vs)
    (inFrame : InFrame c r s₀) (sane : Sane c) (modest : Modest r) {o : Operand} {v : Word}
    (passed : Passed r o) (value : s₀.value address o = some v) (room : vs.length < r.maxCallArgs)
    (frame : Int64) :
    ∃ s', run address ret (expand c frame ⟨.setarg, [.arg vs.length, o], ""⟩) s = some s' ∧
      Placing c (outgoingBytes c r.maxCallArgs) s₀ s' (vs ++ [v]) := by
  obtain ⟨fits, -, most, -⟩ := frameBytes_spec sane modest
  have slots := modest.slots
  have shadow := sane.shadow
  have held := (placing.value inFrame sane modest passed).trans value
  cases register : c.argRegs[vs.length]? with
  | some q =>
      have lines : expand c frame ⟨.setarg, [.arg vs.length, o], ""⟩ = move (.reg q) (place o) := by
        simp only [expand, Int.toNat_natCast, argPlace_eq, register]
      rw [lines]
      have whole := sane.whole q (List.mem_of_getElem? register)
      exact ⟨s.set q v, run_move passed whole held, placing.toReg sane register v⟩
  | none =>
      have beyond : c.argRegs.length ≤ vs.length := List.getElem?_eq_none_iff.mp register
      have inside : argOffset c vs.length < outgoingBytes c r.maxCallArgs := by
        unfold argOffset outgoingBytes
        omega
      have aligned : Aligned (shift (s₀.regs .rsp) (argOffset c vs.length)) := by
        refine (aligned_of_emod (inFrame.aligned_rsp sane modest)).shift ?_
        unfold argOffset
        omega
      have rsp : (s.set .r10 v).regs .rsp = s₀.regs .rsp := by
        rw [Cpu.regs_set _ _ (by decide), placing.kept _ (by simp)]
      have stored : Line.exec address ret (s.set .r10 v)
          (.instr "mov" [.above .rsp (Int64.ofInt (argOffset c vs.length)), through]) =
          some ((s.set .r10 v).put (shift (s₀.regs .rsp) (argOffset c vs.length)) v) := by
        rw [through, exec_mov_mem rfl]
        simp only [Cpu.write, rsp, Cpu.regs_set_self]
        rw [← shift, if_pos aligned]
      have lines : expand c frame ⟨.setarg, [.arg vs.length, o], ""⟩ = move through (place o) ++
          [.instr "mov" [.above .rsp (Int64.ofInt (argOffset c vs.length)), through]] := by
        simp only [expand, Int.toNat_natCast, argPlace_eq, register]
      refine ⟨_, ?_, placing.toStack sane beyond inside (by omega) v⟩
      rw [lines, run_append, through, run_move passed rfl held, Option.bind_some, run_cons, ← through, stored,
        Option.bind_some, run_nil]

/-- The instructions that place arguments, from the one with number `k` on. -/
def setArgCode (k : Nat) : List Operand → List Instr
  | [] => []
  | o :: ops => ⟨.setarg, [.arg k, o], ""⟩ :: setArgCode (k + 1) ops

/-- The instructions that a step of the generator emits. -/
def emitted (g : Emit.Gen) (x : Emit.Emitting Unit) : List Instr :=
  (x.run { g with code := #[] }).2.code.toList

theorem setArgsFrom_code (ops : List Operand) (k : Nat) (g : Emit.Gen) :
    ((Emit.setArgsFrom k ops).run g).2.code.toList = g.code.toList ++ setArgCode k ops := by
  induction ops generalizing k g with
  | nil => exact (List.append_nil _).symm
  | cons o ops ih =>
      have first : ((Emit.setArgsFrom k (o :: ops)).run g).2 =
          ((Emit.setArgsFrom (k + 1) ops).run
            { g with code := g.code.push ⟨.setarg, [.arg k, o], ""⟩ }).2 := rfl
      rw [first, ih]
      simp [setArgCode]

theorem emitted_setArgs (g : Emit.Gen) (ops : List Operand) :
    emitted g (Emit.setArgs ops) = setArgCode 0 ops := by
  have noted : ((Emit.setArgs ops).run { g with code := #[] }).2.code =
      ((Emit.setArgsFrom 0 ops).run { g with code := #[] }).2.code := rfl
  rw [emitted, noted, setArgsFrom_code]
  simp

/-- Placing arguments one after the other leaves each of them in its place. -/
theorem Placing.setArgs (placing : Placing c (outgoingBytes c r.maxCallArgs) s₀ s vs)
    (inFrame : InFrame c r s₀) (sane : Sane c) (modest : Modest r) {ops : List Operand}
    {ws : List Word} (passed : ∀ o ∈ ops, Passed r o)
    (values : ops.map (s₀.value address) = ws.map some) (room : vs.length + ops.length ≤ r.maxCallArgs)
    (frame : Int64) :
    ∃ s', run address ret ((setArgCode vs.length ops).flatMap (expand c frame)) s = some s' ∧
      Placing c (outgoingBytes c r.maxCallArgs) s₀ s' (vs ++ ws) := by
  induction ops generalizing vs s ws with
  | nil =>
      obtain rfl : ws = [] := by simpa using values
      exact ⟨s, rfl, by simpa using placing⟩
  | cons o ops ih =>
      obtain ⟨w, ws, rfl⟩ : ∃ w ws', ws = w :: ws' := by
        cases ws with
        | nil => simp at values
        | cons w ws => exact ⟨w, ws, rfl⟩
      simp only [List.map_cons, List.cons.injEq] at values
      simp only [List.length_cons] at room
      have step : ∃ s', run address ret (expand c frame ⟨.setarg, [.arg vs.length, o], ""⟩) s = some s' ∧
          Placing c (outgoingBytes c r.maxCallArgs) s₀ s' (vs ++ [w]) :=
        placing.setArg inFrame sane modest (passed o (by simp)) values.1 (by omega) frame
      obtain ⟨s₁, first, placing₁⟩ := step
      obtain ⟨s₂, rest, placing₂⟩ := ih placing₁ (fun o mem => passed o (by simp [mem])) values.2
        (by simp; omega)
      refine ⟨s₂, ?_, by simpa using placing₂⟩
      rw [List.length_append, List.length_singleton] at rest
      rw [setArgCode, List.flatMap_cons, run_append, first]
      exact rest

end Placing

/-! ## Fetching arguments -/

/-- A routine has been entered from a state of its caller. -/
structure Entered (ret : Word) (s s' : Cpu) : Prop where
  rbp : s'.regs .rbp = shift (s.regs .rsp) (-16)
  regs : ∀ q, q ≠ .rbp → q ≠ .rsp → s'.regs q = s.regs q
  data : s'.data = s.data
  above : ∀ d, 0 ≤ d → d < 2 ^ 63 → s'.memory (shift (s.regs .rsp) d) = s.memory (shift (s.regs .rsp) d)
  back : s'.memory (shift (s'.regs .rbp) 8) = ret
  savedRbp : s'.memory (s'.regs .rbp) = s.regs .rbp
  savedRbx : s'.memory (shift (s'.regs .rbp) (-8)) = s.regs .rbx

section Entry

variable {c : Convention} {callee : Routine} {s : Cpu} {address : String → Word} {ret : Word}

theorem sub_eight (a : Word) : a - 8 = shift a (-8) := by
  rw [shift, Int64.sub_eq_add_neg]
  rfl

theorem shift_ne {a : Word} {d e : Int} (other : d ≠ e) (above : d - e < 2 ^ 64)
    (below : e - d < 2 ^ 64) : shift a d ≠ shift a e :=
  fun same => other (shift_inj same above below)

/-- A call and the prologue behind it set up the frame of the routine. -/
theorem run_entry (aligned : (s.regs .rsp).toInt % 16 = 0)
    (f : String) :
    ∃ s', run address ret (.instr "call" [.name f] ::
        expand c (c.frameSize callee.slots callee.maxCallArgs) ⟨.prologue, [], ""⟩) s = some s' ∧
      Entered ret s s' ∧ InFrame c callee s' := by
  let a := s.regs .rsp
  let G := frameBytes c callee
  have word (d : Int) (whole : d % 8 = 0) : Aligned (shift a d) := (aligned_of_emod aligned).shift whole
  let s₁ := (s.set .rsp (shift a (-8))).put (shift a (-8)) ret
  let s₂ := (s₁.set .rsp (shift a (-16))).put (shift a (-16)) (s.regs .rbp)
  let s₃ := s₂.set .rbp (shift a (-16))
  let s₄ := (s₃.set .rsp (shift a (-24))).put (shift a (-24)) (s.regs .rbx)
  let s₅ := s₄.set .rsp (shift a (-24) - c.frameSize callee.slots callee.maxCallArgs)
  have call : Line.exec address ret s (.instr "call" [.name f]) = some s₁ := by
    rw [Line.exec]
    exact push_eq (sub_eight a) (word _ (by decide))
  have rbp : s₁.regs .rbp = s.regs .rbp := by simp [s₁, Cpu.set]
  have pushRbp : Line.exec address ret s₁ (.instr "push" [.reg .rbp]) = some s₂ := by
    rw [exec_push rfl, rbp]
    exact push_eq ((sub_eight _).trans (shift_shift a (-8) (-8))) (word _ (by decide))
  have setRbp : Line.exec address ret s₂ (.instr "mov" [.reg .rbp, .reg .rsp]) = some s₃ :=
    exec_mov_reg rfl rfl
  have rbx : s₃.regs .rbx = s.regs .rbx := by
    simp [s₃, s₂, s₁, Cpu.set]
  have pushRbx : Line.exec address ret s₃ (.instr "push" [.reg .rbx]) = some s₄ := by
    rw [exec_push rfl, rbx]
    exact push_eq ((sub_eight _).trans (shift_shift a (-16) (-8))) (word _ (by decide))
  have reserve : Line.exec address ret s₄
      (.instr "sub" [.reg .rsp, .imm (c.frameSize callee.slots callee.maxCallArgs)]) = some s₅ := by
    rw [Line.exec]
    rfl
  have runs : run address ret (.instr "call" [.name f] ::
      expand c (c.frameSize callee.slots callee.maxCallArgs) ⟨.prologue, [], ""⟩) s = some s₅ := by
    have lines : expand c (c.frameSize callee.slots callee.maxCallArgs) ⟨.prologue, [], ""⟩ =
        [.instr "push" [.reg .rbp], .instr "mov" [.reg .rbp, .reg .rsp], .instr "push" [.reg .rbx],
          .instr "sub" [.reg .rsp, .imm (c.frameSize callee.slots callee.maxCallArgs)]] := rfl
    rw [lines, run_cons, call, Option.bind_some, run_cons, pushRbp, Option.bind_some, run_cons, setRbp,
      Option.bind_some, run_cons, pushRbx, Option.bind_some, run_cons, reserve, Option.bind_some, run_nil]
  have memory (d : Int) (high : d < 2 ^ 63) (low : -2 ^ 62 ≤ d) (other : d ≠ -8 ∧ d ≠ -16 ∧ d ≠ -24) :
      s₅.memory (shift a d) = s.memory (shift a d) := by
    simp only [s₅, s₄, s₃, s₂, s₁, Cpu.memory_set]
    rw [Cpu.memory_put _ _ (shift_ne other.2.2 (by omega) (by omega)), Cpu.memory_set, Cpu.memory_set,
      Cpu.memory_put _ _ (shift_ne other.2.1 (by omega) (by omega)), Cpu.memory_set,
      Cpu.memory_put _ _ (shift_ne other.1 (by omega) (by omega)), Cpu.memory_set]
  have rbp₅ : s₅.regs .rbp = shift a (-16) := by simp [s₅, s₄, s₃, Cpu.set]
  have rsp₅ : s₅.regs .rsp = shift a (-24) - c.frameSize callee.slots callee.maxCallArgs := by
    simp [s₅]
  refine ⟨s₅, runs, ⟨rbp₅, fun q notRbp notRsp => ?_, rfl, fun d low high => ?_, ?_, ?_, ?_⟩, ⟨?_, ?_⟩⟩
  · simp [s₅, s₄, s₃, s₂, s₁, Cpu.set, notRbp, notRsp]
  · exact memory d high (by omega) (by omega)
  · rw [rbp₅, shift_shift]
    simp only [s₅, s₄, s₃, s₂, s₁, Cpu.memory_set]
    rw [Cpu.memory_put _ _ (shift_ne (by decide) (by decide) (by decide)), Cpu.memory_set, Cpu.memory_set,
      Cpu.memory_put _ _ (shift_ne (by decide) (by decide) (by decide)), Cpu.memory_set]
    exact Cpu.memory_put_self _ _ _
  · rw [rbp₅]
    simp only [s₅, s₄, s₃, s₂, Cpu.memory_set]
    rw [Cpu.memory_put _ _ (shift_ne (by decide) (by decide) (by decide)), Cpu.memory_set, Cpu.memory_set]
    exact Cpu.memory_put_self _ _ _
  · rw [rbp₅, shift_shift]
    simp only [s₅, s₄, Cpu.memory_set]
    exact Cpu.memory_put_self _ _ _
  · rw [rbp₅, emod_toInt_shift _ _ (by decide)]
    simp only [a]
    omega
  · rw [rsp₅, rbp₅, sub_eight, shift_shift]
    rfl

end Entry

/-- The instructions that fetch `n` parameters, from the one with number `k` on. -/
def loadCode (k : Nat) : Nat → List Instr
  | 0 => []
  | n + 1 => ⟨.loadparam, [.arg k, .slot k], ""⟩ :: loadCode (k + 1) n

theorem loadParams_code {env : Emit.Env} (names : List String) (k : Nat) (g : Emit.Gen)
    (index : ∀ (i : Nat) name, names[i]? = some name → env.locals.idxOf name = k + i) :
    ((Emit.loadParams env k names).run g).2.code.toList = g.code.toList ++ loadCode k names.length := by
  induction names generalizing k g with
  | nil => exact (List.append_nil _).symm
  | cons name names ih =>
      have first : ((Emit.loadParams env k (name :: names)).run g).2 =
          ((Emit.loadParams env (k + 1) names).run { g with
            code := g.code.push ⟨.loadparam, [.arg k, .slot (env.locals.idxOf name)], ""⟩ }).2 := rfl
      have slot : env.locals.idxOf name = k := index 0 name rfl
      rw [first, slot, ih (k + 1)]
      · simp [loadCode]
      · intro i name' found
        have := index (i + 1) name' (by simpa using found)
        omega

theorem emitted_loadParams {env : Emit.Env} {names : List String} (distinct : names.Nodup)
    (first : names <+: env.locals) (g : Emit.Gen) :
    emitted g (Emit.loadParams env 0 names) = loadCode 0 names.length := by
  have index (i : Nat) (name : String) (found : names[i]? = some name) :
      env.locals.idxOf name = 0 + i := by
    obtain ⟨inside, rfl⟩ := List.getElem?_eq_some_iff.mp found
    obtain ⟨others, locals⟩ := first
    rw [← locals, List.idxOf_append_of_mem (List.getElem_mem inside), distinct.idxOf_getElem i inside,
      Nat.zero_add]
  rw [emitted, loadParams_code names 0 _ index]
  simp

/-- The first `k` parameters are fetched, and nothing above the frame has changed. -/
structure Fetching (s₀ s : Cpu) (vs : List Word) (k : Nat) : Prop where
  regs : ∀ q, q ≠ .r10 → s.regs q = s₀.regs q
  data : s.data = s₀.data
  above : ∀ d, -8 ≤ d → d < 2 ^ 63 →
    s.memory (shift (s₀.regs .rbp) d) = s₀.memory (shift (s₀.regs .rbp) d)
  slots : ∀ (i : Nat) v, i < k → vs[i]? = some v → s.memory (shift (s₀.regs .rbp) (-16 - 8 * i)) = v

section Fetching

variable {c : Convention} {callee : Routine} {s₀ s : Cpu} {address : String → Word} {ret : Word}
  {vs : List Word} {k : Nat}

/-- Arguments are where a routine looks for them. -/
structure Waiting (c : Convention) (s : Cpu) (vs : List Word) : Prop where
  inRegs : ∀ (i : Nat) v q, vs[i]? = some v → c.argRegs[i]? = some q → s.regs q = v
  onStack : ∀ (i : Nat) v, vs[i]? = some v → c.argRegs.length ≤ i →
    s.memory (shift (s.regs .rbp) (16 + argOffset c i)) = v

theorem Fetching.put (fetching : Fetching s₀ s vs k) (small : (k : Int) < 2 ^ 59) {v : Word}
    (value : vs[k]? = some v) (s' : Cpu) (regs : ∀ q, q ≠ .r10 → s'.regs q = s.regs q)
    (data : s'.data = s.data) (memory : s'.memory = s.memory) :
    Fetching s₀ (s'.put (shift (s₀.regs .rbp) (-16 - 8 * k)) v) vs (k + 1) := by
  refine ⟨fun q own => ?_, data.trans fetching.data, fun d low high => ?_, fun i w before found => ?_⟩
  · rw [Cpu.regs_put, regs q own, fetching.regs q own]
  · rw [Cpu.memory_put _ _ (shift_ne (by omega) (by omega) (by omega)), memory, fetching.above d low high]
  · rcases Nat.lt_succ_iff_lt_or_eq.mp before with old | rfl
    · rw [Cpu.memory_put _ _ (shift_ne (by omega) (by omega) (by omega)), memory, fetching.slots i w old found]
    · obtain rfl := Option.some.inj (value.symm.trans found)
      simp

/-- The lines that fetch a parameter do that. -/
theorem Fetching.loadParam (fetching : Fetching s₀ s vs k) (waiting : Waiting c s₀ vs)
    (inFrame : InFrame c callee s₀) (sane : Sane c) (small : (k : Int) < 2 ^ 59) {v : Word}
    (value : vs[k]? = some v) (frame : Int64) :
    ∃ s', run address ret (expand c frame ⟨.loadparam, [.arg k, .slot k], ""⟩) s = some s' ∧
      Fetching s₀ s' vs (k + 1) := by
  have rbp : s.regs .rbp = s₀.regs .rbp := fetching.regs _ (by decide)
  have aligned := aligned_of_emod inFrame.aligned
  have slot : Aligned (shift (s₀.regs .rbp) (-16 - 8 * k)) := aligned.shift (by omega)
  -- Storing a register in the slot.
  have store {t : Cpu} {q : Reg} (whole : isWhole q = true) (same : t.regs .rbp = s₀.regs .rbp) :
      run address ret (move (place (.slot k)) (.reg q)) t =
        some (t.put (shift (s₀.regs .rbp) (-16 - 8 * k)) (t.regs q)) := by
    rw [move_mem, run_cons, exec_mov_mem whole]
    simp only [place, Cpu.write, same, add_slotOffset]
    rw [if_pos slot, Option.bind_some, run_nil]
  cases register : c.argRegs[k]? with
  | some q =>
      have lines : expand c frame ⟨.loadparam, [.arg k, .slot k], ""⟩ = move (place (.slot k)) (.reg q) := by
        simp only [expand, Int.toNat_natCast, argPlace_eq, register]
      rw [lines]
      have mem := List.mem_of_getElem? register
      have held : s.regs q = v := by
        rw [fetching.regs q (sane.free q mem).2.2.2.2, waiting.inRegs k v q value register]
      refine ⟨_, store (sane.whole q mem) rbp, ?_⟩
      rw [held]
      exact fetching.put small value s (fun _ _ => rfl) rfl rfl
  | none =>
      have beyond : c.argRegs.length ≤ k := List.getElem?_eq_none_iff.mp register
      have shadow := sane.shadow
      have offset : 0 ≤ argOffset c k ∧ argOffset c k % 8 = 0 ∧ argOffset c k ≤ 32 + 8 * k := by
        unfold argOffset
        omega
      have place_ : s.regs .rbp + c.paramOffset k = shift (s₀.regs .rbp) (16 + argOffset c k) := by
        rw [rbp, paramOffset_eq, shift, argOffset]
      have held : s.read (.above .rbp (c.paramOffset k)) = some v := by
        simp only [Cpu.read, place_]
        rw [if_pos (aligned.shift (by omega)), fetching.above _ (by omega) (by omega),
          waiting.onStack k v value beyond]
      have load : Line.exec address ret s (.instr "mov" [through, .above .rbp (c.paramOffset k)]) =
          some (s.set .r10 v) := exec_mov_reg rfl held
      have rbp' : (s.set .r10 v).regs .rbp = s₀.regs .rbp := by
        rw [Cpu.regs_set _ _ (by decide), rbp]
      have lines : expand c frame ⟨.loadparam, [.arg k, .slot k], ""⟩ =
          .instr "mov" [through, .above .rbp (c.paramOffset k)] :: move (place (.slot k)) through := by
        simp only [expand, Int.toNat_natCast, argPlace_eq, register]
      refine ⟨_, ?_, fetching.put small value (s.set .r10 v) (fun q own => Cpu.regs_set _ _ own) rfl rfl⟩
      rw [lines, run_cons, load, Option.bind_some, through, store rfl rbp', Cpu.regs_set_self]

/-- Fetching parameters one after the other leaves each of them in its slot. -/
theorem Fetching.loadParams (fetching : Fetching s₀ s vs k) (waiting : Waiting c s₀ vs)
    (inFrame : InFrame c callee s₀) (sane : Sane c) {n : Nat} (count : k + n = vs.length)
    (small : (vs.length : Int) < 2 ^ 59) (frame : Int64) :
    ∃ s', run address ret ((loadCode k n).flatMap (expand c frame)) s = some s' ∧
      Fetching s₀ s' vs vs.length := by
  induction n generalizing k s with
  | zero => exact ⟨s, rfl, by simpa [← count] using fetching⟩
  | succ n ih =>
      have value : vs[k]? = some (vs.get ⟨k, by omega⟩) := by simp
      have step : ∃ s', run address ret (expand c frame ⟨.loadparam, [.arg k, .slot k], ""⟩) s = some s' ∧
          Fetching s₀ s' vs (k + 1) :=
        fetching.loadParam waiting inFrame sane (by omega) value frame
      obtain ⟨s₁, first, fetching₁⟩ := step
      obtain ⟨s₂, rest, fetching₂⟩ := ih fetching₁ (by omega)
      refine ⟨s₂, ?_, fetching₂⟩
      rw [loadCode, List.flatMap_cons, run_append, first]
      exact rest

end Fetching

/-! ## Calls -/

theorem InFrame.values {c : Convention} {r : Routine} {s : Cpu} (inFrame : InFrame c r s)
    (address : String → Word) {ops : List Operand} (passed : ∀ o ∈ ops, Passed r o) :
    ∃ vs : List Word, ops.map (s.value address) = vs.map some := by
  induction ops with
  | nil => exact ⟨[], rfl⟩
  | cons o ops ih =>
      obtain ⟨v, value⟩ := inFrame.value_isSome address (passed o (by simp))
      obtain ⟨vs, values⟩ := ih fun o mem => passed o (by simp [mem])
      exact ⟨v :: vs, by simp [value, values]⟩

/-- Caller and routine agree on where arguments are. From anywhere in the caller, the lines that place
    the arguments, the call, and the lines that set up the routine's frame and fetch its parameters come
    to a state in which every slot holds the value its argument had at first. The stack is aligned at
    the call, the frame of the caller is as it was, and no slot of the routine shares a byte with the
    area for the arguments of its own calls. -/
theorem run_call (p : Platform) (ops : List Operand) (caller callee : Routine) (env : Emit.Env)
    (names : List String) (distinct : names.Nodup) (first : names <+: env.locals)
    (arity : names.length = ops.length) (g g' : Emit.Gen)
    (address : String → Word) (ret : Word) (f : String) (s : Cpu)
    (inFrame : InFrame (Convention.of p) caller s) (passed : ∀ o ∈ ops, Passed caller o)
    (room : ops.length ≤ caller.maxCallArgs) (count : ops.length ≤ callee.slots)
    (modest : Modest caller) (modest' : Modest callee) :
    let c := Convention.of p
    let frame := c.frameSize caller.slots caller.maxCallArgs
    let frame' := c.frameSize callee.slots callee.maxCallArgs
    ∃ s₁ s₂,
      run address ret ((emitted g (Emit.setArgs ops)).flatMap (expand c frame)) s = some s₁ ∧
      (s₁.regs .rsp).toInt % 16 = 0 ∧
      run address ret (expand c frame ⟨.call, [.label f], ""⟩ ++ expand c frame' ⟨.prologue, [], ""⟩ ++
        (emitted g' (Emit.loadParams env 0 names)).flatMap (expand c frame')) s₁ = some s₂ ∧
      InFrame c callee s₂ ∧
      (∀ (i : Nat) o, ops[i]? = some o → s₂.value address (.slot i) = s.value address o) ∧
      (∀ i, 0 ≤ i → i < caller.slots → s₂.memory (s.regs .rbp + Convention.slotOffset i) =
        s.memory (s.regs .rbp + Convention.slotOffset i)) ∧
      s₂.memory (s.regs .rbp) = s.memory (s.regs .rbp) ∧
      s₂.memory (s.regs .rbp - 8) = s.memory (s.regs .rbp - 8) ∧
      ∀ i (b d : Nat), 0 ≤ i → i < callee.slots → b < 8 → d < (c.outgoingArea callee.maxCallArgs).toInt →
        s₂.regs .rbp + Convention.slotOffset i + Int64.ofNat b ≠ s₂.regs .rsp + Int64.ofNat d := by
  intro c frame frame'
  rw [emitted_setArgs, emitted_loadParams distinct first, arity]
  have sane : Sane c := sane p
  obtain ⟨slots, -, most, outgoing⟩ := frameBytes_spec sane modest
  obtain ⟨slots', -, most', outgoing'⟩ := frameBytes_spec sane modest'
  have bound := modest'.room
  have nonneg := modest.slots
  obtain ⟨vs, values⟩ := inFrame.values address passed
  have length : ops.length = vs.length := by simpa using congrArg List.length values
  have start := Placing.start c (outgoingBytes c caller.maxCallArgs) s
  have placed : ∃ s₁, run address ret ((setArgCode 0 ops).flatMap (expand c frame)) s = some s₁ ∧
      Placing c (outgoingBytes c caller.maxCallArgs) s s₁ ([] ++ vs) :=
    start.setArgs inFrame sane modest passed values (by simpa using room) frame
  obtain ⟨s₁, places, placing⟩ := placed
  have rsp : s₁.regs .rsp = s.regs .rsp := placing.kept _ (by simp)
  have aligned : (s₁.regs .rsp).toInt % 16 = 0 := rsp ▸ inFrame.aligned_rsp sane modest
  have entry : ∃ s', run address ret (.instr "call" [.name f] :: expand c frame' ⟨.prologue, [], ""⟩) s₁ =
      some s' ∧ Entered ret s₁ s' ∧ InFrame c callee s' := run_entry aligned f
  obtain ⟨s', enters, entered, inFrame'⟩ := entry
  have rbp' : s'.regs .rbp = shift (s.regs .rsp) (-16) := rsp ▸ entered.rbp
  have waiting : Waiting c s' vs := by
    refine ⟨fun i v q found own => ?_, fun i v found beyond => ?_⟩
    · obtain ⟨-, -, notRbp, notRsp, -⟩ := sane.free q (List.mem_of_getElem? own)
      rw [entered.regs q notRbp notRsp]
      exact placing.inRegs i v q found own
    · have before := (List.getElem?_eq_some_iff.mp found).1
      have shadow := sane.shadow
      have offset : 0 ≤ argOffset c i ∧ argOffset c i < 2 ^ 63 := by
        unfold argOffset
        omega
      rw [entered.rbp, shift_shift, show (-16 + (16 + argOffset c i)) = argOffset c i by omega,
        entered.above _ offset.1 offset.2, rsp]
      exact placing.onStack i v found beyond
  have fetched : ∃ s₂, run address ret ((loadCode 0 ops.length).flatMap (expand c frame')) s' = some s₂ ∧
      Fetching s' s₂ vs vs.length :=
    Fetching.loadParams ⟨fun _ _ => rfl, rfl, fun _ _ _ => rfl, by simp⟩ waiting inFrame' sane
      (by omega) (by omega) frame'
  obtain ⟨s₂, fetches, fetching⟩ := fetched
  have rbp₂ : s₂.regs .rbp = s'.regs .rbp := fetching.regs _ (by decide)
  have rsp₂ : s₂.regs .rsp = s'.regs .rsp := fetching.regs _ (by decide)
  have inFrame₂ : InFrame c callee s₂ := ⟨rbp₂ ▸ inFrame'.aligned, by rw [rsp₂, rbp₂, inFrame'.rsp]⟩
  have memory (d : Int) (low : outgoingBytes c caller.maxCallArgs ≤ d) (high : d ≤ 2 ^ 62 + 8) :
      s₂.memory (shift (s.regs .rsp) d) = s.memory (shift (s.regs .rsp) d) := by
    have here : shift (s.regs .rsp) d = shift (s'.regs .rbp) (d + 16) := by
      rw [rbp', shift_shift]
      congr 1
      omega
    rw [here, fetching.above _ (by omega) (by omega), ← here, ← rsp, entered.above d (by omega) (by omega),
      rsp, placing.above d low (by omega)]
  have rbp : s.regs .rbp = shift (s.regs .rsp) (frameBytes c caller + 8) := inFrame.rbp_eq sane modest
  refine ⟨s₁, s₂, places, aligned, ?_, inFrame₂, fun i o found => ?_, fun i low high => ?_, ?_, ?_,
    fun i b d low high byte inside => ?_⟩
  · have lines : expand c frame ⟨.call, [.label f], ""⟩ = [.instr "call" [.name f]] := rfl
    rw [lines, List.singleton_append, run_append, enters]
    exact fetches
  · have both := congrArg (·[i]?) values
    simp only [List.getElem?_map, found, Option.map_some] at both
    obtain ⟨v, at_, same⟩ := Option.map_eq_some_iff.mp both.symm
    have before := (List.getElem?_eq_some_iff.mp at_).1
    have slot : Aligned (s₂.regs .rbp + Convention.slotOffset i) := by
      rw [add_slotOffset]
      exact (aligned_of_emod inFrame₂.aligned).shift (by omega)
    rw [← same]
    simp only [Cpu.value, place, Cpu.read]
    rw [if_pos slot, add_slotOffset, rbp₂, fetching.slots i v before at_]
  · rw [add_slotOffset, rbp, shift_shift, memory _ (by omega) (by omega)]
  · rw [rbp, memory _ (by omega) (by omega)]
  · rw [sub_eight, rbp, shift_shift, memory _ (by omega) (by omega)]
  · have area : (c.outgoingArea callee.maxCallArgs).toInt = outgoingBytes c callee.maxCallArgs := by
      rw [outgoingArea_eq sane (by omega)]
      exact Int64.toInt_ofInt_of_le (by omega) (by omega)
    rw [area] at inside
    rw [add_slotOffset, ← Int64.ofInt_eq_ofNat, ← Int64.ofInt_eq_ofNat, ← shift, ← shift, shift_shift,
      inFrame₂.rsp_eq sane modest', shift_shift]
    exact shift_ne (by omega) (by omega) (by omega)

/-! ## An example -/

/-- A routine that makes calls with up to six arguments. -/
def sixCaller : Routine := ⟨"fn_f", [], 3, 6⟩

/-- A routine with six parameters. -/
def sixCallee : Routine := ⟨"fn_g", [], 7, 0⟩

/-- The environment of its code. -/
def sixNames : Emit.Env where
  classes := []
  words := ["gv_x"]
  funcs := ["f", "g"]
  facts := ⟨[], [], []⟩
  routine := "fn_g"
  cls := ""
  locals := ["a", "b", "c", "d", "e", "f"]
  retLabel := ""
  loops := []
  lasts := []
  unwind := []

/-- A state in the caller, with 7 in `rax` and every word of memory holding its address. -/
def sixState : Cpu where
  regs := fun
    | .rbp => 4096
    | .rsp => 4096 - 8 - (Convention.of .win64).frameSize 3 6
    | .rax => 7
    | _ => 0
  memory := id
  data := fun _ => 5

theorem run_call_six :
    InFrame (Convention.of .win64) sixCaller sixState ∧ ∃ s₁ s₂,
      run (fun _ => 9) 0 ((emitted ⟨0, [], [], #[], 0, 0, 0, #[]⟩ (Emit.setArgs
        [.slot 0, .imm 1099511627776, .data "gv_x", .addr "str0", .reg .rax, .slot 1])).flatMap
          (expand (Convention.of .win64) ((Convention.of .win64).frameSize 3 6))) sixState = some s₁ ∧
      InFrame (Convention.of .win64) sixCallee s₂ ∧
      s₂.value (fun _ => 9) (.slot 1) = some 1099511627776 ∧ s₂.value (fun _ => 9) (.slot 4) = some 7 ∧
      s₂.value (fun _ => 9) (.slot 5) = some 4072 := by
  have inFrame : InFrame (Convention.of .win64) sixCaller sixState := ⟨by decide, by decide⟩
  have passed : ∀ o ∈ [Operand.slot 0, .imm 1099511627776, .data "gv_x", .addr "str0", .reg .rax, .slot 1],
      Passed sixCaller o := by
    simp only [List.forall_mem_cons]
    exact ⟨⟨by decide, by decide⟩, trivial, trivial, trivial, trivial, ⟨by decide, by decide⟩,
      List.forall_mem_nil _⟩
  obtain ⟨s₁, s₂, places, -, -, inFrame₂, values, -⟩ := run_call .win64 _ sixCaller sixCallee sixNames
    ["a", "b", "c", "d", "e", "f"] (by decide) (by decide) rfl ⟨0, [], [], #[], 0, 0, 0, #[]⟩
    ⟨0, [], [], #[], 0, 0, 0, #[]⟩ (fun _ => 9) 0 "fn_g" sixState inFrame passed (by decide) (by decide)
    ⟨by decide, by decide⟩ ⟨by decide, by decide⟩
  exact ⟨inFrame, s₁, s₂, places, inFrame₂, values 1 _ rfl, values 4 _ rfl, values 5 _ rfl⟩

end Lantern.Nasm
