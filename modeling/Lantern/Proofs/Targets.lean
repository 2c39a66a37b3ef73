import Lantern.Proofs.Operands
import Lantern.Proofs.Temporaries

/-!
# Targets of exceptions

A guarded statement pushes a target of exceptions together with its last block, puts another in its place for the
handlers and takes both away behind them; for a copy of a last block the stacks are cut back to where its statement
stood. So the innermost target runs all pending last blocks itself, however copies nest in copies: an exception is
delivered by one jump, and the way around a longer delivery is never generated.
-/

namespace Lantern

open Assembly

namespace Emit

/-! ## Labels with other names -/

/-- The base of a label is what is no digit in its name. -/
theorem letters_tag {base : String} (wordy : Wordy base) (n : Nat) :
    (tag base n).toList.filter (!·.isDigit) = 'L' :: base.toList := by
  have digits : (toString n).toList.filter (!·.isDigit) = [] := by
    refine List.filter_eq_nil_iff.mpr fun c inside => ?_
    have : c ∈ Nat.toDigits 10 n := by simpa [toString, Nat.repr] using inside
    simpa using Nat.isDigit_of_mem_toDigits (by decide) (by decide) this
  have letters : base.toList.filter (!·.isDigit) = base.toList :=
    List.filter_eq_self.mpr fun c inside => by simpa using List.filter_eq_nil_iff.mp wordy c inside
  simp only [tag, String.toList_append, List.filter_append, digits, letters]
  simp

theorem tag_ne {base other : String} (wordy : Wordy base) (wordy' : Wordy other) (different : base ≠ other)
    (n m : Nat) : tag base n ≠ tag other m := by
  intro same
  have letters := letters_tag wordy n
  rw [same, letters_tag wordy' m] at letters
  exact different (String.toList_inj.mp (List.cons.inj letters).2.symm)

instance (base : String) : Decidable (Wordy base) := inferInstanceAs (Decidable (_ = []))

theorem tag_ne_noexc {base : String} (listed : base ∈ labelBases) (n m : Nat) : tag base n ≠ tag "noexc" m := by
  have all : ∀ base ∈ labelBases, Wordy base ∧ base ≠ "noexc" := by decide +kernel
  exact tag_ne (all base listed).1 (by decide +kernel) (all base listed).2 n m

end Emit

/-! ## The innermost target -/

namespace Stacked

/-- Watches that stacks come about by entering statements and copies of last blocks. -/
def Watch.standing (t : ClassTable) : Watch t where
  holds σ := ∀ env : Emit.Env, env.classes = t → ∃ K, Stands env σ K
  good _ := True
  operands _ _ _ := trivial
  values _ _ _ := trivial
  parts _ _ _ := trivial
  initial _ _ := trivial
  loop holds exit next isSwitch env table :=
    (holds env table).imp fun _ stands => stands.framed exit next isSwitch
  guard holds label last _ env table := (holds env table).elim fun _ stands => ⟨_, stands.guarded label last⟩
  start label _ _ := ⟨[], .enter label⟩
  cut holds held :=
    ⟨trivial, fun env table => (holds env table).elim fun _ stands => (stands.cut held).2.imp fun _ own => own.1⟩

/-- At every point of a run the stacks are empty, or have come about so. -/
theorem stands_pointsAt (t : Inference) (depth : Nat) (hints : Hints) (seed : Int64) {p : Point}
    (mem : p ∈ t.pointsAt depth hints seed) :
    p.around = .empty ∨ ∀ env : Emit.Env, env.classes = t.classes → ∃ K, Stands env p.around K :=
  (t.fine_pointsAt (.standing t.classes) depth hints seed (fun _ _ => trivial) (fun _ _ _ _ => trivial)
    (fun _ _ _ _ => trivial) (fun _ _ _ _ _ _ => trivial) (fun _ _ => trivial) p mem).around

end Stacked

/-- Only places, jumps and calls have a label among their operands. -/
theorem Assembly.Instr.Formed.flow {i : Instr} (formed : i.Formed) {l : String} (names : .label l ∈ i.args)
    (noCall : i.op ≠ .call) : i.op = .label ∨ i.op.isJump := by
  cases formed with
  | mark => exact .inl rfl
  | jump isJump => exact .inr isJump
  | call | callAt => exact absurd rfl noCall
  | move keeps value =>
      simp only [List.mem_cons, List.not_mem_nil, or_false] at names
      rcases names with rfl | rfl
      · cases keeps
      · cases value
  | compute _ _ word =>
      simp only [List.mem_cons, List.not_mem_nil, or_false, reduceCtorEq, false_or] at names
      subst names
      cases word
  | pass _ value =>
      simp only [List.mem_cons, List.not_mem_nil, or_false, reduceCtorEq, false_or] at names
      subst names
      cases value
  | load | itself | select | widen | flag | alone | extend | fetch | enter | leave => simp at names

/-- A label that is placed, or that an instruction other than a call names, is one of those that are made where
    exceptions are delivered directly. -/
theorem Inference.labels_listed (t : Inference) (hints : Hints) (seed : Int64) {r : Routine}
    (mem : r ∈ (t.generate hints seed).1.routines) {i : Instr} (inside : i ∈ r.code) (noCall : i.op ≠ .call)
    {l : String} (names : .label l ∈ i.args) : ∃ base ∈ Emit.labelBases, ∃ n, l = Emit.tag base n := by
  obtain ⟨body, code, takes⟩ := t.takes_generate hints seed r mem
  -- the entry and the exit of a routine name no label
  have amid {i : Instr} (inside : i ∈ r.code) (flow : i.op = .label ∨ i.op.isJump) : i ∈ body := by
    rw [code, List.cons_append, List.mem_cons, List.mem_append, List.mem_singleton] at inside
    rcases inside with rfl | inside | rfl
    · rcases flow with flow | flow <;> cases flow
    · exact inside
    · rcases flow with flow | flow <;> cases flow
  have placed {i : Instr} (inside : i ∈ r.code) (isLabel : i.op = .label) :
      ∃ base ∈ Emit.labelBases, ∃ n, i.args = [.label (Emit.tag base n)] :=
    (takes i (amid inside (.inl isLabel))).mark isLabel
  rcases (t.formed_generate hints seed mem inside).flow names noCall with isLabel | isJump
  · obtain ⟨base, listed, n, args⟩ := placed inside isLabel
    rw [args, List.mem_singleton] at names
    exact ⟨base, listed, n, Operand.label.inj names⟩
  · obtain ⟨l', args, stands⟩ := (takes i (amid inside (.inr isJump))).resolves.jump isJump
    obtain ⟨base, listed, n, same⟩ := placed stands rfl
    rw [args, List.mem_singleton] at names
    cases names
    rw [List.singleton_inj] at same
    exact ⟨base, listed, n, Operand.label.inj same⟩

/-- At every point of every run, whether it ends or stops, the innermost target of exceptions runs exactly the pending
    last blocks itself; only before a routine has its first target there is nothing on the stacks. So whatever a copy
    of a last block would be, raising an exception there is one jump and has no copy, and the test behind a call is one
    conditional jump. The stacks describe an environment that arises, and in all of those it is the same. With enough
    jumps the run makes the image, unless initial values create each other in a circle, and nowhere in the image is a
    label for a longer way placed, or named by an instruction that calls no routine. -/
theorem Inference.targets_cover (t : Inference) (hints : Hints) (seed : Int64) :
    (∀ depth, ∀ p ∈ t.pointsAt depth hints seed, p.around = .empty ∨
      ∃ target outer, p.around.unwind = target :: outer ∧ target.depth = p.around.lasts.length ∧
        ∀ env : Emit.Env, env.classes = t.classes →
          (∃ K, (env.amid p.around K).Arises t.classes (p.around.lasts.map Stacked.Pending.body)) ∧
          ∀ knot, Stacked.Goes p.around p.around (Stacked.raise knot env) (Emit.jump .jmp target.label) ∧
            Stacked.Goes p.around p.around (Stacked.checkException knot env) (do
              Emit.emit .test [Emit.rdx, Emit.rdx]
              Emit.jump .jnz target.label)) ∧
    (∀ (env : Emit.Env) (pending : List Stmt), env.Arises t.classes pending →
      Emit.raise env = Emit.jump .jmp env.target.label ∧
      Emit.checkException env = (do
        Emit.emit .test [Emit.rdx, Emit.rdx]
        Emit.jump .jnz env.target.label)) ∧
    (t.classes.NoCircle →
      ∃ enough, ∀ depth, enough ≤ depth → t.generateAt depth hints seed = some (t.generate hints seed)) ∧
    ∀ r ∈ (t.generate hints seed).1.routines, ∀ i ∈ r.code, i.op ≠ .call →
      ∀ n, Operand.label (Emit.tag "noexc" n) ∉ i.args := by
  refine ⟨fun depth p mem => ?_, fun env pending arises => ⟨arises.settled.raise, arises.settled.checkException⟩,
    fun free => t.generateAt_eq free hints seed, fun r mem i inside noCall n names => ?_⟩
  · refine (Stacked.stands_pointsAt t depth hints seed mem).imp_right fun stands => ?_
    obtain ⟨K, own⟩ := stands (t.env hints) rfl
    obtain ⟨target, outer, top, covers⟩ := own.covers
    refine ⟨target, outer, top, covers, fun env table => ?_⟩
    obtain ⟨K, own⟩ := stands env table
    exact ⟨⟨K, table ▸ own.arises⟩, fun knot => ⟨(Stacked.follows_raise top covers).goes,
      (Stacked.follows_checkException top covers).goes⟩⟩
  · obtain ⟨base, listed, k, same⟩ := t.labels_listed hints seed mem inside noCall names
    exact Emit.tag_ne_noexc listed k n same.symm

/-- A call and a throw below two guarded statements, left by a return through both last blocks, of which the outer
    one has a guarded statement of its own. -/
def guardedTwice : String :=
  "func f(a) \x7b try \x7b try \x7b f(1); return 2; \x7d finally \x7b throw 3; \x7d \x7d " ++
    "finally \x7b try \x7b f(4); \x7d finally \x7b print(5); \x7d \x7d \x7d f(0);"

theorem Inference.targets_cover_guardedTwice : ∃ p p' hints, Program.accept? 0 guardedTwice = some (p, p', hints) ∧
    let t := p'.infer hints
    (t.generate hints 0).1.routines.length = 2 ∧
    (∀ r ∈ (t.generate hints 0).1.routines, ∀ i ∈ r.code, i.op ≠ .call →
      ∀ n, Operand.label (Emit.tag "noexc" n) ∉ i.args) ∧ t.classes.NoCircle ∧
    (∃ depth, t.generateAt depth hints 0 = some (t.generate hints 0)) ∧
    ∃ q ∈ t.pointsAt 8 hints 0, ∃ target outer, q.around.unwind = target :: outer ∧ target.depth = 2 ∧
      q.around.lasts.length = 2 ∧ ∀ knot,
        Stacked.Goes q.around q.around (Stacked.raise knot (t.env hints)) (Emit.jump .jmp target.label) := by
  have computed : (Program.accept? 0 guardedTwice).any fun r =>
      (r.2.1.infer r.2.2).classes.isEmpty && ((r.2.1.infer r.2.2).generate r.2.2 0).1.routines.length == 2 &&
        ((r.2.1.infer r.2.2).pointsAt 8 r.2.2 0).any (·.around.lasts.length == 2) := by
    rewrite [show Program.accept? 0 guardedTwice = _ from Program.accept?_append 0 _ _]
    decide +kernel
  obtain ⟨⟨p, p', hints⟩, accepted, computed⟩ := (Option.any_eq_true _ _).mp computed
  simp only [Bool.and_eq_true, List.isEmpty_iff, List.any_eq_true, beq_iff_eq] at computed
  obtain ⟨⟨none_, count⟩, q, point, nested⟩ := computed
  obtain ⟨covers, -, whole, absent⟩ := (p'.infer hints).targets_cover hints 0
  have free : (p'.infer hints).classes.NoCircle :=
    ClassTable.noCircle_of_rank (fun _ => 0) fun c mem => by rw [none_] at mem; cases mem
  obtain ⟨depth, made⟩ := whole free
  obtain empty | ⟨target, outer, top, covers, raises⟩ := covers 8 q point
  · rw [empty] at nested
    cases nested
  · exact ⟨p, p', hints, accepted, count, absent, free, ⟨depth, made depth le_rfl⟩, q, point, target, outer, top,
      covers.trans nested, nested, fun knot => ((raises _ rfl).2 knot).1⟩

end Lantern
