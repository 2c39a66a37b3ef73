import Lantern.Proofs.Collections
import Lantern.Proofs.Expressions
import Lantern.Proofs.Folding
import Lantern.Proofs.Temporaries

/-!
# Powers

A power of two literals is computed by squaring while a program is compiled, and any other power by a counted
loop while it runs. Both wrap around at every step, the one at other numbers than the other; they agree because
wrapping around commutes with products.
-/

namespace Lantern

open Assembly
open Emit (Gen Lays lays_bind lays_emit layout shown)

namespace Meaning

theorem power_eq_iterate (base : Word) (n : Nat) : power base n = (· * base)^[n] 1 := by
  induction n with
  | zero => rfl
  | succ n ih => rw [Function.iterate_succ_apply', ← ih, power]

/-- It is the power of integers, wrapped around once. -/
theorem power_eq_ofInt (base : Word) (n : Nat) : power base n = Int64.ofInt (base.toInt ^ n) := by
  induction n with
  | zero => rw [pow_zero, power]; rfl
  | succ n ih => rw [power, ih, pow_succ, Int64.ofInt_mul, Int64.ofInt_toInt]

end Meaning

/-- The code of a power is that of its operands, with a temporary for the base between, and then the loop. -/
theorem Emit.lays_power {T : Emit.Text} {env : Emit.Env} [env.Tidy] {i : Info} {l r : Expr} {g g' : Gen}
    (lays : Lays T (Emit.expr env (.binary i .pow l r)) g () g') :
    ∃ g₁ g₂, Lays T (Emit.expr env l) g.bump.bump () g₁ ∧
      Lays T (Emit.expr env r) (g₁.lift.push .mov [.slot (env.locals.length + 1 + g₁.temps), Emit.rax]) () g₂ ∧
      ∀ {W : Type} {H : Host W} {rs : List Routine} {noted : Prop} {m : Machine W}, Distinct T.code →
        Machine.At T g₂ m → Machine.Reach H rs noted m fun n => n.pc = g'.code.size ∧
          n.rax = Meaning.power (m.slots (env.locals.length + 1 + g₁.temps)) m.rax.toInt.toNat ∧
          Machine.view n = Machine.view m ∧ n.rdx = m.rdx ∧ n.r11 = m.r11 := by
  have whole : Emit.expr env (.binary i .pow l r) = Emit.powerForm env ⟨l, Emit.expr env l⟩ ⟨r, Emit.expr env r⟩ := by
    simp only [Emit.expr]
    cases env.classes.length <;> rfl
  rw [whole, Meaning.powerForm_eq] at lays
  dsimp only at lays
  simp only [lays_bind, lays_emit, layout, shown] at lays
  obtain ⟨g₁, leftL, spill, g₂, rightL, mov₁, mov₂, g₃, rounds, rfl⟩ := lays
  refine ⟨g₁, g₂, leftL, rightL, fun distinct here => ?_⟩
  refine (Meaning.reach_power here distinct mov₁ mov₂ rounds).mono fun n _ ends => ?_
  obtain ⟨state, product⟩ := ends
  exact ⟨state.here.pc, product, state.seen, state.rdx, state.r11⟩

/-- For every base and every exponent that is not negative, squaring gives what multiplying 1 by the base as often as
    the exponent says gives, and so does the loop in the code of a power, wherever that code stands in a routine of a
    program: a machine that stands behind the code of the operands, with the base in its temporary and the exponent in
    `rax`, gets to the end of the code with the power in `rax`. It keeps everything else but the counter and the
    flags. -/
theorem Inference.powers_agree (t : Inference) (hints : Hints) (seed : Int64) (base exp : Int64) :
    power base exp = (· * base)^[exp.toInt.toNat] 1 ∧ power base exp = Int64.ofInt (base.toInt ^ exp.toInt.toNat) ∧
    ∀ q ∈ (t.generate hints seed).1.routines, ∀ (pool : List String) (env : Emit.Env) (pending : List Stmt)
      (i : Info) (l r : Expr) (g g' : Gen), env.Arises t.classes pending →
      Lays ⟨q.code, pool⟩ (Emit.expr env (.binary i .pow l r)) g () g' →
      ∃ g₁ g₂, Lays ⟨q.code, pool⟩ (Emit.expr env l) g.bump.bump () g₁ ∧
        Lays ⟨q.code, pool⟩ (Emit.expr env r)
          (g₁.lift.push .mov [.slot (env.locals.length + 1 + g₁.temps), Emit.rax]) () g₂ ∧
        ∀ {W : Type} (H : Host W) (m : Machine W), m.code = q.code → m.pc = g₂.code.size →
          m.slots (env.locals.length + 1 + g₁.temps) = base → m.rax = exp →
          ∃ n, Machine.Run H (t.generate hints seed).1.routines False m n ∧ n.pc = g'.code.size ∧
            n.rax = power base exp ∧ Machine.view n = Machine.view m ∧ n.rdx = m.rdx ∧ n.r11 = m.r11 := by
  rw [Meaning.power_eq]
  refine ⟨Meaning.power_eq_iterate base _, Meaning.power_eq_ofInt base _,
    fun q mem pool env pending i l r g g' arises lays => ?_⟩
  have tidy := arises.tidy
  obtain ⟨g₁, g₂, leftL, rightL, reaches⟩ := Emit.lays_power lays
  refine ⟨g₁, g₂, leftL, rightL, fun H m code pc slot rax => ?_⟩
  rw [← slot, ← rax]
  exact reaches (t.delivering_generate hints seed mem).distinct ⟨code, pc⟩

/-- In the first routine of a program the power of two parameters is computed from the third instruction on. -/
theorem Inference.powers_agree_parameters :
    ∃ p p' hints, Program.accept? 0 "func f(x, y) { return x ^ y; }" = some (p, p', hints) ∧
      ∃ q ∈ ((p'.infer hints).generate hints 0).1.routines, ∃ m n : Machine Unit, m.code = q.code ∧ m.rax = 5 ∧
        (∀ i, m.slots i = -3) ∧ Machine.Run Collections.twoElements ((p'.infer hints).generate hints 0).1.routines False m n ∧
        n.rax = -243 ∧ n.slots = m.slots := by
  let inside (t : Inference) (hints : Hints) : Emit.Env := { t.env hints with locals := ["x", "y"] }
  let tail : Emit.Tail := ⟨"Lret0", "Lunwind1", "Lepi2"⟩
  let start (q : Routine) : Gen := { Meaning.blank with labels := 3, code := (q.code.take 3).toArray }
  let product : Expr := .binary default .pow (.ident default "x") (.ident default "y")
  -- the three instructions before are the entry and the fetches of the parameters
  have laid : ((Program.accept? 0 "func f(x, y) { return x ^ y; }").any fun (_, p', hints) =>
      ((p'.infer hints).generate hints 0).1.routines.any fun q =>
        let g' := ((Emit.expr ((inside (p'.infer hints) hints).enter tail) product).run (start q)).2
        decide (g'.code.toList = q.code.take g'.code.size)) = true := by
    decide +kernel
  obtain ⟨⟨p, p', hints⟩, accepted, laid⟩ := (Option.any_eq_true _ _).mp laid
  obtain ⟨q, mem, laid⟩ := List.any_eq_true.mp laid
  have table : (inside (p'.infer hints) hints).classes = (p'.infer hints).classes := rfl
  obtain ⟨g₁, g₂, -, -, runs⟩ := ((p'.infer hints).powers_agree hints 0 (-3) 5).2.2 q mem _ _ [] default _ _ _ _
    (.enter table tail) (Emit.lays_of_take (x := Emit.expr _ product) (of_decide_eq_true laid))
  let m : Machine Unit := { Meaning.loaded q.code with pc := g₂.code.size, rax := 5, slots := fun _ => -3 }
  obtain ⟨n, run, -, rax, seen, -⟩ := runs Collections.twoElements m rfl rfl rfl rfl
  refine ⟨p, p', hints, accepted, q, mem, m, n, rfl, rfl, fun _ => rfl, run, ?_, congrArg Machine.View.slots seen⟩
  rw [rax]
  decide +kernel

end Lantern
