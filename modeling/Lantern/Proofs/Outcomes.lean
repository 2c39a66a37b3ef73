import Mathlib
import Lantern.Diagnostic

/-!
# Results of checked computations

A checked computation stops at its first error. What it gives otherwise is found step by step: a
property of its result follows from properties of the results of its parts.
-/

namespace Lantern.Checked

/-- What a computation gives if it does not stop. -/
def Gives {α : Type} (x : Checked α) (P : α → Prop) : Prop :=
  ∀ log a, (StateT.run (ExceptT.run x) log).1 = .ok a → P a

variable {α β : Type} {P : α → Prop} {Q : β → Prop}

theorem gives_pure {a : α} (holds : P a) : Gives (pure a : Checked α) P := by
  intro log b eq
  obtain rfl := Except.ok.inj eq
  exact holds

theorem run_bind (x : Checked α) (f : α → Checked β) (log : Array Diagnostic) :
    StateT.run (ExceptT.run (x >>= f)) log =
      match StateT.run (ExceptT.run x) log with
      | (.ok a, log') => StateT.run (ExceptT.run (f a)) log'
      | (.error e, log') => (.error e, log') := by
  show StateT.run (ExceptT.run x >>= ExceptT.bindCont f) log = _
  rw [StateT.run_bind]
  cases h : StateT.run (ExceptT.run x) log with
  | mk r log' => cases r <;> rfl

theorem Gives.bind {x : Checked α} {f : α → Checked β} (first : Gives x P)
    (rest : ∀ a, P a → Gives (f a) Q) : Gives (x >>= f) Q := by
  intro log b eq
  rw [run_bind] at eq
  have holds := first log
  cases h : StateT.run (ExceptT.run x) log with
  | mk r log' =>
      rw [h] at eq holds
      cases r with
      | ok a => exact rest a (holds a rfl) log' b eq
      | error e => cases eq

theorem gives_fail {at_ : Span} {message : String} : Gives (fail at_ message : Checked α) P :=
  fun _ _ eq => by cases eq

theorem gives_true {x : Checked α} : Gives x fun _ => True := fun _ _ _ => trivial

theorem Gives.mono {P' : α → Prop} {x : Checked α} (gives : Gives x P) (le : ∀ a, P a → P' a) :
    Gives x P' :=
  fun log a eq => le a (gives log a eq)

theorem Gives.of_outcome {x : Checked α} {a : α} (gives : Gives x P) (done : x.outcome.1 = some a) :
    P a := by
  unfold outcome at done
  have holds := gives #[]
  cases h : StateT.run (ExceptT.run x) #[] with
  | mk r log =>
      rw [h] at done holds
      cases r with
      | ok b => exact Option.some.inj done ▸ holds b rfl
      | error e => cases done

end Lantern.Checked
