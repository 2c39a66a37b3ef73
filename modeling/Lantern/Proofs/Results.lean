import Lantern.Proofs.Courses

/-!
# Declared results

The types that results are declared with are gathered before anything is checked, and checking leaves them
as they are. So a checked program declares none for a function of the library.
-/

namespace Lantern

namespace Check

/-! ## Declarations -/

/-- No result is declared under the symbol of a library function. -/
def Apart (h : Hints) : Prop := ∀ f : LibFunc, h.results.has (SymbolName.func f.name) = false

theorem Apart.addRoutine {h : Hints} (apart : Apart h) {sym : String} (params : List Sigil) {result : Option Sigil}
    (other : result.isSome → ∀ f : LibFunc, SymbolName.func f.name ≠ sym) : Apart (h.addRoutine sym params result) := by
  intro f
  unfold Hints.addRoutine
  cases result with
  | none => exact apart f
  | some r =>
      rw [Bool.eq_false_iff]
      intro known
      rcases (Assoc.has_put _ _ _ _).mp known with same | old
      · exact other rfl f same
      · exact absurd old (by simp [apart f])

theorem func_ne_methodSymbol (name cls : String) (m : Method) : SymbolName.func name ≠ methodSymbol cls m := by
  intro same
  have first := congrArg (fun s => s.toList.head?) same
  unfold methodSymbol at first
  split at first <;>
    simp [SymbolName.func, SymbolName.method, SymbolName.staticMethod, String.toList_append] at first

theorem Apart.classHints {h : Hints} (apart : Apart h) (c : ClassDecl) : Apart (classHints h c) := by
  unfold Check.classHints
  dsimp only
  have ofMethods (ms : List Method) (h : Hints) (apart : Apart h) : Apart (ms.foldl (fun h m =>
      h.addRoutine (methodSymbol c.name m)
        ((if m.isStatic then [] else [Sigil.object c.name]) ++ paramSigils m.params) m.result) h) := by
    induction ms generalizing h with
    | nil => exact apart
    | cons m ms ih => exact ih _ (apart.addRoutine _ fun _ f => func_ne_methodSymbol f.name c.name m)
  have ofCtors (ks : List Ctor) (h : Hints) (apart : Apart h) : Apart (ks.foldl (fun h k =>
      h.addRoutine (SymbolName.ctor c.name k.params.length)
        ([Sigil.object c.name] ++ paramSigils k.params) none) h) := by
    induction ks generalizing h with
    | nil => exact apart
    | cons k ks ih => exact ih _ (apart.addRoutine _ nofun)
  exact ofCtors _ _ (ofMethods _ _ apart)

theorem gives_apart_addFunc {d : Declarations} (apart : Apart d.hints) (f : FuncDecl) :
    (addFunc d f).Gives fun d' => Apart d'.hints := by
  unfold addFunc
  dsimp only
  split
  · exact Checked.gives_fail.bind (P := fun _ => False) nofun
  · next notLibrary =>
      split
      · exact Checked.gives_fail.bind (P := fun _ => False) nofun
      · refine Checked.gives_pure (apart.addRoutine _ fun _ g same => notLibrary ?_)
        have called : g.name = f.name := by simpa [SymbolName.func] using same
        rw [← called]
        cases g <;> rfl

theorem gives_apart_addClass {d : Declarations} (apart : Apart d.hints) (c : ClassDecl) :
    (addClass d c).Gives fun d' => Apart d'.hints := by
  have fails {β : Type} {Q : β → Prop} {at_ : Span} {message : String} {f : Unit → Checked β} :
      Checked.Gives (Checked.fail at_ message >>= f) Q :=
    Checked.gives_fail.bind (P := fun _ => False) nofun
  unfold addClass
  dsimp only
  split
  · exact fails
  · split
    · exact fails
    · split
      · exact fails
      · split
        · exact fails
        · exact Checked.gives_pure (apart.classHints c)

theorem gives_apart_gather {d : Declarations} (apart : Apart d.hints) (items : List Stmt) :
    (gather d items).Gives fun d' => Apart d'.hints := by
  induction items generalizing d with
  | nil => exact Checked.gives_pure apart
  | cons s items ih =>
      cases s with
      | func f => exact (gives_apart_addFunc apart f).bind fun d' own => ih own
      | class_ c => exact (gives_apart_addClass apart c).bind fun d' own => ih own
      | _ => exact ih apart

end Check

/-- A checked program declares no result for a function of the library. -/
theorem Program.gives_apart (p : Program) : p.check.Gives fun r => Check.Apart r.2 := by
  refine (Check.gives_apart_gather (d := .empty) (fun _ => rfl) p.items).bind fun d apart => ?_
  refine Checked.gives_true.bind fun _ _ => ?_
  refine ((inferInstance : Check.Steady Check.SameResults (Check.items d p.items)).gives _).bind fun r same => ?_
  refine Checked.gives_pure fun f => ?_
  rw [same]
  exact apart f

end Lantern
