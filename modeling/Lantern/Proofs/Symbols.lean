import Mathlib
import Lantern.Proofs.Reading
import Lantern.SymbolName

/-!
# Symbols of a program

Each kind of symbol writes the names it is made of in a form of its own. Names hold no point and are
no reserved words, so the text of a symbol tells its kind and its names.
-/

namespace Lantern

/-! ## Parts of a text -/

theorem append_cons_inj {α : Type} {sep : α} {xs ys xs' ys' : List α} (free : sep ∉ xs)
    (free' : sep ∉ xs') (eq : xs ++ sep :: ys = xs' ++ sep :: ys') : xs = xs' ∧ ys = ys' := by
  induction xs generalizing xs' with
  | nil =>
      cases xs' with
      | nil => exact ⟨rfl, (List.cons.inj eq).2⟩
      | cons x xs' =>
          obtain ⟨rfl, -⟩ := List.cons.inj eq
          exact absurd List.mem_cons_self free'
  | cons x xs ih =>
      cases xs' with
      | nil =>
          obtain ⟨rfl, -⟩ := List.cons.inj eq
          exact absurd List.mem_cons_self free
      | cons x' xs' =>
          obtain ⟨rfl, tails⟩ := List.cons.inj eq
          obtain ⟨rfl, rfl⟩ := ih (fun mem => free (List.mem_cons_of_mem _ mem))
            (fun mem => free' (List.mem_cons_of_mem _ mem)) tails
          exact ⟨rfl, rfl⟩

theorem Identifier.not_mem {s : String} (isName : Identifier s) {c : Char}
    (other : Token.continuesName c = false) : c ∉ s.toList :=
  fun mem => by simp [isName.chars c mem] at other

theorem Identifier.no_point {s : String} (isName : Identifier s) : '.' ∉ s.toList :=
  isName.not_mem (by decide)

theorem Identifier.no_colon {s : String} (isName : Identifier s) : ':' ∉ s.toList :=
  isName.not_mem (by decide)

theorem Identifier.ne_keyword {s : String} (isName : Identifier s) (word : Keyword) :
    s ≠ word.spelling := by
  rintro rfl
  exact absurd isName.free (by cases word <;> decide)

theorem toString_nat_inj {m n : Nat} (eq : toString m = toString n) : m = n := by
  have digits := congrArg (fun s => Nat.ofDigitChars 10 s.toList 0) eq
  simpa [toString, Nat.repr] using digits

theorem toString_int_inj {m n : Int} (eq : toString m = toString n) : m = n := by
  have sign (k : Nat) (l : Nat) : toString k ≠ "-" ++ toString l := by
    intro eq
    have first : '-' ∈ Nat.toDigits 10 k := by
      have : '-' ∈ (toString k).toList := by simp [eq]
      simpa [toString, Nat.repr] using this
    exact absurd (Nat.isDigit_of_mem_toDigits (by decide) (by decide) first) (by decide)
  cases m with
  | ofNat m =>
      cases n with
      | ofNat n => exact congrArg Int.ofNat (toString_nat_inj eq)
      | negSucc n => exact absurd eq (sign m (n + 1))
  | negSucc m =>
      cases n with
      | ofNat n => exact absurd eq.symm (sign n (m + 1))
      | negSucc n =>
          have eq : "-" ++ toString (m + 1) = "-" ++ toString (n + 1) := eq
          have := toString_nat_inj (String.append_right_inj _ |>.mp eq)
          omega

namespace SymbolName

/-- A symbol by its kind and the names it is made of. -/
inductive Symbol where
  /-- A function. -/
  | func (name : String)
  /-- A global variable. -/
  | globalVar (name : String)
  /-- An instance method. -/
  | method (cls name : String)
  /-- A static method. -/
  | staticMethod (cls name : String)
  /-- A static field. -/
  | staticField (cls name : String)
  /-- A constructor by its number of parameters. -/
  | ctor (cls : String) (arity : Int)
  /-- A method table. -/
  | methodTable (cls : String)
  deriving DecidableEq

namespace Symbol

/-- The symbol as written. -/
def text : Symbol → String
  | func name => SymbolName.func name
  | globalVar name => SymbolName.globalVar name
  | method cls name => SymbolName.method cls name
  | staticMethod cls name => SymbolName.staticMethod cls name
  | staticField cls name => SymbolName.staticField cls name
  | ctor cls arity => SymbolName.ctor cls arity
  | methodTable cls => SymbolName.methodTable cls

/-- The names of a symbol are names of the language. -/
def Named : Symbol → Prop
  | func name | globalVar name => Identifier name
  | method cls name | staticMethod cls name | staticField cls name => Identifier cls ∧ Identifier name
  | ctor cls _ | methodTable cls => Identifier cls

/-- The class a symbol belongs to and what follows the point behind it. -/
def member? : Symbol → Option (String × String)
  | func _ | globalVar _ => none
  | method cls name => some (cls, name)
  | staticMethod cls name => some (cls, "static." ++ name)
  | staticField cls name => some (cls, "var." ++ name)
  | ctor cls arity => some (cls, "constructor." ++ toString arity)
  | methodTable cls => some (cls, "class")

theorem text_of_member {s : Symbol} {cls rest : String} (own : s.member? = some (cls, rest)) :
    s.text.toList = '_' :: '_' :: cls.toList ++ '.' :: rest.toList := by
  cases s <;> cases own <;>
    simp [text, SymbolName.method, SymbolName.staticMethod, SymbolName.staticField, SymbolName.ctor,
      SymbolName.methodTable]

theorem Named.of_member {s : Symbol} (named : s.Named) {cls rest : String}
    (own : s.member? = some (cls, rest)) : Identifier cls := by
  cases s <;> cases own
  case method | staticMethod | staticField => exact named.1
  case ctor | methodTable => exact named

/-- What follows the point is a name for methods only. -/
theorem isMethod_of_identifier {s : Symbol} {cls rest : String} (own : s.member? = some (cls, rest))
    (isName : Identifier rest) : s = .method cls rest := by
  cases s with
  | func | globalVar => cases own
  | method cls name => cases own; rfl
  | methodTable cls =>
      cases own
      exact absurd rfl (isName.ne_keyword .class_)
  | staticMethod | staticField | ctor =>
      cases own
      exact absurd isName.no_point (by simp)

/-- What follows the point tells the kind of a member and its name. -/
theorem eq_of_member {a b : Symbol} (namedA : a.Named) (namedB : b.Named) {cls rest : String}
    (ownA : a.member? = some (cls, rest)) (ownB : b.member? = some (cls, rest)) : a = b := by
  cases a with
  | func | globalVar => cases ownA
  | method cls name =>
      cases ownA
      exact (isMethod_of_identifier ownB namedA.2).symm
  | staticMethod | staticField | ctor | methodTable =>
      cases b with
      | func | globalVar => cases ownB
      | method cls name =>
          cases ownB
          exact isMethod_of_identifier ownA namedB.2
      | staticMethod | staticField | ctor | methodTable =>
          simp only [member?, Option.some.injEq, Prod.mk.injEq] at ownA ownB
          obtain ⟨rfl, rfl⟩ := ownA
          obtain ⟨rfl, eq⟩ := ownB
          -- The words behind the point differ in their first two letters.
          first
          | rw [(String.append_right_inj _).mp eq]
          | rw [toString_int_inj ((String.append_right_inj _).mp eq)]
          | rfl
          | exact absurd (congrArg (·.toList.take 2) eq) (by simp)

theorem text_of_free {s : Symbol} (free : s.member? = none) :
    (∃ name, s = .func name ∧ s.text.toList = 'f' :: 'n' :: '_' :: name.toList) ∨
      ∃ name, s = .globalVar name ∧ s.text.toList = 'g' :: 'v' :: '_' :: name.toList := by
  cases s with
  | func name => exact .inl ⟨name, rfl, by simp [text, SymbolName.func]⟩
  | globalVar name => exact .inr ⟨name, rfl, by simp [text, SymbolName.globalVar]⟩
  | _ => cases free

/-- Different symbols are written differently. -/
theorem text_inj {a b : Symbol} (namedA : a.Named) (namedB : b.Named) (eq : a.text = b.text) : a = b := by
  have chars := congrArg String.toList eq
  cases ownA : a.member? with
  | some pA =>
      rw [text_of_member ownA] at chars
      cases ownB : b.member? with
      | some pB =>
          rw [text_of_member ownB] at chars
          have behind := (List.cons.inj (List.cons.inj chars).2).2
          obtain ⟨cls, rest⟩ := append_cons_inj (namedA.of_member ownA).no_point
            (namedB.of_member ownB).no_point behind
          rw [← Prod.ext (String.toList_inj.mp cls) (String.toList_inj.mp rest)] at ownB
          exact eq_of_member namedA namedB ownA ownB
      | none =>
          obtain ⟨name, -, written⟩ | ⟨name, -, written⟩ := text_of_free ownB
          · simp [written] at chars
          · simp [written] at chars
  | none =>
      obtain ⟨name, rfl, written⟩ | ⟨name, rfl, written⟩ := text_of_free ownA
      all_goals
        rw [written] at chars
        cases ownB : b.member? with
        | some pB => simp [text_of_member ownB] at chars
        | none =>
            obtain ⟨name', rfl, written'⟩ | ⟨name', rfl, written'⟩ := text_of_free ownB
            all_goals simp_all [String.toList_inj]

end Symbol

theorem superKey_inj {cls cls' name name' : String} (isName : Identifier cls) (isName' : Identifier cls')
    (eq : superKey cls name = superKey cls' name') : cls = cls' ∧ name = name' := by
  have chars : cls.toList ++ ':' :: ':' :: name.toList = cls'.toList ++ ':' :: ':' :: name'.toList := by
    simpa [superKey] using congrArg String.toList eq
  obtain ⟨same, rest⟩ := append_cons_inj isName.no_colon isName'.no_colon chars
  exact ⟨String.toList_inj.mp same, String.toList_inj.mp (List.cons.inj rest).2⟩

theorem superKey_ne {cls name other : String} (isName : Identifier other) : superKey cls name ≠ other := by
  rintro rfl
  exact isName.no_colon (by simp [superKey])

end SymbolName

end Lantern
