import Mathlib
import Lantern.Flag.Parse

/-!
# What a command line asks for

A flag may be called by its long name or its shorthand, and its value may stand in the same argument or in
the next one. However the parts of a command line are spelled, reading it does what they ask for in their
order: positional arguments are gathered, lists are added to, and every other flag holds the last value that
is given to it.
-/

namespace Lantern

namespace Flag

/-- What a flag can hold. -/
inductive Kind where
  | text | switch | number | items
  deriving Repr, DecidableEq

/-- Whether a text is a value of the kind. -/
def Kind.accepts : Kind → String → Bool
  | .text, _ | .items, _ => true
  | .switch, s => (readSwitch? s).isSome
  | .number, s => (Text.Numeral.readInt s).isOk

namespace Value

/-- The kind of what is held. -/
def kind : Value → Kind
  | text _ => .text
  | switch _ => .switch
  | number _ => .number
  | items _ => .items

/-- What is held after texts were given in order: a list has them added, anything else holds the last of
    them, or what it held before if there is none. -/
structure Ends (v : Value) (given : List String) (v' : Value) : Prop where
  list : ∀ xs, v = items xs → v' = items (xs ++ given)
  last : v.kind ≠ .items → ∀ s, given.getLast? = some s → v.give s = .ok v'
  kept : v.kind ≠ .items → given = [] → v' = v

theorem isSwitch_eq (v : Value) : v.isSwitch = decide (v.kind = .switch) := by
  cases v <;> rfl

theorem kind_of_give {v v' : Value} {s : String} (gives : v.give s = .ok v') : v'.kind = v.kind := by
  cases v with
  | text | items => cases gives; rfl
  | switch | number =>
      simp only [give] at gives
      split at gives
      · cases gives; rfl
      · cases gives

theorem give_of_accepts {v : Value} {s : String} (accepts : v.kind.accepts s = true) : ∃ v', v.give s = .ok v' := by
  cases v with
  | text | items => exact ⟨_, rfl⟩
  | switch =>
      obtain ⟨on, reads⟩ := Option.isSome_iff_exists.mp accepts
      exact ⟨.switch on, by simp only [give, reads]⟩
  | number =>
      cases reads : Text.Numeral.readInt s with
      | ok n => exact ⟨.number (Int64.ofInt n), by simp only [give, reads]⟩
      | error => simp [kind, Kind.accepts, reads, Except.isOk, Except.toBool] at accepts

/-- What a text makes of a value that is no list does not depend on the value. -/
theorem give_congr {v v' : Value} (same : v'.kind = v.kind) (single : v.kind ≠ .items) (s : String) :
    v'.give s = v.give s := by
  cases v <;> cases v' <;> first | rfl | exact absurd rfl single | cases same

theorem ends_nil (v : Value) : v.Ends [] v where
  list xs held := by rw [held, List.append_nil]
  last _ _ none := nomatch none
  kept _ _ := rfl

/-- A value is given before the others. -/
theorem Ends.cons {v v' v'' : Value} {s : String} {given : List String} (gives : v.give s = .ok v')
    (ends : v'.Ends given v'') : v.Ends (s :: given) v'' where
  list xs held := by
    subst held
    cases gives
    simpa using ends.list _ rfl
  last single t last := by
    have same := kind_of_give gives
    cases given with
    | nil =>
        obtain rfl : s = t := Option.some.inj last
        rwa [ends.kept (same ▸ single) rfl]
    | cons u given =>
        rw [List.getLast?_cons_cons] at last
        rw [← give_congr same single]
        exact ends.last (same ▸ single) t last
  kept _ none := nomatch none

end Value

end Flag

/-! ## What command lines are written in -/

/-- What can be said to a flag set: the kinds of its flags by their long names, and the long names that
    shorthands stand for. -/
structure Vocabulary where
  kind? : String → Option Flag.Kind
  longName? : String → Option String

/-- The vocabulary of a flag set. -/
def FlagSet.vocabulary (fs : FlagSet) : Vocabulary where
  kind? name := (fs.find? name).map (·.value.kind)
  longName? short := (fs.shorthands.find? (·.1 == short)).map (·.2)

/-- Names and shorthands can be read off an argument. -/
structure Vocabulary.Legible (voc : Vocabulary) : Prop where
  names : ∀ name kind, voc.kind? name = some kind →
    name ≠ "" ∧ '=' ∉ name.toList ∧ name.toList.head? ≠ some '-'
  shorthands : ∀ short name, voc.longName? short = some name →
    ∃ c : Char, short = String.singleton c ∧ c.toNat < 128 ∧ c ≠ '-' ∧ c ≠ '='

/-- How a flag is called. -/
inductive FlagMark where
  /-- By its long name, behind two dashes or one. -/
  | long (double : Bool) (name : String)
  /-- By its shorthand. -/
  | short (letter : Char)

/-- A part of a command line. -/
inductive Item where
  /-- A positional argument. -/
  | positional (arg : String)
  /-- A switch that is turned on: `--name`, `-name`, `-x`. -/
  | switched (m : FlagMark)
  /-- A value in the next argument: `--name v`, `-name v`, `-x v`. -/
  | followed (m : FlagMark) (value : String)
  /-- A value behind an equals sign: `--name=v`, `-name=v`, `-x=v`. -/
  | assigned (m : FlagMark) (value : String)
  /-- A value right behind a shorthand: `-xv`. -/
  | attached (letter : Char) (value : String)

/-- What a part of a command line asks for, however it is spelled. -/
inductive Request where
  /-- A positional argument. -/
  | positional (arg : String)
  /-- A value for the flag of a long name. -/
  | set (name value : String)
  deriving DecidableEq

namespace Request

/-- The argument, if it is positional. -/
def positional? : Request → Option String
  | positional arg => some arg
  | set .. => none

/-- The value, if it is one for the flag of the name. -/
def valueFor? (name : String) : Request → Option String
  | positional _ => none
  | set other value => if other = name then some value else none

/-- A value is given to a flag that takes it. -/
def Taken (voc : Vocabulary) : Request → Prop
  | positional _ => True
  | set name value => ∃ kind, voc.kind? name = some kind ∧ kind.accepts value = true

end Request

namespace FlagMark

/-- The mark as written. -/
def text : FlagMark → String
  | long double name => (if double then "--" else "-") ++ name
  | short c => "-" ++ String.singleton c

/-- The long name of the flag that is called. -/
def name (voc : Vocabulary) : FlagMark → String
  | long _ name => name
  | short c => (voc.longName? (String.singleton c)).getD ""

/-- The mark calls a flag of a kind. A shorthand does so unless it is a long name. -/
def Calls (voc : Vocabulary) (m : FlagMark) (kind : Flag.Kind) : Prop :=
  voc.kind? (m.name voc) = some kind ∧
    match m with
    | long .. => True
    | short c => (voc.longName? (String.singleton c)).isSome ∧ voc.kind? (String.singleton c) = none

end FlagMark

namespace Item

/-- The arguments the item is written in. -/
def args : Item → List String
  | positional arg => [arg]
  | switched m => [m.text]
  | followed m v => [m.text, v]
  | assigned m v => [m.text ++ "=" ++ v]
  | attached c v => ["-" ++ String.singleton c ++ v]

/-- What the item asks for. -/
def request (voc : Vocabulary) : Item → Request
  | positional arg => .positional arg
  | switched m => .set (m.name voc) "true"
  | followed m v | assigned m v => .set (m.name voc) v
  | attached c v => .set ((FlagMark.short c).name voc) v

/-- The item is well written: a positional argument does not look like a flag; a flag is called that takes
    the value, and no switch has a separate value or one behind its shorthand. What is attached to a
    shorthand does not make a long name of it. -/
def Fits (voc : Vocabulary) : Item → Prop
  | positional arg => arg.toList.head? ≠ some '-' ∨ arg.length < 2
  | switched m => m.Calls voc .switch
  | followed m v => ∃ kind, m.Calls voc kind ∧ kind ≠ .switch ∧ kind.accepts v = true
  | assigned m v => ∃ kind, m.Calls voc kind ∧ kind.accepts v = true ∧
    ((∃ c, m = .short c) → kind ≠ .switch)
  | attached c v => ∃ kind, (FlagMark.short c).Calls voc kind ∧ kind ≠ .switch ∧ kind.accepts v = true ∧
    v ≠ "" ∧ v.toList.head? ≠ some '=' ∧
      voc.kind? (String.ofList ((String.singleton c ++ v).toList.takeWhile (· != '='))) = none

end Item

namespace FlagSet

/-- Does what is asked for. -/
def obey (fs : FlagSet) : Request → FlagSet
  | .positional arg => fs.addArgs [arg]
  | .set name value =>
    match fs.find? name with
    | none => fs
    | some flag =>
      match flag.value.give value with
      | .ok v => fs.hold flag.name v
      | .error _ => fs

end FlagSet

/-! ## Reading an argument -/

theorem Text.cutAt_eq {c : Char} {s : String} (absent : c ∉ s.toList) : Text.cutAt c s = (s, none) := by
  have all (x : Char) (mem : x ∈ s.toList) : (x != c) = true := by
    simpa using fun same : x = c => absent (same ▸ mem)
  simp only [cutAt, List.dropWhile_eq_nil_iff.mpr all, List.takeWhile_eq_self_iff.mpr all, String.ofList_toList]

theorem Text.cutAt_append {c : Char} {s : String} (absent : c ∉ s.toList) (t : String) :
    Text.cutAt c (s ++ String.singleton c ++ t) = (s, some t) := by
  have all (x : Char) (mem : x ∈ s.toList) : (x != c) = true := by
    simpa using fun same : x = c => absent (same ▸ mem)
  have text : (s ++ String.singleton c ++ t).toList = s.toList ++ c :: t.toList := by simp
  simp only [cutAt, text, List.dropWhile_append_of_pos all, List.takeWhile_append_of_pos all]
  simp

theorem Text.cutAt_fst (c : Char) (s : String) :
    (Text.cutAt c s).1 = String.ofList (s.toList.takeWhile (· != c)) := by
  unfold cutAt
  split <;> rfl

theorem Text.dropStart?_eq_none {s : String} (head : s.toList.head? ≠ some '=') : Text.dropStart? "=" s = none := by
  rw [dropStart?, if_neg]
  intro starts
  rcases chars : s.toList with _ | ⟨c, cs⟩
  · simp [chars] at starts
  · have same : '=' = c := by simpa [chars] using starts
    exact head (by rw [chars, same, List.head?_cons])

namespace FlagSet

variable {fs : FlagSet}

/-- Two dashes or one. -/
abbrev dashes (double : Bool) : String := if double then "--" else "-"

theorem toList_dashes (double : Bool) (body : String) :
    (dashes double ++ body).toList = if double then '-' :: '-' :: body.toList else '-' :: body.toList := by
  cases double <;> simp [dashes]

/-- What an argument says stands behind its dashes. -/
theorem mention_dashes (double : Bool) {body : String} (head : body.toList.head? ≠ some '-') :
    fs.mention (dashes double ++ body) =
      match fs.find? (Text.cutAt '=' body).1 with
      | some flag => .ok ⟨flag, (Text.cutAt '=' body).2⟩
      | none =>
        if double || 128 ≤ (body.toList.headD ' ').toNat then .error (.unknown (dashes double ++ body))
        else fs.mentionShort? (dashes double ++ body) body (Text.cutAt '=' body).2 := by
  have isLong : Text.startsWith "--" (dashes double ++ body) = double := by
    rw [Text.startsWith, toList_dashes]
    cases double with
    | true => simp
    | false =>
        rcases chars : body.toList with _ | ⟨c, cs⟩
        · simp
        · have other : ('-' == c) = false := by
            simpa using fun same : '-' = c => head (by rw [chars, same, List.head?_cons])
          simp [List.isPrefixOf, other]
  have behind : String.ofList ((dashes double ++ body).toList.drop (if double then 2 else 1)) = body := by
    rw [toList_dashes]
    cases double <;> simp
  cases found : fs.find? (Text.cutAt '=' body).1 <;> simp only [mention, isLong, behind, found]

/-- An argument with dashes in front of something is read as a flag. -/
theorem not_isPositional_dashes (double : Bool) (body : String) (some_ : body ≠ "")
    (head : body.toList.head? ≠ some '-') :
    ((dashes double ++ body) == "--") = false ∧ isPositional (dashes double ++ body) = false := by
  have list := toList_dashes double body
  obtain ⟨c, cs, chars⟩ := List.exists_cons_of_ne_nil (mt String.toList_eq_nil_iff.mp some_)
  constructor
  · rw [beq_eq_false_iff_ne]
    intro same
    rw [same, chars] at list
    cases double with
    | true => simp at list
    | false =>
        obtain ⟨rfl, -⟩ : '-' = c ∧ cs = [] := by simpa using list
        exact head (by rw [chars, List.head?_cons])
  · rw [isPositional, list, chars]
    cases double <;> rfl

theorem isPositional_of_plain {arg : String} (plain : arg.toList.head? ≠ some '-' ∨ arg.length < 2) :
    (arg == "--") = false ∧ isPositional arg = true := by
  constructor
  · rw [beq_eq_false_iff_ne]
    rintro rfl
    revert plain
    decide
  · unfold isPositional
    split
    · next c cs chars =>
        rw [← String.length_toList, chars] at plain
        simp at plain
    · rfl

/-- A long name with what is assigned to it, if anything. -/
theorem mention_long (double : Bool) {name body : String} {value : Option String} {flag : Flag}
    (head : body.toList.head? ≠ some '-') (cut : Text.cutAt '=' body = (name, value))
    (found : fs.find? name = some flag) : fs.mention (dashes double ++ body) = .ok ⟨flag, value⟩ := by
  rw [mention_dashes double head, cut]
  simp only [found]

/-- A shorthand with what is attached to it. -/
theorem mention_short {c : Char} (rest : String) {flag : Flag} (ascii : c.toNat < 128) (noDash : c ≠ '-')
    (noName : fs.find? (Text.cutAt '=' (String.singleton c ++ rest)).1 = none)
    (found : fs.findShort? (String.singleton c) = some flag) :
    fs.mention ("-" ++ (String.singleton c ++ rest)) =
      if rest = "" then .ok ⟨flag, (Text.cutAt '=' (String.singleton c ++ rest)).2⟩
      else if flag.value.isSwitch then .error (.takesNoValue (String.singleton c))
      else .ok ⟨flag, some ((Text.dropStart? "=" rest).getD rest)⟩ := by
  have list : (String.singleton c ++ rest).toList = c :: rest.toList := by simp
  have head : (String.singleton c ++ rest).toList.head? ≠ some '-' := by simpa [list] using noDash
  have small : ¬128 ≤ c.toNat := by omega
  have reads : fs.mention (dashes false ++ (String.singleton c ++ rest)) = _ := mention_dashes false head
  simp only [noName, list, List.headD_cons, Bool.false_or, decide_eq_true_eq, if_neg small, mentionShort?, found,
    String.ofList_toList, List.isEmpty_iff, String.toList_eq_nil_iff] at reads
  exact reads

/-! ## What flags hold -/

theorem name_of_find? {name : String} {flag : Flag} (found : fs.find? name = some flag) : flag.name = name := by
  simpa using List.find?_some found

theorem kind?_eq_some {name : String} {kind : Flag.Kind} :
    fs.vocabulary.kind? name = some kind ↔ ∃ flag, fs.find? name = some flag ∧ flag.value.kind = kind :=
  Option.map_eq_some_iff

theorem kind?_eq_none {name : String} : fs.vocabulary.kind? name = none ↔ fs.find? name = none :=
  Option.map_eq_none_iff

theorem findShort?_eq {short name : String} (stands : fs.vocabulary.longName? short = some name) :
    fs.findShort? short = fs.find? name := by
  obtain ⟨p, found, rfl⟩ := Option.map_eq_some_iff.mp stands
  simp only [findShort?, found]

theorem find?_hold (fs : FlagSet) (name other : String) (v : Flag.Value) :
    (fs.hold name v).find? other =
      if other = name then (fs.find? name).map fun f => { f with value := v } else fs.find? other := by
  have kept : ((·.name == other) ∘ fun f : Flag => if f.name == name then { f with value := v } else f) =
      fun f => f.name == other := by
    funext f
    simp only [Function.comp_apply]
    split <;> rfl
  simp only [hold, find?, List.find?_map, kept]
  split
  · next same =>
      subst same
      refine Option.map_congr fun f found => ?_
      rw [if_pos (by simpa using List.find?_some found)]
  · next different =>
      cases found : fs.flags.find? (·.name == other) with
      | none => rfl
      | some f =>
          have own : f.name = other := by simpa using List.find?_some found
          rw [Option.map_some, if_neg (by simpa [own] using different)]

theorem vocabulary_hold {name : String} {flag : Flag} {v : Flag.Value} (found : fs.find? name = some flag)
    (same : v.kind = flag.value.kind) : (fs.hold name v).vocabulary = fs.vocabulary := by
  have kinds (other : String) : (fs.hold name v).vocabulary.kind? other = fs.vocabulary.kind? other := by
    simp only [vocabulary, find?_hold]
    split
    · next eq => simp [eq, found, same]
    · rfl
  simp only [vocabulary, Vocabulary.mk.injEq]
  exact ⟨funext kinds, rfl⟩

/-- No flag gets another kind by what is asked for. -/
theorem vocabulary_obey (fs : FlagSet) (r : Request) : (fs.obey r).vocabulary = fs.vocabulary := by
  cases r with
  | positional arg => rfl
  | set name value =>
      simp only [obey]
      split
      · rfl
      · next flag found =>
          split
          · next v gives =>
              rw [name_of_find? found]
              exact vocabulary_hold found (Flag.Value.kind_of_give gives)
          · rfl

/-! ## Reading items -/

/-- An argument is read as a flag with what is given to it in the same argument. -/
structure Reads (fs : FlagSet) (arg : String) (flag : Flag) (value : Option String) : Prop where
  notEnd : (arg == "--") = false
  notPositional : isPositional arg = false
  mention : fs.mention arg = .ok ⟨flag, value⟩

theorem give_eq {name value arg : String} {flag : Flag} (found : fs.find? name = some flag)
    (accepts : flag.value.kind.accepts value = true) : fs.give arg flag value = .ok (fs.obey (.set name value)) := by
  obtain ⟨v, gives⟩ := Flag.Value.give_of_accepts accepts
  simp only [give, obey, found, gives]

namespace Reads

variable {arg name value : String} {flag : Flag} {rest : List String}

theorem step_attached (reads : fs.Reads arg flag (some value)) (found : fs.find? name = some flag)
    (accepts : flag.value.kind.accepts value = true) :
    fs.readArgs (arg :: rest) = (fs.obey (.set name value)).readArgs rest := by
  rw [readArgs, reads.notEnd, reads.notPositional, reads.mention]
  simp only [Bool.false_eq_true, if_false, give_eq found accepts]

theorem step_switched (reads : fs.Reads arg flag none) (found : fs.find? name = some flag)
    (switch : flag.value.kind = .switch) :
    fs.readArgs (arg :: rest) = (fs.obey (.set name "true")).readArgs rest := by
  have accepts : flag.value.kind.accepts "true" = true := by
    rw [switch]
    decide
  rw [readArgs, reads.notEnd, reads.notPositional, reads.mention]
  simp only [Bool.false_eq_true, if_false, Flag.Value.isSwitch_eq, switch, decide_true, if_true,
    give_eq found accepts]

theorem step_followed (reads : fs.Reads arg flag none) (found : fs.find? name = some flag)
    (noSwitch : flag.value.kind ≠ .switch) (accepts : flag.value.kind.accepts value = true) :
    fs.readArgs (arg :: value :: rest) = (fs.obey (.set name value)).readArgs rest := by
  rw [readArgs, reads.notEnd, reads.notPositional, reads.mention]
  simp only [Bool.false_eq_true, if_false, Flag.Value.isSwitch_eq, noSwitch, decide_false, give_eq found accepts]

end Reads

section Items

variable (legible : fs.vocabulary.Legible)

include legible

theorem reads_long (double : Bool) {name : String} {flag : Flag} (found : fs.find? name = some flag) :
    fs.Reads (FlagMark.long double name).text flag none ∧
      ∀ v, fs.Reads ((FlagMark.long double name).text ++ "=" ++ v) flag (some v) := by
  obtain ⟨some_, absent, head⟩ := legible.names name flag.value.kind (kind?_eq_some.mpr ⟨flag, found, rfl⟩)
  have reads {body : String} {value : Option String} (front : body ≠ "") (head : body.toList.head? ≠ some '-')
      (cut : Text.cutAt '=' body = (name, value)) : fs.Reads (dashes double ++ body) flag value :=
    have plain := not_isPositional_dashes double body front head
    ⟨plain.1, plain.2, mention_long double head cut found⟩
  refine ⟨reads some_ head (Text.cutAt_eq absent), fun v => ?_⟩
  have whole : (FlagMark.long double name).text ++ "=" ++ v = dashes double ++ (name ++ "=" ++ v) := by
    simp only [FlagMark.text, String.append_assoc]
  rw [whole]
  refine reads (by simp [some_]) ?_ (Text.cutAt_append absent v)
  obtain ⟨c, cs, chars⟩ := List.exists_cons_of_ne_nil (mt String.toList_eq_nil_iff.mp some_)
  rw [chars] at head
  simpa [chars] using head

theorem shorthand_called {c : Char} {kind : Flag.Kind} (calls : (FlagMark.short c).Calls fs.vocabulary kind) :
    c.toNat < 128 ∧ c ≠ '-' ∧ c ≠ '=' ∧ fs.find? (String.singleton c) = none ∧
      fs.findShort? (String.singleton c) = fs.find? ((FlagMark.short c).name fs.vocabulary) := by
  obtain ⟨-, stands, noName⟩ := calls
  obtain ⟨name, stands⟩ := Option.isSome_iff_exists.mp stands
  obtain ⟨d, same, ascii, noDash, noEquals⟩ := legible.shorthands _ _ stands
  obtain rfl : c = d := by simpa using congrArg String.toList same
  refine ⟨ascii, noDash, noEquals, kind?_eq_none.mp noName, ?_⟩
  rw [findShort?_eq stands, FlagMark.name, stands, Option.getD_some]

theorem reads_shorthand {c : Char} {kind : Flag.Kind} {flag : Flag} (calls : (FlagMark.short c).Calls fs.vocabulary kind)
    (found : fs.find? ((FlagMark.short c).name fs.vocabulary) = some flag) : fs.Reads (FlagMark.short c).text flag none := by
  obtain ⟨ascii, noDash, noEquals, noName, stands⟩ := shorthand_called legible calls
  have cut : Text.cutAt '=' (String.singleton c ++ "") = (String.singleton c, none) := by
    rw [String.append_empty]
    exact Text.cutAt_eq (by simpa using noEquals.symm)
  have plain := not_isPositional_dashes false (String.singleton c) (by simp) (by simpa using noDash)
  refine ⟨plain.1, plain.2, ?_⟩
  have reads := mention_short "" ascii noDash (by rw [cut]; exact noName) (stands.trans found)
  rw [cut, if_pos rfl, String.append_empty] at reads
  exact reads

/-- Behind a shorthand stands a value, with an equals sign in front or not. -/
theorem reads_behind_shorthand {c : Char} {kind : Flag.Kind} {flag : Flag} (rest : String)
    (calls : (FlagMark.short c).Calls fs.vocabulary kind) (noSwitch : kind ≠ .switch)
    (found : fs.find? ((FlagMark.short c).name fs.vocabulary) = some flag) (some_ : rest ≠ "")
    (noName : fs.find? (Text.cutAt '=' (String.singleton c ++ rest)).1 = none) :
    fs.Reads ("-" ++ (String.singleton c ++ rest)) flag (some ((Text.dropStart? "=" rest).getD rest)) := by
  obtain ⟨ascii, noDash, -, -, stands⟩ := shorthand_called legible calls
  have other : flag.value.isSwitch = false := by
    obtain ⟨own, found', is⟩ := kind?_eq_some.mp calls.1
    obtain rfl := Option.some.inj (found'.symm.trans found)
    rw [Flag.Value.isSwitch_eq, is, decide_eq_false noSwitch]
  have plain := not_isPositional_dashes false (String.singleton c ++ rest) (by simp) (by simpa using noDash)
  refine ⟨plain.1, plain.2, ?_⟩
  rw [mention_short rest ascii noDash noName (stands.trans found), if_neg some_, other]
  rfl

theorem reads_mark {m : FlagMark} {kind : Flag.Kind} (calls : m.Calls fs.vocabulary kind) :
    ∃ flag, fs.find? (m.name fs.vocabulary) = some flag ∧ flag.value.kind = kind ∧ fs.Reads m.text flag none ∧
      ∀ v, ((∃ c, m = .short c) → kind ≠ .switch) → fs.Reads (m.text ++ "=" ++ v) flag (some v) := by
  obtain ⟨flag, found, is⟩ := kind?_eq_some.mp calls.1
  refine ⟨flag, found, is, ?_⟩
  cases m with
  | long double name =>
      obtain ⟨alone, assigned⟩ := reads_long legible double found
      exact ⟨alone, fun v _ => assigned v⟩
  | short c =>
      refine ⟨reads_shorthand legible calls found, fun v noSwitch => ?_⟩
      obtain ⟨-, -, noEquals, noName, -⟩ := shorthand_called legible calls
      have cut : Text.cutAt '=' (String.singleton c ++ ("=" ++ v)) = (String.singleton c, some v) := by
        rw [← String.append_assoc]
        exact Text.cutAt_append (by simpa using noEquals.symm) v
      have reads := reads_behind_shorthand legible ("=" ++ v) calls (noSwitch ⟨c, rfl⟩) found (by simp)
        (by rw [cut]; exact noName)
      have value : (Text.dropStart? "=" ("=" ++ v)).getD ("=" ++ v) = v := by simp [Text.dropStart?]
      rw [value] at reads
      simpa only [FlagMark.text, String.append_assoc] using reads

theorem readArgs_item {i : Item} (fits : i.Fits fs.vocabulary) (rest : List String) :
    fs.readArgs (i.args ++ rest) = (fs.obey (i.request fs.vocabulary)).readArgs rest := by
  cases i with
  | positional arg =>
      obtain ⟨notEnd, isPositional⟩ := isPositional_of_plain fits
      simp only [Item.args, List.singleton_append, readArgs, notEnd, isPositional, Bool.false_eq_true, if_false, if_true]
      rfl
  | switched m =>
      obtain ⟨flag, found, is, reads, -⟩ := reads_mark legible fits
      exact reads.step_switched found is
  | followed m v =>
      obtain ⟨kind, calls, noSwitch, accepts⟩ := fits
      obtain ⟨flag, found, rfl, reads, -⟩ := reads_mark legible calls
      exact reads.step_followed found noSwitch accepts
  | assigned m v =>
      obtain ⟨kind, calls, accepts, noSwitch⟩ := fits
      obtain ⟨flag, found, rfl, -, reads⟩ := reads_mark legible calls
      exact (reads v noSwitch).step_attached found accepts
  | attached c v =>
      obtain ⟨kind, calls, noSwitch, accepts, some_, noEquals, noName⟩ := fits
      obtain ⟨flag, found, rfl, -, -⟩ := reads_mark legible calls
      have reads := reads_behind_shorthand legible v calls noSwitch found some_ (by
        rw [Text.cutAt_fst]
        exact kind?_eq_none.mp noName)
      have value : (Text.dropStart? "=" v).getD v = v := by rw [Text.dropStart?_eq_none noEquals, Option.getD_none]
      rw [value, ← String.append_assoc] at reads
      exact reads.step_attached found accepts

end Items

theorem readArgs_items (legible : fs.vocabulary.Legible) {items : List Item}
    (fits : ∀ i ∈ items, i.Fits fs.vocabulary) (rest : List String) :
    fs.readArgs (items.flatMap Item.args ++ rest) =
      ((items.map (Item.request fs.vocabulary)).foldl obey fs).readArgs rest := by
  induction items generalizing fs with
  | nil => rfl
  | cons i items ih =>
      obtain ⟨own, others⟩ := List.forall_mem_cons.mp fits
      rw [List.flatMap_cons, List.append_assoc, readArgs_item legible own, List.map_cons, List.foldl_cons]
      have same := vocabulary_obey fs (i.request fs.vocabulary)
      have rest := @ih (fs.obey (i.request fs.vocabulary)) (by rwa [same]) (by rwa [same])
      rwa [same] at rest

/-! ## What requests leave -/

theorem args_obey (fs : FlagSet) (r : Request) : (fs.obey r).args = fs.args ++ r.positional?.toList := by
  cases r with
  | positional arg => rfl
  | set name value =>
      simp only [obey, Request.positional?, Option.toList_none, List.append_nil]
      split
      · rfl
      · split <;> rfl

theorem args_foldl_obey (fs : FlagSet) (rs : List Request) :
    (rs.foldl obey fs).args = fs.args ++ rs.filterMap Request.positional? := by
  induction rs generalizing fs with
  | nil => simp
  | cons r rs ih =>
      rw [List.foldl_cons, ih, args_obey, List.append_assoc, List.filterMap_cons]
      cases r <;> rfl

/-- One request gives a flag the value that is meant for it, if there is one, and changes nothing else. -/
theorem find?_obey {r : Request} (taken : r.Taken fs.vocabulary) (name : String) :
    (fs.find? name = none → (fs.obey r).find? name = none) ∧
      ∀ flag, fs.find? name = some flag → ∃ v, (fs.obey r).find? name = some { flag with value := v } ∧
        match r.valueFor? name with
        | none => v = flag.value
        | some value => flag.value.give value = .ok v := by
  cases r with
  | positional arg => exact ⟨id, fun flag found => ⟨flag.value, found, rfl⟩⟩
  | set other value =>
      obtain ⟨kind, known, accepts⟩ := taken
      obtain ⟨target, found, rfl⟩ := kind?_eq_some.mp known
      obtain ⟨v, gives⟩ := Flag.Value.give_of_accepts accepts
      have after : (fs.obey (.set other value)).find? name =
          if name = other then some { target with value := v } else fs.find? name := by
        simp only [obey, found, gives, name_of_find? found, find?_hold, Option.map_some]
      by_cases same : name = other
      · subst same
        refine ⟨fun absent => absurd (found.symm.trans absent) nofun, fun flag found' => ⟨v, ?_, ?_⟩⟩
        · obtain rfl := Option.some.inj (found'.symm.trans found)
          rw [after, if_pos rfl]
        · obtain rfl := Option.some.inj (found'.symm.trans found)
          simpa [Request.valueFor?] using gives
      · rw [if_neg same] at after
        refine ⟨fun absent => after.trans absent, fun flag found' => ⟨flag.value, after.trans found', ?_⟩⟩
        simp [Request.valueFor?, Ne.symm same]

/-- After requests in order every flag holds what the values for it leave. -/
theorem find?_foldl_obey {rs : List Request} (taken : ∀ r ∈ rs, r.Taken fs.vocabulary) (name : String) :
    (fs.find? name = none → (rs.foldl obey fs).find? name = none) ∧
      ∀ flag, fs.find? name = some flag → ∃ v, flag.value.Ends (rs.filterMap (Request.valueFor? name)) v ∧
        (rs.foldl obey fs).find? name = some { flag with value := v } := by
  induction rs generalizing fs with
  | nil => exact ⟨id, fun flag found => ⟨flag.value, Flag.Value.ends_nil _, found⟩⟩
  | cons r rs ih =>
      obtain ⟨own, others⟩ := List.forall_mem_cons.mp taken
      rw [List.foldl_cons]
      obtain ⟨absent, first⟩ := find?_obey own name
      obtain ⟨absent', rest⟩ := @ih (fs.obey r) (by rwa [vocabulary_obey])
      refine ⟨fun none => absent' (absent none), fun flag found => ?_⟩
      obtain ⟨v, held, given⟩ := first flag found
      obtain ⟨v', ends, held'⟩ := rest _ held
      refine ⟨v', ?_, held'⟩
      rw [List.filterMap_cons]
      cases meant : r.valueFor? name with
      | none =>
          rw [meant] at given
          exact given ▸ ends
      | some value =>
          rw [meant] at given
          exact ends.cons given

theorem taken_request {voc : Vocabulary} {i : Item} (fits : i.Fits voc) : (i.request voc).Taken voc := by
  cases i with
  | positional => trivial
  | switched m => exact ⟨.switch, fits.1, by decide⟩
  | followed m v =>
      obtain ⟨kind, calls, -, accepts⟩ := fits
      exact ⟨kind, calls.1, accepts⟩
  | assigned m v =>
      obtain ⟨kind, calls, accepts, -⟩ := fits
      exact ⟨kind, calls.1, accepts⟩
  | attached c v =>
      obtain ⟨kind, calls, -, accepts, -⟩ := fits
      exact ⟨kind, calls.1, accepts⟩

/-! ## Whole command lines -/

/-- The names and shorthands of a flag set are legible if all that are registered are. -/
theorem legible_vocabulary (names : ∀ f ∈ fs.flags, f.name ≠ "" ∧ '=' ∉ f.name.toList ∧ f.name.toList.head? ≠ some '-')
    (shorthands : ∀ p ∈ fs.shorthands, p.1.toList.length = 1 ∧ ∀ c ∈ p.1.toList, c.toNat < 128 ∧ c ≠ '-' ∧ c ≠ '=') :
    fs.vocabulary.Legible where
  names name kind known := by
    obtain ⟨flag, found, -⟩ := kind?_eq_some.mp known
    exact name_of_find? found ▸ names flag (List.mem_of_find?_eq_some found)
  shorthands short name stands := by
    obtain ⟨p, found, rfl⟩ := Option.map_eq_some_iff.mp stands
    obtain rfl : p.1 = short := by simpa using List.find?_some found
    obtain ⟨single, all⟩ := shorthands p (List.mem_of_find?_eq_some found)
    obtain ⟨c, chars⟩ := List.length_eq_one_iff.mp single
    exact ⟨c, String.toList_inj.mp (by simp [chars]), all c (by simp [chars])⟩

/-- How a command line may end: with nothing, or with arguments that are positional whatever they look like. -/
def ending : Option (List String) → List String
  | none => []
  | some more => "--" :: more

/-- The flag set after a command line has ended so. -/
def ended (fs : FlagSet) : Option (List String) → FlagSet
  | none => fs
  | some more => fs.addArgs more

theorem readArgs_ending (fs : FlagSet) (more : Option (List String)) :
    fs.readArgs (ending more) = (fs.ended more, none) := by
  cases more with
  | none => simp only [ending, readArgs, ended]
  | some more => simp only [ending, readArgs, ended, beq_self_eq_true, if_true]

theorem find?_ended (fs : FlagSet) (more : Option (List String)) (name : String) :
    (fs.ended more).find? name = fs.find? name := by
  cases more <;> rfl

theorem args_ended (fs : FlagSet) (more : Option (List String)) : (fs.ended more).args = fs.args ++ more.getD [] := by
  cases more with
  | none => exact (List.append_nil _).symm
  | some more => rfl

/-- A command line of well-written items is read without a fault. Its positional arguments are gathered in
    order, with those behind `--`; every flag holds what the values given to it leave, in whatever way it was
    called, and there are no other flags than before. Two command lines that ask for the same are read alike. -/
theorem parse_items (legible : fs.vocabulary.Legible) {items : List Item}
    (fits : ∀ i ∈ items, i.Fits fs.vocabulary) (more : Option (List String)) :
    let read := fs.parse (items.flatMap Item.args ++ ending more)
    let requests := items.map (Item.request fs.vocabulary)
    read.2 = none ∧ read.1.args = requests.filterMap Request.positional? ++ more.getD [] ∧
      (∀ name flag, fs.find? name = some flag → ∃ v,
        flag.value.Ends (requests.filterMap (Request.valueFor? name)) v ∧
          read.1.find? name = some { flag with value := v }) ∧
      (∀ name, fs.find? name = none → read.1.find? name = none) ∧
      ∀ items' : List Item, (∀ i ∈ items', i.Fits fs.vocabulary) →
        items'.map (Item.request fs.vocabulary) = requests →
          fs.parse (items'.flatMap Item.args ++ ending more) = read := by
  intro read requests
  let start : FlagSet := { fs with args := [], cells := fs.cells.restart }
  have reads {items : List Item} (fits : ∀ i ∈ items, i.Fits fs.vocabulary) :
      fs.parse (items.flatMap Item.args ++ ending more) =
        ((items.map (Item.request fs.vocabulary)).foldl obey start).readArgs (ending more) :=
    @readArgs_items start legible items fits (ending more)
  have taken : ∀ r ∈ requests, r.Taken start.vocabulary := by
    intro r mem
    obtain ⟨i, own, rfl⟩ := List.mem_map.mp mem
    exact taken_request (fits i own)
  have result : read = ((requests.foldl obey start).ended more, none) := (reads fits).trans (readArgs_ending _ more)
  have found (name : String) := find?_foldl_obey taken name
  refine ⟨by rw [result], ?_, fun name flag held => ?_, fun name absent => ?_, fun items' fits' same => ?_⟩
  · rw [result, args_ended, args_foldl_obey]
    simp [start]
  · rw [result, find?_ended]
    exact (found name).2 flag held
  · rw [result, find?_ended]
    exact (found name).1 absent
  · exact (reads fits').trans (same ▸ (reads fits).symm)

/-- A text, a list and a switch. -/
def outputLibDump : FlagSet :=
  let fs := (empty.register (.text "a.out") "output" "o" "Output file" "file").1
  let fs := (fs.register (.items []) "lib" "L" "Link a library" "name").1
  (fs.register (.switch false) "dump-asm" "S" "Dump assembly" "").1

theorem parse_items_mixed :
    let read := outputLibDump.parse ["-ox=1", "--lib", "-o", "a", "-L=m", "-S", "-dump-asm=0", "--", "-S"]
    read.2 = none ∧ read.1.args = ["a", "-S"] ∧
      (∃ flag, read.1.find? "output" = some flag ∧ flag.value = .text "x=1") ∧
      (∃ flag, read.1.find? "lib" = some flag ∧ flag.value = .items ["-o", "m"]) ∧
      ∃ flag, read.1.find? "dump-asm" = some flag ∧ flag.value = .switch false := by
  have shorthands : outputLibDump.shorthands = [("o", "output"), ("L", "lib"), ("S", "dump-asm")] := by decide +kernel
  have legible : outputLibDump.vocabulary.Legible :=
    legible_vocabulary (by decide +kernel) (by simp [shorthands])
  let items : List Item := [.attached 'o' "x=1", .followed (.long true "lib") "-o", .positional "a",
    .assigned (.short 'L') "m", .switched (.short 'S'), .assigned (.long false "dump-asm") "0"]
  have fits : ∀ i ∈ items, i.Fits outputLibDump.vocabulary := by
    simp only [items, List.forall_mem_cons, List.not_mem_nil, false_imp_iff, implies_true, and_true]
    refine ⟨⟨.text, ⟨?_, ?_, ?_⟩, ?_, ?_, ?_, ?_, ?_⟩, ⟨.items, ⟨?_, trivial⟩, ?_, ?_⟩, .inl ?_,
      ⟨.items, ⟨?_, ?_, ?_⟩, ?_, fun _ => ?_⟩, ⟨?_, ?_, ?_⟩, ⟨.switch, ⟨?_, trivial⟩, ?_, nofun⟩⟩
    all_goals decide +kernel
  have written : items.flatMap Item.args ++ ending (some ["-S"]) =
      ["-ox=1", "--lib", "-o", "a", "-L=m", "-S", "-dump-asm=0", "--", "-S"] := by decide +kernel
  have requests : items.map (Item.request outputLibDump.vocabulary) = [.set "output" "x=1", .set "lib" "-o",
      .positional "a", .set "lib" "m", .set "dump-asm" "true", .set "dump-asm" "0"] := by decide +kernel
  have read := parse_items legible fits (some ["-S"])
  rw [written, requests] at read
  obtain ⟨fault, args, found, -, -⟩ := read
  have known (name : String) (v : Flag.Value) (held : (outputLibDump.find? name).map (·.value) = some v) :
      ∃ flag, outputLibDump.find? name = some flag ∧ flag.value = v := Option.map_eq_some_iff.mp held
  refine ⟨fault, args, ?_, ?_, ?_⟩
  · obtain ⟨flag, held, is⟩ := known "output" (.text "a.out") (by decide +kernel)
    obtain ⟨v, ends, found⟩ := found "output" flag held
    rw [is] at ends
    exact ⟨_, found, (Except.ok.inj (ends.last nofun "x=1" (by decide +kernel))).symm⟩
  · obtain ⟨flag, held, is⟩ := known "lib" (.items []) (by decide +kernel)
    obtain ⟨v, ends, found⟩ := found "lib" flag held
    rw [is] at ends
    exact ⟨_, found, ends.list [] rfl⟩
  · obtain ⟨flag, held, is⟩ := known "dump-asm" (.switch false) (by decide +kernel)
    obtain ⟨v, ends, found⟩ := found "dump-asm" flag held
    rw [is] at ends
    exact ⟨_, found, (Except.ok.inj (ends.last nofun "0" (by decide +kernel))).symm⟩

end FlagSet

end Lantern
