import Mathlib
import Lantern.FileTree

/-!
# Paths and the places they name

The place of a path does not depend on the files: they only decide whether it can be reached. A path
in its shortest form goes down from where it starts, so whatever is at its place can be reached.
-/

namespace Lantern

/-! ## The parts of a path -/

namespace Text

theorem piecesFrom_append (p : Char → Bool) {c : Char} (separates : p c) (piece cs ds : List Char) :
    piecesFrom p piece (cs ++ c :: ds) = piecesFrom p piece cs ++ piecesFrom p [] ds := by
  induction cs generalizing piece with
  | nil => simp [piecesFrom, separates]
  | cons d cs ih =>
      rw [List.cons_append, piecesFrom, piecesFrom]
      split
      · rw [ih, List.cons_append]
      · exact ih _

theorem piecesFrom_free (p : Char → Bool) (piece : List Char) {cs : List Char} (free : ∀ c ∈ cs, ¬ p c) :
    piecesFrom p piece cs = [piece.reverse ++ cs] := by
  induction cs generalizing piece with
  | nil => simp [piecesFrom]
  | cons c cs ih =>
      obtain ⟨own, others⟩ := List.forall_mem_cons.mp free
      rw [piecesFrom, if_neg own, ih _ others]
      simp

/-- What is put behind a text without a separator goes to its last piece. -/
theorem piecesFrom_last (p : Char → Bool) (piece cs : List Char) :
    ∃ front last, ∀ ds, (∀ d ∈ ds, ¬ p d) → piecesFrom p piece (cs ++ ds) = front ++ [last ++ ds] := by
  induction cs generalizing piece with
  | nil => exact ⟨[], piece.reverse, fun ds free => by simpa using piecesFrom_free p piece free⟩
  | cons c cs ih =>
      by_cases separates : p c
      · obtain ⟨front, last, pieces⟩ := ih []
        exact ⟨piece.reverse :: front, last, fun ds free => by simp [piecesFrom, separates, pieces ds free]⟩
      · obtain ⟨front, last, pieces⟩ := ih (c :: piece)
        exact ⟨front, last, fun ds free => by simp [piecesFrom, separates, pieces ds free]⟩

theorem not_mem_piecesFrom (p : Char → Bool) (piece cs : List Char)
    (free : ∀ c ∈ piece, ¬ p c) : ∀ ds ∈ piecesFrom p piece cs, ∀ d ∈ ds, ¬ p d := by
  induction cs generalizing piece with
  | nil => simpa [piecesFrom] using free
  | cons c cs ih =>
      rw [piecesFrom]
      split
      · refine List.forall_mem_cons.mpr ⟨by simpa using free, ih [] nofun⟩
      · next other => exact ih _ (List.forall_mem_cons.mpr ⟨other, free⟩)

theorem piecesFrom_intercalate (p : Char → Bool) {c : Char} (separates : p c) (ps : List (List Char))
    (some_ : ps ≠ []) (free : ∀ ds ∈ ps, ∀ d ∈ ds, ¬ p d) :
    piecesFrom p [] ([c].intercalate ps) = ps := by
  induction ps with
  | nil => exact absurd rfl some_
  | cons ds ps ih =>
      obtain ⟨own, others⟩ := List.forall_mem_cons.mp free
      cases ps with
      | nil => simpa using piecesFrom_free p [] own
      | cons es ps =>
          rw [List.intercalate_cons_cons, List.append_assoc, List.singleton_append,
            piecesFrom_append p separates, piecesFrom_free p [] own, ih nofun others]
          simp

end Text

namespace Path

/-- A part of a path holds no slash. -/
def IsPart (part : String) : Prop := '/' ∉ part.toList

instance (part : String) : Decidable (IsPart part) := inferInstanceAs (Decidable ('/' ∉ part.toList))

theorem isPart_of_mem_parts {path part : String} (mem : part ∈ parts path) : IsPart part := by
  obtain ⟨ds, inside, rfl⟩ := List.mem_map.mp mem
  have free := Text.not_mem_piecesFrom (· == '/') [] path.toList (by simp) ds inside
  intro slash
  rw [String.toList_ofList] at slash
  exact free _ slash rfl

theorem parts_slash (a b : String) : parts (a ++ "/" ++ b) = parts a ++ parts b := by
  simp only [parts, String.toList_append, List.append_assoc]
  rw [show "/".toList = ['/'] from rfl, List.singleton_append,
    Text.piecesFrom_append _ (by rfl), List.map_append]

theorem parts_ending (s : String) :
    ∃ front last, ∀ ending, IsPart ending → parts (s ++ ending) = front ++ [last ++ ending] := by
  obtain ⟨front, last, pieces⟩ := Text.piecesFrom_last (· == '/') [] s.toList
  refine ⟨front.map String.ofList, String.ofList last, fun ending isPart => ?_⟩
  have free : ∀ d ∈ ending.toList, ¬ (d == '/') := by
    rintro d mem isSlash
    obtain rfl : d = '/' := by simpa using isSlash
    exact isPart mem
  rw [parts, String.toList_append, pieces _ free, List.map_append, List.map_singleton,
    String.ofList_append, String.ofList_toList]

theorem parts_intercalate {ps : List String} (some_ : ps ≠ []) (free : ∀ part ∈ ps, IsPart part) :
    parts ("/".intercalate ps) = ps := by
  have pieces := Text.piecesFrom_intercalate (· == '/') (c := '/') rfl (ps.map String.toList)
    (by simpa using some_) (by
      rintro ds mem d inside isSlash
      obtain ⟨part, own, rfl⟩ := List.mem_map.mp mem
      obtain rfl : d = '/' := by simpa using isSlash
      exact free part own inside)
  rw [parts, String.toList_intercalate, show "/".toList = ['/'] from rfl, pieces]
  simp

theorem isRooted_iff (path : String) : isRooted path ↔ path.toList.head? = some '/' := by
  unfold isRooted Text.startsWith
  rw [show "/".toList = ['/'] from rfl]
  cases path.toList with
  | nil => simp
  | cons c cs =>
      simp only [List.isPrefixOf, Bool.and_true, beq_iff_eq, List.head?_cons, Option.some.injEq]
      exact eq_comm

end Path

/-! ## Places -/

namespace FileTree

/-- The place a path names. -/
def place (path : String) : Location :=
  (Path.parts path).foldl step (if Path.isRooted path then ["/"] else [])

/-- Names that each lead one directory further down. -/
def Descends (here : Location) : List String → Prop
  | [] => True
  | name :: names => step here name = here ++ [name] ∧ Descends (here ++ [name]) names

theorem Descends.foldl {here : Location} {names : List String} (descends : Descends here names) :
    names.foldl step here = here ++ names := by
  induction names generalizing here with
  | nil => simp
  | cons name names ih =>
      rw [List.foldl_cons, descends.1, ih descends.2, List.append_assoc, List.singleton_append]

theorem descends_concat {here : Location} {names : List String} {name : String} :
    Descends here (names ++ [name]) ↔
      Descends here names ∧ step (here ++ names) name = here ++ names ++ [name] := by
  induction names generalizing here with
  | nil => simp [Descends]
  | cons first names ih =>
      rw [List.cons_append, Descends, Descends, ih, List.append_assoc here, List.singleton_append, and_assoc]

/-- A name that stands for no other place leads down. -/
theorem step_name (here : Location) {name : String} (named : name ≠ "" ∧ name ≠ "." ∧ name ≠ "..") :
    step here name = here ++ [name] := by
  simp [step, named]

/-- The name of the directory above leads further only from a place that is above all others. -/
theorem step_up {here : Location} (up : step here ".." = here ++ [".."]) : ∀ name ∈ here, name = ".." := by
  by_contra other
  have lower : ¬ here.all (· == "..") := by simpa using other
  have length := congrArg List.length up
  have moved : step here ".." = if here == ["/"] then here else here.dropLast := by
    simp [step, lower]
  rw [moved, List.length_append, List.length_singleton] at length
  split at length
  · omega
  · rw [List.length_dropLast] at length
    omega

theorem step_up_of_all {here : Location} (above : ∀ name ∈ here, name = "..") :
    step here ".." = here ++ [".."] := by
  have all : here.all (· == "..") := by simpa using above
  simp [step, all]

/-- Where a path starts. -/
def origin (rooted : Bool) : Location := if rooted then ["/"] else []

end FileTree

namespace Path

open FileTree in
theorem descends_settle {rooted : Bool} {done : List String} (part : String)
    (descends : Descends (origin rooted) done.reverse) :
    Descends (origin rooted) (settle rooted done part).reverse := by
  unfold settle
  split
  · exact descends
  · next named =>
      simp only [Bool.or_eq_true, beq_iff_eq, String.isEmpty_iff, not_or] at named
      split
      · next isUp =>
          obtain rfl : part = ".." := by simpa using isUp
          split
          · cases rooted with
            | true => exact descends
            | false => exact ⟨rfl, trivial⟩
          · next top below =>
              rw [List.reverse_cons, descends_concat] at descends
              split
              · next isUp =>
                  obtain rfl : top = ".." := by simpa using isUp
                  rw [List.reverse_cons, List.reverse_cons, descends_concat, descends_concat]
                  refine ⟨descends, step_up_of_all ?_⟩
                  have above := step_up descends.2
                  rw [← List.append_assoc]
                  intro name mem
                  rcases List.mem_append.mp mem with mem | mem
                  · exact above name mem
                  · simpa using mem
              · exact descends.1
      · next notUp =>
          rw [List.reverse_cons, descends_concat]
          exact ⟨descends, step_name _ ⟨named.1, named.2, by simpa using notUp⟩⟩

theorem descends_settled (rooted : Bool) (ps : List String) :
    FileTree.Descends (FileTree.origin rooted) (ps.foldl (settle rooted) []).reverse := by
  induction ps using List.reverseRecOn with
  | nil => trivial
  | append_singleton ps part ih =>
      rw [List.foldl_append]
      exact descends_settle part ih

theorem isPart_settle {rooted : Bool} {done : List String} {part : String} (own : IsPart part)
    (inner : ∀ other ∈ done, IsPart other ∧ other ≠ "") :
    ∀ other ∈ settle rooted done part, IsPart other ∧ other ≠ "" := by
  have up : IsPart ".." ∧ ".." ≠ "" := by simp [IsPart]
  unfold settle
  split
  · exact inner
  · next named =>
      simp only [Bool.or_eq_true, beq_iff_eq, String.isEmpty_iff, not_or] at named
      split
      · split
        · cases rooted with
          | true => simp
          | false => simpa using up
        · split
          · exact List.forall_mem_cons.mpr ⟨up, inner⟩
          · exact fun other mem => inner other (List.mem_cons_of_mem _ mem)
      · exact List.forall_mem_cons.mpr ⟨⟨own, named.1⟩, inner⟩

/-- What is left of the parts of a path are parts with a name. -/
theorem isPart_settled (rooted : Bool) {ps : List String} (free : ∀ part ∈ ps, IsPart part) :
    ∀ part ∈ ps.foldl (settle rooted) [], IsPart part ∧ part ≠ "" := by
  induction ps using List.reverseRecOn with
  | nil => simp
  | append_singleton ps part ih =>
      rw [List.foldl_append]
      exact isPart_settle (free part (by simp)) (ih fun other mem => free other (by simp [mem]))

/-- A path that leads down by the given names from where it starts. -/
structure Straight (path : String) (rooted : Bool) (names : List String) : Prop where
  starts : isRooted path = rooted
  parts : parts path = (if rooted then [""] else []) ++ names
  descends : FileTree.Descends (FileTree.origin rooted) names

theorem Straight.place {path : String} {rooted : Bool} {names : List String}
    (straight : Straight path rooted names) : FileTree.place path = FileTree.origin rooted ++ names := by
  have start : (if rooted then [""] else []).foldl FileTree.step (FileTree.origin rooted) =
      FileTree.origin rooted := by
    cases rooted <;> rfl
  have origin : (if isRooted path then ["/"] else []) = FileTree.origin rooted := by
    rw [straight.starts]
    rfl
  rw [FileTree.place, origin, straight.parts, List.foldl_append, start, straight.descends.foldl]

theorem intercalate_ne_empty {names : List String} (some_ : names ≠ [])
    (named : ∀ name ∈ names, IsPart name ∧ name ≠ "") : "/".intercalate names ≠ "" := by
  intro empty
  have inner := parts_intercalate some_ fun name mem => (named name mem).1
  rw [empty, show parts "" = [""] from rfl] at inner
  exact (named "" (by simp [← inner])).2 rfl

/-- Names that lead down, written as a path. -/
theorem straight_intercalate {rooted : Bool} {names : List String} (some_ : names ≠ [])
    (named : ∀ name ∈ names, IsPart name ∧ name ≠ "")
    (descends : FileTree.Descends (FileTree.origin rooted) names) :
    Straight ((if rooted then "/" else "") ++ "/".intercalate names) rooted names := by
  have inner : parts ("/".intercalate names) = names :=
    parts_intercalate some_ fun name mem => (named name mem).1
  cases rooted with
  | true =>
      refine ⟨(isRooted_iff _).mpr (by simp), ?_, descends⟩
      have slash := parts_slash "" ("/".intercalate names)
      rw [inner, String.empty_append] at slash
      exact slash
  | false =>
      refine ⟨Bool.eq_false_iff.mpr fun rooted => ?_, by simpa using inner, descends⟩
      -- The first character belongs to the first name, which holds no slash.
      have first := (isRooted_iff _).mp rooted
      obtain ⟨name, others, rfl⟩ := List.exists_cons_of_ne_nil some_
      obtain ⟨⟨isPart, notEmpty⟩, -⟩ := List.forall_mem_cons.mp named
      obtain ⟨c, cs, eq⟩ := List.exists_cons_of_ne_nil (mt String.toList_eq_nil_iff.mp notEmpty)
      have head : ("/".intercalate (name :: others)).toList.head? = some c := by
        rw [String.toList_intercalate, List.map_cons, eq]
        cases others <;> simp
      simp only [Bool.false_eq_true, if_false, String.empty_append, head] at first
      refine isPart ?_
      rw [eq, Option.some.inj first]
      exact List.mem_cons_self

/-- An ending of a file's name: it holds no slash and does not end in a point. -/
def IsEnding (ending : String) : Prop :=
  IsPart ending ∧ ∃ c, ending.toList.getLast? = some c ∧ c ≠ '.'

theorem IsEnding.named {ending : String} (isEnding : IsEnding ending) (s : String) :
    s ++ ending ≠ "" ∧ s ++ ending ≠ "." ∧ s ++ ending ≠ ".." := by
  obtain ⟨-, c, last, other⟩ := isEnding
  have own : (s ++ ending).toList.getLast? = some c := by
    rw [String.toList_append, List.getLast?_append, last]
    rfl
  have apart {t : String} (no : ∀ d ∈ t.toList.getLast?, d = '.') : s ++ ending ≠ t := by
    rintro rfl
    exact other (no c own)
  exact ⟨apart (by simp), apart (by simp), apart (by simp)⟩

/-- Files of one name in one directory stand beside each other. -/
theorem straight_join {dir : String} (named : dir ≠ "") (stem : String) :
    ∃ rooted here last, ∀ ending, IsEnding ending →
      Straight (join dir (stem ++ ending)) rooted (here ++ [last ++ ending]) := by
  obtain ⟨front, last, pieces⟩ := parts_ending stem
  obtain ⟨c, cs, first⟩ := List.exists_cons_of_ne_nil (mt String.toList_eq_nil_iff.mp named)
  refine ⟨c == '/', ((parts dir ++ front).foldl (settle (c == '/')) []).reverse, last,
    fun ending isEnding => ?_⟩
  have whole : parts (dir ++ "/" ++ (stem ++ ending)) = parts dir ++ front ++ [last ++ ending] := by
    rw [parts_slash, pieces ending isEnding.1, List.append_assoc]
  have rooted : isRooted (dir ++ "/" ++ (stem ++ ending)) = (c == '/') := by
    rw [Bool.eq_iff_iff, isRooted_iff]
    simp [first]
  have ownName := isEnding.named last
  have settled : (parts (dir ++ "/" ++ (stem ++ ending))).foldl (settle (c == '/')) [] =
      (last ++ ending) :: (parts dir ++ front).foldl (settle (c == '/')) [] := by
    rw [whole, List.foldl_append]
    simp [settle, ownName]
  have free := isPart_settled (c == '/') fun part (mem : part ∈ parts (dir ++ "/" ++ (stem ++ ending))) =>
    isPart_of_mem_parts mem
  have descends := descends_settled (c == '/') (parts (dir ++ "/" ++ (stem ++ ending)))
  rw [settled] at free descends
  rw [List.reverse_cons] at descends
  have all : ∀ name ∈ ((parts dir ++ front).foldl (settle (c == '/')) []).reverse ++ [last ++ ending],
      IsPart name ∧ name ≠ "" :=
    fun name mem => free name (by simpa [or_comm] using mem)
  have written : join dir (stem ++ ending) = (if c == '/' then "/" else "") ++
      "/".intercalate (((parts dir ++ front).foldl (settle (c == '/')) []).reverse ++ [last ++ ending]) := by
    have notEmpty := intercalate_ne_empty (by simp) all
    rw [join, if_neg (by simpa using named), clean, rooted, settled, List.reverse_cons]
    by_cases slash : c == '/'
    · rw [if_pos slash, if_pos slash]
    · rw [if_neg slash, if_neg slash, if_neg (by simpa only [String.isEmpty_iff] using notEmpty),
        String.empty_append]
  rw [written]
  exact straight_intercalate (by simp) all descends

end Path

end Lantern
