import Mathlib
import Lantern.Golden.Compare
import Lantern.Proofs.Paths

/-!
# Fresh records

A record holds the outputs as they were, while what is compared with it has a mark for the path and the name of
the executable. So a record agrees with the very result it was made from only as far as the outputs do without
that name: whatever line mentions it and is not left out differs.
-/

namespace Lantern

/-! ## Texts without an occurrence -/

namespace Text

theorem occursIn_iff {sub cs : List Char} : occursIn sub cs = true ↔ sub <:+: cs := by
  induction cs with
  | nil => simp [occursIn]
  | cons c cs ih => simp [occursIn, ih, List.infix_cons_iff]

theorem contains_iff {sub s : String} : contains sub s = true ↔ sub.toList <:+: s.toList := occursIn_iff

theorem contains_eq_false {sub s : String} : contains sub s = false ↔ ¬sub.toList <:+: s.toList := by
  rw [← Bool.not_eq_true, contains_iff]

variable {old new cs : List Char} {c : Char}

theorem replaceFrom_of_not_infix (absent : ¬old <:+: cs) : replaceFrom old new 0 cs = cs := by
  induction cs with
  | nil => rfl
  | cons d cs ih =>
      have front : ¬old.isPrefixOf (d :: cs) = true := fun starts =>
        absent (List.isPrefixOf_iff_prefix.mp starts).isInfix
      rw [replaceFrom, if_neg front, ih fun inside => absent (inside.trans (List.suffix_cons d cs).isInfix)]

/-- A character that the new text lacks does not become more frequent. -/
theorem count_replaceFrom_le (foreign : c ∉ new) (skip : Nat) (cs : List Char) :
    (replaceFrom old new skip cs).count c ≤ cs.count c := by
  fun_induction replaceFrom old new skip cs with
  | case1 skip => exact le_rfl
  | case2 skip d cs ih => exact ih.trans List.count_le_count_cons
  | case3 d cs starts ih =>
      rw [List.count_append, List.count_eq_zero_of_not_mem foreign, Nat.zero_add]
      exact ih.trans List.count_le_count_cons
  | case4 d cs other ih =>
      simp only [List.count_cons]
      omega

/-- Passing over characters takes those among them away. -/
theorem replaceFrom_skip (skip : Nat) (cs : List Char) :
    replaceFrom old new skip cs = replaceFrom old new 0 (cs.drop skip) := by
  induction skip generalizing cs with
  | zero => rfl
  | succ skip ih =>
      cases cs with
      | nil => simp [replaceFrom]
      | cons d cs => rw [replaceFrom, ih, List.drop_succ_cons]

/-- It becomes less frequent if it is part of a text that is replaced somewhere. -/
theorem count_replaceFrom_lt (foreign : c ∉ new) (part : c ∈ old) (occurs : old <:+: cs) :
    (replaceFrom old new 0 cs).count c < cs.count c := by
  induction cs with
  | nil =>
      obtain rfl := List.infix_nil.mp occurs
      cases part
  | cons d cs ih =>
      rw [replaceFrom]
      split
      · next starts =>
          -- an occurrence goes here, with at least one of the character, and none comes back behind it
          obtain ⟨behind, whole⟩ := List.isPrefixOf_iff_prefix.mp starts
          obtain ⟨e, old', rfl⟩ := List.exists_cons_of_ne_nil (List.ne_nil_of_mem part)
          rw [List.cons_append] at whole
          obtain ⟨rfl, rfl⟩ := List.cons.inj whole
          have fewer : (replaceFrom (e :: old') new 0 behind).count c ≤ behind.count c :=
            count_replaceFrom_le foreign 0 behind
          have some_ : 0 < (e :: old').count c := List.count_pos_iff.mpr part
          rw [replaceFrom_skip, List.length_cons, Nat.add_sub_cancel, List.drop_left, List.count_append,
            List.count_eq_zero_of_not_mem foreign, ← List.cons_append, List.count_append]
          omega
      · next other =>
          rcases List.infix_cons_iff.mp occurs with front | later
          · exact absurd (List.isPrefixOf_iff_prefix.mpr front) other
          · have fewer := ih later
            simp only [List.count_cons]
            omega

theorem replaceAll_eq_self {old new s : String} (absent : contains old s = false) : replaceAll old new s = s := by
  rw [replaceAll, replaceFrom_of_not_infix (contains_eq_false.mp absent), String.ofList_toList]

end Text

/-! ## The name of an executable -/

namespace Text

theorem infix_of_mem_piecesFrom (p : Char → Bool) (piece cs : List Char) :
    ∀ ds ∈ piecesFrom p piece cs, ds <:+: piece.reverse ++ cs := by
  induction cs generalizing piece with
  | nil => simp [piecesFrom]
  | cons c cs ih =>
      intro ds mem
      rw [piecesFrom] at mem
      split at mem
      · rcases List.mem_cons.mp mem with rfl | mem
        · exact (List.prefix_append _ _).isInfix
        · exact (ih [] ds mem).trans ⟨piece.reverse ++ [c], [], by simp⟩
      · simpa using ih (c :: piece) ds mem

end Text

namespace Path

/-- A part of a path stands in it. -/
theorem infix_of_mem_parts {path part : String} (mem : part ∈ parts path) : part.toList <:+: path.toList := by
  obtain ⟨ds, inside, rfl⟩ := List.mem_map.mp mem
  simpa using Text.infix_of_mem_piecesFrom (· == '/') [] path.toList ds inside

/-- So does its last part, which is a slash if there is nothing but slashes. -/
theorem base_infix {path : String} (some_ : path ≠ "") : (base path).toList <:+: path.toList := by
  rw [base, if_neg (by simpa using some_)]
  split
  · next none_ =>
      by_cases slash : '/' ∈ path.toList
      · obtain ⟨front, behind, whole⟩ := List.append_of_mem slash
        exact ⟨front, behind, by simp [whole]⟩
      · have whole : path ∈ (parts path).reverse := by
          have free : ∀ c ∈ path.toList, ¬(c == '/') := by
            rintro c mem isSlash
            obtain rfl : c = '/' := by simpa using isSlash
            exact slash mem
          simp [parts, Text.piecesFrom_free _ [] free]
        have empty := List.dropWhile_eq_nil_iff.mp none_ path whole
        exact absurd (by simpa using empty) some_
  · next last _ found =>
      have mem : last ∈ (parts path).reverse :=
        List.dropWhile_subset _ (found ▸ List.mem_cons_self)
      exact infix_of_mem_parts (List.mem_reverse.mp mem)

end Path

/-! ## Comparing outputs -/

namespace Golden

theorem normalize_nowhere (ignored : List String) (out : String) : normalize ignored "" out = filterLines ignored out := rfl

/-- The marks take the executable's name away from wherever it stood. -/
theorem count_marked_lt {c : Char} {path kept : List Char} {name mark : List Char} (foreign : c ∉ mark) (part : c ∈ name)
    (inPath : name <:+: path) (occurs : name <:+: kept) :
    (Text.replaceFrom name mark 0 (Text.replaceFrom path mark 0 kept)).count c < kept.count c := by
  -- the path is replaced first, and takes its own base name along
  by_cases whole : path <:+: kept
  · exact (Text.count_replaceFrom_le foreign 0 _).trans_lt
      (Text.count_replaceFrom_lt foreign (inPath.subset part) whole)
  · rw [Text.replaceFrom_of_not_infix whole]
    exact Text.count_replaceFrom_lt foreign part occurs

/-- The marks change an output exactly if the executable's name is left in it. -/
theorem normalize_eq_filterLines {path : String} (some_ : path ≠ "")
    (foreign : ∃ c ∈ (Path.base path).toList, c ∉ binaryMark.toList) (ignored : List String) (out : String) :
    normalize ignored path out = filterLines ignored out ↔
      Text.contains (Path.base path) (filterLines ignored out) = false := by
  obtain ⟨c, part, foreign⟩ := foreign
  have inPath := Path.base_infix some_
  rw [normalize, if_neg (by simpa using some_)]
  generalize filterLines ignored out = kept
  constructor
  · intro same
    by_contra occurs
    rw [Bool.not_eq_false, Text.contains_iff] at occurs
    have fewer := count_marked_lt foreign part inPath occurs
    rw [Text.replaceAll, Text.replaceAll, String.toList_ofList, ← String.toList_inj, String.toList_ofList] at same
    rw [same] at fewer
    exact fewer.false
  · intro absent
    have whole : Text.contains path kept = false :=
      Text.contains_eq_false.mpr fun inside => Text.contains_eq_false.mp absent (inPath.trans inside)
    rw [Text.replaceAll_eq_self whole, Text.replaceAll_eq_self absent]

theorem differences_eq_nil {ignored : List String} {path name : String} {want got : Execution} :
    differences ignored path name want got = [] ↔
      want.unstable = got.unstable ∧ want.exitCode = got.exitCode ∧
        normalize ignored path got.stdout = filterLines ignored want.stdout ∧
        normalize ignored path got.stderr = filterLines ignored want.stderr := by
  simp only [differences, normalize_nowhere, List.append_eq_nil_iff, ite_eq_right_iff, imp_false,
    bne_iff_ne, ne_eq, not_not, and_assoc, List.cons_ne_nil]
  rw [eq_comm (b := normalize ignored path got.stdout), eq_comm (b := normalize ignored path got.stderr)]

theorem runNamed?_map {runs : List TestRun} {f : TestRun → TestRun} (named : ∀ t, (f t).name = t.name)
    (distinct : (runs.map TestRun.name).Nodup) {t : TestRun} (mem : t ∈ runs) :
    runNamed? (runs.map f) t.name = some (f t) := by
  rw [runNamed?]
  cases found : (runs.map f).reverse.find? (·.name == t.name) with
  | none =>
      have other := List.find?_eq_none.mp found (f t) (List.mem_reverse.mpr (List.mem_map_of_mem mem))
      simp [named] at other
  | some u =>
      have same : u.name = t.name := by simpa using List.find?_some found
      obtain ⟨t', mem', rfl⟩ := List.mem_map.mp (List.mem_reverse.mp (List.mem_of_find?_eq_some found))
      rw [List.inj_on_of_nodup_map distinct mem' mem ((named t').symm.trans same)]

end Golden

/-- The run with its outputs changed. -/
def TestRun.mapOutputs (change : String → String) (t : TestRun) : TestRun :=
  { t with result := { t.result with stdout := change t.result.stdout, stderr := change t.result.stderr } }

namespace RunResult

/-- What the runs put out. -/
def outputs (r : RunResult) : List String := r.runs.flatMap fun t => [t.result.stdout, t.result.stderr]

/-- The result of the same runs of an executable at another path, with their outputs changed. -/
def moved (r : RunResult) (path : String) (change : String → String) : RunResult :=
  { r with binaryPath := path, runs := r.runs.map (TestRun.mapOutputs change) }

theorem moved_self (r : RunResult) : r.moved r.binaryPath id = r := by
  have same : TestRun.mapOutputs id = id := rfl
  rw [moved, same, List.map_id]

end RunResult

namespace Golden

variable {r : RunResult} (path : String) (change : String → String) (ignored : List String)

/-- A result that was moved is as recorded exactly if every output, with the marks, is what was recorded of it. -/
theorem mismatches_golden_eq_nil (compiled : r.compileFailed = false) (distinct : (r.runs.map TestRun.name).Nodup) :
    mismatches r.golden (r.moved path change) ignored = [] ↔
      ∀ out ∈ r.outputs, normalize ignored path (change out) = filterLines ignored out := by
  have runs : r.golden.runs = r.runs := by
    simp only [RunResult.golden, compiled, Bool.false_eq_true, if_false]
  have one (t : TestRun) (mem : t ∈ r.runs) :
      runNamed? (r.moved path change).runs t.name = some (t.mapOutputs change) :=
    runNamed?_map (f := TestRun.mapOutputs change) (fun _ => rfl) distinct mem
  simp only [mismatches, runs, List.flatMap_eq_nil_iff, RunResult.outputs, List.forall_mem_flatMap]
  refine forall₂_congr fun t mem => ?_
  rw [one t mem]
  simp [differences_eq_nil, TestRun.mapOutputs, RunResult.moved]

theorem status_compare_golden (file : String) (compiled : r.compileFailed = false) (distinct : (r.runs.map TestRun.name).Nodup) :
    (compare file r.golden (r.moved path change) ignored).status =
      if ∀ out ∈ r.outputs, normalize ignored path (change out) = filterLines ignored out then .pass else .fail := by
  have succeeds : r.golden.compileFails = false := by
    simp only [RunResult.golden, compiled, Bool.false_eq_true, if_false]
  rw [compare, if_neg (by rw [succeeds]; nofun), if_congr (mismatches_golden_eq_nil path change ignored compiled distinct).symm rfl rfl]
  split
  · next none_ => rw [if_pos none_]
  · next some_ => rw [if_neg some_]

/-- A fresh record passes against the result it was made from, or against one of another executable with changed
    outputs, exactly if the marks that only the result gets make no difference: if it has no path, or, for a name
    that is not made of the letters of the mark, if the name stands in no line that is compared. -/
theorem compare_fresh {r : RunResult} (compiled : r.compileFailed = false) (distinct : (r.runs.map TestRun.name).Nodup)
    (file : String) (ignored : List String) :
    (r.binaryPath = "" → (compare file r.golden r ignored).status = .pass) ∧
    (r.binaryPath ≠ "" → (∃ c ∈ (Path.base r.binaryPath).toList, c ∉ binaryMark.toList) →
      (compare file r.golden r ignored).status =
        if ∀ out ∈ r.outputs, Text.contains (Path.base r.binaryPath) (filterLines ignored out) = false
        then .pass else .fail) ∧
    ∀ (path : String) (change : String → String),
      (compare file r.golden (r.moved path change) ignored).status =
        if ∀ out ∈ r.outputs, normalize ignored path (change out) = filterLines ignored out then .pass else .fail := by
  have own := status_compare_golden r.binaryPath id ignored file compiled distinct
  rw [r.moved_self] at own
  refine ⟨fun nowhere => ?_, fun some_ foreign => ?_, fun path change => ?_⟩
  · rw [own, if_pos fun out _ => by rw [nowhere, normalize_nowhere, id]]
  · simp only [own, id, normalize_eq_filterLines some_ foreign]
  · exact status_compare_golden path change ignored file compiled distinct

/-- The name stands in a line that is left out, so the record passes. -/
theorem compare_fresh_ignoring :
    let r : RunResult := ⟨"/tmp/ltest-1/abc", ⟨"", "", 0, Duration.zero, false, false⟩,
      [⟨"no_input", "", ⟨"abc 3 ms\n7\n", "", 1, Duration.zero, false, false⟩⟩]⟩
    (r.compileFailed = false ∧ (r.runs.map TestRun.name).Nodup ∧ r.binaryPath ≠ "" ∧
      ∃ c ∈ (Path.base r.binaryPath).toList, c ∉ binaryMark.toList) ∧
    (compare "p.lm" r.golden r [" ms"]).status = .pass := by
  intro r
  have name : ∃ c ∈ (Path.base r.binaryPath).toList, c ∉ binaryMark.toList := ⟨'a', by decide +kernel⟩
  refine ⟨⟨by decide, by decide, by decide, name⟩, ?_⟩
  rw [(compare_fresh (by decide) (by decide) "p.lm" [" ms"]).2.1 (by decide) name]
  decide +kernel

/-- A program that puts out its own name fails against the record of that very run. -/
theorem compare_fresh_fails :
    let r : RunResult := ⟨"/tmp/ltest-1/abc", ⟨"", "", 0, Duration.zero, false, false⟩,
      [⟨"no_input", "", ⟨"abc\n", "", 0, Duration.zero, false, false⟩⟩]⟩
    r.compileFailed = false ∧ (r.runs.map TestRun.name).Nodup ∧ (compare "p.lm" r.golden r []).status ≠ .pass := by
  decide +kernel

end Golden

end Lantern
