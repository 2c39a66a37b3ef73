import Lantern.Proofs.Histories

/-!
# What a fingerprint tells apart

A fingerprint is taken of fields with a zero byte between two of them: the platform, the libraries, the
further arguments of the linker, and the text. The fields can be read back, but the byte between the last
library and the first argument is like the bytes between libraries. So the input of a fingerprint tells
everything but where the one list ends and the other begins.
-/

namespace Lantern.Package

/-- The bytes of a text do without the separator. -/
def ZeroFree (s : String) : Prop := 0 ∉ Text.utf8Bytes s

instance (s : String) : Decidable (ZeroFree s) := inferInstanceAs (Decidable (0 ∉ Text.utf8Bytes s))

/-- The fields of a fingerprint's input can be told apart: nothing contains the separator, and no item of a
    list is empty. -/
structure Separable (o : PackageOptions) (text : String) : Prop where
  runtimeLibs : ∀ x ∈ o.runtimeLibs, x ≠ "" ∧ ZeroFree x
  linkerArgs : ∀ x ∈ o.linkerArgs, x ≠ "" ∧ ZeroFree x
  text : ZeroFree text

/-- The fields that a list makes: one for each item, and an empty one if there is none. -/
def fields (xs : List String) : List String := if xs.isEmpty then [""] else xs

variable {o o' : PackageOptions} {text text' : String}

/-! ## Reading the fields back -/

theorem splitOn_join {xs : List String} (free : ∀ x ∈ xs, x ≠ "" ∧ ZeroFree x) :
    (separator.intercalate (xs.map Text.utf8Bytes)).splitOn 0 = (fields xs).map Text.utf8Bytes := by
  cases xs with
  | nil =>
      have empty : Text.utf8Bytes "" = [] := by decide +kernel
      simp [fields, empty]
  | cons x xs =>
      refine List.splitOn_intercalate 0 (fun bytes mem => ?_) (by simp)
      obtain ⟨y, inside, rfl⟩ := List.mem_map.mp mem
      exact (free y inside).2

theorem splitOn_fingerprintInput (separable : Separable o text) :
    (fingerprintInput o text).splitOn 0 =
      (o.platform.name :: (fields o.runtimeLibs ++ fields o.linkerArgs ++ [text])).map Text.utf8Bytes := by
  have platform : (0 : UInt8) ∉ Text.utf8Bytes o.platform.name := by
    cases o.platform <;> decide +kernel
  have split (xs ys : List UInt8) : (xs ++ (separator ++ ys)).splitOn 0 = xs.splitOn 0 ++ ys.splitOn 0 :=
    List.splitOn_append_cons_self xs ys
  simp only [fingerprintInput, List.append_assoc, split, List.splitOn_eq_singleton platform,
    List.splitOn_eq_singleton separable.text, splitOn_join separable.runtimeLibs, splitOn_join separable.linkerArgs]
  simp

/-- Two inputs are equal if their fields are. -/
theorem fingerprintInput_eq_iff_fields (separable : Separable o text) (separable' : Separable o' text') :
    fingerprintInput o text = fingerprintInput o' text' ↔
      o.platform.name :: (fields o.runtimeLibs ++ fields o.linkerArgs ++ [text]) =
        o'.platform.name :: (fields o'.runtimeLibs ++ fields o'.linkerArgs ++ [text']) := by
  rw [← (List.map_injective_iff.mpr Text.utf8Bytes_injective).eq_iff, ← splitOn_fingerprintInput separable,
    ← splitOn_fingerprintInput separable']
  constructor
  · exact congrArg _
  · intro same
    calc fingerprintInput o text = [0].intercalate ((fingerprintInput o text).splitOn 0) :=
        (List.intercalate_splitOn 0).symm
      _ = [0].intercalate ((fingerprintInput o' text').splitOn 0) := by rw [same]
      _ = fingerprintInput o' text' := List.intercalate_splitOn 0

/-! ## The fields of two lists -/

theorem fields_of_ne_nil {xs : List String} (some_ : xs ≠ []) : fields xs = xs := by
  simp [fields, some_]

theorem fields_ne_nil (xs : List String) : fields xs ≠ [] := by
  cases xs <;> simp [fields]

/-- An empty field at the front says that there is no item. -/
theorem head?_fields {xs : List String} (known : "" ∉ xs) : (fields xs).head? = some "" ↔ xs = [] := by
  cases xs with
  | nil => simp [fields]
  | cons x xs => simpa [fields] using fun same : x = "" => known (same ▸ List.mem_cons_self)

/-- So it does at the end. -/
theorem getLast?_fields {xs : List String} (known : "" ∉ xs) : (fields xs).getLast? = some "" ↔ xs = [] := by
  by_cases none : xs = []
  · simp [none, fields]
  · rw [fields_of_ne_nil none]
    exact ⟨fun last => (known (List.mem_of_getLast? last)).elim, fun other => (none other).elim⟩

theorem fields_inj {xs xs' : List String} (known : "" ∉ xs) (known' : "" ∉ xs') (same : fields xs = fields xs') :
    xs = xs' := by
  have none : xs = [] ↔ xs' = [] := by rw [← head?_fields known, same, head?_fields known']
  by_cases empty : xs = []
  · rw [empty, none.mp empty]
  · rwa [fields_of_ne_nil empty, fields_of_ne_nil (mt none.mpr empty)] at same

/-- The fields of two lists in a row tell the items of both, and whether one of the lists is empty. -/
theorem fields_append_inj {xs ys xs' ys' : List String} (known : "" ∉ xs ++ ys) (known' : "" ∉ xs' ++ ys') :
    fields xs ++ fields ys = fields xs' ++ fields ys' ↔
      xs ++ ys = xs' ++ ys' ∧ (xs = xs' ∨ xs ≠ [] ∧ ys ≠ [] ∧ xs' ≠ [] ∧ ys' ≠ []) := by
  rw [List.mem_append, not_or] at known known'
  constructor
  · intro same
    have first := congrArg List.head? same
    have last := congrArg List.getLast? same
    rw [List.head?_append_of_ne_nil _ (fields_ne_nil _), List.head?_append_of_ne_nil _ (fields_ne_nil _)] at first
    rw [List.getLast?_append_of_ne_nil _ (fields_ne_nil _), List.getLast?_append_of_ne_nil _ (fields_ne_nil _)] at last
    have left : xs = [] ↔ xs' = [] := by rw [← head?_fields known.1, first, head?_fields known'.1]
    have right : ys = [] ↔ ys' = [] := by rw [← getLast?_fields known.2, last, getLast?_fields known'.2]
    by_cases noLeft : xs = []
    · rw [noLeft, left.mp noLeft] at same ⊢
      have := fields_inj known.2 known'.2 (List.append_cancel_left same)
      exact ⟨by rw [this], .inl rfl⟩
    by_cases noRight : ys = []
    · rw [noRight, right.mp noRight] at same ⊢
      have := fields_inj known.1 known'.1 (List.append_cancel_right same)
      exact ⟨by rw [this], .inl this⟩
    · have noLeft' := mt left.mpr noLeft
      have noRight' := mt right.mpr noRight
      rw [fields_of_ne_nil noLeft, fields_of_ne_nil noRight, fields_of_ne_nil noLeft', fields_of_ne_nil noRight'] at same
      exact ⟨same, .inr ⟨noLeft, noRight, noLeft', noRight'⟩⟩
  · rintro ⟨same, rfl | ⟨left, right, left', right'⟩⟩
    · rw [List.append_cancel_left same]
    · rwa [fields_of_ne_nil left, fields_of_ne_nil right, fields_of_ne_nil left', fields_of_ne_nil right']

/-! ## What is told apart -/

theorem Separable.items (separable : Separable o text) : "" ∉ o.runtimeLibs ++ o.linkerArgs := by
  intro mem
  rcases List.mem_append.mp mem with lib | arg
  · exact (separable.runtimeLibs _ lib).1 rfl
  · exact (separable.linkerArgs _ arg).1 rfl

/-- Two inputs of fingerprints are equal exactly if platforms and texts are, both name the same libraries and
    arguments in the same order, and either split them in the same place or both have some of each. -/
theorem fingerprintInput_eq_iff (separable : Separable o text) (separable' : Separable o' text') :
    fingerprintInput o text = fingerprintInput o' text' ↔
      o.platform = o'.platform ∧ text = text' ∧
        o.runtimeLibs ++ o.linkerArgs = o'.runtimeLibs ++ o'.linkerArgs ∧
          (o.runtimeLibs = o'.runtimeLibs ∨
            o.runtimeLibs ≠ [] ∧ o.linkerArgs ≠ [] ∧ o'.runtimeLibs ≠ [] ∧ o'.linkerArgs ≠ []) := by
  have platforms : o.platform.name = o'.platform.name ↔ o.platform = o'.platform := by
    cases o.platform <;> cases o'.platform <;> decide +kernel
  rw [fingerprintInput_eq_iff_fields separable separable', List.cons.injEq, platforms,
    List.append_singleton_inj, fields_append_inj separable.items separable'.items]
  tauto

/-- A program packaged with the given libraries and arguments. -/
def packagedWith (runtimeLibs linkerArgs : List String) : PackageOptions :=
  { platform := .sysv, runtimeLibs, linkerArgs }

theorem separable_packagedWith {libs args : List String}
    (known : (libs ++ args).all (fun x => x != "" && decide (ZeroFree x)) = true) (free : ZeroFree text) :
    Separable (packagedWith libs args) text := by
  have items (x : String) (mem : x ∈ libs ++ args) : x ≠ "" ∧ ZeroFree x := by
    simpa using List.all_eq_true.mp known x mem
  exact ⟨fun x mem => items x (List.mem_append_left _ mem), fun x mem => items x (List.mem_append_right _ mem), free⟩

/-- Whether an object is a library or an argument is told if there is nothing else. -/
theorem fingerprintInput_eq_iff_single :
    Separable (packagedWith ["rt.o"] []) "t" ∧ Separable (packagedWith [] ["rt.o"]) "t" ∧
      fingerprintInput (packagedWith ["rt.o"] []) "t" ≠ fingerprintInput (packagedWith [] ["rt.o"]) "t" := by
  have library : Separable (packagedWith ["rt.o"] []) "t" := separable_packagedWith (by decide +kernel) (by decide +kernel)
  have argument : Separable (packagedWith [] ["rt.o"]) "t" := separable_packagedWith (by decide +kernel) (by decide +kernel)
  refine ⟨library, argument, fun same => ?_⟩
  obtain ⟨-, -, -, split⟩ := (fingerprintInput_eq_iff library argument).mp same
  exact absurd split (by decide)

/-- Where `-l` stands in front of `-o` it takes that for the name of its library. The fingerprint is the same. -/
theorem fingerprintInput_confused :
    let early := packagedWith ["rt.o"] ["-l", "m"]
    let late := packagedWith ["rt.o", "-l"] ["m"]
    Separable early "t" ∧ Separable late "t" ∧ early.runtimeLibs ≠ late.runtimeLibs ∧
      early.linkerArgs ≠ late.linkerArgs ∧
      linkerArgs early.convention "p.o" "p" early.runtimeLibs early.linkerArgs =
        ["-no-pie", "p.o", "rt.o", "-o", "p", "-l", "m", "-lc"] ∧
      linkerArgs late.convention "p.o" "p" late.runtimeLibs late.linkerArgs =
        ["-no-pie", "p.o", "rt.o", "-l", "-o", "p", "m", "-lc"] ∧
      fingerprintInput early "t" = fingerprintInput late "t" := by
  refine ⟨separable_packagedWith ?_ ?_, separable_packagedWith ?_ ?_, ?_, ?_, rfl, rfl, ?_⟩
  all_goals decide +kernel

end Lantern.Package
