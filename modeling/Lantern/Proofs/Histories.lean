import Mathlib
import Lantern.Proofs.Stamps

/-!
# Calls in a row

Packaging is called again and again on the same files. Which of the calls find nothing to do depends
on the last one before them that ran the tools.
-/

namespace Lantern.Package

open FileTree

/-- A call as it went. -/
structure Step where
  /-- The call. -/
  attempt : Attempt
  /-- Files and tool calls before it. -/
  before : Workspace
  /-- Files and tool calls after it. -/
  after : Workspace
  /-- What it returned. -/
  result : Except PackageFault Product

namespace Step

/-- A tool was run. -/
def ran (s : Step) : Bool := s.after.calls != s.before.calls

/-- The call succeeded. -/
def succeeded (s : Step) : Bool := s.result.isOk

/-- The call found nothing to do. -/
def cached (s : Step) : Bool :=
  match s.result with
  | .ok p => p.cached
  | .error _ => false

end Step

/-- Calls one after the other on the same files. -/
def history (stem : String) : Workspace → List Attempt → List Step
  | _, [] => []
  | w, a :: attempts =>
    ⟨a, w, (a.run stem w).1, (a.run stem w).2⟩ :: history stem (a.run stem w).1 attempts

/-- The last call that ran a tool. -/
def lastRun (steps : List Step) : Option Step := (steps.filter Step.ran).getLast?

theorem lastRun_concat (steps : List Step) (s : Step) :
    lastRun (steps ++ [s]) = if s.ran then some s else lastRun steps := by
  unfold lastRun
  rw [List.filter_append]
  by_cases ran : s.ran
  · simp [ran]
  · simp [ran]

theorem mem_of_lastRun {steps : List Step} {s : Step} (last : lastRun steps = some s) : s ∈ steps :=
  (List.mem_filter.mp (List.mem_of_getLast? last)).1

variable {stem : String} {o : PackageOptions} {a : Attempt} {w w' : Workspace}
  {result : Except PackageFault Product}

/-! ## One call -/

/-- What the files say about the last run of the tools: after a success only directories have come;
    otherwise there is no stamp. -/
structure Remembers (stem : String) (o : PackageOptions) (last : Option Step) (t : FileTree) : Prop where
  sound : t.Sound
  success : ∀ r, last = some r → r.succeeded → r.attempt.options.buildPath = o.buildPath ∧
    r.attempt.Built stem r.after.files ∧ Grows r.after.files t
  failure : (∀ r, last = some r → ¬ r.succeeded) → ¬ t.FileAt (place (o.stampPath stem))

theorem stampPath_eq {o o' : PackageOptions} (same : o.buildPath = o'.buildPath) (stem : String) :
    o.stampPath stem = o'.stampPath stem := by
  rw [PackageOptions.stampPath, PackageOptions.stampPath, same]

theorem asmPath_eq {o o' : PackageOptions} (same : o.buildPath = o'.buildPath) (stem : String) :
    (o.product stem).asmPath = (o'.product stem).asmPath := by
  rw [PackageOptions.product, PackageOptions.product, same]

theorem ran_append (a : Attempt) (w : Workspace) (t : FileTree) {calls : List (List String)}
    (some_ : calls ≠ []) (result : Except PackageFault Product) :
    (Step.mk a w ⟨t, w.calls ++ calls⟩ result).ran := by
  simpa [Step.ran] using some_

theorem not_ran (a : Attempt) (w : Workspace) (t : FileTree) (result : Except PackageFault Product) :
    (Step.mk a w ⟨t, w.calls⟩ result).ran = false := by
  simp [Step.ran]

/-- A run of the tools that fails is remembered by the missing stamp. -/
theorem Remembers.of_failure {s : Step} {t : FileTree} (sound : t.Sound) (failed : ¬ s.succeeded)
    (noStamp : ¬ t.FileAt (place (o.stampPath stem))) : Remembers stem o (some s) t :=
  ⟨sound, fun _ last succeeded => absurd succeeded (Option.some.inj last ▸ failed), fun _ => noStamp⟩

theorem Remembers.step {last : Option Step} (remembers : Remembers stem o last w.files)
    (same : a.options.buildPath = o.buildPath) (honest : a.Honest stem)
    (went : a.Went stem w w' result) :
    Remembers stem o (if (Step.mk a w w' result).ran then some ⟨a, w, w', result⟩ else last) w'.files := by
  have stamp := stampPath_eq same stem
  cases went with
  | current =>
      rw [if_neg (by simp [Step.ran])]
      exact remembers
  | @unprepared t fault outdated prepared =>
      rw [not_ran, if_neg Bool.false_ne_true]
      have after := Sound.prepare remembers.sound prepared
      rw [stamp] at after
      refine ⟨after.1, fun r own succeeded => ?_, fun failed file => remembers.failure failed (after.2 file)⟩
      obtain ⟨sameDir, built, grows⟩ := remembers.success r own succeeded
      have asm : w.files.FileAt (place (a.options.product stem).asmPath) := by
        rw [asmPath_eq (same.trans sameDir.symm)]
        exact grows.fileAt.mpr built.asm
      exact ⟨sameDir, built, grows.trans (grows_prepare remembers.sound asm prepared)⟩
  | unassembled outdated prepared assembled =>
      rw [if_pos (ran_append _ _ _ (by simp [Attempt.toolCalls]) _)]
      obtain ⟨sound, noStamp⟩ := (ready_prepare remembers.sound prepared).unassembled honest
      exact .of_failure sound nofun (stamp ▸ noStamp)
  | unlinked outdated prepared assembled object linked =>
      rw [if_pos (ran_append _ _ _ (by simp [Attempt.toolCalls]) _)]
      obtain ⟨sound, noStamp, -⟩ := (ready_prepare remembers.sound prepared).unlinked honest object
      exact .of_failure sound nofun (stamp ▸ noStamp)
  | @ended t t' t'' fault outdated prepared assembled object linked finished =>
      rw [if_pos (ran_append _ _ _ (by simp [Attempt.toolCalls]) _)]
      obtain ⟨sound, success, failure⟩ :=
        (ready_prepare remembers.sound prepared).finish honest assembled object linked finished
      cases fault with
      | some fault => exact .of_failure sound nofun (stamp ▸ failure nofun)
      | none =>
          refine ⟨sound, fun r own _ => ?_, fun failed => absurd rfl (failed _ rfl)⟩
          obtain rfl := Option.some.inj own
          exact ⟨same, success rfl, .refl _⟩

/-! ## All calls -/

theorem mem_history {attempts : List Attempt} {s : Step} (mem : s ∈ history stem w attempts) :
    s.attempt ∈ attempts := by
  induction attempts generalizing w with
  | nil => cases mem
  | cons a attempts ih =>
      rcases List.mem_cons.mp mem with rfl | mem
      · exact List.mem_cons_self
      · exact List.mem_cons_of_mem _ (ih mem)

theorem Remembers.history {attempts : List Attempt}
    (same : ∀ a ∈ attempts, a.options.buildPath = o.buildPath) (honest : ∀ a ∈ attempts, a.Honest stem)
    {done : List Step} (remembers : Remembers stem o (lastRun done) w.files)
    {earlier later : List Step} {s : Step} (happened : history stem w attempts = earlier ++ s :: later) :
    Remembers stem o (lastRun (done ++ earlier)) s.before.files ∧
      s.attempt.Went stem s.before s.after s.result := by
  induction attempts generalizing w done earlier with
  | nil => cases earlier <;> cases happened
  | cons a attempts ih =>
      obtain ⟨sameDir, same⟩ := List.forall_mem_cons.mp same
      obtain ⟨isHonest, honest⟩ := List.forall_mem_cons.mp honest
      cases earlier with
      | nil =>
          obtain ⟨rfl, -⟩ := List.cons.inj happened
          rw [List.append_nil]
          exact ⟨remembers, a.went_run stem w⟩
      | cons first earlier =>
          obtain ⟨rfl, others⟩ := List.cons.inj happened
          have next := remembers.step sameDir isHonest (a.went_run stem w)
          rw [← lastRun_concat] at next
          have rest := ih same honest next others
          rwa [List.append_assoc, List.singleton_append] at rest

/-! ## The stamp -/

theorem read_eq_ok {t : FileTree} {path content : String} :
    t.read path = .ok content ↔ ∃ n, t.stat path = .ok n ∧ n.text? = some content := by
  unfold FileTree.read readBy
  constructor
  · intro found
    split at found
    · cases found
    · next n isNode =>
        split at found
        · next text isText => exact ⟨n, isNode, (Except.ok.inj found) ▸ isText⟩
        · cases found
  · rintro ⟨n, isNode, isText⟩
    simp only [isNode, isText]

/-- The stamp fits exactly what the last run of the tools made, if it succeeded. -/
theorem Remembers.stampFits {last : Option Step} {t : FileTree} (remembers : Remembers stem o last t)
    (print : String) : stampFits t (o.stampPath stem) print ↔
      ∃ r, last = some r ∧ r.succeeded ∧ fingerprint r.attempt.options r.attempt.text = print := by
  have holds {r : Step} (own : last = some r) (succeeded : r.succeeded) :
      t.read (o.stampPath stem) = .ok (fingerprint r.attempt.options r.attempt.text ++ "\n") := by
    obtain ⟨same, built, grows⟩ := remembers.success r own succeeded
    have stamp := grows.stat built.stamp
    rw [stampPath_eq same] at stamp
    exact read_eq_ok.mpr ⟨_, stamp, rfl⟩
  unfold Package.stampFits
  constructor
  · intro fits
    split at fits
    · next content found =>
        obtain ⟨n, isNode, isText⟩ := read_eq_ok.mp found
        have isFile : n ≠ .dir := by
          rintro rfl
          cases isText
        have stamped : t.FileAt (place (o.stampPath stem)) := HasFile.fileAt ⟨n, isFile, isNode⟩
        obtain ⟨r, own, succeeded⟩ : ∃ r, last = some r ∧ r.succeeded := by
          by_contra none_
          exact remembers.failure (fun r own succeeded => none_ ⟨r, own, succeeded⟩) stamped
        obtain rfl := Except.ok.inj (found.symm.trans (holds own succeeded))
        rw [trim_fingerprint] at fits
        exact ⟨r, own, succeeded, by simpa using fits⟩
    · cases fits
  · rintro ⟨r, own, succeeded, rfl⟩
    simp [holds own succeeded, trim_fingerprint]

theorem cached_iff (went : a.Went stem w w' result) :
    (Step.mk a w w' result).cached ↔ ¬ a.options.force ∧
      Package.stampFits w.files (a.options.stampPath stem) (fingerprint a.options a.text) ∧
        w.files.has (a.options.product stem).binPath := by
  have fits : isCurrent a.options stem a.text w.files ↔ ¬ a.options.force ∧
      Package.stampFits w.files (a.options.stampPath stem) (fingerprint a.options a.text) ∧
        w.files.has (a.options.product stem).binPath := by
    simp [isCurrent, and_assoc]
  rw [← fits]
  cases went with
  | current fits => exact iff_of_true rfl fits
  | unprepared outdated | unassembled outdated | unlinked outdated => exact iff_of_false nofun outdated
  | @ended _ _ _ fault outdated => cases fault <;> exact iff_of_false nofun outdated

theorem eq_of_cached (went : a.Went stem w w' result) (cached : (Step.mk a w w' result).cached) :
    w' = w := by
  cases went with
  | current => rfl
  | unprepared | unassembled | unlinked => cases cached
  | @ended _ _ _ fault => cases fault <;> cases cached

/-- A failing tool leaves no stamp, and the linker no executable. -/
theorem no_files_of_failure {last : Option Step} (remembers : Remembers stem o last w.files)
    (honest : a.Honest stem) {stage : Stage} {name output : String} {why : ToolFault}
    (went : a.Went stem w w' (.error (.tool stage name why output))) :
    ¬ w'.files.HasFile (a.options.stampPath stem) ∧
      (stage = .linker → ¬ w'.files.HasFile (a.options.product stem).binPath) := by
  generalize failed : Except.error (PackageFault.tool stage name why output) = result at went
  cases went with
  | current => cases failed
  | unprepared outdated prepared =>
      obtain rfl := Except.error.inj failed
      exact (prepare_ne_tool (congrArg Prod.snd prepared) stage name why output rfl).elim
  | unassembled outdated prepared =>
      obtain ⟨sound, noStamp⟩ := (ready_prepare remembers.sound prepared).unassembled honest
      refine ⟨fun file => noStamp file.fileAt, ?_⟩
      rintro rfl
      cases failed
  | unlinked outdated prepared assembled object =>
      obtain ⟨sound, noStamp, noBin⟩ := (ready_prepare remembers.sound prepared).unlinked honest object
      exact ⟨fun file => noStamp file.fileAt, fun _ => noBin⟩
  | @ended t t' t'' fault outdated prepared assembled object linked finished =>
      cases fault with
      | some fault =>
          obtain rfl := Except.error.inj failed
          obtain ⟨_, -, ⟨_, -, eq⟩ | ⟨_, -, eq⟩⟩ :=
            finish_cases a.options stem a.text (a.link stem t').1
          · cases finished.symm.trans eq
          · cases finished.symm.trans eq
      | none => cases failed

/-! ## What is packaged in one way -/

/-- Nothing differs that decides where the files of a program are or that its stamp remembers. -/
structure Alike (stem : String) (o o' : PackageOptions) : Prop where
  buildPath : o.buildPath = o'.buildPath
  binPath : (o.product stem).binPath = (o'.product stem).binPath
  platform : o.platform = o'.platform
  runtimeLibs : o.runtimeLibs = o'.runtimeLibs
  linkerArgs : o.linkerArgs = o'.linkerArgs

theorem text_eq_of_input {o o' : PackageOptions} {text text' : String} (platform : o.platform = o'.platform)
    (runtimeLibs : o.runtimeLibs = o'.runtimeLibs) (linkerArgs : o.linkerArgs = o'.linkerArgs)
    (eq : fingerprintInput o text = fingerprintInput o' text') : text = text' := by
  unfold fingerprintInput at eq
  rw [platform, runtimeLibs, linkerArgs] at eq
  exact Text.utf8Bytes_injective (List.append_cancel_left eq)

/-- While a program is packaged in one way, a call finds nothing to do exactly if it is not forced, the
    last call that ran the tools succeeded with the same text, and the executable is there; it then
    leaves everything as it is. A tool that fails leaves no stamp, and the linker no executable. -/
theorem cached_iff_lastRun {attempts : List Attempt} (sound : w.files.Sound)
    (fresh : ¬ w.files.HasFile (o.stampPath stem)) (alike : ∀ a ∈ attempts, Alike stem a.options o)
    (honest : ∀ a ∈ attempts, a.Honest stem)
    (free : CollisionFree (attempts.map fun a => fingerprintInput a.options a.text))
    {earlier later : List Step} {s : Step} (happened : history stem w attempts = earlier ++ s :: later) :
    (s.cached ↔ ¬ s.attempt.options.force ∧
        (∃ r, lastRun earlier = some r ∧ r.succeeded ∧ r.attempt.text = s.attempt.text) ∧
          s.before.files.has (o.product stem).binPath) ∧
      (s.cached → s.after = s.before) ∧
      ∀ stage name why output, s.result = .error (.tool stage name why output) →
        ¬ s.after.files.HasFile (o.stampPath stem) ∧
          (stage = .linker → ¬ s.after.files.HasFile (o.product stem).binPath) := by
  have start : Remembers stem o (lastRun []) w.files :=
    ⟨sound, nofun, fun _ file => fresh ((hasFile_stamp sound).mpr file)⟩
  obtain ⟨remembers, went⟩ := start.history (fun a mem => (alike a mem).buildPath) honest happened
  rw [List.nil_append] at remembers
  have inside (r : Step) (mem : r ∈ earlier ++ s :: later) : r.attempt ∈ attempts :=
    mem_history (happened ▸ mem)
  have own := inside s (by simp)
  have same := alike _ own
  have stamp := stampPath_eq same.buildPath stem
  refine ⟨?_, eq_of_cached went, fun stage name why output failed => ?_⟩
  · rw [show s.cached = (Step.mk s.attempt s.before s.after s.result).cached from rfl, cached_iff went,
      stamp, same.binPath, remembers.stampFits]
    have texts {r : Step} (last : lastRun earlier = some r) :
        fingerprint r.attempt.options r.attempt.text = fingerprint s.attempt.options s.attempt.text ↔
          r.attempt.text = s.attempt.text := by
      have its := inside r (by simp [mem_of_lastRun last])
      have like := alike _ its
      have platform := like.platform.trans same.platform.symm
      have runtimeLibs := like.runtimeLibs.trans same.runtimeLibs.symm
      have linkerArgs := like.linkerArgs.trans same.linkerArgs.symm
      constructor
      · intro eq
        refine text_eq_of_input platform runtimeLibs linkerArgs ?_
        exact free.fingerprint (List.mem_map_of_mem its) (List.mem_map_of_mem own) eq
      · intro eq
        rw [fingerprint, fingerprint, fingerprintInput, fingerprintInput, platform, runtimeLibs,
          linkerArgs, eq]
    refine and_congr_right fun _ => and_congr_left fun _ => exists_congr fun r => ?_
    exact and_congr_right fun last => and_congr_right fun _ => texts last
  · have files := no_files_of_failure remembers (honest _ own) (failed ▸ went)
    rwa [stamp, same.binPath] at files

/-- What a copy of the last argument before `-o` to the one behind it leaves of the files. -/
def copied? (args : List String) (t : FileTree) : Option FileTree := do
  let input ← (args.takeWhile (· != "-o")).getLast?
  let out ← (args.dropWhile (· != "-o"))[1]?
  let content ← (t.read input).toOption
  (t.write out content).toOption

/-- Tools that copy, but for those that are broken. -/
def copyingTools (broken : List String) : Toolbox := fun tool args t =>
  match copied? args t with
  | some t' => if broken.contains tool then (t, ⟨"", some (.exited 1)⟩) else (t', ⟨"", none⟩)
  | none => (t, ⟨"", some (.exited 1)⟩)

theorem makes_copyingTools {broken args : List String} {out : String} (tool : String)
    (names : (args.dropWhile (· != "-o"))[1]? = some out) (t : FileTree) :
    Makes out t (copyingTools broken tool args t) := by
  unfold copyingTools
  split
  · next t' copied =>
      split
      · exact ⟨nofun, fun _ => .inl rfl⟩
      · simp only [copied?, names, Option.bind_eq_bind, Option.bind_eq_some_iff, Option.some.injEq] at copied
        obtain ⟨_, -, _, rfl, content, -, written⟩ := copied
        have made : t.putFile out (.file content) = .ok t' := by
          cases eq : t.write out content with
          | error why => simp [eq, Except.toOption] at written
          | ok t'' =>
              rw [eq] at written
              exact eq.trans (congrArg Except.ok (Option.some.inj written))
        have isFile : FileNode.file content ≠ .dir := nofun
        exact ⟨fun _ => ⟨_, isFile, made⟩, fun _ => .inr (.inr ⟨_, isFile, made⟩)⟩
  · exact ⟨nofun, fun _ => .inl rfl⟩

/-- Programs called `p` for one platform, made by tools that copy. -/
def copying (output text : String) (broken : List String) : Attempt :=
  ⟨{ platform := .sysv, output := output }, text, copyingTools broken⟩

theorem product_copying (output text : String) (broken : List String) :
    (copying output text broken).options.product "p" =
      ⟨"build/p.asm", "build/p.o", orUsual "bin/p" output, false⟩ := by
  have asm : Path.join (orUsual "build" "") ("p" ++ ".asm") = "build/p.asm" := by decide +kernel
  have obj : Path.join (orUsual "build" "") ("p" ++ ".o") = "build/p.o" := by decide +kernel
  have bin : Path.join (orUsual "bin" "") ("p" ++ "") = "bin/p" := by decide +kernel
  simp only [copying, PackageOptions.product, PackageOptions.buildPath, PackageOptions.convention,
    Convention.of, asm, obj, bin]

theorem honest_copying (output text : String) (broken : List String) :
    (copying output text broken).Honest "p" := by
  have product := product_copying output text broken
  have copies : (copying output text broken).tools = copyingTools broken := rfl
  constructor
  · intro t
    rw [Attempt.assemble, copies]
    refine makes_copyingTools _ ?_ t
    rw [Attempt.assemblerArgs, product]
    rfl
  · intro t
    rw [Attempt.link, copies]
    refine makes_copyingTools _ ?_ t
    rw [Attempt.linkerArgs, product]
    rfl

/-- The second text is linked only the second time. -/
def retry : List Attempt :=
  [copying "" "a" [], copying "" "b" ["cc"], copying "" "b" [], copying "" "b" []]

theorem not_hasFile_empty : ¬ empty.HasFile (({ platform := .sysv } : PackageOptions).stampPath "p") := by
  rintro ⟨n, -, found⟩
  have nothing : (empty.stat (({ platform := .sysv } : PackageOptions).stampPath "p")).isOk = false := by
    decide +kernel
  rw [found] at nothing
  cases nothing

theorem cached_iff_lastRun_retry :
    ∃ (earlier : List Step) (s : Step), history "p" ⟨empty, []⟩ retry = earlier ++ [s] ∧ s.cached ∧
      (s.cached ↔ ¬ s.attempt.options.force ∧
        (∃ r, lastRun earlier = some r ∧ r.succeeded ∧ r.attempt.text = s.attempt.text) ∧
          s.before.files.has (({ platform := .sysv } : PackageOptions).product "p").binPath) ∧
      (s.cached → s.after = s.before) := by
  have alike : ∀ a ∈ retry, Alike "p" a.options { platform := .sysv } := by
    have same (text : String) (broken : List String) :
        Alike "p" (copying "" text broken).options { platform := .sysv } := ⟨rfl, rfl, rfl, rfl, rfl⟩
    simp only [retry, List.forall_mem_cons, List.not_mem_nil, false_imp_iff, implies_true, and_true]
    exact ⟨same _ _, same _ _, same _ _, same _ _⟩
  have honest : ∀ a ∈ retry, a.Honest "p" := by
    simp only [retry, List.forall_mem_cons, List.not_mem_nil, false_imp_iff, implies_true, and_true]
    exact ⟨honest_copying .., honest_copying .., honest_copying .., honest_copying ..⟩
  have free : CollisionFree (retry.map fun a => fingerprintInput a.options a.text) := by
    unfold CollisionFree
    decide +kernel
  obtain ⟨earlier, s, happened, cached⟩ : ∃ (earlier : List Step) (s : Step),
      history "p" ⟨empty, []⟩ retry = earlier ++ [s] ∧ s.cached := by
    refine ⟨[_, _, _], _, rfl, ?_⟩
    decide +kernel
  obtain ⟨exact_, unchanged, -⟩ :=
    cached_iff_lastRun sound_empty not_hasFile_empty alike honest free happened
  exact ⟨earlier, s, happened, cached, exact_, unchanged⟩

/-! ## What is packaged in several ways -/

theorem platform_eq_of_input {o o' : PackageOptions} {text text' : String}
    (eq : fingerprintInput o text = fingerprintInput o' text') : o.platform = o'.platform := by
  have first := congrArg List.head? eq
  have sysv : Text.utf8Bytes Platform.sysv.name = [115, 121, 115, 118] := by decide +kernel
  have win64 : Text.utf8Bytes Platform.win64.name = [119, 105, 110, 54, 52] := by decide +kernel
  unfold fingerprintInput at first
  cases is : o.platform with
  | sysv =>
      cases is' : o'.platform with
      | sysv => rfl
      | win64 => simp [is, is', sysv, win64] at first
  | win64 =>
      cases is' : o'.platform with
      | sysv => simp [is, is', sysv, win64] at first
      | win64 => rfl

/-- A program is packaged in several ways in one build directory. A call that finds nothing to do has
    the fingerprint of the last call that ran the tools. If that one linked the same executable with
    the same libraries and further arguments, then the executable is what the linker made, given the
    arguments of this call, of an object assembled from the text of this call. -/
theorem cached_made {attempts : List Attempt} (sound : w.files.Sound)
    (fresh : ¬ w.files.HasFile (o.stampPath stem))
    (same : ∀ a ∈ attempts, a.options.buildPath = o.buildPath) (honest : ∀ a ∈ attempts, a.Honest stem)
    (apart : ∀ a ∈ attempts,
      place (a.options.product stem).binPath ≠ place (a.options.product stem).objPath ∧
        place (a.options.product stem).binPath ≠ place (a.options.stampPath stem))
    (free : CollisionFree (attempts.map fun a => fingerprintInput a.options a.text))
    {earlier later : List Step} {s : Step} (happened : history stem w attempts = earlier ++ s :: later)
    (cached : s.cached) :
    ∃ r, lastRun earlier = some r ∧ r.succeeded ∧
      fingerprintInput r.attempt.options r.attempt.text = fingerprintInput s.attempt.options s.attempt.text ∧
      ((r.attempt.options.product stem).binPath = (s.attempt.options.product stem).binPath →
        r.attempt.options.runtimeLibs = s.attempt.options.runtimeLibs →
        r.attempt.options.linkerArgs = s.attempt.options.linkerArgs →
        r.attempt.text = s.attempt.text ∧ r.attempt.linkerArgs stem = s.attempt.linkerArgs stem ∧
          ∃ n, r.attempt.Made stem n ∧
            s.after.files.stat (s.attempt.options.product stem).binPath = .ok n) := by
  have start : Remembers stem o (lastRun []) w.files :=
    ⟨sound, nofun, fun _ file => fresh ((hasFile_stamp sound).mpr file)⟩
  obtain ⟨remembers, went⟩ := start.history same honest happened
  rw [List.nil_append] at remembers
  have inside (r : Step) (mem : r ∈ earlier ++ s :: later) : r.attempt ∈ attempts :=
    mem_history (happened ▸ mem)
  have own := inside s (by simp)
  obtain ⟨-, fits, -⟩ := (cached_iff went).mp cached
  rw [stampPath_eq (same _ own), remembers.stampFits] at fits
  obtain ⟨r, last, succeeded, prints⟩ := fits
  have its := inside r (by simp [mem_of_lastRun last])
  have input := free.fingerprint (List.mem_map_of_mem its) (List.mem_map_of_mem own) prints
  refine ⟨r, last, succeeded, input, fun binPath runtimeLibs linkerArgs => ?_⟩
  have platform := platform_eq_of_input input
  have sameDir := (same _ its).trans (same _ own).symm
  obtain ⟨-, built, grows⟩ := remembers.success r last succeeded
  obtain ⟨n, made, bin⟩ := built.bin
  obtain ⟨notObj, notStamp⟩ := apart _ its
  have objPath : (r.attempt.options.product stem).objPath = (s.attempt.options.product stem).objPath := by
    simp only [PackageOptions.product, PackageOptions.convention, sameDir, platform]
  refine ⟨text_eq_of_input platform runtimeLibs linkerArgs input, ?_, n, made, ?_⟩
  · simp only [Attempt.linkerArgs, PackageOptions.convention, platform, objPath, binPath, runtimeLibs,
      linkerArgs]
  · rw [eq_of_cached went cached, ← binPath]
    exact grows.stat (bin notObj notStamp)

/-- One text for one executable, twice. -/
def again : List Attempt := [copying "out1" "a" [], copying "out1" "a" []]

theorem cached_made_again :
    ∃ (earlier : List Step) (s r : Step), history "p" ⟨empty, []⟩ again = earlier ++ [s] ∧ s.cached ∧
      lastRun earlier = some r ∧ r.attempt.text = s.attempt.text ∧
        r.attempt.linkerArgs "p" = s.attempt.linkerArgs "p" ∧
          ∃ n, r.attempt.Made "p" n ∧
            s.after.files.stat (s.attempt.options.product "p").binPath = .ok n := by
  have all {P : Attempt → Prop} (own : P (copying "out1" "a" [])) : ∀ a ∈ again, P a := by
    simpa [again] using own
  have apart : place ((copying "out1" "a" []).options.product "p").binPath ≠
        place ((copying "out1" "a" []).options.product "p").objPath ∧
      place ((copying "out1" "a" []).options.product "p").binPath ≠
        place ((copying "out1" "a" []).options.stampPath "p") := by
    decide +kernel
  have free : CollisionFree (again.map fun a => fingerprintInput a.options a.text) := by
    simp [CollisionFree, again]
  obtain ⟨earlier, s, happened, cached, binPath, runtimeLibs, linkerArgs⟩ : ∃ (earlier : List Step) (s : Step),
      history "p" ⟨empty, []⟩ again = earlier ++ [s] ∧ s.cached ∧
        (∀ r, lastRun earlier = some r →
          (r.attempt.options.product "p").binPath = (s.attempt.options.product "p").binPath) ∧
        (∀ r, lastRun earlier = some r → r.attempt.options.runtimeLibs = s.attempt.options.runtimeLibs) ∧
          ∀ r, lastRun earlier = some r → r.attempt.options.linkerArgs = s.attempt.options.linkerArgs := by
    have only {r first : Step} (last : lastRun [first] = some r) : r = first :=
      List.mem_singleton.mp (mem_of_lastRun last)
    refine ⟨[_], _, rfl, by decide +kernel, ?_, ?_, ?_⟩
    all_goals
      intro r last
      rw [only last]
  obtain ⟨r, last, -, -, made⟩ := cached_made (o := { platform := .sysv }) sound_empty not_hasFile_empty
    (all rfl) (all (honest_copying ..)) (all apart) free happened cached
  obtain ⟨text, args, executable⟩ := made (binPath r last) (runtimeLibs r last) (linkerArgs r last)
  exact ⟨earlier, s, r, happened, cached, last, text, args, executable⟩

/-- Two texts for two executables, and the second text for the first executable. -/
def elsewhere : List Attempt :=
  [copying "out1" "a" [], copying "out2" "b" [], copying "out1" "b" []]

/-- The stamp knows no executable: a text linked elsewhere passes for linked here. -/
theorem cached_stale :
    ∃ (earlier : List Step) (s : Step), history "p" ⟨empty, []⟩ elsewhere = earlier ++ [s] ∧ s.cached ∧
      s.attempt.text = "b" ∧ s.after.files.read (s.attempt.options.product "p").binPath = .ok "a" := by
  refine ⟨[_, _], _, rfl, ?_, ?_, ?_⟩
  all_goals decide +kernel

end Lantern.Package
