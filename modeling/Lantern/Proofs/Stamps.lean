import Mathlib
import Lantern.Package
import Lantern.Proofs.FileTrees

/-!
# Stamps

What a stamp says about the calls before. Packaging takes the stamp away before it runs a tool and
writes it last, so that a stamp is there exactly if the last run of the tools came to its end.
-/

namespace Lantern

/-! ## Fingerprints -/

namespace Text

theorem loop_toList (bs : ByteArray) (i : Nat) (r : List UInt8) :
    ByteArray.toList.loop bs i r = r.reverse ++ bs.data.toList.drop i := by
  fun_induction ByteArray.toList.loop bs i r with
  | case1 i r inside ih =>
      have within : i < bs.data.toList.length := inside
      have found : bs.get! i = bs.data.toList[i] := getElem!_pos bs.data i within
      rw [ih, List.drop_eq_getElem_cons within, found, List.reverse_cons, List.append_assoc,
        List.singleton_append]
  | case2 i r outside =>
      have beyond : bs.data.toList.length ≤ i := Nat.le_of_not_lt outside
      rw [List.drop_eq_nil_of_le beyond, List.append_nil]

theorem utf8Bytes_eq (s : String) : utf8Bytes s = s.toByteArray.data.toList := by
  simp [utf8Bytes, ByteArray.toList, loop_toList, String.toUTF8]

theorem utf8Bytes_injective : Function.Injective utf8Bytes := by
  intro s s' eq
  rw [utf8Bytes_eq, utf8Bytes_eq] at eq
  exact String.toByteArray_inj.mp (ByteArray.ext (Array.toList_inj.mp eq))

end Text

namespace Hash

theorem digitChar_inj {m n : Nat} (small : m < 16) (small' : n < 16)
    (eq : Nat.digitChar m = Nat.digitChar n) : m = n := by
  interval_cases m <;> interval_cases n <;> first | rfl | exact absurd eq (by decide)

theorem toDigits_inj {m n : Nat} (eq : Nat.toDigits 16 m = Nat.toDigits 16 n) : m = n := by
  induction m using Nat.strongRecOn generalizing n with
  | ind m ih =>
      rw [Nat.toDigits_eq_if (by decide), Nat.toDigits_eq_if (n := n) (by decide)] at eq
      have some_ (k : Nat) : Nat.toDigits 16 k ≠ [] := Nat.toDigits_ne_nil
      split at eq
      · split at eq
        · exact digitChar_inj ‹_› ‹_› (List.singleton_inj.mp eq)
        · exact absurd (List.append_inj_left' (show [] ++ [_] = _ ++ [_] from eq) rfl).symm (some_ _)
      · split at eq
        · exact absurd (List.append_inj_left' (show _ ++ [_] = [] ++ [_] from eq) rfl) (some_ _)
        · have quotient := ih (m / 16) (by omega) (List.append_inj_left' eq rfl)
          have remainder := digitChar_inj (Nat.mod_lt _ (by decide)) (Nat.mod_lt _ (by decide))
            (List.singleton_inj.mp (List.append_inj_right' eq rfl))
          omega

theorem hex_injective : Function.Injective hex := by
  intro a b eq
  have digits : Nat.toDigits 16 a.toNat = Nat.toDigits 16 b.toNat := by
    simpa [hex] using congrArg String.toList eq
  exact UInt64.toNat_inj.mp (toDigits_inj digits)

theorem not_isSpace_hex (h : UInt64) : ∀ c ∈ (hex h).toList, ¬ Text.isSpace c := by
  have digit : ∀ n, n < 16 → ¬ Text.isSpace (Nat.digitChar n) := by decide
  have digits (n : Nat) : ∀ c ∈ Nat.toDigits 16 n, ¬ Text.isSpace c := by
    induction n using Nat.strongRecOn with
    | ind n ih =>
        rw [Nat.toDigits_eq_if (by decide)]
        split
        · next small => simpa using digit n small
        · next large =>
            intro c mem
            rcases List.mem_append.mp mem with mem | mem
            · exact ih (n / 16) (by omega) c mem
            · obtain rfl := List.mem_singleton.mp mem
              exact digit _ (Nat.mod_lt _ (by decide))
  intro c mem
  rw [hex, String.toList_ofList] at mem
  exact digits _ c mem

end Hash

/-- A stamp holds its fingerprint on a line of its own. -/
theorem trim_fingerprint (o : PackageOptions) (text : String) :
    Text.trim (fingerprint o text ++ "\n") = fingerprint o text := by
  have full : ∀ c ∈ (fingerprint o text).toList, ¬ Text.isSpace c := Hash.not_isSpace_hex _
  have some_ : (fingerprint o text).toList ≠ [] := by
    rw [fingerprint, Hash.hex, String.toList_ofList]
    exact Nat.toDigits_ne_nil
  obtain ⟨c, cs, eq⟩ := List.exists_cons_of_ne_nil some_
  have front : (fingerprint o text ++ "\n").toList.dropWhile Text.isSpace =
      (fingerprint o text).toList ++ ['\n'] := by
    rw [String.toList_append, eq, List.cons_append, List.dropWhile_cons_of_neg (full c (by simp [eq]))]
    rfl
  have back : (fingerprint o text).toList.reverse.dropWhile Text.isSpace =
      (fingerprint o text).toList.reverse := by
    obtain ⟨d, ds, eq'⟩ := List.exists_cons_of_ne_nil (mt List.reverse_eq_nil_iff.mp some_)
    have last : ¬ Text.isSpace d := full d (by rw [← List.mem_reverse, eq']; simp)
    rw [eq', List.dropWhile_cons_of_neg last]
  rw [Text.trim, front, Text.dropWhileEnd, List.reverse_append, List.reverse_singleton,
    List.singleton_append, List.dropWhile_cons_of_pos (by decide), back, List.reverse_reverse,
    String.ofList_toList]

/-- Among the given inputs the hash tells all apart. -/
def CollisionFree (inputs : List (List UInt8)) : Prop :=
  ∀ a ∈ inputs, ∀ b ∈ inputs, Hash.hash64 a = Hash.hash64 b → a = b

theorem CollisionFree.fingerprint {inputs : List (List UInt8)} (free : CollisionFree inputs)
    {o o' : PackageOptions} {text text' : String} (mem : fingerprintInput o text ∈ inputs)
    (mem' : fingerprintInput o' text' ∈ inputs) (eq : fingerprint o text = fingerprint o' text') :
    fingerprintInput o text = fingerprintInput o' text' :=
  free _ mem _ mem' (Hash.hex_injective eq)

/-! ## Files of one program -/

namespace PackageOptions

theorem buildPath_ne_empty (o : PackageOptions) : o.buildPath ≠ "" := by
  unfold buildPath orUsual
  split
  · decide
  · next named => simpa using named

theorem isEnding_asm : Path.IsEnding ".asm" := ⟨by decide, 'm', rfl, by decide⟩

theorem isEnding_stamp : Path.IsEnding ".stamp" := ⟨by decide, 'p', rfl, by decide⟩

theorem isEnding_objectExt (o : PackageOptions) : Path.IsEnding o.convention.objectExt := by
  unfold convention
  cases o.platform with
  | sysv => exact ⟨by decide, 'o', rfl, by decide⟩
  | win64 => exact ⟨by decide, 'j', rfl, by decide⟩

/-- Files of a program with different endings are at different places. -/
theorem place_ne (o : PackageOptions) (stem : String) {ending ending' : String}
    (isEnding : Path.IsEnding ending) (isEnding' : Path.IsEnding ending') (ne : ending ≠ ending') :
    FileTree.place (Path.join o.buildPath (stem ++ ending)) ≠
      FileTree.place (Path.join o.buildPath (stem ++ ending')) := by
  obtain ⟨rooted, here, last, straight⟩ := Path.straight_join o.buildPath_ne_empty stem
  rw [(straight ending isEnding).place, (straight ending' isEnding').place]
  intro eq
  have names := List.append_cancel_left (List.append_cancel_left eq)
  exact ne (by simpa using names)

end PackageOptions

namespace Package

/-! ## Runs of tools -/

/-- A run of a tool that is to make the file at `out`. If it succeeds, the file is there; if it fails,
    it may have written the file or taken it away. Nothing else is touched. -/
structure Makes (out : String) (t : FileTree) (r : FileTree × ToolRun) : Prop where
  success : r.2.fault = none → ∃ n, n ≠ .dir ∧ t.putFile out n = .ok r.1
  failure : r.2.fault ≠ none →
    r.1 = t ∨ r.1 = t.remove out ∨ ∃ n, n ≠ .dir ∧ t.putFile out n = .ok r.1

section Makes

variable {out : String} {t : FileTree} {r : FileTree × ToolRun}

theorem Makes.cases (makes : Makes out t r) :
    r.1 = t ∨ r.1 = t.remove out ∨ ∃ n, n ≠ .dir ∧ t.putFile out n = .ok r.1 := by
  by_cases succeeded : r.2.fault = none
  · exact .inr (.inr (makes.success succeeded))
  · exact makes.failure succeeded

theorem Makes.sound (makes : Makes out t r) (sound : t.Sound) : r.1.Sound := by
  rcases makes.cases with same | removed | ⟨n, -, written⟩
  · rwa [same]
  · rw [removed]
    exact sound.remove out
  · exact sound.putFile written

/-- A run makes no file but its own. -/
theorem Makes.fileAt (makes : Makes out t r) {l : Location} (other : l ≠ FileTree.place out)
    (file : r.1.FileAt l) : t.FileAt l := by
  rcases makes.cases with same | removed | ⟨n, -, written⟩
  · rwa [same] at file
  · rw [removed] at file
    exact (FileTree.fileAt_remove_ne t other).mp file
  · exact (FileTree.fileAt_putFile_ne written other).mp file

end Makes

/-! ## One call -/

/-- A call of packaging: what is packaged, how, and what the tools do this time. -/
structure Attempt where
  /-- How. -/
  options : PackageOptions
  /-- The assembly text. -/
  text : String
  /-- The tools. -/
  tools : Toolbox

namespace Attempt

variable (a : Attempt) (stem : String)

/-- The arguments the assembler is given. -/
def assemblerArgs : List String :=
  Lantern.assemblerArgs a.options.convention (a.options.product stem).asmPath
    (a.options.product stem).objPath

/-- The arguments the linker is given. -/
def linkerArgs : List String :=
  Lantern.linkerArgs a.options.convention (a.options.product stem).objPath
    (a.options.product stem).binPath a.options.runtimeLibs a.options.linkerArgs

/-- Runs the assembler. -/
def assemble (t : FileTree) : FileTree × ToolRun :=
  a.tools a.options.assemblerName (a.assemblerArgs stem) t

/-- Runs the linker. -/
def link (t : FileTree) : FileTree × ToolRun := a.tools a.options.linkerName (a.linkerArgs stem) t

/-- The calls of both tools. -/
def toolCalls : List (List String) :=
  [a.options.assemblerName :: a.assemblerArgs stem, a.options.linkerName :: a.linkerArgs stem]

/-- Each tool makes the file its arguments name and touches nothing else. -/
structure Honest : Prop where
  assembler : ∀ t, Makes (a.options.product stem).objPath t (a.assemble stem t)
  linker : ∀ t, Makes (a.options.product stem).binPath t (a.link stem t)

/-- What a call can do. -/
inductive Went (w : Workspace) : Workspace → Except PackageFault Product → Prop
  /-- The stamp fits and the executable is there. -/
  | current (fits : isCurrent a.options stem a.text w.files) :
      Went w w (.ok { a.options.product stem with cached := true })
  /-- A directory or the assembly text could not be made. -/
  | unprepared {t : FileTree} {fault : PackageFault} (outdated : ¬ isCurrent a.options stem a.text w.files)
      (prepared : prepare a.options stem a.text w.files = (t, some fault)) :
      Went w ⟨t, w.calls⟩ (.error fault)
  /-- The assembler failed. -/
  | unassembled {t : FileTree} {why : ToolFault} (outdated : ¬ isCurrent a.options stem a.text w.files)
      (prepared : prepare a.options stem a.text w.files = (t, none))
      (assembled : (a.assemble stem t).2.fault = some why) :
      Went w ⟨(a.assemble stem t).1, w.calls ++ (a.toolCalls stem).take 1⟩
        (.error (.tool .assembler a.options.assemblerName why (a.assemble stem t).2.output))
  /-- The linker failed. -/
  | unlinked {t t' : FileTree} {why : ToolFault} (outdated : ¬ isCurrent a.options stem a.text w.files)
      (prepared : prepare a.options stem a.text w.files = (t, none))
      (assembled : (a.assemble stem t).2.fault = none) (object : (a.assemble stem t).1 = t')
      (linked : (a.link stem t').2.fault = some why) :
      Went w ⟨(a.link stem t').1.remove (a.options.product stem).binPath, w.calls ++ a.toolCalls stem⟩
        (.error (.tool .linker a.options.linkerName why (a.link stem t').2.output))
  /-- Both tools ran, and the stamp was written or could not be written. -/
  | ended {t t' t'' : FileTree} {ended : Option PackageFault}
      (outdated : ¬ isCurrent a.options stem a.text w.files)
      (prepared : prepare a.options stem a.text w.files = (t, none))
      (assembled : (a.assemble stem t).2.fault = none) (object : (a.assemble stem t).1 = t')
      (linked : (a.link stem t').2.fault = none)
      (finished : finish a.options stem a.text (a.link stem t').1 = (t'', ended)) :
      Went w ⟨t'', w.calls ++ a.toolCalls stem⟩
        (match ended with
          | some fault => .error fault
          | none => .ok (a.options.product stem))

/-- Packages. -/
def run (w : Workspace) : Workspace × Except PackageFault Product :=
  build a.tools a.options stem a.text w

theorem call_assemble (w : Workspace) :
    call a.tools .assembler a.options.assemblerName (a.assemblerArgs stem) w =
      (⟨(a.assemble stem w.files).1, w.calls ++ (a.toolCalls stem).take 1⟩,
        (a.assemble stem w.files).2.fault.map fun why =>
          .tool .assembler a.options.assemblerName why (a.assemble stem w.files).2.output) :=
  rfl

theorem call_link (w : Workspace) :
    call a.tools .linker a.options.linkerName (a.linkerArgs stem) w =
      (⟨(a.link stem w.files).1, w.calls ++ (a.toolCalls stem).drop 1⟩,
        (a.link stem w.files).2.fault.map fun why =>
          .tool .linker a.options.linkerName why (a.link stem w.files).2.output) :=
  rfl

theorem went_run (w : Workspace) : a.Went stem w (a.run stem w).1 (a.run stem w).2 := by
  unfold run build
  dsimp only
  split
  · next fits => exact .current fits
  · next outdated =>
      split
      · next prepared => exact .unprepared outdated prepared
      · next t prepared =>
          rw [runTools, ← assemblerArgs, ← linkerArgs, call_assemble]
          cases assembled : (a.assemble stem t).2.fault with
          | some why => exact .unassembled outdated prepared assembled
          | none =>
              dsimp only [Option.map_none]
              rw [call_link, List.append_assoc, List.take_append_drop]
              cases linked : (a.link stem (a.assemble stem t).1).2.fault with
              | some why => exact .unlinked outdated prepared assembled rfl linked
              | none =>
                  dsimp only [Option.map_none]
                  obtain ⟨⟨t'', fault⟩, finished⟩ :
                    ∃ r, finish a.options stem a.text (a.link stem (a.assemble stem t).1).1 = r := ⟨_, rfl⟩
                  have ended := Went.ended (w := w) outdated prepared assembled rfl linked finished
                  rw [finished]
                  cases fault with
                  | some fault => exact ended
                  | none => exact ended

end Attempt

/-! ## What a call leaves behind -/

section

open FileTree

variable {o : PackageOptions} {stem text : String} {t t' : FileTree}

theorem stamp_ne_asm (o : PackageOptions) (stem : String) :
    place (o.stampPath stem) ≠ place (o.product stem).asmPath :=
  o.place_ne stem PackageOptions.isEnding_stamp PackageOptions.isEnding_asm (by decide)

theorem stamp_ne_obj (o : PackageOptions) (stem : String) :
    place (o.stampPath stem) ≠ place (o.product stem).objPath := by
  refine o.place_ne stem PackageOptions.isEnding_stamp o.isEnding_objectExt ?_
  unfold PackageOptions.convention
  cases o.platform <;> decide

theorem asm_ne_obj (o : PackageOptions) (stem : String) :
    place (o.product stem).asmPath ≠ place (o.product stem).objPath := by
  refine o.place_ne stem PackageOptions.isEnding_asm o.isEnding_objectExt ?_
  unfold PackageOptions.convention
  cases o.platform <;> decide

theorem hasFile_stamp (sound : t.Sound) :
    t.HasFile (o.stampPath stem) ↔ t.FileAt (place (o.stampPath stem)) := by
  obtain ⟨rooted, here, last, straight⟩ := Path.straight_join o.buildPath_ne_empty stem
  exact ⟨HasFile.fileAt, sound.hasFile (straight ".stamp" PackageOptions.isEnding_stamp)⟩

/-- Preparing makes directories; if that succeeds, it takes the stamp away and writes the text. -/
theorem prepare_cases (o : PackageOptions) (stem text : String) (sound : t.Sound) :
    ((prepare o stem text t).1.Sound ∧ Grows t (prepare o stem text t).1 ∧
        ∃ fault, (prepare o stem text t).2 = some fault) ∨
      ∃ t', t'.Sound ∧ Grows t t' ∧
        ((∃ why, (t'.remove (o.stampPath stem)).write (o.product stem).asmPath text = .error why ∧
            prepare o stem text t = (t'.remove (o.stampPath stem), some (.assembly why))) ∨
          ∃ t'', (t'.remove (o.stampPath stem)).write (o.product stem).asmPath text = .ok t'' ∧
            prepare o stem text t = (t'', none)) := by
  have build := sound.makeDirs o.buildPath
  unfold prepare
  dsimp only
  split
  · next made =>
      rw [made] at build
      exact .inl ⟨build.1, build.2, _, rfl⟩
  · next t₁ made =>
      rw [made] at build
      have output := build.1.makeDirs (Path.dir (o.product stem).binPath)
      have grows := build.2.trans output.2
      split
      · next made =>
          rw [made] at output grows
          exact .inl ⟨output.1, grows, _, rfl⟩
      · next t₂ made =>
          rw [made] at output grows
          refine .inr ⟨t₂, output.1, grows, ?_⟩
          split
          · next failed => exact .inl ⟨_, failed, rfl⟩
          · next written => exact .inr ⟨_, written, rfl⟩

theorem prepare_ne_tool {fault : PackageFault} (failed : (prepare o stem text t).2 = some fault)
    (stage : Stage) (name : String) (why : ToolFault) (output : String) :
    fault ≠ .tool stage name why output := by
  rintro rfl
  unfold prepare at failed
  dsimp only at failed
  repeat' split at failed
  all_goals cases failed

/-- Files are ready for the tools: the text is there, and no stamp. -/
structure Ready (o : PackageOptions) (stem text : String) (t : FileTree) : Prop where
  sound : t.Sound
  asm : t.stat (o.product stem).asmPath = .ok (.file text)
  noStamp : ¬ t.FileAt (place (o.stampPath stem))

theorem not_fileAt_remove_stamp (sound : t.Sound) :
    ¬ (t.remove (o.stampPath stem)).FileAt (place (o.stampPath stem)) := fun file =>
  sound.not_hasFile_remove (o.stampPath stem) ((hasFile_stamp (sound.remove _)).mpr file)

theorem ready_prepare (sound : t.Sound) (prepared : prepare o stem text t = (t', none)) :
    Ready o stem text t' := by
  rcases prepare_cases o stem text sound with ⟨-, -, _, failed⟩ | ⟨t₁, sound₁, -, written⟩
  · rw [prepared] at failed
    cases failed
  · rcases written with ⟨why, -, failed⟩ | ⟨t₂, written, eq⟩
    · rw [prepared] at failed
      cases failed
    · obtain rfl : t' = t₂ := congrArg Prod.fst (prepared.symm.trans eq)
      refine ⟨(sound₁.remove _).putFile written, stat_putFile written, fun file => ?_⟩
      exact not_fileAt_remove_stamp sound₁ ((fileAt_putFile_ne written (stamp_ne_asm o stem)).mp file)

/-- Where the text was written before, only making directories can fail. -/
theorem grows_prepare (sound : t.Sound) (asm : t.FileAt (place (o.product stem).asmPath))
    {fault : PackageFault} (failed : prepare o stem text t = (t', some fault)) : Grows t t' := by
  rcases prepare_cases o stem text sound with ⟨-, grows, -⟩ | ⟨t₁, sound₁, grows, written⟩
  · rwa [failed] at grows
  · rcases written with ⟨why, notWritten, -⟩ | ⟨t₂, -, eq⟩
    · obtain ⟨rooted, here, last, straight⟩ := Path.straight_join o.buildPath_ne_empty stem
      have file : (t₁.remove (o.stampPath stem)).FileAt (place (o.product stem).asmPath) :=
        (fileAt_remove_ne _ (stamp_ne_asm o stem).symm).mpr (grows.fileAt.mpr asm)
      obtain ⟨t₂, written⟩ := (sound₁.remove _).exists_putFile
        (straight ".asm" PackageOptions.isEnding_asm) file (.file text)
      exact absurd (notWritten.symm.trans written) nofun
    · rw [failed] at eq
      cases eq

theorem Sound.prepare (sound : t.Sound) {fault : PackageFault}
    (failed : prepare o stem text t = (t', some fault)) :
    t'.Sound ∧ (t'.FileAt (place (o.stampPath stem)) → t.FileAt (place (o.stampPath stem))) := by
  rcases prepare_cases o stem text sound with ⟨sound', grows, -⟩ | ⟨t₁, sound₁, -, written⟩
  · rw [failed] at sound' grows
    exact ⟨sound', grows.fileAt.mp⟩
  · rcases written with ⟨why, -, eq⟩ | ⟨t₂, -, eq⟩
    · obtain rfl : t' = _ := congrArg Prod.fst (failed.symm.trans eq)
      exact ⟨sound₁.remove _, fun file => absurd file (not_fileAt_remove_stamp sound₁)⟩
    · rw [failed] at eq
      cases eq

/-- The executable made from a text: the assembler found the text and made an object of it, and the
    linker, which found the object, wrote `n`. -/
def Attempt.Made (a : Attempt) (stem : String) (n : FileNode) : Prop :=
  ∃ t t' object, t.stat (a.options.product stem).asmPath = .ok (.file a.text) ∧
    (a.assemble stem t).2.fault = none ∧ (a.assemble stem t).1 = t' ∧
    t'.stat (a.options.product stem).objPath = .ok object ∧ (a.link stem t').2.fault = none ∧
    t'.putFile (a.options.product stem).binPath n = .ok (a.link stem t').1

/-- Files after a call that ran the tools to its end. -/
structure Attempt.Built (a : Attempt) (stem : String) (t : FileTree) : Prop where
  stamp : t.stat (a.options.stampPath stem) = .ok (.file (fingerprint a.options a.text ++ "\n"))
  asm : t.FileAt (place (a.options.product stem).asmPath)
  bin : ∃ n, a.Made stem n ∧
    (place (a.options.product stem).binPath ≠ place (a.options.product stem).objPath →
      place (a.options.product stem).binPath ≠ place (a.options.stampPath stem) →
      t.stat (a.options.product stem).binPath = .ok n)

section

variable {a : Attempt} {w w' : Workspace} {result : Except PackageFault Product}

/-- What the object's way through both tools leaves alone. -/
theorem Ready.tools (ready : Ready a.options stem a.text t) (honest : a.Honest stem)
    (assembled : (a.assemble stem t).2.fault = none) (object : (a.assemble stem t).1 = t')
    (linked : (a.link stem t').2.fault = none) :
    (a.link stem t').1.Sound ∧ (a.link stem t').1.FileAt (place (a.options.product stem).asmPath) ∧
      (a.link stem t').1.FileAt (place (a.options.product stem).objPath) ∧
      ∃ n, a.Made stem n ∧ (a.link stem t').1.stat (a.options.product stem).binPath = .ok n := by
  obtain ⟨m, isObject, madeObject⟩ := (honest.assembler t).success assembled
  rw [object] at madeObject
  obtain ⟨n, isFile, madeBin⟩ := (honest.linker t').success linked
  have asm : t.FileAt (place (a.options.product stem).asmPath) :=
    HasFile.fileAt ⟨.file a.text, nofun, ready.asm⟩
  have objAt : t'.FileAt (place (a.options.product stem).objPath) :=
    HasFile.fileAt ⟨m, isObject, stat_putFile madeObject⟩
  refine ⟨(ready.sound.putFile madeObject).putFile madeBin,
    (asm.putFile isObject madeObject).putFile isFile madeBin, objAt.putFile isFile madeBin, n, ?_,
    stat_putFile madeBin⟩
  exact ⟨t, t', m, ready.asm, assembled, object, stat_putFile madeObject, linked, madeBin⟩

/-- The files once the object has been cleared up. -/
theorem finish_cases (o : PackageOptions) (stem text : String) (t : FileTree) :
    ∃ t', (t' = t ∨ t' = t.remove (o.product stem).objPath) ∧
      ((∃ why, t'.write (o.stampPath stem) (fingerprint o text ++ "\n") = .error why ∧
          finish o stem text t = (t', some (.stamp why))) ∨
        ∃ t'', t'.write (o.stampPath stem) (fingerprint o text ++ "\n") = .ok t'' ∧
          finish o stem text t = (t'', none)) := by
  refine ⟨if o.platform == .win64 then t.remove (o.product stem).objPath else t, ?_, ?_⟩
  · split
    · exact .inr rfl
    · exact .inl rfl
  · unfold finish
    dsimp only
    generalize (if o.platform == .win64 then t.remove (o.product stem).objPath else t) = t'
    split
    · next failed => exact .inl ⟨_, failed, rfl⟩
    · next written => exact .inr ⟨_, written, rfl⟩

theorem Ready.finish (ready : Ready a.options stem a.text t) (honest : a.Honest stem)
    (assembled : (a.assemble stem t).2.fault = none) (object : (a.assemble stem t).1 = t')
    (linked : (a.link stem t').2.fault = none) {t'' : FileTree} {fault : Option PackageFault}
    (finished : finish a.options stem a.text (a.link stem t').1 = (t'', fault)) :
    t''.Sound ∧ (fault = none → a.Built stem t'') ∧
      (fault ≠ none → ¬ t''.FileAt (place (a.options.stampPath stem))) := by
  obtain ⟨sound, asm, objAt, n, made, bin⟩ := ready.tools honest assembled object linked
  generalize (a.link stem t').1 = t₁ at sound asm objAt bin finished
  obtain ⟨t₂, cleared, ending⟩ := finish_cases a.options stem a.text t₁
  have sound₂ : t₂.Sound := by
    rcases cleared with rfl | rfl
    · exact sound
    · exact sound.remove _
  have asm₂ : t₂.FileAt (place (a.options.product stem).asmPath) := by
    rcases cleared with rfl | rfl
    · exact asm
    · exact (fileAt_remove_ne _ (asm_ne_obj a.options stem)).mpr asm
  have bin₂ (other : place (a.options.product stem).binPath ≠ place (a.options.product stem).objPath) :
      t₂.stat (a.options.product stem).binPath = .ok n := by
    rcases cleared with rfl | rfl
    · exact bin
    · exact stat_remove objAt other bin
  rcases ending with ⟨why, notWritten, eq⟩ | ⟨t₃, written, eq⟩
  · obtain ⟨rfl, rfl⟩ := Prod.mk.inj (finished.symm.trans eq)
    refine ⟨sound₂, nofun, fun _ file => ?_⟩
    obtain ⟨rooted, here, last, straight⟩ := Path.straight_join a.options.buildPath_ne_empty stem
    obtain ⟨t₃, written⟩ := sound₂.exists_putFile (straight ".stamp" PackageOptions.isEnding_stamp) file
      (.file (fingerprint a.options a.text ++ "\n"))
    exact absurd (notWritten.symm.trans written) nofun
  · obtain ⟨rfl, rfl⟩ := Prod.mk.inj (finished.symm.trans eq)
    refine ⟨sound₂.putFile written, fun _ => ?_, fun failed => absurd rfl failed⟩
    have isFile : FileNode.file (fingerprint a.options a.text ++ "\n") ≠ .dir := nofun
    exact ⟨stat_putFile written, asm₂.putFile isFile written, n, made,
      fun notObj notStamp => stat_putFile_ne written notStamp (bin₂ notObj)⟩

/-- A failing assembler leaves no stamp. -/
theorem Ready.unassembled (ready : Ready a.options stem a.text t) (honest : a.Honest stem) :
    (a.assemble stem t).1.Sound ∧ ¬ (a.assemble stem t).1.FileAt (place (a.options.stampPath stem)) :=
  ⟨(honest.assembler t).sound ready.sound,
    fun file => ready.noStamp ((honest.assembler t).fileAt (stamp_ne_obj a.options stem) file)⟩

/-- A failing linker leaves neither stamp nor executable. -/
theorem Ready.unlinked (ready : Ready a.options stem a.text t) (honest : a.Honest stem)
    (object : (a.assemble stem t).1 = t') :
    ((a.link stem t').1.remove (a.options.product stem).binPath).Sound ∧
      ¬ ((a.link stem t').1.remove (a.options.product stem).binPath).FileAt
        (place (a.options.stampPath stem)) ∧
      ¬ ((a.link stem t').1.remove (a.options.product stem).binPath).HasFile
        (a.options.product stem).binPath := by
  obtain ⟨sound, noStamp⟩ := ready.unassembled honest
  rw [object] at sound noStamp
  have linked := honest.linker t'
  have sound' := linked.sound sound
  refine ⟨sound'.remove _, ?_, sound'.not_hasFile_remove _⟩
  have kept {t'' : FileTree} (file : (t''.remove (a.options.product stem).binPath).FileAt
      (place (a.options.stampPath stem))) : t''.FileAt (place (a.options.stampPath stem)) := by
    obtain ⟨n, isFile, found⟩ := file
    exact ⟨n, isFile, node?_of_remove found⟩
  intro file
  rcases linked.cases with same | removed | ⟨n, -, written⟩
  · exact noStamp (same ▸ kept file)
  · exact noStamp (kept (removed ▸ kept file))
  · by_cases own : place (a.options.stampPath stem) = place (a.options.product stem).binPath
    · -- The executable was to stand in the stamp's place, and is gone.
      rw [own] at file
      exact sound'.not_fileAt_remove (stat_eq_ok.mp (stat_putFile written)).1 file
    · exact noStamp ((fileAt_putFile_ne written own).mp (kept file))

end

end

end Package

end Lantern
