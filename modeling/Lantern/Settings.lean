import Lantern.Convention
import Lantern.Flag
import Lantern.Warning

/-!
# Settings

What a compilation is told before it reads any source: warnings, target, seed, and how the executable
is made.
-/

namespace Lantern

/-- The settings of a compilation. -/
structure Settings where
  /-- The warnings that are on. -/
  warnings : WarningSet
  /-- The platform code is made for. -/
  platform : Platform
  /-- The name of the machine's own target. -/
  hostTarget : String
  /-- The operating system of the machine. -/
  os : String
  /-- The processor of the machine. -/
  arch : String
  /-- The seed of random numbers; a negative one leaves them unseeded. -/
  seed : Int64
  /-- The path of the executable; empty is the usual one. -/
  output : String
  /-- Objects and archives to link with. -/
  runtimeLibs : List String
  /-- Further arguments of the linker. -/
  linkerArgs : List String
  deriving Repr, DecidableEq

/-- The name of a machine's own target. -/
def hostTargetOf (os arch : String) : String :=
  match os, arch with
  | "darwin", "amd64" => "amd64_apple"
  | "darwin", "arm64" => "arm64_apple"
  | "freebsd", "arm64" | "linux", "arm64" => "arm64"
  | "linux", "riscv64" => "rv64"
  | _, _ => "amd64_sysv"

/-- Why no target can be chosen. -/
inductive TargetFault where
  /-- The machine is not one that code is made for. -/
  | foreignHost (target : String)
  /-- The name is not that of a target. -/
  | unknown (name : String)
  deriving Repr, DecidableEq

/-- What is said about a target that cannot be chosen. -/
def TargetFault.message : TargetFault → String
  | foreignHost target =>
    "host target '" ++ target ++ "' is not x86-64; pass --target sysv or --target win64"
  | unknown name => Platform.unsupported name

/-- The platform of a machine. -/
def hostPlatform (os target : String) : Except TargetFault Platform :=
  if os == "windows" then .ok .win64
  else if target == "amd64_sysv" || target == "amd64_apple" then .ok .sysv
  else .error (.foreignHost target)

namespace Settings

/-- What holds as long as nothing is set. -/
def standard : Settings := ⟨WarningSet.standard, .sysv, "", "", "", -1, "", [], []⟩

/-- Switches one warning. -/
def setWarning (s : Settings) (w : Warning) (on : Bool) : Settings :=
  { s with warnings := s.warnings.set w on }

/-- Chooses the target of that name, or, if it is empty, that of the machine. What is said about the
    choice is returned. -/
def setTarget (s : Settings) (os arch name : String) : Settings × Except TargetFault String :=
  let host := hostTargetOf os arch
  let s := { s with os, arch, hostTarget := host }
  if name.isEmpty then
    match hostPlatform os host with
    | .error fault => (s, .error fault)
    | .ok p =>
      ({ s with platform := p },
       .ok ("lumc: info: no target specified, defaulting to host target '" ++ host ++ "' (" ++
         p.name ++ ")\n"))
  else
    match Platform.ofName? name with
    | none => (s, .error (.unknown name))
    | some p =>
      ({ s with platform := p }, .ok ("lumc: info: using specified target '" ++ p.name ++ "'\n"))

/-- What is said about a name that is no warning's. -/
def unknownWarning (name : String) : String := "unknown warning '" ++ name ++ "'"

/-- The switch of a warning. -/
def warningEntry (w : Warning) : FlagEntry :=
  ⟨w.name, "W", w.description, some false, some false⟩

/-- The switches of all warnings. -/
def warningGroup : FlagGroup :=
  { name := "Warning Flags"
    description := "Enable or disable specific warnings"
    kind := "warning"
    header := "Available Warnings:"
    entries := Warning.all.map warningEntry }

/-- Switches the warnings as the command line says: on first, then off. -/
def applyFlags (s : Settings) (fs : FlagSet) : Settings :=
  Warning.all.foldl (fun s w =>
    let e := warningEntry w
    let s := if fs.isOn e.onName then s.setWarning w true else s
    if fs.isOn e.offName then s.setWarning w false else s) s

end Settings

end Lantern
