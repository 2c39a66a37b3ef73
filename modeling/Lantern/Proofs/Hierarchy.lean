import Lantern.Proofs.MethodTables

/-!
# The class hierarchy

The check of the hierarchy and the lookups behind it follow bases without counting. The check follows
those of one class until they end, are unknown or come round, and it looks up methods only where they
end. Whether it complains depends on the classes alone, and if it does not every lookup ends.
-/

namespace Lantern

open Relation

namespace ClassTable

variable {t : ClassTable} {b c : ClassDecl} {n m : Nat}

/-! ## Bases -/

/-- A class has a base, and that is the declared class. -/
def Extends (t : ClassTable) (c b : ClassDecl) : Prop := c.base ≠ "" ∧ t.get? c.base = some b

/-- The bases of a class lead to one that is not declared. -/
def Dangles (t : ClassTable) (c : ClassDecl) : Prop :=
  ∃ k, ReflTransGen t.Extends c k ∧ k.base ≠ "" ∧ t.get? k.base = none

/-- The bases of a class come round. -/
def Circles (t : ClassTable) (c : ClassDecl) : Prop :=
  ∃ k, ReflTransGen t.Extends c k ∧ TransGen t.Extends k k

/-- A class without a base is reached by a number of steps to a base. -/
inductive Climbs (t : ClassTable) : ClassDecl → Nat → Prop
  | root {c : ClassDecl} (free : c.base = "") : Climbs t c 0
  | base {c b : ClassDecl} {n : Nat} (link : t.Extends c b) (rest : Climbs t b n) : Climbs t c (n + 1)

theorem Extends.unique {b' : ClassDecl} (link : t.Extends c b) (other : t.Extends c b') : b = b' :=
  Option.some.inj (link.2.symm.trans other.2)

namespace Climbs

theorem unique (climbs : t.Climbs c n) (other : t.Climbs c m) : n = m := by
  induction climbs generalizing m with
  | root free =>
      cases other with
      | root => rfl
      | base link => exact absurd free link.1
  | base link rest ih =>
      cases other with
      | root free => exact absurd free link.1
      | base link' rest' =>
          cases link.unique link'
          rw [ih rest']

/-- A base is nearer to the end. -/
theorem step (climbs : t.Climbs c n) (link : t.Extends c b) : ∃ m < n, t.Climbs b m := by
  cases climbs with
  | root free => exact absurd free link.1
  | @base _ _ n link' rest =>
      cases link.unique link'
      exact ⟨n, n.lt_succ_self, rest⟩

theorem reach (climbs : t.Climbs c n) (path : ReflTransGen t.Extends c b) : ∃ m, t.Climbs b m := by
  induction path with
  | refl => exact ⟨n, climbs⟩
  | tail path link ih =>
      obtain ⟨m, climbs⟩ := ih
      obtain ⟨k, -, climbs⟩ := climbs.step link
      exact ⟨k, climbs⟩

theorem descend (climbs : t.Climbs c n) (path : TransGen t.Extends c b) : ∃ m < n, t.Climbs b m := by
  induction path with
  | single link => exact climbs.step link
  | tail path link ih =>
      obtain ⟨m, less, climbs⟩ := ih
      obtain ⟨k, less', climbs⟩ := climbs.step link
      exact ⟨k, less'.trans less, climbs⟩

theorem not_dangles (climbs : t.Climbs c n) : ¬ t.Dangles c := by
  intro ⟨k, path, based, unknown⟩
  obtain ⟨m, climbs⟩ := climbs.reach path
  cases climbs with
  | root free => exact based free
  | base link => cases unknown.symm.trans link.2

theorem not_circles (climbs : t.Climbs c n) : ¬ t.Circles c := by
  intro ⟨k, path, round⟩
  obtain ⟨m, climbs⟩ := climbs.reach path
  obtain ⟨m', less, climbs'⟩ := climbs.descend round
  exact less.ne (climbs'.unique climbs)

end Climbs

theorem Dangles.of_base (link : t.Extends c b) (dangles : t.Dangles b) : t.Dangles c := by
  obtain ⟨k, path, ends⟩ := dangles
  exact ⟨k, path.head link, ends⟩

theorem Circles.of_base (link : t.Extends c b) (circles : t.Circles b) : t.Circles c := by
  obtain ⟨k, path, round⟩ := circles
  exact ⟨k, path.head link, round⟩

/-! ## Following the bases of one class -/

/-- Following bases from a name on without a bound, having met the classes `seen`: what is found wrong
    and the number of bases met on the way. -/
inductive Scan (t : ClassTable) : List String → String → Nat → Option Check.BaseFault → Prop
  | free {seen : List String} : Scan t seen "" 0 none
  | unknown {seen : List String} {base : String} (based : base ≠ "") (none_ : t.get? base = none) :
      Scan t seen base 0 (some (.unknown base))
  | cycle {seen : List String} {base : String} {b : ClassDecl} (based : base ≠ "") (known : t.get? base = some b)
      (met : base ∈ seen) : Scan t seen base 0 (some .cycle)
  | next {seen : List String} {base : String} {b : ClassDecl} {n : Nat} {fault : Option Check.BaseFault}
      (based : base ≠ "") (known : t.get? base = some b) (fresh : base ∉ seen)
      (rest : Scan t (base :: seen) b.base n fault) : Scan t seen base (n + 1) fault

/-- What is wrong with the bases of a class, as the check finds it. -/
def fault? (t : ClassTable) (c : ClassDecl) : Option Check.BaseFault :=
  Check.baseFault? t (t.length + 1) [c.name] c.base

theorem length_le_of_known {seen : List String} (nodup : seen.Nodup) (known : ∀ name ∈ seen, t.has name) :
    seen.length ≤ t.length := by
  have sub : seen ⊆ t.map ClassDecl.name := by
    intro name mem
    obtain ⟨c, mem, same⟩ := List.any_eq_true.mp (known name mem)
    exact List.mem_map.mpr ⟨c, mem, by simpa using same⟩
  simpa using (nodup.subperm sub).length_le

/-- The bound is never reached: the classes met are different ones. -/
theorem scan_baseFault? {seen : List String} (nodup : seen.Nodup) (known : ∀ name ∈ seen, t.has name)
    (bound : Nat) (enough : t.length < bound + seen.length) (base : String) :
    ∃ n, n + seen.length ≤ t.length ∧ t.Scan seen base n (Check.baseFault? t bound seen base) := by
  have small := length_le_of_known nodup known
  induction bound generalizing seen base with
  | zero => omega
  | succ bound ih =>
      unfold Check.baseFault?
      by_cases based : base = ""
      · subst based
        exact ⟨0, by omega, .free⟩
      rw [if_neg (by simpa using based)]
      cases found : t.get? base with
      | none => exact ⟨0, by omega, .unknown based found⟩
      | some b =>
          by_cases met : base ∈ seen
          · refine ⟨0, by omega, ?_⟩
            simpa [met] using Scan.cycle based found met
          · have nodup' : (base :: seen).Nodup := List.nodup_cons.mpr ⟨met, nodup⟩
            have known' : ∀ name ∈ base :: seen, t.has name :=
              List.forall_mem_cons.mpr ⟨has_iff.mpr ⟨b, found⟩, known⟩
            have enough' : t.length < bound + (base :: seen).length := by
              rw [List.length_cons]
              omega
            obtain ⟨n, le, scan⟩ := ih nodup' known' enough' b.base (length_le_of_known nodup' known')
            rw [List.length_cons] at le
            refine ⟨n + 1, by omega, ?_⟩
            simpa [met] using Scan.next based found met scan

namespace Scan

variable {seen : List String} {base : String} {fault : Option Check.BaseFault}

theorem climbs (scan : t.Scan seen base n fault) (fine : fault = none) (same : c.base = base) :
    t.Climbs c n := by
  induction scan generalizing c with
  | free => exact .root same
  | unknown => cases fine
  | cycle => cases fine
  | next based known _ _ ih => exact .base ⟨same ▸ based, same ▸ known⟩ (ih fine rfl)

theorem dangles (scan : t.Scan seen base n fault) {name : String} (wrong : fault = some (.unknown name))
    (same : c.base = base) : t.Dangles c := by
  induction scan generalizing c with
  | free => cases wrong
  | unknown based unknown => exact ⟨c, .refl, same ▸ based, same ▸ unknown⟩
  | cycle => cases wrong
  | next based known _ _ ih => exact .of_base ⟨same ▸ based, same ▸ known⟩ (ih wrong rfl)

/-- Coming to a class met before closes a cycle: it is on the way to the present one. -/
theorem circles (scan : t.Scan seen base n fault) (wrong : fault = some .cycle) (same : c.base = base)
    (way : ∀ name ∈ seen, ∃ k, t.get? name = some k ∧ ReflTransGen t.Extends k c) : t.Circles c := by
  induction scan generalizing c with
  | free => cases wrong
  | unknown => cases wrong
  | @cycle seen base b based known met =>
      obtain ⟨k, known', path⟩ := way base met
      cases known.symm.trans known'
      have link : t.Extends c b := ⟨same ▸ based, same ▸ known⟩
      exact ⟨b, .single link, TransGen.tail' path link⟩
  | @next seen base b n fault based known fresh rest ih =>
      have link : t.Extends c b := ⟨same ▸ based, same ▸ known⟩
      refine .of_base link (ih wrong rfl (List.forall_mem_cons.mpr ⟨⟨b, known, .refl⟩, fun name mem => ?_⟩))
      obtain ⟨k, known, path⟩ := way name mem
      exact ⟨k, known, path.tail link⟩

end Scan

theorem scan_fault? (known : t.get? c.name = some c) :
    ∃ n < t.length, t.Scan [c.name] c.base n (t.fault? c) := by
  have declared : ∀ name ∈ [c.name], t.has name := by simpa using has_iff.mpr ⟨c, known⟩
  obtain ⟨n, le, scan⟩ := scan_baseFault? (List.nodup_singleton _) declared (t.length + 1) (by simp) c.base
  exact ⟨n, by simpa using le, scan⟩

theorem climbs_of_fault? (known : t.get? c.name = some c) (fine : t.fault? c = none) :
    ∃ n < t.length, t.Climbs c n := by
  obtain ⟨n, less, scan⟩ := scan_fault? known
  exact ⟨n, less, scan.climbs fine rfl⟩

/-- The check finds nothing wrong exactly where the bases come to an end. -/
theorem fault?_eq_none_iff (known : t.get? c.name = some c) :
    t.fault? c = none ↔ ¬ (t.Dangles c ∨ t.Circles c) := by
  obtain ⟨n, -, scan⟩ := scan_fault? known
  constructor
  · intro fine
    have climbs := scan.climbs fine rfl
    exact not_or.mpr ⟨climbs.not_dangles, climbs.not_circles⟩
  · intro fine
    cases wrong : t.fault? c with
    | none => rfl
    | some fault =>
        cases fault with
        | unknown name => exact absurd (.inl (scan.dangles wrong rfl)) fine
        | cycle => exact absurd (.inr (scan.circles wrong rfl (by simpa using ⟨c, known, .refl⟩))) fine

/-! ## Looking up along bases -/

/-- Looking something up from a name on along the bases without a bound: the number of steps to a base and
    what is found. -/
inductive Walk {α : Type} (t : ClassTable) (look : ClassDecl → Option α) : String → Nat → Option α → Prop
  | free : Walk t look "" 0 none
  | unknown {name : String} (named : name ≠ "") (none_ : t.get? name = none) : Walk t look name 0 none
  | found {name : String} {c : ClassDecl} {a : α} (named : name ≠ "") (known : t.get? name = some c)
      (here : look c = some a) : Walk t look name 0 (some a)
  | base {name : String} {c : ClassDecl} {n : Nat} {r : Option α} (named : name ≠ "")
      (known : t.get? name = some c) (missing : look c = none) (rest : Walk t look c.base n r) :
      Walk t look name (n + 1) r

section Walk

variable {α : Type} {look : ClassDecl → Option α} {name : String}

/-- From a class whose bases end, a lookup ends too, and finds what the bounded one finds. -/
theorem Climbs.walk (climbs : t.Climbs c n) (look : ClassDecl → Option α) (named : name ≠ "") (known : t.get? name = some c) :
    ∃ m ≤ n + 1, ∃ r, t.Walk look name m r := by
  induction climbs generalizing name with
  | @root c free =>
      cases here : look c with
      | some a => exact ⟨0, Nat.zero_le _, some a, .found named known here⟩
      | none => exact ⟨1, le_rfl, none, .base named known here (free ▸ .free)⟩
  | @base c b n link rest ih =>
      cases here : look c with
      | some a => exact ⟨0, Nat.zero_le _, some a, .found named known here⟩
      | none =>
          obtain ⟨m, le, r, walk⟩ := ih link.1 link.2
          exact ⟨m + 1, Nat.succ_le_succ le, r, .base named known here walk⟩

theorem Chain.of_climbs (unnamed : t.get? "" = none) (climbs : t.Climbs c n) (known : t.get? name = some c) :
    ∃ cs, t.Chain name cs := by
  induction climbs generalizing name with
  | @root c free => exact ⟨[c], .base known (free ▸ .stop unnamed)⟩
  | @base c b n link rest ih =>
      obtain ⟨cs, chain⟩ := ih link.2
      exact ⟨c :: cs, .base known chain⟩

/-- A lookup without a bound finds what the first class of the chain has that has anything. -/
theorem Walk.eq_findSome? {cs : List ClassDecl} {r : Option α} (unnamed : t.get? "" = none)
    (walk : t.Walk look name n r) (chain : t.Chain name cs) : r = cs.findSome? look := by
  induction walk generalizing cs with
  | free => rw [chain.unique (.stop unnamed)]; rfl
  | unknown _ unknown => rw [chain.unique (.stop unknown)]; rfl
  | found _ known here =>
      cases chain with
      | stop unknown => cases unknown.symm.trans known
      | base known' =>
          cases known.symm.trans known'
          simp [here]
  | base _ known missing _ ih =>
      cases chain with
      | stop unknown => cases unknown.symm.trans known
      | base known' rest =>
          cases known.symm.trans known'
          simp [missing, ih rest]

end Walk

/-- A lookup without a bound ends within as many steps as there are classes, with the given result. -/
def Finds {α : Type} (t : ClassTable) (look : ClassDecl → Option α) (name : String) (r : Option α) : Prop :=
  ∃ n ≤ t.length, t.Walk look name n r

/-- Following bases ends, from every class and in every lookup. -/
structure Rooted (t : ClassTable) : Prop where
  /-- Each class leads to one without a base in fewer steps than there are classes. -/
  climbs : ∀ c ∈ t, ∃ n < t.length, t.Climbs c n
  /-- Each lookup ends, whatever it looks for. -/
  walks : ∀ {α : Type} (look : ClassDecl → Option α) (name : String), ∃ r, t.Finds look name r
  /-- Where every class has a name, it finds what the walk over the lineage finds. -/
  lineage : t.get? "" = none → ∀ {α : Type} (look : ClassDecl → Option α) (name : String),
    t.Finds look name ((t.lineage name).findSome? look)

theorem rooted_of_climbs (climbs : ∀ c ∈ t, ∃ n < t.length, t.Climbs c n) : t.Rooted := by
  have walks {α : Type} (look : ClassDecl → Option α) (name : String) : ∃ r, t.Finds look name r := by
    by_cases named : name = ""
    · exact ⟨none, 0, Nat.zero_le _, named ▸ .free⟩
    cases known : t.get? name with
    | none => exact ⟨none, 0, Nat.zero_le _, .unknown named known⟩
    | some c =>
        obtain ⟨n, less, climbs⟩ := climbs c (mem_of_get? known)
        obtain ⟨m, le, r, walk⟩ := climbs.walk look named known
        exact ⟨r, m, le.trans less, walk⟩
  refine ⟨climbs, walks, fun unnamed α look name => ?_⟩
  obtain ⟨cs, chain⟩ : ∃ cs, t.Chain name cs := by
    cases known : t.get? name with
    | none => exact ⟨[], .stop known⟩
    | some c =>
        obtain ⟨n, -, climbs⟩ := climbs c (mem_of_get? known)
        exact Chain.of_climbs unnamed climbs known
  obtain ⟨r, n, le, walk⟩ := walks look name
  rw [chain.lineage_eq, ← walk.eq_findSome? unnamed chain]
  exact ⟨n, le, walk⟩

/-- Where the bases of a class end, so do lookups in its base. -/
theorem Climbs.finds_base (climbs : t.Climbs c n) (less : n < t.length) {α : Type} (look : ClassDecl → Option α) :
    ∃ r, t.Finds look c.base r := by
  cases climbs with
  | root free => exact ⟨none, 0, Nat.zero_le _, free ▸ .free⟩
  | base link rest =>
      obtain ⟨m, le, r, walk⟩ := rest.walk look link.1 link.2
      exact ⟨r, m, by omega, walk⟩

theorem Extends.erase (link : t.Extends c b) : Extends (t.map ClassDecl.erase) c.erase b.erase := by
  refine ⟨link.1, ?_⟩
  rw [get?_erase]
  exact congrArg (Option.map ClassDecl.erase) link.2

theorem climbs_erase_iff : Climbs (t.map ClassDecl.erase) c.erase n ↔ t.Climbs c n := by
  constructor
  · intro climbs
    generalize same : c.erase = k at climbs
    induction climbs generalizing c with
    | root free => exact .root (by rw [← free, ← same]; rfl)
    | base link rest ih =>
        obtain ⟨based, known⟩ := link
        cases same
        rw [get?_erase, Option.map_eq_some_iff] at known
        obtain ⟨b, known, rfl⟩ := known
        exact .base ⟨based, known⟩ (ih rfl)
  · intro climbs
    induction climbs with
    | root free => exact .root free
    | base link _ ih => exact .base link.erase ih

/-- Only names and bases count. -/
theorem Rooted.of_erase {t' : ClassTable} (rooted : t.Rooted)
    (same : t'.map ClassDecl.erase = t.map ClassDecl.erase) : t'.Rooted := by
  refine rooted_of_climbs fun c mem => ?_
  have inside : c.erase ∈ t.map ClassDecl.erase := same ▸ List.mem_map_of_mem mem
  obtain ⟨b, mem, alike⟩ := List.mem_map.mp inside
  obtain ⟨n, less, climbs⟩ := rooted.climbs b mem
  have length : t'.length = t.length := by simpa using congrArg List.length same
  refine ⟨n, length ▸ less, ?_⟩
  rw [← climbs_erase_iff, same, ← alike]
  exact climbs_erase_iff.mpr climbs

end ClassTable

/-! ## Lookups -/

open ClassTable in
/-- The lookups of the checks and of inference, which find what unbounded ones find. -/
structure Lookups (t : ClassTable) : Prop where
  field : ∀ cls name, t.Finds (fun c => c.fields.find? (·.name == name)) cls (t.findField? cls name)
  method : ∀ cls name, t.Finds (fun c => (c.methods.find? (·.name == name)).map fun m => (c, m)) cls
    (t.findMethod? cls name)
  staticField : ∀ (fs : Infer.Facts) cls name,
    t.Finds (fun c => fs.statics.get? (SymbolName.staticField c.name name)) cls (fs.staticField? t cls name)
  result : ∀ (ctx : Infer.Context), ctx.classes = t → ∀ cls name isStatic, ∃ r,
    t.Finds (fun c => if c.methods.any fun m => m.name == name && m.isStatic == isStatic then
      some (ctx.hints.results.get? (if isStatic then SymbolName.staticMethod c.name name
        else SymbolName.method c.name name)) else none) cls r ∧
    Infer.methodResult? ctx cls name isStatic = r.join

theorem ClassTable.nearest?_eq {α : Type} {t : ClassTable} (unnamed : t.get? "" = none)
    (look : ClassDecl → Option α) (name : String) : t.nearest? look name = (t.lineage name).findSome? look := by
  have called {c : ClassDecl} (mem : c ∈ t.lineage name) : !c.name.isEmpty := by
    have other := List.find?_eq_none.mp unnamed c (mem_of_mem_lineage mem)
    simpa using other
  rw [nearest?, List.takeWhile_eq_self_iff.mpr fun c mem => called mem]

theorem ClassTable.Rooted.lookups {t : ClassTable} (rooted : t.Rooted) (unnamed : t.get? "" = none) :
    Lookups t := by
  constructor
  case field => exact fun cls name => rooted.lineage unnamed _ cls
  case method => exact fun cls name => rooted.lineage unnamed _ cls
  case staticField =>
    intro fs cls name
    rw [Infer.Facts.staticField?, nearest?_eq unnamed]
    exact rooted.lineage unnamed _ cls
  case result =>
    intro ctx same cls name isStatic
    subst same
    refine ⟨_, rooted.lineage unnamed _ cls, ?_⟩
    rw [Infer.methodResult?, nearest?_eq unnamed]
    rfl

/-! ## Checking the hierarchy -/

namespace Checked

variable {α β : Type}

/-- A computation comes to its end without an error, whatever was said before. -/
def Completes (x : Checked α) : Prop := ∀ log, ∃ a log', StateT.run (ExceptT.run x) log = (.ok a, log')

theorem completes_pure (a : α) : Completes (pure a) := fun log => ⟨a, log, rfl⟩

theorem completes_warn (kind : Warning) (at_ : Span) (message : String) : Completes (warn kind at_ message) :=
  fun _ => ⟨(), _, rfl⟩

theorem Completes.bind {x : Checked α} {f : α → Checked β} (first : Completes x) (rest : ∀ a, Completes (f a)) :
    Completes (x >>= f) := by
  intro log
  obtain ⟨a, log', eq⟩ := first log
  rw [run_bind, eq]
  exact rest a log'

theorem completes_forM {f : α → Checked Unit} {xs : List α} (each : ∀ x ∈ xs, Completes (f x)) :
    Completes (xs.forM f) := by
  induction xs with
  | nil => exact completes_pure ()
  | cons x xs ih =>
      obtain ⟨first, rest⟩ := List.forall_mem_cons.mp each
      exact first.bind fun _ => ih rest

theorem Completes.outcome_ne {x : Checked α} (completes : Completes x) : x.outcome.1 ≠ none := by
  obtain ⟨a, log, eq⟩ := completes #[]
  rw [outcome, eq]
  nofun

end Checked

namespace Check

open ClassTable

variable {d : Declarations} {order : List ClassDecl}

theorem completes_checkOverride (classes : ClassTable) (base : String) (m : Method) :
    (checkOverride classes base m).Completes := by
  unfold checkOverride
  dsimp only
  split
  · split
    · exact Checked.completes_pure ()
    · exact Checked.completes_warn _ _ _
  · split
    · exact Checked.completes_warn _ _ _
    · exact Checked.completes_pure ()

theorem completes_checkBases {c : ClassDecl} (grounded : Grounded d c) : (checkBases d c).Completes := by
  obtain ⟨own, fine⟩ := grounded
  unfold checkBases
  rw [own, fine]
  exact (Checked.completes_pure ()).bind fun _ =>
    Checked.completes_forM fun m _ => completes_checkOverride d.classes c.base m

/-- The order in which classes are checked does not matter. -/
theorem checkHierarchy_eq_none_iff :
    (checkHierarchy d order).outcome.1 = none ↔ ∃ c ∈ order, ¬ Grounded d c := by
  constructor
  · intro fails
    by_contra fine
    have grounded : ∀ c ∈ order, Grounded d c := by simpa using fine
    exact (Checked.completes_forM fun c mem => completes_checkBases (grounded c mem)).outcome_ne fails
  · rintro ⟨c, mem, wrong⟩
    by_contra succeeds
    obtain ⟨a, done⟩ := Option.ne_none_iff_exists'.mp succeeds
    exact wrong ((gives_checkHierarchy d order).of_outcome done c mem)

theorem grounded_iff {c : ClassDecl} (known : d.classes.get? c.name = some c) :
    Grounded d c ↔ ¬ ((d.func? c.name).isSome ∨ d.classes.Dangles c ∨ d.classes.Circles c) := by
  rw [not_or, ← fault?_eq_none_iff known, Option.not_isSome_iff_eq_none]
  exact Iff.rfl

theorem rooted_of_grounded (names : (d.classes.map ClassDecl.name).Nodup) (grounded : ∀ c ∈ d.classes, Grounded d c) :
    d.classes.Rooted :=
  rooted_of_climbs fun c mem => climbs_of_fault? (get?_of_mem names mem) (grounded c mem).2

end Check

/-- In a program that passes the checks every base chain ends, before and after members are resolved. -/
theorem Program.rooted {p p' : Program} {hints : Hints} (done : p.check.outcome.1 = some (p', hints)) :
    (ClassTable.ofItems p.items).Rooted ∧ (ClassTable.ofItems p'.items).Rooted := by
  have declared : p.check.Gives fun _ => ((classesOf p.items).map ClassDecl.name).Nodup ∧
      ClassTable.Rooted (classesOf p.items) := by
    refine (Check.gives_gather Check.Declarations.distinct_empty p.items).bind fun d ⟨distinct, _, classes⟩ =>
      (Check.gives_checkHierarchy d d.classes).bind fun _ grounded => Checked.gives_true.bind fun _ _ =>
        Checked.gives_pure ?_
    have classes : d.classes = classesOf p.items := classes
    exact classes ▸ ⟨distinct.classes, Check.rooted_of_grounded distinct.classes grounded⟩
  obtain ⟨names, rooted⟩ := declared.of_outcome done
  have same : (classesOf p'.items).map ClassDecl.erase = (classesOf p.items).map ClassDecl.erase := by
    rw [← classesOf_eraseStmts, p.erase_check.of_outcome done, classesOf_eraseStmts]
  have called (cs : List ClassDecl) : (cs.map ClassDecl.erase).map ClassDecl.name = cs.map ClassDecl.name := by
    simp only [List.map_map]
    rfl
  have names' : ((classesOf p'.items).map ClassDecl.name).Nodup := by rwa [← called, same, called]
  rw [ClassTable.ofItems_eq names, ClassTable.ofItems_eq names']
  exact ⟨rooted, rooted.of_erase same⟩

/-- The check of the hierarchy is exact, in whatever order it meets the classes. The bases of each class
    are followed to an end without help of the bound, and so are lookups in classes that pass, even while
    others would not. It fails just if a class has the name of a function or bases that lead to an
    undeclared class or come round; if it does not, every chain of bases and every lookup ends. -/
theorem Check.checkHierarchy_exact {d : Declarations} (names : (d.classes.map ClassDecl.name).Nodup)
    {order : List ClassDecl} (all : order.Perm d.classes) :
    (∀ c ∈ order, ∃ n < d.classes.length, d.classes.Scan [c.name] c.base n (d.classes.fault? c)) ∧
    (∀ c ∈ order, d.classes.fault? c = none → ∀ {α : Type} (look : ClassDecl → Option α),
      ∃ r, d.classes.Finds look c.base r) ∧
    ((checkHierarchy d order).outcome.1 = none ↔ ∃ c ∈ d.classes,
      (d.func? c.name).isSome ∨ d.classes.Dangles c ∨ d.classes.Circles c) ∧
    ((checkHierarchy d order).outcome.1 ≠ none → d.classes.Rooted ∧
      (d.classes.get? "" = none → Lookups d.classes)) ∧
    ∀ {p p' : Program} {hints : Hints}, p.check.outcome.1 = some (p', hints) →
      ∀ t ∈ [ClassTable.ofItems p.items, ClassTable.ofItems p'.items],
        t.Rooted ∧ (t.get? "" = none → Lookups t) := by
  have known {c : ClassDecl} (mem : c ∈ order) : d.classes.get? c.name = some c :=
    ClassTable.get?_of_mem names (all.mem_iff.mp mem)
  refine ⟨fun c mem => ClassTable.scan_fault? (known mem), fun c mem fine α look => ?_, ?_, fun succeeds => ?_,
    fun done => ?_⟩
  · obtain ⟨n, less, climbs⟩ := ClassTable.climbs_of_fault? (known mem) fine
    exact climbs.finds_base less look
  · rw [checkHierarchy_eq_none_iff]
    constructor
    · rintro ⟨c, mem, wrong⟩
      exact ⟨c, all.mem_iff.mp mem, not_not.mp (mt (grounded_iff (known mem)).mpr wrong)⟩
    · rintro ⟨c, mem, wrong⟩
      have mem := all.mem_iff.mpr mem
      exact ⟨c, mem, fun grounded => (grounded_iff (known mem)).mp grounded wrong⟩
  · have grounded : ∀ c ∈ order, Grounded d c := by
      simpa using mt checkHierarchy_eq_none_iff.mpr succeeds
    have rooted := rooted_of_grounded names fun c mem => grounded c (all.mem_iff.mpr mem)
    exact ⟨rooted, rooted.lookups⟩
  · obtain ⟨before, after⟩ := Program.rooted done
    simpa using ⟨⟨before, before.lookups⟩, after, after.lookups⟩

/-- A class that only leads into a cycle of others is reported, also if it is not the first. -/
theorem Check.checkHierarchy_exact_leading :
    let cls (name base : String) : ClassDecl := ⟨.nowhere, name, base, [], [], []⟩
    let d : Declarations := ⟨[], [cls "D" "E", cls "E" "F", cls "F" "E"], .empty⟩
    let order := [cls "F" "E", cls "D" "E", cls "E" "F"]
    (d.classes.map ClassDecl.name).Nodup ∧ order.Perm d.classes ∧ d.classes.Circles (cls "D" "E") ∧
    (checkHierarchy d order).outcome.1 = none := by
  intro cls d order
  have names : (d.classes.map ClassDecl.name).Nodup := by decide
  have all : order.Perm d.classes := by
    show ([cls "F" "E"] ++ [cls "D" "E", cls "E" "F"]).Perm ([cls "D" "E", cls "E" "F"] ++ [cls "F" "E"])
    exact List.perm_append_comm
  have enters : d.classes.Extends (cls "D" "E") (cls "E" "F") := ⟨by decide, rfl⟩
  have away : d.classes.Extends (cls "E" "F") (cls "F" "E") := ⟨by decide, rfl⟩
  have back : d.classes.Extends (cls "F" "E") (cls "E" "F") := ⟨by decide, rfl⟩
  have circles : d.classes.Circles (cls "D" "E") := ⟨cls "E" "F", .single enters, .tail (.single away) back⟩
  refine ⟨names, all, circles, ?_⟩
  have exact_ := (checkHierarchy_exact names all).2.2.1
  exact exact_.mpr ⟨cls "D" "E", List.mem_cons_self, .inr (.inr circles)⟩

end Lantern
