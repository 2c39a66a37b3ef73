import Mathlib
import Lantern.Proofs.Declared
import Lantern.Proofs.Images
import Lantern.Proofs.Symbols

/-!
# Method tables

The method table of a class maps every method that the class or one of its bases declares to the
nearest implementation, and the methods of each base once more under keys that calls of inherited
methods use. The table that is built when a program starts has exactly these entries.
-/

namespace Lantern

/-! ## Putting entries in place -/

section Upsert

variable {α : Type} {key : α → String}

theorem mem_upsert {xs : List α} {x y : α} :
    y ∈ upsert key xs x ↔ y = x ∨ y ∈ xs ∧ key y ≠ key x := by
  unfold upsert
  split
  · next present =>
      obtain ⟨z, mem, same⟩ := List.any_eq_true.mp present
      have same : key z = key x := by simpa using same
      simp only [List.mem_map]
      constructor
      · rintro ⟨w, inside, rfl⟩
        split
        · exact .inl rfl
        · next other => exact .inr ⟨inside, by simpa using other⟩
      · rintro (rfl | ⟨inside, other⟩)
        · exact ⟨z, mem, by simp [same]⟩
        · exact ⟨y, inside, by simp [other]⟩
  · next absent =>
      have absent : ∀ z ∈ xs, key z ≠ key x := by simpa using absent
      rw [List.mem_append, List.mem_singleton]
      constructor
      · rintro (inside | rfl)
        · exact .inr ⟨inside, absent y inside⟩
        · exact .inl rfl
      · rintro (rfl | ⟨inside, -⟩)
        · exact .inr rfl
        · exact .inl inside

theorem mem_keys_upsert {xs : List α} {x : α} {name : String} :
    name ∈ (upsert key xs x).map key ↔ name ∈ xs.map key ∨ name = key x := by
  simp only [List.mem_map, mem_upsert]
  constructor
  · rintro ⟨y, rfl | ⟨inside, -⟩, rfl⟩
    · exact .inr rfl
    · exact .inl ⟨y, inside, rfl⟩
  · intro old
    by_cases own : name = key x
    · exact ⟨x, .inl rfl, own.symm⟩
    · obtain ⟨y, inside, rfl⟩ := old.resolve_right own
      exact ⟨y, .inr ⟨inside, own⟩, rfl⟩

theorem nodup_upsert {xs : List α} (x : α) (nodup : (xs.map key).Nodup) :
    ((upsert key xs x).map key).Nodup := by
  unfold upsert
  split
  · have keys : (xs.map fun y => if key y == key x then x else y).map key = xs.map key := by
      rw [List.map_map]
      refine List.map_congr_left fun y _ => ?_
      by_cases same : key y = key x <;> simp [same]
    rwa [keys]
  · next absent =>
      have absent : ∀ z ∈ xs, key z ≠ key x := by simpa using absent
      rw [List.map_append]
      refine Check.nodup_concat nodup fun again => ?_
      obtain ⟨z, mem, same⟩ := List.mem_map.mp again
      exact absent z mem same

theorem nodup_foldl_upsert {xs ys : List α} (nodup : (xs.map key).Nodup) :
    ((ys.foldl (upsert key) xs).map key).Nodup := by
  induction ys generalizing xs with
  | nil => exact nodup
  | cons y ys ih => exact ih (nodup_upsert y nodup)

/-- Entries with keys of their own replace those there before. -/
theorem mem_foldl_upsert {xs ys : List α} (nodup : (ys.map key).Nodup) {z : α} :
    z ∈ ys.foldl (upsert key) xs ↔ z ∈ ys ∨ z ∈ xs ∧ key z ∉ ys.map key := by
  induction ys generalizing xs with
  | nil => simp
  | cons y ys ih =>
      rw [List.map_cons, List.nodup_cons] at nodup
      rw [List.foldl_cons, ih nodup.2, mem_upsert]
      have first : z = y → key z ∉ ys.map key := fun same => same ▸ nodup.1
      simp only [List.mem_cons, List.map_cons, not_or]
      tauto

end Upsert

/-! ## Nearest methods -/

namespace ClassTable

/-- The class itself declares a method of the given name for its objects. -/
def declares (m : String) (c : ClassDecl) : Prop := ∃ f ∈ c.methods, f.name = m ∧ f.isStatic = false

/-- The nearest class with the given property, starting from the class `name`. -/
inductive Nearest (t : ClassTable) (P : ClassDecl → Prop) : String → ClassDecl → Prop
  | here {name : String} {c : ClassDecl} (known : t.get? name = some c) (holds : P c) :
      Nearest t P name c
  | above {name : String} {c k : ClassDecl} (known : t.get? name = some c) (fails : ¬ P c)
      (rest : Nearest t P c.base k) : Nearest t P name k

/-- The class `name` itself or one of its bases. -/
inductive Reaches (t : ClassTable) : String → ClassDecl → Prop
  | here {name : String} {c : ClassDecl} (known : t.get? name = some c) : Reaches t name c
  | above {name : String} {c k : ClassDecl} (known : t.get? name = some c) (rest : Reaches t c.base k) :
      Reaches t name k

theorem Nearest.holds {t : ClassTable} {P : ClassDecl → Prop} {name : String} {k : ClassDecl}
    (nearest : Nearest t P name k) : k ∈ t ∧ P k := by
  induction nearest with
  | here known holds => exact ⟨mem_of_get? known, holds⟩
  | above _ _ _ ih => exact ih

theorem Chain.mem_iff {t : ClassTable} {name : String} {cs : List ClassDecl} (chain : Chain t name cs)
    {k : ClassDecl} : k ∈ cs ↔ Reaches t name k := by
  induction chain with
  | stop unknown =>
      refine ⟨nofun, fun reaches => ?_⟩
      cases reaches with
      | here known | above known => rw [unknown] at known; cases known
  | @base name c cs known rest ih =>
      rw [List.mem_cons, ih]
      constructor
      · rintro (rfl | later)
        · exact .here known
        · exact .above known later
      · rintro (⟨known'⟩ | ⟨known', later⟩)
        · exact .inl (Option.some.inj (known'.symm.trans known))
        · obtain rfl := Option.some.inj (known'.symm.trans known)
          exact .inr later

/-- The entries a class adds to method tables. -/
def ownEntries (c : ClassDecl) : List MethodEntry :=
  (c.methods.filter (!·.isStatic)).map fun m => ⟨m.name, SymbolName.method c.name m.name⟩

/-- The entries of a method table for classes given nearest first. -/
def tableOf (cs : List ClassDecl) : List MethodEntry :=
  (cs.reverse.flatMap ownEntries).foldl (upsert MethodEntry.key) []

theorem tableOf_cons (c : ClassDecl) (cs : List ClassDecl) :
    tableOf (c :: cs) = (ownEntries c).foldl (upsert MethodEntry.key) (tableOf cs) := by
  simp [tableOf, List.flatMap_append]

theorem keys_ownEntries (c : ClassDecl) :
    (ownEntries c).map MethodEntry.key = (c.methods.filter (!·.isStatic)).map Method.name := by
  simp [ownEntries, Function.comp_def]

theorem mem_keys_ownEntries {c : ClassDecl} {m : String} :
    m ∈ (ownEntries c).map MethodEntry.key ↔ declares m c := by
  simp only [keys_ownEntries, List.mem_map, List.mem_filter, declares]
  constructor
  · rintro ⟨f, ⟨mem, isOwn⟩, rfl⟩
    exact ⟨f, mem, rfl, by simpa using isOwn⟩
  · rintro ⟨f, mem, rfl, isOwn⟩
    exact ⟨f, ⟨mem, by simpa using isOwn⟩, rfl⟩

theorem nodup_keys_ownEntries {c : ClassDecl} (nodup : (c.methods.map Method.name).Nodup) :
    ((ownEntries c).map MethodEntry.key).Nodup := by
  rw [keys_ownEntries]
  exact nodup.sublist (List.filter_sublist.map _)

theorem mem_ownEntries {c : ClassDecl} {m s : String} :
    ⟨m, s⟩ ∈ ownEntries c ↔ declares m c ∧ s = SymbolName.method c.name m := by
  simp only [ownEntries, List.mem_map, List.mem_filter, declares, MethodEntry.mk.injEq]
  constructor
  · rintro ⟨f, ⟨mem, isOwn⟩, rfl, rfl⟩
    exact ⟨⟨f, mem, rfl, by simpa using isOwn⟩, rfl⟩
  · rintro ⟨⟨f, mem, rfl, isOwn⟩, rfl⟩
    exact ⟨f, ⟨mem, by simpa using isOwn⟩, rfl, rfl⟩

variable {t : ClassTable} {name : String} {cs : List ClassDecl}

/-- A method table maps a name to the nearest implementation. -/
theorem Chain.mem_tableOf (chain : Chain t name cs)
    (distinct : ∀ c ∈ cs, (c.methods.map Method.name).Nodup) {m s : String} :
    ⟨m, s⟩ ∈ tableOf cs ↔ ∃ k, Nearest t (declares m) name k ∧ s = SymbolName.method k.name m := by
  induction chain with
  | stop unknown =>
      simp only [tableOf, List.reverse_nil, List.flatMap_nil, List.foldl_nil, List.not_mem_nil, false_iff]
      rintro ⟨k, nearest, -⟩
      cases nearest with
      | here known | above known => rw [unknown] at known; cases known
  | @base name c cs known rest ih =>
      obtain ⟨own, others⟩ := List.forall_mem_cons.mp distinct
      rw [tableOf_cons, mem_foldl_upsert (nodup_keys_ownEntries own), mem_ownEntries, ih others,
        mem_keys_ownEntries]
      constructor
      · rintro (⟨declared, rfl⟩ | ⟨⟨k, nearest, rfl⟩, absent⟩)
        · exact ⟨c, .here known declared, rfl⟩
        · exact ⟨k, .above known absent nearest, rfl⟩
      · rintro ⟨k, nearest, rfl⟩
        cases nearest with
        | here known' declared =>
            obtain rfl := Option.some.inj (known.symm.trans known')
            exact .inl ⟨declared, rfl⟩
        | above known' absent nearest =>
            obtain rfl := Option.some.inj (known.symm.trans known')
            exact .inr ⟨⟨k, nearest, rfl⟩, absent⟩

theorem flatMethods_eq (t : ClassTable) (name : String) : t.flatMethods name = tableOf (t.lineage name) :=
  rfl

/-! ## Keys of inherited methods -/

/-- The entries by which the objects of a class answer calls of inherited methods. -/
def inheritedEntries (t : ClassTable) (c : ClassDecl) : List MethodEntry :=
  if t.has c.base then
    (t.flatMethods c.base).map fun m => ⟨SymbolName.superKey c.name m.key, m.symbol⟩
  else []

theorem superEntries_eq (t : ClassTable) (name : String) :
    t.superEntries name = (t.lineage name).reverse.flatMap t.inheritedEntries := rfl

theorem has_iff {t : ClassTable} {name : String} : t.has name ↔ ∃ c, t.get? name = some c := by
  rw [← Option.isSome_iff_exists]
  simp [has, get?, List.find?_isSome]

/-- The whole method table of a class. -/
def methodEntries (t : ClassTable) (name : String) : List MethodEntry :=
  t.flatMethods name ++ t.superEntries name

namespace Sound

theorem chain (sound : t.Sound) (name : String) : ∃ cs, Chain t name cs := by
  cases known : t.get? name with
  | none => exact ⟨[], .stop known⟩
  | some c =>
      obtain ⟨cs, chain⟩ := sound.chains c (mem_of_get? known)
      exact ⟨cs, name_of_get? known ▸ chain⟩

theorem chain_lineage (sound : t.Sound) (name : String) : Chain t name (t.lineage name) := by
  obtain ⟨cs, chain⟩ := sound.chain name
  rwa [chain.lineage_eq]

theorem mem_flatMethods (sound : t.Sound) {m s : String} :
    ⟨m, s⟩ ∈ t.flatMethods name ↔
      ∃ k, Nearest t (declares m) name k ∧ s = SymbolName.method k.name m := by
  have chain := sound.chain_lineage name
  exact chain.mem_tableOf fun c mem => sound.methods c (mem_of_get? (chain.mem c mem))

theorem nodup_flatMethods (t : ClassTable) (name : String) :
    ((t.flatMethods name).map MethodEntry.key).Nodup :=
  nodup_foldl_upsert List.nodup_nil

theorem identifier_of_mem (sound : t.Sound) {e : MethodEntry} (mem : e ∈ t.flatMethods name) :
    Identifier e.key := by
  obtain ⟨m, s⟩ := e
  obtain ⟨k, nearest, -⟩ := sound.mem_flatMethods.mp mem
  obtain ⟨known, f, inside, rfl, -⟩ := nearest.holds
  exact sound.methodNames k known f inside

theorem mem_superEntries (sound : t.Sound) {e : MethodEntry} : e ∈ t.superEntries name ↔
    ∃ k, Reaches t name k ∧ t.has k.base ∧ ∃ m ∈ t.flatMethods k.base,
      e = ⟨SymbolName.superKey k.name m.key, m.symbol⟩ := by
  simp only [superEntries_eq, List.mem_flatMap, List.mem_reverse, (sound.chain_lineage name).mem_iff]
  refine exists_congr fun k => and_congr_right fun _ => ?_
  unfold inheritedEntries
  split
  · next derived => simp [derived, eq_comm]
  · next derived => simp [derived]

theorem nodup_superEntries (sound : t.Sound) (name : String) :
    ((t.superEntries name).map MethodEntry.key).Nodup := by
  have chain := sound.chain_lineage name
  have isName (c : ClassDecl) (mem : c ∈ t.lineage name) : Identifier c.name :=
    sound.identifiers c (mem_of_get? (chain.mem c mem))
  have keys (c : ClassDecl) (key : String) (mem : key ∈ (t.inheritedEntries c).map MethodEntry.key) :
      ∃ m, key = SymbolName.superKey c.name m := by
    unfold inheritedEntries at mem
    split at mem
    · simp only [List.map_map, List.mem_map, Function.comp_apply] at mem
      obtain ⟨m, -, rfl⟩ := mem
      exact ⟨m.key, rfl⟩
    · cases mem
  rw [superEntries_eq, List.map_flatMap, List.nodup_flatMap]
  constructor
  · intro c mem
    have isName := isName c (List.mem_reverse.mp mem)
    unfold inheritedEntries
    split
    · rw [List.map_map]
      have inj : (t.flatMethods c.base).map (MethodEntry.key ∘ fun m =>
          (⟨SymbolName.superKey c.name m.key, m.symbol⟩ : MethodEntry)) =
            ((t.flatMethods c.base).map MethodEntry.key).map (SymbolName.superKey c.name) := by simp
      rw [inj]
      exact (nodup_flatMethods t c.base).map fun m m' same => (SymbolName.superKey_inj isName isName same).2
    · exact List.nodup_nil
  · rw [List.pairwise_reverse]
    refine (List.pairwise_map.mp chain.names_nodup).imp_of_mem fun {c d} memC memD other key inD inC => ?_
    obtain ⟨m, rfl⟩ := keys c key inC
    obtain ⟨m', same⟩ := keys d _ inD
    exact other (SymbolName.superKey_inj (isName c memC) (isName d memD) same).1

/-- No two entries of a method table have the same key. -/
theorem nodup_methodEntries (sound : t.Sound) (name : String) :
    ((t.methodEntries name).map MethodEntry.key).Nodup := by
  rw [methodEntries, List.map_append, List.nodup_append]
  refine ⟨nodup_flatMethods t name, sound.nodup_superEntries name, ?_⟩
  rintro key own key' inherited rfl
  obtain ⟨e, mem, rfl⟩ := List.mem_map.mp own
  obtain ⟨e', mem', same⟩ := List.mem_map.mp inherited
  obtain ⟨k, -, -, m, -, rfl⟩ := sound.mem_superEntries.mp mem'
  exact SymbolName.superKey_ne (sound.identifier_of_mem mem) same

/-- A method table maps a method exactly to its nearest implementation. -/
theorem mem_methodEntries (sound : t.Sound) {m s : String} (isName : Identifier m) :
    ⟨m, s⟩ ∈ t.methodEntries name ↔
      ∃ k, Nearest t (declares m) name k ∧ s = SymbolName.method k.name m := by
  rw [methodEntries, List.mem_append, sound.mem_flatMethods]
  refine or_iff_left fun inherited => ?_
  obtain ⟨k, -, -, e, -, same⟩ := sound.mem_superEntries.mp inherited
  exact SymbolName.superKey_ne isName (MethodEntry.mk.inj same).1.symm

/-- The inherited methods of a class are those of its base, whatever object holds the table. -/
theorem mem_methodEntries_super (sound : t.Sound) {k b : ClassDecl} (reaches : Reaches t name k)
    (base : t.get? k.base = some b) {m s : String} (isName : Identifier m) :
    ⟨SymbolName.superKey k.name m, s⟩ ∈ t.methodEntries name ↔ ⟨m, s⟩ ∈ t.methodEntries b.name := by
  have chain := sound.chain_lineage name
  have known (k : ClassDecl) (reaches : Reaches t name k) : t.get? k.name = some k :=
    chain.mem k (chain.mem_iff.mpr reaches)
  have isClass (k : ClassDecl) (reaches : Reaches t name k) : Identifier k.name :=
    sound.identifiers k (mem_of_get? (known k reaches))
  rw [sound.mem_methodEntries isName, name_of_get? base, ← sound.mem_flatMethods, methodEntries,
    List.mem_append, sound.mem_superEntries]
  constructor
  · rintro (own | ⟨k', reaches', -, ⟨m', s'⟩, mem, same⟩)
    · exact absurd rfl (SymbolName.superKey_ne (sound.identifier_of_mem own))
    · obtain ⟨key, rfl⟩ := MethodEntry.mk.inj same
      obtain ⟨sameName, rfl⟩ := SymbolName.superKey_inj (isClass k reaches) (isClass k' reaches') key
      have sameClass := known k' reaches'
      rw [← sameName, known k reaches] at sameClass
      obtain rfl := Option.some.inj sameClass
      exact mem
  · exact fun mem => .inr ⟨k, reaches, has_iff.mpr ⟨b, base⟩, ⟨m, s⟩, mem, rfl⟩

end Sound

/-! ## The search of the checker -/

theorem Chain.nearest_of_find (chain : Chain t name cs) {m : String} {k : ClassDecl} {f : Method}
    (found : (cs.findSome? fun c => (c.methods.find? (·.name == m)).map fun f => (c, f)) = some (k, f)) :
    (f.isStatic = false → Nearest t (declares m) name k) ∧
      (f.isStatic = true →
        (cs.find? fun c => c.methods.any fun f => f.isStatic && f.name == m) = some k) := by
  induction chain with
  | stop => cases found
  | @base name c cs known rest ih =>
      rw [List.findSome?_cons] at found
      cases own : c.methods.find? (·.name == m) with
      | some g =>
          rw [own] at found
          obtain ⟨rfl, rfl⟩ := Prod.mk.inj (Option.some.inj found)
          have inside := List.mem_of_find?_eq_some own
          have called : g.name = m := by simpa using List.find?_some own
          refine ⟨fun isOwn => .here known ⟨g, inside, called, isOwn⟩, fun isStatic => ?_⟩
          refine List.find?_cons_of_pos (List.any_eq_true.mpr ⟨g, inside, ?_⟩)
          simp [isStatic, called]
      | none =>
          rw [own] at found
          have absent : ∀ g ∈ c.methods, g.name ≠ m := by simpa using own
          obtain ⟨instance_, static_⟩ := ih found
          refine ⟨fun isOwn => .above known ?_ (instance_ isOwn), fun isStatic => ?_⟩
          · rintro ⟨g, inside, called, -⟩
            exact absent g inside called
          · rw [List.find?_cons_of_neg, static_ isStatic]
            simpa using fun g inside _ => absent g inside

/-- The method a call is checked against is the one that the table or the static search gives. -/
theorem Sound.of_findMethod? (sound : t.Sound) {m : String} {k : ClassDecl} {f : Method}
    (found : t.findMethod? name m = some (k, f)) :
    (f.isStatic = false → ⟨m, SymbolName.method k.name m⟩ ∈ t.flatMethods name) ∧
      (f.isStatic = true → t.staticMethod? name m = some (SymbolName.staticMethod k.name m)) := by
  obtain ⟨instance_, static_⟩ := (sound.chain_lineage name).nearest_of_find found
  refine ⟨fun isOwn => sound.mem_flatMethods.mpr ⟨k, instance_ isOwn, rfl⟩, fun isStatic => ?_⟩
  rw [staticMethod?, static_ isStatic]
  rfl

/-! ## Tables of erased classes -/

theorem get?_erase (t : ClassTable) (name : String) :
    get? (t.map ClassDecl.erase) name = (t.get? name).map ClassDecl.erase := by
  simp only [get?, List.find?_map]
  rfl

theorem lineageFrom_erase (t : ClassTable) (bound : Nat) (seen : List String) (name : String) :
    lineageFrom (t.map ClassDecl.erase) bound seen name =
      (lineageFrom t bound seen name).map ClassDecl.erase := by
  induction bound generalizing seen name with
  | zero => rfl
  | succ bound ih =>
      simp only [lineageFrom, get?_erase]
      split
      · rfl
      · cases t.get? name with
        | none => rfl
        | some c => exact congrArg (c.erase :: ·) (ih _ c.base)

theorem lineage_erase (t : ClassTable) (name : String) :
    lineage (t.map ClassDecl.erase) name = (t.lineage name).map ClassDecl.erase := by
  simp [lineage, lineageFrom_erase]

theorem ownEntries_erase (c : ClassDecl) : ownEntries c.erase = ownEntries c := by
  simp only [ownEntries, ClassDecl.erase, List.filter_map, List.map_map]
  rfl

theorem flatMethods_erase (t : ClassTable) (name : String) :
    flatMethods (t.map ClassDecl.erase) name = t.flatMethods name := by
  simp only [flatMethods_eq, lineage_erase, tableOf, ← List.map_reverse, List.flatMap_map,
    ownEntries_erase]

theorem superEntries_erase (t : ClassTable) (name : String) :
    superEntries (t.map ClassDecl.erase) name = t.superEntries name := by
  have own (c : ClassDecl) : inheritedEntries (t.map ClassDecl.erase) c.erase = t.inheritedEntries c := by
    have known : has (t.map ClassDecl.erase) c.base = t.has c.base := by
      simp only [has, List.any_map]
      rfl
    simp only [inheritedEntries, ClassDecl.erase, known, flatMethods_erase]
  simp only [superEntries_eq, lineage_erase, ← List.map_reverse, List.flatMap_map, own]

theorem methodEntries_erase (t : ClassTable) (name : String) :
    methodEntries (t.map ClassDecl.erase) name = t.methodEntries name := by
  simp only [methodEntries, flatMethods_erase, superEntries_erase]

theorem staticMethod?_erase (t : ClassTable) (name m : String) :
    staticMethod? (t.map ClassDecl.erase) name m = t.staticMethod? name m := by
  have own (c : ClassDecl) : (c.erase.methods.any fun f => f.isStatic && f.name == m) =
      c.methods.any fun f => f.isStatic && f.name == m := by
    simp only [ClassDecl.erase, List.any_map]
    rfl
  simp only [staticMethod?, lineage_erase, List.find?_map, Function.comp_def, own, Option.map_map]
  rfl

theorem staticField?_erase (t : ClassTable) (cls name : String) :
    staticField? (t.map ClassDecl.erase) cls name = t.staticField? cls name := by
  have own (c : ClassDecl) : (c.erase.fields.any fun f => f.isStatic && f.name == name) =
      c.fields.any fun f => f.isStatic && f.name == name := by
    simp only [ClassDecl.erase, List.any_map]
    rfl
  simp only [staticField?, lineage_erase, List.find?_map, Function.comp_def, own, Option.map_map]
  rfl

end ClassTable

/-! ## Building tables -/

namespace Emit

open Assembly

/-- The instructions that put an entry into a method table; `pool` holds its key. -/
def entryCode (pool : List String) (table : Operand) (e : MethodEntry) : List Instr :=
  [⟨.setarg, [.arg 0, table], ""⟩, ⟨.setarg, [.arg 1, .addr (poolLabel (pool.idxOf e.key))], ""⟩,
    ⟨.setarg, [.arg 2, .addr e.symbol], ""⟩, ⟨.setarg, [.arg 3, imm 0], ""⟩,
    ⟨.call, [.label "lm_map_set"], ""⟩]

/-- The instructions that build a method table with the given entries: room for as many, then one
    after the other. -/
def tableCode (pool : List String) (cls : String) (entries : List MethodEntry) : List Instr :=
  let table := Operand.data (SymbolName.methodTable cls)
  [⟨.setarg, [.arg 0, imm entries.length], ""⟩, ⟨.call, [.label "lm_map_new"], ""⟩,
    ⟨.mov, [table, rax], ""⟩] ++ entries.flatMap (entryCode pool table)

/-- A step that adds the given instructions; `pool` holds all its strings in the end. -/
def Adds {α : Type} (pool : List String) (x : Emitting α) (added : List Instr) : Prop :=
  ∀ g : Gen, (x.run g).2.pool <+: pool → (x.run g).2.code.toList = g.code.toList ++ added

/-- What holds of a state of the generator and all that come after it. -/
def Stable (Q : Gen → Prop) : Prop := ∀ g g' : Gen, g.Before g' → Q g → Q g'

/-- A step behind which something holds. -/
def Settles {α : Type} (Q : Gen → Prop) (x : Emitting α) : Prop := ∀ g : Gen, Q (x.run g).2

section Adds

variable {α β : Type} {pool : List String} {is js : List Instr}

theorem adds_emit (op : Op) (args : List Operand) : Adds pool (emit op args) [⟨op, args, ""⟩] :=
  fun g _ => by
    show (g.push op args).code.toList = _
    simp [Gen.push]

theorem Adds.bind {x : Emitting α} {f : α → Emitting β} [∀ a, Grows (f a)] (first : Adds pool x is)
    (rest : ∀ a, Adds pool (f a) js) : Adds pool (x >>= f) (is ++ js) := by
  intro g inside
  have later := (inferInstance : Grows (f (x.run g).1)).grow (x.run g).2
  rw [← List.append_assoc, ← first g (later.pool.trans inside)]
  exact rest _ _ inside

theorem idxOf_of_addNew {names : List String} {s : String} (inside : addNew names s <+: pool) :
    names.idxOf s = pool.idxOf s := by
  obtain ⟨more, rfl⟩ := inside
  rw [List.idxOf_append_of_mem (mem_addNew.mpr (.inr rfl))]
  unfold addNew
  split
  · rfl
  · next absent =>
      have absent : s ∉ names := by simpa using absent
      rw [List.idxOf_append_of_notMem absent, List.idxOf_of_notMem absent]
      simp

theorem adds_str {s : String} {f : Operand → Emitting α} [∀ o, Grows (f o)]
    (rest : Adds pool (f (.addr (poolLabel (pool.idxOf s)))) is) : Adds pool (str s >>= f) is := by
  intro g inside
  have run : (str s >>= f).run g = (f (.addr (poolLabel (g.pool.idxOf s)))).run (g.pooled s) := rfl
  rw [run] at inside ⊢
  have later := (inferInstance : Grows (f (.addr (poolLabel (g.pool.idxOf s))))).grow (g.pooled s)
  have same := idxOf_of_addNew (later.pool.trans inside)
  rw [same] at inside ⊢
  exact rest (g.pooled s) inside

theorem adds_setArgsFrom (i : Nat) (args : List Operand) :
    Adds pool (setArgsFrom i args) (args.mapIdx fun n a => ⟨.setarg, [.arg (i + n : Nat), a], ""⟩) := by
  induction args generalizing i with
  | nil => exact fun g _ => (List.append_nil _).symm
  | cons a args ih =>
      unfold setArgsFrom
      have first : Adds pool (emit .setarg [.arg i, a]) [⟨.setarg, [.arg i, a], ""⟩] := adds_emit _ _
      have shifted := first.bind fun _ => ih (i + 1)
      simpa [List.mapIdx_cons, Nat.add_comm, Nat.add_left_comm] using shifted

theorem adds_call {name : String} (args : List Operand)
    (plain : (name == "printf" || name == "scanf") = false) : Adds pool (call name args)
      (args.mapIdx (fun n a => ⟨.setarg, [.arg n, a], ""⟩) ++ [⟨.call, [.label name], ""⟩]) := by
  have set : Adds pool (setArgsFrom 0 args) (args.mapIdx fun n a => ⟨.setarg, [.arg n, a], ""⟩) := by
    simpa only [Nat.zero_add] using adds_setArgsFrom 0 args
  intro g inside
  have run : ((call name args).run g).2 =
      { ((setArgsFrom 0 args).run g).2 with
        maxCallArgs := max ((setArgsFrom 0 args).run g).2.maxCallArgs args.length
        externs := addNew ((setArgsFrom 0 args).run g).2.externs name
        code := ((setArgsFrom 0 args).run g).2.code.push ⟨.call, [.label name], ""⟩ } := by
    unfold call setArgs
    rw [plain]
    rfl
  rw [run] at inside ⊢
  rw [Array.toList_push, set g inside, List.append_assoc]

theorem grows_forM {xs : List α} {f : α → Emitting PUnit} [each : ∀ a, Grows (f a)] : Grows (xs.forM f) := by
  induction xs with
  | nil => exact inferInstanceAs (Grows (pure _))
  | cons x xs ih => exact inferInstanceAs (Grows (f x >>= fun _ => xs.forM f))

theorem adds_forM {xs : List α} {f : α → Emitting PUnit} {code : α → List Instr}
    [∀ a, Grows (f a)] (each : ∀ x, Adds pool (f x) (code x)) :
    Adds pool (xs.forM f) (xs.flatMap code) := by
  induction xs with
  | nil => exact fun g _ => (List.append_nil _).symm
  | cons x xs ih =>
      have : Grows (xs.forM f) := grows_forM
      exact (each x).bind fun _ => ih

theorem adds_methodTable (env : Env) (c : ClassDecl) :
    Adds pool (methodTable env c) (tableCode pool c.name (env.classes.methodEntries c.name)) := by
  have entry (table : Operand) (m : MethodEntry) : Adds pool
      (do call "lm_map_set" [table, ← str m.key, .addr m.symbol, imm 0] : Emitting Unit)
      (entryCode pool table m) := adds_str (adds_call _ rfl)
  have grows (table : Operand) (es : List MethodEntry) : Grows (es.forM fun m => do
      call "lm_map_set" [table, ← str m.key, .addr m.symbol, imm 0]) := grows_forM
  exact (adds_call _ rfl).bind fun _ => (adds_emit _ _).bind fun _ => adds_forM fun m => entry _ m

end Adds

section Settles

variable {α β : Type} {Q : Gen → Prop}

theorem Settles.before {x : Emitting α} {f : α → Emitting β} [∀ a, Grows (f a)] (stable : Stable Q)
    (first : Settles Q x) : Settles Q (x >>= f) :=
  fun g => stable _ _ ((inferInstance : Grows (f (x.run g).1)).grow (x.run g).2) (first g)

theorem Settles.after {x : Emitting α} {f : α → Emitting β} (rest : ∀ a, Settles Q (f a)) :
    Settles Q (x >>= f) :=
  fun _ => rest _ _

theorem settles_forM {xs : List α} {f : α → Emitting PUnit} [∀ a, Grows (f a)] (stable : Stable Q)
    {x : α} (mem : x ∈ xs) (own : Settles Q (f x)) : Settles Q (xs.forM f) := by
  induction xs with
  | nil => cases mem
  | cons y xs ih =>
      have : Grows (xs.forM f) := grows_forM
      rcases List.mem_cons.mp mem with rfl | later
      · exact own.before (f := fun _ => xs.forM f) stable
      · exact Settles.after fun _ => ih later

/-- The strings of a method table are in the pool, and its instructions stand in the code. -/
def Tabled (pool : List String) (cls : String) (entries : List MethodEntry) (g : Gen) : Prop :=
  (∀ e ∈ entries, e.key ∈ g.pool) ∧
    (g.pool <+: pool → tableCode pool cls entries <:+: g.code.toList)

theorem stable_tabled (pool : List String) (cls : String) (entries : List MethodEntry) :
    Stable (Tabled pool cls entries) :=
  fun _ _ before ⟨keys, code⟩ => ⟨fun e mem => before.pool.subset (keys e mem),
    fun inside => (code (before.pool.trans inside)).trans before.code.isInfix⟩

theorem settles_methodTable (pool : List String) (env : Env) (c : ClassDecl) :
    Settles (Tabled pool c.name (env.classes.methodEntries c.name)) (methodTable env c) := by
  intro g
  constructor
  · intro e mem
    have stable : Stable fun g => e.key ∈ g.pool := fun _ _ before mem => before.pool.subset mem
    have one (table : Operand) : Settles (fun g => e.key ∈ g.pool)
        (do call "lm_map_set" [table, ← str e.key, .addr e.symbol, imm 0] : Emitting Unit) :=
      Settles.before stable fun g => mem_addNew.mpr (.inr rfl)
    have all : Settles (fun g => e.key ∈ g.pool) (methodTable env c) :=
      .after fun _ => .after fun _ => settles_forM stable mem (one _)
    exact all g
  · intro inside
    rw [adds_methodTable env c g inside]
    exact (List.suffix_append _ _).isInfix

/-- The method table of every class is built before anything else runs. -/
theorem settles_mainCode (pool : List String) (env : Env) (seed : Int64) (items : List Stmt)
    {c : ClassDecl} (known : c ∈ env.classes) :
    Settles (Tabled pool c.name (env.classes.methodEntries c.name)) (mainCode env seed items) := by
  have stable := stable_tabled pool c.name (env.classes.methodEntries c.name)
  refine .after fun _ => .after fun t => .before stable ?_
  have tables : Settles (Tabled pool c.name (env.classes.methodEntries c.name))
      ((env.enter t).classes.forM (methodTable (env.enter t))) :=
    settles_forM stable known (settles_methodTable pool (env.enter t) c)
  have grows : Grows ((env.enter t).classes.forM (staticInit (env.enter t))) := grows_forM
  unfold prelude
  split
  · exact .after fun _ => tables.before stable
  · exact tables.before stable

end Settles

/-- An image builds a method table with the given entries: the instructions stand in its main routine,
    and the strings they refer to are the keys. -/
structure Builds (image : Image) (cls : String) (entries : List MethodEntry) : Prop where
  code : ∃ main ∈ image.routines, main.name = SymbolName.mainRoutine ∧
    tableCode (image.strings.map StringLit.value) cls entries <:+: main.code
  keys : ∀ e ∈ entries,
    ⟨poolLabel ((image.strings.map StringLit.value).idxOf e.key), e.key⟩ ∈ image.strings

end Emit

namespace ClassTable

theorem foldl_add_eq {t : ClassTable} {items : List Stmt}
    (nodup : ((t ++ classesOf items).map ClassDecl.name).Nodup) :
    items.foldl (fun t s => match s with
      | .class_ c => t.add c
      | _ => t) t = t ++ classesOf items := by
  induction items generalizing t with
  | nil => simp [classesOf]
  | cons s items ih =>
      cases s with
      | class_ c =>
          have parts : classesOf (.class_ c :: items) = c :: classesOf items := rfl
          rw [parts, List.append_cons] at nodup ⊢
          have fresh : ¬ t.has c.name := by
            rw [has, List.any_eq_true]
            rintro ⟨d, mem, same⟩
            rw [List.map_append, List.map_append, List.append_assoc, List.nodup_append] at nodup
            exact nodup.2.2 d.name (List.mem_map_of_mem mem) c.name (by simp) (by simpa using same)
          rw [List.foldl_cons, ← ih nodup]
          simp [add, fresh]
      | _ => exact ih nodup

theorem ofItems_eq {items : List Stmt} (nodup : ((classesOf items).map ClassDecl.name).Nodup) :
    ofItems items = classesOf items := foldl_add_eq nodup

end ClassTable

theorem classesOf_eraseStmts (items : List Stmt) :
    classesOf (eraseStmts items) = (classesOf items).map ClassDecl.erase := by
  induction items with
  | nil => rfl
  | cons s items ih =>
      cases s with
      | class_ c =>
          rw [eraseStmts, Stmt.erase_class]
          exact congrArg (c.erase :: ·) ih
      | func f => rw [eraseStmts, Stmt.erase_func]; exact ih
      | ifElse => rw [eraseStmts, Stmt.erase_ifElse]; exact ih
      | for_ => rw [eraseStmts, Stmt.erase_for]; exact ih
      | try_ => rw [eraseStmts, Stmt.erase_try]; exact ih
      | _ => exact ih

theorem Inference.builds (t : Inference) (hints : Hints) (seed : Int64) {c : ClassDecl}
    (known : c ∈ t.classes) :
    Emit.Builds (t.generate hints seed).1 c.name (t.classes.methodEntries c.name) := by
  obtain ⟨rs, main, image, -, name, code⟩ := t.generate_eq hints seed
  have tabled := Emit.settles_mainCode (t.finish hints seed).pool (t.env hints) seed t.topLevel known
    (t.startOfMain hints).cleared
  rw [image]
  constructor <;> dsimp only <;> rw [Emit.pool_of_strings]
  · exact ⟨main, by simp, name, code ▸ tabled.2 List.prefix_rfl⟩
  · intro e mem
    have inside : e.key ∈ (t.finish hints seed).pool := tabled.1 e mem
    refine List.mem_mapIdx.mpr ⟨_, List.idxOf_lt_length_of_mem inside, ?_⟩
    simp

/-! ## Programs -/

/-- The classes a program is generated from are those that were checked, records apart. -/
theorem Program.erase_classes {p p' : Program} (hints : Hints)
    (names : ((classesOf p.items).map ClassDecl.name).Nodup)
    (same : eraseStmts p'.items = eraseStmts p.items) :
    (p'.infer hints).classes.map ClassDecl.erase = (ClassTable.ofItems p.items).map ClassDecl.erase := by
  have all : (classesOf (p'.infer hints).program.items).map ClassDecl.erase =
      (classesOf p.items).map ClassDecl.erase := by
    rw [← classesOf_eraseStmts, Program.erase_infer, same, classesOf_eraseStmts]
  have called (cs : List ClassDecl) : (cs.map ClassDecl.erase).map ClassDecl.name = cs.map ClassDecl.name := by
    simp only [List.map_map]
    rfl
  have names' : ((classesOf (p'.infer hints).program.items).map ClassDecl.name).Nodup := by
    rwa [← called, all, called]
  show (ClassTable.ofItems (p'.infer hints).program.items).map ClassDecl.erase = _
  rw [ClassTable.ofItems_eq names', all, ClassTable.ofItems_eq names]

/-- Every class of a checked program has a method table whose keys are distinct and as many as there is
    room for. It maps a method to the implementation of the nearest class that declares it, and the key
    of an inherited method to what the table of the base maps that method to, whatever the class. What
    a call is checked against is what it runs. -/
theorem Program.dispatches {file : Nat} {source : String} {p p' : Program} {hints : Hints}
    (accepted : Program.accept? file source = some (p, p', hints)) (seed : Int64) {d : ClassDecl}
    (declared : d ∈ ClassTable.ofItems p.items) :
    let t := ClassTable.ofItems p.items
    let entries := t.methodEntries d.name
    Emit.Builds (p'.generate hints seed).1 d.name entries ∧
    (entries.map MethodEntry.key).Nodup ∧
    (∀ m, Identifier m → ∀ s, ⟨m, s⟩ ∈ entries ↔
      ∃ k, t.Nearest (ClassTable.declares m) d.name k ∧ s = SymbolName.method k.name m) ∧
    (∀ k b, t.Reaches d.name k → t.get? k.base = some b → ∀ m, Identifier m → ∀ s,
      ⟨SymbolName.superKey k.name m, s⟩ ∈ entries ↔ ⟨m, s⟩ ∈ t.methodEntries b.name) ∧
    ∀ m k f, t.findMethod? d.name m = some (k, f) →
      (f.isStatic = false →
        ⟨m, SymbolName.method k.name m⟩ ∈ (p'.infer hints).classes.flatMethods d.name) ∧
      (f.isStatic = true →
        (p'.infer hints).classes.staticMethod? d.name m = some (SymbolName.staticMethod k.name m)) := by
  obtain ⟨proper, checked⟩ := Program.of_accept? accepted
  obtain ⟨ds, distinct, -, classes, -, sound⟩ := (p.gives_declared proper).of_outcome checked
  have kept := p.erase_check.of_outcome checked
  have names : ((classesOf p.items).map ClassDecl.name).Nodup := classes ▸ distinct.classes
  have sound : (ClassTable.ofItems p.items).Sound := by rwa [ClassTable.ofItems_eq names, ← classes]
  have erased := Program.erase_classes hints names kept
  intro t entries
  refine ⟨?_, sound.nodup_methodEntries d.name, fun m isName s => sound.mem_methodEntries isName,
    fun k b reaches base m isName s => sound.mem_methodEntries_super reaches base isName, ?_⟩
  · obtain ⟨c, known, same⟩ : ∃ c ∈ (p'.infer hints).classes, c.erase = d.erase :=
      List.mem_map.mp (erased ▸ List.mem_map_of_mem declared)
    have builds := (p'.infer hints).builds hints seed known
    rw [← ClassTable.methodEntries_erase, erased, ClassTable.methodEntries_erase] at builds
    have called : c.name = d.name := (congrArg ClassDecl.name same : c.erase.name = d.erase.name)
    rw [called] at builds
    exact builds
  · intro m k f found
    have agree := sound.of_findMethod? found
    rw [← ClassTable.flatMethods_erase, ← ClassTable.staticMethod?_erase, ← erased,
      ClassTable.flatMethods_erase, ClassTable.staticMethod?_erase] at agree
    exact agree

/-- Two classes, of which the second replaces one of the methods of the first. -/
def overriding : String :=
  "class A \x7b func f() \x7b\x7d func g() \x7b\x7d static func h() \x7b\x7d \x7d " ++
    "class B extends A \x7b override func f() \x7b super.g(); \x7d \x7d"

theorem Program.dispatches_overriding : ∃ p p' hints d,
    Program.accept? 0 overriding = some (p, p', hints) ∧ d ∈ ClassTable.ofItems p.items ∧
    (ClassTable.ofItems p.items).methodEntries d.name = [⟨"f", "__B.f"⟩, ⟨"g", "__A.g"⟩,
      ⟨"super::B::f", "__A.f"⟩, ⟨"super::B::g", "__A.g"⟩] ∧
    Emit.Builds (p'.generate hints 0).1 d.name ((ClassTable.ofItems p.items).methodEntries d.name) := by
  have tables : (Program.accept? 0 overriding).map (fun r =>
      (ClassTable.ofItems r.1.items).map fun d => (ClassTable.ofItems r.1.items).methodEntries d.name) =
      some [[⟨"f", "__A.f"⟩, ⟨"g", "__A.g"⟩], [⟨"f", "__B.f"⟩, ⟨"g", "__A.g"⟩,
        ⟨"super::B::f", "__A.f"⟩, ⟨"super::B::g", "__A.g"⟩]] := by
    rewrite [show Program.accept? 0 overriding = _ from Program.accept?_append 0 _ _]
    decide +kernel
  obtain ⟨⟨p, p', hints⟩, accepted, tables⟩ := Option.map_eq_some_iff.mp tables
  obtain ⟨d, declared, table⟩ := List.mem_map.mp
    (tables ▸ List.mem_cons_of_mem _ List.mem_cons_self : _ ∈ List.map _ (ClassTable.ofItems p.items))
  exact ⟨p, p', hints, d, accepted, declared, table, (Program.dispatches accepted 0 declared).1⟩

end Lantern
