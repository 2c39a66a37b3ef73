import Lantern.Proofs.Fields

/-!
# What is put into a new object

An object is a map made with room for its entries. The method table of its class is put in first, under a
key of its own, then the instance fields of the class and its bases, each as its most derived declaration
says. An entry takes the place of an earlier one with the same key: the method table stays as long as no
field has the name of its key.
-/

namespace Lantern

/-! ## Entries -/

/-- What a new object holds under a key. -/
inductive Content where
  /-- The method table of a class. -/
  | table (cls : String)
  /-- The initial value of a field. -/
  | initial (e : Expr)
  /-- The value of a field of the given type that has no initial value. -/
  | default (type : Option Sigil)

/-- An entry that is put into a new object. -/
structure Insertion where
  /-- The key. -/
  key : String
  /-- What is put there. -/
  content : Content
  /-- Whether it is marked as a string. -/
  isStr : Bool

/-- The method table of a class as an entry. -/
def Insertion.table (cls : String) : Insertion := ⟨SymbolName.methodTableKey, .table cls, false⟩

/-- A field as an entry. A declared type says whether it is a string, otherwise its initial value does. -/
def Field.insertion (f : Field) : Insertion where
  key := f.name
  content := match f.init with
    | some e => .initial e
    | none => .default f.type
  isStr := match f.type with
    | some t => t.isStr
    | none => (f.init.map fun e => e.sigil.isStr).getD false

namespace ClassTable

/-- What is put into a new object of a class, in order. -/
def insertions (t : ClassTable) (cls : String) : List Insertion :=
  .table cls :: (t.flatFields cls).map Field.insertion

/-- What the object holds then. -/
def contents (t : ClassTable) (cls : String) : List Insertion :=
  (t.insertions cls).foldl (upsert Insertion.key) []

/-- No class that the given one extends, itself included, declares a field of the name for its objects. -/
def Frees (t : ClassTable) (cls name : String) : Prop := ∀ k, t.Reaches cls k → ¬ hasOwnField name k

variable {t : ClassTable} {cls name : String} {cs : List ClassDecl}

theorem keys_fields (fs : List Field) : (fs.map Field.insertion).map Insertion.key = fs.map Field.name := by
  rw [List.map_map]
  rfl

/-- An object has a field of a name if a class on the chain declares it. -/
theorem mem_names_fieldsOf : name ∈ (fieldsOf cs).map Field.name ↔ ∃ k ∈ cs, hasOwnField name k := by
  have fold (fs xs : List Field) : name ∈ (fs.foldl (upsert Field.name) xs).map Field.name ↔
      name ∈ xs.map Field.name ∨ name ∈ fs.map Field.name := by
    induction fs generalizing xs with
    | nil => simp
    | cons f fs ih =>
        rw [List.foldl_cons, ih, mem_keys_upsert, List.map_cons, List.mem_cons]
        tauto
  induction cs with
  | nil => simp [fieldsOf]
  | cons c cs ih =>
      rw [fieldsOf_cons, fold, mem_names_own, List.exists_mem_cons_iff, or_comm]
      exact or_congr_right ih

theorem Chain.frees_iff (chain : t.Chain cls cs) : t.Frees cls name ↔ name ∉ (t.flatFields cls).map Field.name := by
  rw [flatFields_eq, chain.lineage_eq, mem_names_fieldsOf]
  simp only [Frees, chain.mem_iff, not_exists, not_and]

/-- The keys of an object are different ones exactly if no field takes that of the method table. -/
theorem Chain.nodup_insertions (chain : t.Chain cls cs) :
    ((t.insertions cls).map Insertion.key).Nodup ↔ t.Frees cls SymbolName.methodTableKey := by
  have fields : ((t.flatFields cls).map Field.name).Nodup := nodup_fieldsOf (t.lineage cls)
  rw [insertions, List.map_cons, keys_fields, List.nodup_cons, chain.frees_iff]
  exact and_iff_left fields

/-- Every field is held as it was put in, and so is the method table unless a field took its place. -/
theorem mem_contents {i : Insertion} : i ∈ t.contents cls ↔ (∃ f ∈ t.flatFields cls, f.insertion = i) ∨
    i = .table cls ∧ SymbolName.methodTableKey ∉ (t.flatFields cls).map Field.name := by
  have fields : (((t.flatFields cls).map Field.insertion).map Insertion.key).Nodup := by
    rw [keys_fields]
    exact nodup_fieldsOf (t.lineage cls)
  have first : upsert Insertion.key [] (.table cls) = [.table cls] := rfl
  rw [contents, insertions, List.foldl_cons, first, mem_foldl_upsert fields, keys_fields, List.mem_map,
    List.mem_singleton]
  refine or_congr_right (and_congr_right ?_)
  rintro rfl
  exact Iff.rfl

/-- The method table stays where no field has the name of its key. -/
theorem Chain.table_mem_contents (chain : t.Chain cls cs) :
    .table cls ∈ t.contents cls ↔ t.Frees cls SymbolName.methodTableKey := by
  rw [mem_contents, chain.frees_iff]
  constructor
  · rintro (⟨f, mem, same⟩ | ⟨-, free⟩)
    · have content := congrArg Insertion.content same
      unfold Field.insertion at content
      dsimp only [Insertion.table] at content
      split at content <;> cases content
    · exact free
  · exact fun free => .inr ⟨rfl, free⟩

/-- Chains of bases depend only on names and bases. -/
theorem Chain.of_erase {t' : ClassTable} (same : t'.map ClassDecl.erase = t.map ClassDecl.erase)
    (chain : t.Chain cls cs) : ∃ cs', t'.Chain cls cs' := by
  have found (name : String) : (t'.get? name).map ClassDecl.erase = (t.get? name).map ClassDecl.erase := by
    rw [← get?_erase, same, get?_erase]
  induction chain with
  | @stop name unknown =>
      have none_ := found name
      rw [unknown] at none_
      exact ⟨[], .stop (Option.map_eq_none_iff.mp none_)⟩
  | @base name c cs known rest ih =>
      obtain ⟨cs', rest'⟩ := ih
      have some_ := found name
      rw [known] at some_
      obtain ⟨c', known', alike⟩ := Option.map_eq_some_iff.mp some_
      have base : c'.base = c.base := (congrArg ClassDecl.base alike : c'.erase.base = c.erase.base)
      exact ⟨c' :: cs', .base known' (base ▸ rest')⟩

end ClassTable

/-! ## Code -/

namespace Emit

open Assembly

/-- Puts an entry into an object; `initial` generates initial values. -/
def insert (initial : Expr → Emitting Unit) (obj : Operand) (i : Insertion) : Emitting Unit := do
  let value ← match i.content with
    | .table cls => pure (Operand.data (SymbolName.methodTable cls))
    | .initial e => do
      initial e
      pure rax
    | .default type => do
      defaultValue type
      pure rax
  call "lm_map_set" [obj, ← str i.key, value, strFlag i.isStr]

theorem setFields_eq (obj : Operand) (initial : Expr → Emitting Unit) (fs : List Field) :
    setFields obj initial fs = (fs.map Field.insertion).forM (insert initial obj) := by
  induction fs with
  | nil => rfl
  | cons f fs ih =>
      rw [setFields, ih, List.map_cons, List.forM_eq_forM, List.forM_cons]
      generalize forM (fs.map Field.insertion) (insert initial obj) = rest
      unfold insert Field.insertion
      cases f.init <;> rfl

theorem newObject_eq {env : Env} {c : ClassDecl} (known : env.classes.get? c.name = some c)
    (initial : Expr → Emitting Unit) (at_ : Span) (args : List Value) : newObject env initial at_ c.name args = (do
      call "lm_map_new" [imm (env.classes.insertions c.name).length]
      let obj ← spill env
      (env.classes.insertions c.name).forM (insert initial obj)
      construct env at_ c obj args
      emit .mov [rax, obj]
      popTemps 1) := by
  unfold newObject ClassTable.insertions
  rw [known]
  simp only [setFields_eq, List.forM_eq_forM, List.forM_cons, List.length_cons, List.length_map, bind_assoc]
  rfl

end Emit

/-! ## Programs -/

/-- The classes of a program that passes the checks, as code is generated for them. -/
theorem Program.classes_inferred {file : Nat} {source : String} {p p' : Program} {hints : Hints}
    (accepted : Program.accept? file source = some (p, p', hints)) :
    let t := (p'.infer hints).classes
    (t.map ClassDecl.name).Nodup ∧ (∀ c ∈ t, (c.fields.map Field.name).Nodup) ∧ ∀ name, ∃ cs, t.Chain name cs := by
  obtain ⟨proper, checked⟩ := Program.of_accept? accepted
  obtain ⟨ds, distinct, -, classes, -, sound⟩ := (p.gives_declared proper).of_outcome checked
  have kept := p.erase_check.of_outcome checked
  have names : ((classesOf p.items).map ClassDecl.name).Nodup := classes ▸ distinct.classes
  have erased := Program.erase_classes hints names kept
  rw [ClassTable.ofItems_eq names, ← classes] at erased
  intro t
  have named (cs : List ClassDecl) : (cs.map ClassDecl.erase).map ClassDecl.name = cs.map ClassDecl.name := by
    rw [List.map_map]
    rfl
  refine ⟨by rw [← named, erased, named]; exact distinct.classes, fun c mem => ?_, fun name => ?_⟩
  · have inside : c.erase ∈ ds.classes.map ClassDecl.erase := erased ▸ List.mem_map_of_mem mem
    obtain ⟨k, mem, alike⟩ := List.mem_map.mp inside
    have fields (c : ClassDecl) : c.erase.fields.map Field.name = c.fields.map Field.name := by
      show (c.fields.map Field.erase).map Field.name = _
      rw [List.map_map]
      rfl
    rw [← fields, ← alike, fields]
    exact distinct.fields k mem
  · exact (sound.chain_lineage name).of_erase erased

/-- Code that creates an object makes room for as many entries as it puts in: the method table and one for
    each instance field, as its nearest declaration has it. The fields have keys of their own, and the object
    holds each as it was put in. The key of the method table is different from them, and the object holds the
    table under it, exactly if no class on the chain declares a field of that name. -/
theorem Program.insertions_distinct {file : Nat} {source : String} {p p' : Program} {hints : Hints}
    (accepted : Program.accept? file source = some (p, p', hints)) {c : ClassDecl}
    (mem : c ∈ (p'.infer hints).classes) :
    let t := (p'.infer hints).classes
    let entries := t.insertions c.name
    (∀ env : Emit.Env, env.classes = t → ∀ initial at_ args, Emit.newObject env initial at_ c.name args = (do
      Emit.call "lm_map_new" [Emit.imm entries.length]
      let obj ← Emit.spill env
      entries.forM (Emit.insert initial obj)
      Emit.construct env at_ c obj args
      Emit.emit .mov [Emit.rax, obj]
      Emit.popTemps 1)) ∧
    (∃ fields : List Field, entries = .table c.name :: fields.map Field.insertion ∧ (fields.map Field.name).Nodup ∧
      (∀ f, f ∈ fields ↔ ∃ k, t.Nearest (ClassTable.hasOwnField f.name) c.name k ∧ f ∈ k.fields ∧
        f.isStatic = false) ∧
      ∀ f ∈ fields, f.insertion ∈ t.contents c.name) ∧
    ((entries.map Insertion.key).Nodup ↔ t.Frees c.name SymbolName.methodTableKey) ∧
    (.table c.name ∈ t.contents c.name ↔ t.Frees c.name SymbolName.methodTableKey) := by
  obtain ⟨names, distinct, chains⟩ := Program.classes_inferred accepted
  intro t entries
  obtain ⟨cs, chain⟩ := chains c.name
  have own (k : ClassDecl) (mem : k ∈ cs) := distinct k (ClassTable.mem_of_get? (chain.mem k mem))
  refine ⟨fun env table initial at_ args => ?_, ⟨t.flatFields c.name, rfl, ?_, fun f => ?_, fun f held => ?_⟩,
    chain.nodup_insertions, chain.table_mem_contents⟩
  · have known : env.classes.get? c.name = some c := table ▸ ClassTable.get?_of_mem names mem
    rw [Emit.newObject_eq known, table]
  · exact ClassTable.nodup_fieldsOf (t.lineage c.name)
  · rw [ClassTable.flatFields_eq, chain.lineage_eq]
    exact chain.mem_fieldsOf own
  · exact ClassTable.mem_contents.mpr (.inl ⟨f, held, rfl⟩)

/-- A class that replaces a field of its base and adds one. -/
def layered : String :=
  "class A \x7b var x: int = 1; var y: int; \x7d class B extends A \x7b var z = \"s\"; var x: string; \x7d"

/-- Its objects hold the method table and the three fields, the first as the derived class declares it. -/
theorem Program.insertions_distinct_layered : ∃ p p' hints c,
    Program.accept? 0 layered = some (p, p', hints) ∧ c ∈ (p'.infer hints).classes ∧
    ((p'.infer hints).classes.insertions c.name).map (fun i => (i.key, i.isStr)) =
      [("__vtable", false), ("x", true), ("y", false), ("z", true)] ∧
    .table c.name ∈ (p'.infer hints).classes.contents c.name := by
  have keys : (Program.accept? 0 layered).map (fun r => (r.2.1.infer r.2.2).classes.map fun c =>
      ((r.2.1.infer r.2.2).classes.insertions c.name).map fun i => (i.key, i.isStr)) =
      some [[("__vtable", false), ("x", false), ("y", false)],
        [("__vtable", false), ("x", true), ("y", false), ("z", true)]] := by
    rewrite [show Program.accept? 0 layered = _ from Program.accept?_ofList 0 _]
    decide +kernel
  obtain ⟨⟨p, p', hints⟩, accepted, keys⟩ := Option.map_eq_some_iff.mp keys
  obtain ⟨c, mem, own⟩ := List.mem_map.mp
    (keys ▸ List.mem_cons_of_mem _ List.mem_cons_self : _ ∈ List.map _ (p'.infer hints).classes)
  obtain ⟨-, -, free, held⟩ := Program.insertions_distinct accepted mem
  have nodup : (((p'.infer hints).classes.insertions c.name).map Insertion.key).Nodup := by
    have keys := congrArg (List.map Prod.fst) own
    rw [List.map_map] at keys
    rw [show ((p'.infer hints).classes.insertions c.name).map Insertion.key = _ from keys]
    decide
  exact ⟨p, p', hints, c, accepted, mem, own, held.mpr (free.mp nodup)⟩

/-- A class with a field of the name under which its objects hold the method table. -/
def colliding : String := "class C \x7b var __vtable = 1; func m() \x7b \x7d \x7d var c = new C(); c.m();"

/-- The number takes the place of the method table. -/
theorem Program.insertions_collide : ∃ p p' hints c, Program.accept? 0 colliding = some (p, p', hints) ∧
    c ∈ (p'.infer hints).classes ∧
    ((p'.infer hints).classes.insertions c.name).map Insertion.key = ["__vtable", "__vtable"] ∧
    ((p'.infer hints).classes.contents c.name).map (fun i => (i.key, i.content matches .initial (.number _ 1))) =
      [("__vtable", true)] := by
  have entries : (Program.accept? 0 colliding).map (fun r => (r.2.1.infer r.2.2).classes.map fun c =>
      (((r.2.1.infer r.2.2).classes.insertions c.name).map Insertion.key,
        ((r.2.1.infer r.2.2).classes.contents c.name).map fun i =>
          (i.key, i.content matches .initial (.number _ 1)))) =
      some [(["__vtable", "__vtable"], [("__vtable", true)])] := by
    rewrite [show Program.accept? 0 colliding = _ from Program.accept?_ofList 0 _]
    decide +kernel
  obtain ⟨⟨p, p', hints⟩, accepted, entries⟩ := Option.map_eq_some_iff.mp entries
  obtain ⟨c, mem, own⟩ := List.mem_map.mp
    (entries ▸ List.mem_cons_self : _ ∈ List.map _ (p'.infer hints).classes)
  obtain ⟨keys, held⟩ := Prod.mk.inj own
  exact ⟨p, p', hints, c, accepted, mem, keys, held⟩

end Lantern
