import Mathlib
import Lantern.Proofs.MethodTables
import Lantern.Proofs.References
import Lantern.Proofs.Symbols

/-!
# Labels of a program

The text of a program defines labels for its fixed data, its literal pool, its words, its routines and
places in them. No label is defined twice: kinds of labels start differently, the symbols of a checked
program tell what they name, and places in code are numbered through all routines.
-/

namespace Lantern

open Assembly

namespace Nasm

/-! ## The text in pieces -/

/-- A piece of the text: lines that start with a label, or lines that define none. -/
inductive Piece where
  /-- A label and what follows it, from the colon on. -/
  | label (name rest : String)
  /-- Anything else. -/
  | other (text : String)

namespace Piece

/-- The piece as written. -/
def text : Piece → String
  | label name rest => name ++ rest
  | other text => text

/-- The label a piece defines. -/
def label? : Piece → Option String
  | label name _ => some name
  | other _ => none

/-- A string of the data section. -/
def ofString (s : StringLit) : Piece := label s.label (": db " ++ stringData s.value ++ "\n")

/-- A line of a routine. -/
def ofLine : Line → Piece
  | .label name => label name ":\n"
  | l => other l.text

end Piece

/-- The pieces of a routine. -/
def routinePieces (c : Convention) (r : Routine) : List Piece :=
  .other "\n" :: .label r.name ":\n" :: (routineLines c r).map Piece.ofLine

/-- The pieces of a program. -/
def pieces (platform : Platform) (p : Image) : List Piece :=
  let c := Convention.of platform
  .other ("; target: " ++ c.platform.name ++ "\ndefault rel\n\n" ++
      String.join (p.externs.map fun n => "extern " ++ n ++ "\n") ++ "\nsection .data\n") ::
    fixedData.map Piece.ofString ++
    [.label "input_val" ": dq 0\n", .label "input_buf" ": times 256 db 0\n"] ++
    p.strings.map Piece.ofString ++ p.globals.map (Piece.label · ": dq 0\n") ++
    .other "\nsection .text\nglobal main\n" :: p.routines.flatMap (routinePieces c) ++
    [.other (if c.stackNote then "\nsection .note.GNU-stack noalloc noexec nowrite progbits\n" else "")]

theorem text_ofString (s : StringLit) : (Piece.ofString s).text = stringLine s := by
  simp only [Piece.ofString, Piece.text, stringLine, String.append_assoc]

theorem text_ofLine (l : Line) : (Piece.ofLine l).text = l.text := by
  cases l <;> rfl

theorem join_routinePieces (c : Convention) (r : Routine) :
    String.join ((routinePieces c r).map Piece.text) = routineText c r := by
  have lines : ((routineLines c r).map Piece.ofLine).map Piece.text = (routineLines c r).map Line.text := by
    simp only [List.map_map, Function.comp_def, text_ofLine]
  rw [routinePieces, List.map_cons, List.map_cons, lines, String.join_cons, String.join_cons, routineText]
  simp only [Piece.text, String.append_assoc]

theorem render_eq (platform : Platform) (p : Image) :
    render platform p = String.join ((pieces platform p).map Piece.text) := by
  have routines (rs : List Routine) (c : Convention) :
      String.join ((rs.flatMap (routinePieces c)).map Piece.text) =
        String.join (rs.map (routineText c)) := by
    induction rs with
    | nil => simp
    | cons r rs ih =>
        rw [List.flatMap_cons, List.map_append, String.join_append, join_routinePieces, ih, List.map_cons,
          String.join_cons]
  have input : "input_val" ++ ": dq 0\n" ++ ("input_buf" ++ ": times 256 db 0\n") =
      "input_val: dq 0\ninput_buf: times 256 db 0\n" := by simp
  have strings (ss : List StringLit) :
      String.join ((ss.map Piece.ofString).map Piece.text) = String.join (ss.map stringLine) := by
    rw [List.map_map]
    exact congrArg String.join (List.map_congr_left fun s _ => text_ofString s)
  have words (gs : List String) : String.join ((gs.map (Piece.label · ": dq 0\n")).map Piece.text) =
      String.join (gs.map fun g => g ++ ": dq 0\n") := by
    simp only [List.map_map, Function.comp_def, Piece.text]
  unfold render pieces
  simp only [← input, List.map_append, List.map_cons, List.map_nil, String.join_append, String.join_cons,
    String.join_nil, routines, strings, words, Piece.text, String.append_assoc, String.append_empty]

/-! ## Labels of lines -/

/-- The labels the text of a program defines, in order. -/
def labels (platform : Platform) (p : Image) : List String :=
  (pieces platform p).filterMap Piece.label?

/-- The place in code that an instruction defines. -/
def mark? : Instr → Option String
  | ⟨.label, [.label l], _⟩ => some l
  | _ => none

/-- Labels are placed by name. -/
def Placed (code : List Instr) : Prop := ∀ i ∈ code, i.op = .label → ∃ l, i.args = [.label l]

/-- The labels among lines. -/
def labelsOf (ls : List Line) : List String := (ls.map Piece.ofLine).filterMap Piece.label?

theorem labelsOf_append (ls ms : List Line) : labelsOf (ls ++ ms) = labelsOf ls ++ labelsOf ms := by
  rw [labelsOf, List.map_append, List.filterMap_append, labelsOf, labelsOf]

theorem labelsOf_move (dst src : Place) : labelsOf (move dst src) = [] := by
  unfold move
  split
  · rfl
  · split
    · rfl
    · split <;> rfl

theorem labelsOf_combine (op : Op) (dst src : Place) : labelsOf (combine op dst src) = [] := by
  unfold combine
  split <;> rfl

theorem mark?_of_ne {i : Instr} (other : i.op ≠ .label) : mark? i = none := by
  unfold mark?
  split
  · exact absurd rfl other
  · rfl

theorem labelsOf_expand (c : Convention) (frame : Int64) (i : Instr)
    (placed : i.op = .label → ∃ l, i.args = [.label l]) :
    labelsOf (expand c frame i) = (mark? i).toList := by
  obtain ⟨op, args, remark⟩ := i
  by_cases isLabel : op = .label
  · subst isLabel
    obtain ⟨l, rfl⟩ := placed rfl
    rfl
  · rw [mark?_of_ne isLabel]
    unfold expand
    dsimp only
    split
    · exact absurd rfl isLabel
    · rfl
    · rfl
    · split
      · exact labelsOf_move _ _
      · rw [labelsOf_append, labelsOf_move]
        rfl
    · split
      · exact labelsOf_move _ _
      · exact labelsOf_move _ _
    · rfl
    · exact labelsOf_move _ _
    · split
      · exact labelsOf_combine _ _ _
      · rfl

theorem labelsOf_routineLines (c : Convention) (r : Routine) (placed : Placed r.code) :
    labelsOf (routineLines c r) = r.code.filterMap mark? := by
  unfold routineLines
  generalize c.frameSize r.slots r.maxCallArgs = frame
  generalize r.code = code at placed
  induction code with
  | nil => rfl
  | cons i code ih =>
      have remark : labelsOf (if i.remark.isEmpty then [] else [.remark i.remark]) = [] := by
        split <;> rfl
      rw [List.flatMap_cons, labelsOf_append, labelsOf_append, remark,
        labelsOf_expand c frame i (placed i List.mem_cons_self),
        ih fun j mem => placed j (List.mem_cons_of_mem _ mem), List.filterMap_cons]
      cases mark? i <;> rfl

/-- The labels of a text by kinds. -/
theorem labels_eq (platform : Platform) (p : Image) (placed : ∀ r ∈ p.routines, Placed r.code) :
    labels platform p = fixedData.map StringLit.label ++ ["input_val", "input_buf"] ++
      p.strings.map StringLit.label ++ p.globals ++
      p.routines.flatMap fun r => r.name :: r.code.filterMap mark? := by
  have strings (ss : List StringLit) :
      (ss.map Piece.ofString).filterMap Piece.label? = ss.map StringLit.label := by
    induction ss with
    | nil => rfl
    | cons s ss ih => exact congrArg (s.label :: ·) ih
  have words (gs : List String) : (gs.map (Piece.label · ": dq 0\n")).filterMap Piece.label? = gs := by
    induction gs with
    | nil => rfl
    | cons g gs ih => exact congrArg (g :: ·) ih
  have routines (c : Convention) (rs : List Routine) (placed : ∀ r ∈ rs, Placed r.code) :
      (rs.flatMap (routinePieces c)).filterMap Piece.label? =
        rs.flatMap fun r => r.name :: r.code.filterMap mark? := by
    induction rs with
    | nil => rfl
    | cons r rs ih =>
        have own : (routinePieces c r).filterMap Piece.label? = r.name :: r.code.filterMap mark? :=
          congrArg (r.name :: ·) (labelsOf_routineLines c r (placed r List.mem_cons_self))
        rw [List.flatMap_cons, List.filterMap_append, own, ih fun s mem => placed s (List.mem_cons_of_mem _ mem),
          List.flatMap_cons]
  unfold labels pieces
  simp only [List.filterMap_append, List.filterMap_cons, List.filterMap_nil, strings, words,
    routines _ _ placed, Piece.label?, List.append_nil]

end Nasm

/-! ## Places in code -/

namespace Emit

/-- The places that generated code defines. -/
def marks (code : List Instr) : List String := code.filterMap Nasm.mark?

theorem placesNumber_of_mark? {i : Instr} {l : String} (mark : Nasm.mark? i = some l) :
    placesNumber (number l) i := by
  unfold Nasm.mark? at mark
  split at mark
  · obtain rfl := Option.some.inj mark
    simp [placesNumber]
  · cases mark

theorem count_marks_le (code : List Instr) (l : String) :
    (marks code).count l ≤ code.countP (placesNumber (number l)) := by
  induction code with
  | nil => exact le_rfl
  | cons i code ih =>
      rw [marks, List.filterMap_cons, List.countP_cons]
      cases mark : Nasm.mark? i with
      | none => exact ih.trans (Nat.le_add_right _ _)
      | some l' =>
          by_cases same : l' = l
          · subst same
            rw [List.count_cons_self, placesNumber_of_mark? mark]
            exact Nat.succ_le_succ ih
          · rw [List.count_cons_of_ne same]
            exact ih.trans (Nat.le_add_right _ _)

/-- What is generated tidily from an empty routine defines each of its places once, under numbers of its
    own. -/
theorem Gen.Tidy.marks {k : Nat} {g g' : Gen} (tidy : Gen.Tidy k g g') (empty : g.code = #[]) :
    (marks g'.code.toList).Nodup ∧
      ∀ l ∈ Emit.marks g'.code.toList, g.labels ≤ number l ∧ number l < g'.labels := by
  have none_ (n : Nat) : g.uses n = 0 := by simp [uses, empty]
  refine ⟨List.nodup_iff_count_le_one.mpr fun l => ?_, fun l mem => ?_⟩
  · calc (Emit.marks g'.code.toList).count l ≤ g'.uses (number l) := count_marks_le _ _
      _ ≤ g.uses (number l) + 1 := tidy.once _
      _ = 1 := by rw [none_]
  · have used : 1 ≤ g'.uses (number l) :=
      (List.one_le_count_iff.mpr mem).trans (count_marks_le _ _)
    rcases tidy.fresh (number l) with old | own
    · rw [none_] at old
      omega
    · exact own

theorem Source.marks_after (env : Env) (s : Source) (g : Gen) :
    (marks (s.after env g).code.toList).Nodup ∧ ∀ l ∈ marks (s.after env g).code.toList,
      g.labels ≤ number l ∧ number l < (s.after env g).labels :=
  Gen.Tidy.marks (g := g.cleared)
    ((inferInstance : Tidy 0 (routineCode (s.env env) s.names s.body)).tidy g.cleared) rfl

/-- Routines generated one after the other share no place. -/
theorem Made.marks {env : Env} {ss : List Source} {g g' : Gen} {rs : List Routine}
    (made : Made env ss g rs g') : (rs.flatMap fun r => marks r.code).Nodup ∧
      ∀ l ∈ rs.flatMap fun r => Emit.marks r.code, g.labels ≤ number l ∧ number l < g'.labels := by
  induction made with
  | nil => exact ⟨List.nodup_nil, nofun⟩
  | @cons s ss g g' r rs name code rest ih =>
      obtain ⟨own, range⟩ := s.marks_after env g
      obtain ⟨others, later⟩ := ih
      have between := (s.leads_after env g).labels
      have through := rest.leads.labels
      rw [List.flatMap_cons, code]
      refine ⟨List.nodup_append.mpr ⟨own, others, fun l mem l' mem' same => ?_⟩, fun l mem => ?_⟩
      · have := range l mem
        have := later l' mem'
        subst same
        omega
      · rcases List.mem_append.mp mem with mem | mem
        · have := range l mem
          omega
        · have := later l mem
          omega

/-! ## Symbols of routines and words -/

/-- The symbol of a method. -/
def methodKind (c : ClassDecl) (m : Method) : SymbolName.Symbol :=
  if m.isStatic then .staticMethod c.name m.name else .method c.name m.name

/-- The symbols of the routines of a class. -/
def classSymbols (c : ClassDecl) : List SymbolName.Symbol :=
  c.methods.map (methodKind c) ++
    (ctorsByArity c.ctors).map fun k => .ctor c.name k.params.length

/-- Whether a symbol names a routine. -/
def isRoutine : SymbolName.Symbol → Bool
  | .func _ | .method .. | .staticMethod .. | .ctor .. => true
  | .globalVar _ | .staticField .. | .methodTable _ => false

/-- The symbols of all routines but the main routine. -/
def symbols (classes : ClassTable) (items : List Stmt) : List SymbolName.Symbol :=
  (funcsOf items).map (fun f => .func f.name) ++ classes.flatMap classSymbols

theorem symbol_sources (classes : ClassTable) (items : List Stmt) :
    (sources classes items).map Source.symbol = (symbols classes items).map SymbolName.Symbol.text := by
  have funcs : (items.filterMap Source.func?).map Source.symbol =
      ((funcsOf items).map fun f => SymbolName.Symbol.func f.name).map SymbolName.Symbol.text := by
    induction items with
    | nil => rfl
    | cons s items ih =>
        cases s with
        | func f => exact congrArg (SymbolName.func f.name :: ·) ih
        | _ => exact ih
  have method (c : ClassDecl) (m : Method) :
      (Source.method c m).symbol = (methodKind c m).text := by
    unfold Source.method methodKind
    split <;> rfl
  have ofClass (c : ClassDecl) :
      (Source.ofClass c).map Source.symbol = (classSymbols c).map SymbolName.Symbol.text := by
    simp only [Source.ofClass, classSymbols, List.map_append, List.map_map, Function.comp_def, method]
    rfl
  simp only [sources, symbols, List.map_append, funcs, List.map_flatMap, ofClass]

theorem nodup_ctorsByArity (ks : List Ctor) :
    ((ctorsByArity ks).map fun k => k.params.length).Nodup := by
  have kept (done : List Ctor) (nodup : (done.map fun k => k.params.length).Nodup) :
      ((ks.foldl (fun ks k => ks.filter (·.params.length != k.params.length) ++ [k]) done).map
        fun k => k.params.length).Nodup := by
    induction ks generalizing done with
    | nil => exact nodup
    | cons k ks ih =>
        refine ih _ ?_
        rw [List.map_append, List.nodup_append]
        refine ⟨nodup.sublist (List.filter_sublist.map _), List.nodup_singleton _, ?_⟩
        rintro n old n' new rfl
        obtain ⟨k', mem, rfl⟩ := List.mem_map.mp old
        simpa [List.mem_singleton.mp new] using (List.mem_filter.mp mem).2
  exact ((List.mergeSort_perm _ _).map _).nodup_iff.mpr (kept [] List.nodup_nil)

end Emit

/-! ### Kinds of labels -/

/-- What a label stands for. -/
inductive LabelKind where
  | fixed | pooled | variable | func | member | entry | mark
  deriving DecidableEq

/-- The kind of a label, from how it starts. -/
def labelKind (l : String) : LabelKind :=
  match l.toList with
  | 's' :: 't' :: _ => .pooled
  | 'g' :: 'v' :: _ => .variable
  | 'f' :: 'n' :: _ => .func
  | '_' :: _ => .member
  | 'm' :: _ => .entry
  | 'L' :: _ => .mark
  | _ => .fixed

theorem labelKind_text (s : SymbolName.Symbol) : labelKind s.text = match s with
    | .func _ => .func
    | .globalVar _ => .variable
    | _ => .member := by
  cases s <;>
    simp [labelKind, SymbolName.Symbol.text, SymbolName.func, SymbolName.globalVar, SymbolName.method,
      SymbolName.staticMethod, SymbolName.staticField, SymbolName.ctor, SymbolName.methodTable]

theorem labelKind_tag (base : String) (n : Nat) : labelKind (Emit.tag base n) = .mark := by
  simp [labelKind, Emit.tag]

theorem labelKind_poolLabel (n : Nat) : labelKind (Emit.poolLabel n) = .pooled := by
  simp [labelKind, Emit.poolLabel]

theorem labelKind_fixed : ∀ l ∈ Nasm.fixedData.map StringLit.label ++ ["input_val", "input_buf"],
    labelKind l = .fixed := by
  decide +kernel

/-- Groups of labels of different kinds share none. -/
theorem nodup_of_kinds (groups : List (List LabelKind × List String))
    (apart : (groups.map Prod.fst).Pairwise List.Disjoint)
    (each : ∀ g ∈ groups, g.2.Nodup ∧ ∀ l ∈ g.2, labelKind l ∈ g.1) : (groups.flatMap Prod.snd).Nodup := by
  refine List.nodup_flatMap.mpr ⟨fun g mem => (each g mem).1, ?_⟩
  refine (List.pairwise_map.mp apart).imp_of_mem fun {g h} memG memH disjoint l mem mem' => ?_
  exact disjoint ((each g memG).2 l mem) ((each h memH).2 l mem')

/-- The declarations a program is generated from have names of their own. -/
structure Inference.Distinct (t : Inference) : Prop where
  funcs : ((funcsOf t.program.items).map FuncDecl.name).Nodup
  funcNames : ∀ f ∈ funcsOf t.program.items, Identifier f.name
  classes : (t.classes.map ClassDecl.name).Nodup
  classNames : ∀ c ∈ t.classes, Identifier c.name
  methods : ∀ c ∈ t.classes, (c.methods.map Method.name).Nodup
  methodNames : ∀ c ∈ t.classes, ∀ m ∈ c.methods, Identifier m.name
  fieldNames : ∀ c ∈ t.classes, ∀ f ∈ c.fields, Identifier f.name

namespace Inference.Distinct

open Emit SymbolName

variable {t : Inference} (distinct : t.Distinct)

include distinct

theorem named_symbols : ∀ s ∈ symbols t.classes t.program.items, s.Named := by
  intro s mem
  rcases List.mem_append.mp mem with mem | mem
  · obtain ⟨f, inside, rfl⟩ := List.mem_map.mp mem
    exact distinct.funcNames f inside
  · obtain ⟨c, known, inside⟩ := List.mem_flatMap.mp mem
    have cls := distinct.classNames c known
    rcases List.mem_append.mp inside with inside | inside
    · obtain ⟨m, own, rfl⟩ := List.mem_map.mp inside
      have name := distinct.methodNames c known m own
      unfold methodKind
      split <;> exact ⟨cls, name⟩
    · obtain ⟨k, own, rfl⟩ := List.mem_map.mp inside
      exact cls

omit distinct in
/-- A symbol of a class tells the class. -/
theorem class_of_mem {c : ClassDecl} {s : Symbol} (mem : s ∈ classSymbols c) :
    ∃ rest, s.member? = some (c.name, rest) := by
  rcases List.mem_append.mp mem with inside | inside
  · obtain ⟨m, own, rfl⟩ := List.mem_map.mp inside
    unfold methodKind
    split <;> exact ⟨_, rfl⟩
  · obtain ⟨k, own, rfl⟩ := List.mem_map.mp inside
    exact ⟨_, rfl⟩

theorem nodup_classSymbols {c : ClassDecl} (known : c ∈ t.classes) : (classSymbols c).Nodup := by
  have methods : (c.methods.map (methodKind c)).Nodup := by
    refine List.Nodup.map_on ?_ (distinct.methods c known).of_map
    intro m mem m' mem' same
    have names : m.name = m'.name := by
      unfold methodKind at same
      split at same <;> split at same <;> simp_all
    exact List.inj_on_of_nodup_map (distinct.methods c known) mem mem' names
  have ctors : ((ctorsByArity c.ctors).map fun k => Symbol.ctor c.name k.params.length).Nodup := by
    have arities := nodup_ctorsByArity c.ctors
    refine List.Nodup.map_on ?_ arities.of_map
    intro k mem k' mem' same
    have lengths : k.params.length = k'.params.length := by simpa using same
    exact List.inj_on_of_nodup_map arities mem mem' lengths
  refine List.nodup_append.mpr ⟨methods, ctors, ?_⟩
  rintro s mem s' mem' rfl
  obtain ⟨m, -, rfl⟩ := List.mem_map.mp mem
  obtain ⟨k, -, same⟩ := List.mem_map.mp mem'
  unfold methodKind at same
  split at same <;> cases same

/-- No two routines of a program have the same symbol. -/
theorem nodup_symbols : (symbols t.classes t.program.items).Nodup := by
  have funcs : ((funcsOf t.program.items).map fun f => Symbol.func f.name).Nodup := by
    have := distinct.funcs.map (f := Symbol.func) fun a b same => by simpa using same
    rwa [List.map_map] at this
  have members : (t.classes.flatMap classSymbols).Nodup := by
    refine List.nodup_flatMap.mpr ⟨fun c known => distinct.nodup_classSymbols known, ?_⟩
    have names : t.classes.Pairwise fun c d => c.name ≠ d.name := List.pairwise_map.mp distinct.classes
    refine names.imp fun {c d} other => ?_
    intro s mem mem'
    obtain ⟨rest, own⟩ := class_of_mem mem
    obtain ⟨rest', own'⟩ := class_of_mem mem'
    rw [own] at own'
    exact other (by simpa using congrArg (Option.map Prod.fst) own')
  refine List.nodup_append.mpr ⟨funcs, members, ?_⟩
  rintro s mem s' mem' rfl
  obtain ⟨f, -, rfl⟩ := List.mem_map.mp mem
  obtain ⟨c, -, inside⟩ := List.mem_flatMap.mp mem'
  obtain ⟨rest, own⟩ := class_of_mem inside
  cases own

theorem nodup_names : ((symbols t.classes t.program.items).map Symbol.text).Nodup :=
  List.Nodup.map_on (fun _ mem _ mem' same =>
    Symbol.text_inj (distinct.named_symbols _ mem) (distinct.named_symbols _ mem') same)
    distinct.nodup_symbols

omit distinct in
theorem isRoutine_of_mem {s : Symbol} (mem : s ∈ symbols t.classes t.program.items) : isRoutine s := by
  rcases List.mem_append.mp mem with mem | mem
  · obtain ⟨f, -, rfl⟩ := List.mem_map.mp mem
    rfl
  · obtain ⟨c, -, inside⟩ := List.mem_flatMap.mp mem
    rcases List.mem_append.mp inside with inside | inside
    · obtain ⟨m, -, rfl⟩ := List.mem_map.mp inside
      unfold methodKind
      split <;> rfl
    · obtain ⟨k, -, rfl⟩ := List.mem_map.mp inside
      rfl

/-- A word of the data section is a global variable's, or has the symbol of a static field or a method
    table. -/
theorem of_mem_globalWords {hints : Hints} {word : String}
    (mem : word ∈ globalWords hints t.classes t.program.items) :
    labelKind word = .variable ∨
      labelKind word = .member ∧ ∃ s : Symbol, word = s.text ∧ s.Named ∧ isRoutine s = false := by
  rcases (mem_foldl_addNew.mp mem).resolve_left List.not_mem_nil |> List.mem_append.mp with mem | mem
  · obtain ⟨name, -, rfl⟩ := List.mem_map.mp mem
    exact .inl (labelKind_text (.globalVar name))
  · obtain ⟨c, known, inside⟩ := List.mem_flatMap.mp mem
    have cls := distinct.classNames c known
    rcases List.mem_cons.mp inside with rfl | inside
    · exact .inr ⟨labelKind_text (.methodTable c.name), .methodTable c.name, rfl, cls, rfl⟩
    · obtain ⟨f, own, rfl⟩ := List.mem_map.mp inside
      have name := distinct.fieldNames c known f (List.mem_filter.mp own).1
      exact .inr ⟨labelKind_text (.staticField c.name f.name), .staticField c.name f.name, rfl, ⟨cls, name⟩, rfl⟩

omit distinct in
theorem labelKind_name {name : String} (mem : name ∈ (symbols t.classes t.program.items).map Symbol.text) :
    labelKind name = .func ∨ labelKind name = .member := by
  obtain ⟨s, inside, rfl⟩ := List.mem_map.mp mem
  have routine := isRoutine_of_mem inside
  rw [labelKind_text]
  cases s <;> simp_all [isRoutine]

/-- No word of the data section is called like a routine. -/
theorem word_ne_name {hints : Hints} {word name : String}
    (isWord : word ∈ globalWords hints t.classes t.program.items)
    (isName : name ∈ (symbols t.classes t.program.items).map Symbol.text) : word ≠ name := by
  rintro rfl
  obtain kind | ⟨-, s, written, named, data⟩ := distinct.of_mem_globalWords isWord
  · have other := labelKind_name isName
    rw [kind] at other
    simp at other
  · obtain ⟨s', mem, same⟩ := List.mem_map.mp isName
    obtain rfl := Symbol.text_inj (distinct.named_symbols s' mem) named (same.trans written)
    rw [isRoutine_of_mem mem] at data
    cases data

end Inference.Distinct

/-! ## Labels of generated programs -/

namespace Inference

open Emit SymbolName

variable (t : Inference) (hints : Hints) (seed : Int64)

/-- The places in the routines of a program are distinct. -/
theorem nodup_marks : ((t.generate hints seed).1.routines.flatMap fun r => marks r.code).Nodup := by
  obtain ⟨rs, main, image, made, -, code⟩ := t.generate_eq hints seed
  obtain ⟨others, before⟩ := made.marks
  have tidy := (inferInstance : Tidy 0 (mainCode (t.env hints) seed t.topLevel)).tidy
    (t.startOfMain hints).cleared
  obtain ⟨own, behind⟩ := Gen.Tidy.marks (g := (t.startOfMain hints).cleared) tidy rfl
  rw [image, List.flatMap_append, List.nodup_append]
  simp only [List.flatMap_cons, List.flatMap_nil, List.append_nil, code]
  refine ⟨others, own, fun l mem l' mem' same => ?_⟩
  have first := (before l mem).2
  have second : (t.startOfMain hints).labels ≤ number l' := (behind l' mem').1
  subst same
  omega

theorem names_generate : (t.generate hints seed).1.routines.map Routine.name =
    (symbols t.classes t.program.items).map Symbol.text ++ [SymbolName.mainRoutine] := by
  obtain ⟨rs, main, image, made, name, -⟩ := t.generate_eq hints seed
  rw [image, List.map_append, made.names, symbol_sources]
  simp [name]

/-- Labels in code are placed by name, and these names were made by the generator. -/
theorem placed_generate {r : Routine} (mem : r ∈ (t.generate hints seed).1.routines) :
    Nasm.Placed r.code ∧ ∀ l ∈ marks r.code, ∃ base n, l = tag base n := by
  obtain ⟨body, code, takes⟩ := t.takes_generate hints seed r mem
  have placed (i : Instr) (inside : i ∈ r.code) (isLabel : i.op = .label) :
      ∃ base n, i.args = [.label (tag base n)] := by
    rw [code, List.cons_append, List.mem_cons, List.mem_append, List.mem_singleton] at inside
    rcases inside with rfl | inside | rfl
    · cases isLabel
    · obtain ⟨base, -, n, args⟩ := (takes i inside).mark isLabel
      exact ⟨base, n, args⟩
    · cases isLabel
  refine ⟨fun i inside isLabel => ?_, fun l inside => ?_⟩
  · obtain ⟨base, n, args⟩ := placed i inside isLabel
    exact ⟨_, args⟩
  · obtain ⟨⟨op, args, remark⟩, inside, mark⟩ := List.mem_filterMap.mp inside
    have isLabel : op = .label := by
      by_contra other
      rw [Nasm.mark?_of_ne other] at mark
      cases mark
    subst isLabel
    obtain ⟨base, n, rfl⟩ := placed _ inside rfl
    exact ⟨base, n, (Option.some.inj mark).symm⟩

theorem perm_flatMap_cons {α : Type} (name : α → String) (f : α → List String) (xs : List α) :
    (xs.flatMap fun x => name x :: f x).Perm (xs.map name ++ xs.flatMap f) := by
  induction xs with
  | nil => exact .nil
  | cons x xs ih =>
      rw [List.flatMap_cons, List.flatMap_cons, List.map_cons]
      exact .cons (name x) ((ih.append_left (f x)).trans (List.perm_append_comm_assoc _ _ _))

theorem nodup_fixed : (Nasm.fixedData.map StringLit.label ++ ["input_val", "input_buf"]).Nodup := by
  simp [Nasm.fixedData]

theorem labels_poolStrings (pool : List String) :
    (poolStrings pool).map StringLit.label = (List.range pool.length).map poolLabel := by
  apply List.ext_getElem <;> simp [poolStrings]

theorem nodup_poolLabels (n : Nat) : ((List.range n).map poolLabel).Nodup :=
  List.nodup_range.map fun _ _ same => toString_nat_inj ((String.append_right_inj _).mp same)

theorem nodup_globalWords (classes : ClassTable) (items : List Stmt) :
    (globalWords hints classes items).Nodup := nodup_foldl_addNew List.nodup_nil _

/-- The labels of a generated program, by kinds. -/
theorem labels_perm (platform : Platform) : ∃ poolSize,
    (Nasm.labels platform (t.generate hints seed).1).Perm
      (Nasm.fixedData.map StringLit.label ++ ["input_val", "input_buf"] ++
        ((List.range poolSize).map poolLabel ++
          ((sorted (globalWords hints t.classes t.program.items) ++
            (symbols t.classes t.program.items).map Symbol.text) ++
          ([SymbolName.mainRoutine] ++
            (t.generate hints seed).1.routines.flatMap fun r => marks r.code)))) := by
  have routines := perm_flatMap_cons Routine.name (fun r => marks r.code)
    (t.generate hints seed).1.routines
  rw [t.names_generate hints seed] at routines
  have split := Nasm.labels_eq platform (t.generate hints seed).1 fun r mem =>
    (t.placed_generate hints seed mem).1
  obtain ⟨rs, main, image, -, -, -⟩ := t.generate_eq hints seed
  have strings : (t.generate hints seed).1.strings.map StringLit.label =
      (List.range (t.finish hints seed).pool.length).map poolLabel := by
    rw [image]
    exact labels_poolStrings _
  have words : (t.generate hints seed).1.globals = sorted (globalWords hints t.classes t.program.items) := by
    rw [image]
  rw [strings, words] at split
  refine ⟨(t.finish hints seed).pool.length, ?_⟩
  simp only [split, List.append_assoc] at routines ⊢
  exact ((((routines.append_left _).append_left _).append_left _).append_left _)

/-- The text of a program whose declarations have names of their own defines no label twice. -/
theorem nodup_labels (distinct : t.Distinct) (platform : Platform) :
    (Nasm.labels platform (t.generate hints seed).1).Nodup := by
  obtain ⟨poolSize, perm⟩ := t.labels_perm hints seed platform
  rw [perm.nodup_iff]
  have words (w : String) (mem : w ∈ sorted (globalWords hints t.classes t.program.items)) :
      w ∈ globalWords hints t.classes t.program.items := List.mem_mergeSort.mp mem
  have kinds := nodup_of_kinds
    [([.fixed], Nasm.fixedData.map StringLit.label ++ ["input_val", "input_buf"]),
      ([.pooled], (List.range poolSize).map poolLabel),
      ([.variable, .func, .member], sorted (globalWords hints t.classes t.program.items) ++
        (symbols t.classes t.program.items).map Symbol.text),
      ([.entry], [SymbolName.mainRoutine]),
      ([.mark], (t.generate hints seed).1.routines.flatMap fun r => marks r.code)] (by simp)
  simp only [List.flatMap_cons, List.flatMap_nil, List.append_nil] at kinds
  apply kinds
  simp only [List.forall_mem_cons]
  refine ⟨⟨nodup_fixed, fun l mem => List.mem_singleton.mpr (labelKind_fixed l mem)⟩, ⟨nodup_poolLabels _, ?_⟩, ⟨?_, ?_⟩,
    ⟨List.nodup_singleton _, ?_⟩, ⟨t.nodup_marks hints seed, ?_⟩, nofun⟩
  · intro l mem
    obtain ⟨n, -, rfl⟩ := List.mem_map.mp mem
    exact List.mem_singleton.mpr (labelKind_poolLabel n)
  · refine List.nodup_append.mpr ⟨?_, distinct.nodup_names, fun w mem n mem' => ?_⟩
    · exact (List.mergeSort_perm _ _).nodup_iff.mpr (nodup_globalWords hints _ _)
    · exact distinct.word_ne_name (words w mem) mem'
  · intro l mem
    rcases List.mem_append.mp mem with mem | mem
    · rcases distinct.of_mem_globalWords (words l mem) with kind | ⟨kind, -⟩ <;> simp [kind]
    · rcases Distinct.labelKind_name mem with kind | kind <;> simp [kind]
  · simp [labelKind, SymbolName.mainRoutine]
  · intro l mem
    obtain ⟨r, inside, mem⟩ := List.mem_flatMap.mp mem
    obtain ⟨base, n, rfl⟩ := (t.placed_generate hints seed inside).2 l mem
    exact List.mem_singleton.mpr (labelKind_tag base n)

end Inference

/-! ## Accepted programs -/

theorem funcsOf_eraseStmts (items : List Stmt) :
    funcsOf (eraseStmts items) = (funcsOf items).map FuncDecl.erase := by
  induction items with
  | nil => rfl
  | cons s items ih =>
      cases s with
      | func f =>
          rw [eraseStmts, Stmt.erase_func]
          exact congrArg (f.erase :: ·) ih
      | class_ c => rw [eraseStmts, Stmt.erase_class]; exact ih
      | ifElse => rw [eraseStmts, Stmt.erase_ifElse]; exact ih
      | for_ => rw [eraseStmts, Stmt.erase_for]; exact ih
      | try_ => rw [eraseStmts, Stmt.erase_try]; exact ih
      | _ => exact ih

theorem names_eraseFuncs (fs : List FuncDecl) :
    (fs.map FuncDecl.erase).map FuncDecl.name = fs.map FuncDecl.name := by
  rw [List.map_map]
  rfl

/-- Checking and inference keep the functions of a program. -/
theorem Program.names_funcs {p p' : Program} (hints : Hints) (kept : eraseStmts p'.items = eraseStmts p.items) :
    (funcsOf (p'.infer hints).program.items).map FuncDecl.name = (funcsOf p.items).map FuncDecl.name := by
  rw [← names_eraseFuncs, ← funcsOf_eraseStmts, Program.erase_infer, kept, funcsOf_eraseStmts,
    names_eraseFuncs]

theorem identifier_of_mem_funcsOf {items : List Stmt} (proper : properAll items) {f : FuncDecl}
    (mem : f ∈ funcsOf items) : Identifier f.name := by
  obtain ⟨s, inside, eq⟩ := List.mem_filterMap.mp mem
  have own := properAll_iff.mp proper s inside
  cases s with
  | func g => cases eq; cases f; exact own.1
  | _ => cases eq

/-- Classes that differ only in what is recorded in expressions have the same names. -/
theorem ClassDecl.names_of_erase {c d : ClassDecl} (same : d.erase = c.erase) :
    d.name = c.name ∧ d.methods.map Method.name = c.methods.map Method.name ∧
      d.fields.map Field.name = c.fields.map Field.name := by
  have methods (e : ClassDecl) : e.erase.methods.map Method.name = e.methods.map Method.name :=
    List.map_map
  have fields (e : ClassDecl) : e.erase.fields.map Field.name = e.fields.map Field.name := List.map_map
  refine ⟨(congrArg ClassDecl.name same : d.erase.name = c.erase.name), ?_, ?_⟩
  · rw [← methods d, same, methods]
  · rw [← fields d, same, fields]

/-- A program that passes the checks is generated from declarations with names of their own. -/
theorem Program.distinct_of_accept? {file : Nat} {source : String} {p p' : Program} {hints : Hints}
    (accepted : Program.accept? file source = some (p, p', hints)) : (p'.infer hints).Distinct := by
  obtain ⟨proper, checked⟩ := Program.of_accept? accepted
  obtain ⟨ds, distinct, funcs, classes, -, sound⟩ := (p.gives_declared proper).of_outcome checked
  have kept := p.erase_check.of_outcome checked
  have names : ((classesOf p.items).map ClassDecl.name).Nodup := classes ▸ distinct.classes
  have erased := Program.erase_classes hints names kept
  rw [ClassTable.ofItems_eq names] at erased
  have erasedFuncs := Program.names_funcs hints kept
  have origin (c : ClassDecl) (mem : c ∈ (p'.infer hints).classes) :
      ∃ d ∈ classesOf p.items, d.erase = c.erase := List.mem_map.mp (erased ▸ List.mem_map_of_mem mem)
  refine ⟨erasedFuncs ▸ funcs ▸ distinct.funcs, fun f mem => ?_, ?_, fun c mem => ?_, fun c mem => ?_,
    fun c mem m inside => ?_, fun c mem f inside => ?_⟩
  · obtain ⟨g, inside, same⟩ := List.mem_map.mp (erasedFuncs ▸ List.mem_map_of_mem mem)
    exact same ▸ identifier_of_mem_funcsOf proper inside
  · have called := congrArg (List.map ClassDecl.name) erased
    simp only [List.map_map] at called
    exact (called : (p'.infer hints).classes.map ClassDecl.name = _) ▸ names
  all_goals
    obtain ⟨d, declared, same⟩ := origin c mem
    obtain ⟨name, methods, fields⟩ := ClassDecl.names_of_erase same
    have own := Stmt.proper_class.mp (properAll_iff.mp proper _ (mem_classesOf.mp declared))
  · exact name ▸ own.1
  · exact methods ▸ distinct.methods d (classes ▸ declared)
  · obtain ⟨m', inside', same'⟩ := List.mem_map.mp (methods ▸ List.mem_map_of_mem inside)
    exact same' ▸ (properMethods_iff.mp own.2.2.1 m' inside').1
  · obtain ⟨f', inside', same'⟩ := List.mem_map.mp (fields ▸ List.mem_map_of_mem inside)
    exact same' ▸ (own.2.1 f' inside').1

/-- The text of a checked program defines no label twice, and symbols that name different things are
    written differently. -/
theorem Program.labels_distinct {file : Nat} {source : String} {p p' : Program} {hints : Hints}
    (accepted : Program.accept? file source = some (p, p', hints)) (seed : Int64) (platform : Platform) :
    let image := (p'.generate hints seed).1
    Nasm.render platform image = String.join ((Nasm.pieces platform image).map Nasm.Piece.text) ∧
    (Nasm.labels platform image).Nodup ∧
    ∀ a b : SymbolName.Symbol, a.Named → b.Named → a.text = b.text → a = b :=
  ⟨Nasm.render_eq platform _,
    (p'.infer hints).nodup_labels hints seed (Program.distinct_of_accept? accepted) platform,
    fun _ _ => SymbolName.Symbol.text_inj⟩

/-- A function and a method of one name, and a last block that is written out three times, with its loop. -/
def replayed : String :=
  "var n = 3; class A \x7b static var k = 1; constructor() \x7b\x7d func f() \x7b\x7d \x7d " ++
    "func f() \x7b try \x7b return; \x7d finally \x7b while (n < 2) \x7b n = 1; \x7d \x7d \x7d"

theorem Program.labels_distinct_replayed : ∃ p p' hints,
    Program.accept? 0 replayed = some (p, p', hints) ∧
    (Nasm.labels .sysv (p'.generate hints 0).1).Nodup := by
  have accepted : (Program.accept? 0 replayed).isSome := by
    rewrite [show Program.accept? 0 replayed = _ from Program.accept?_append 0 _ _]
    decide +kernel
  obtain ⟨⟨p, p', hints⟩, accepted⟩ := Option.isSome_iff_exists.mp accepted
  exact ⟨p, p', hints, accepted, (Program.labels_distinct accepted 0 .sysv).2.1⟩

end Lantern
