import Lantern.Proofs.Requests

/-!
# Flags that were given

A flag set remembers the flags that a command line gave a value to, and nothing takes that away again: after
several command lines a flag counts as given if any of them gave it a value, even if a fault stopped that line
further on. Whether a line does depends on the kinds of the flags and not on what was read before.
-/

namespace Lantern

theorem Flag.Value.accepts_of_give {v v' : Value} {s : String} (gives : v.give s = .ok v') :
    v.kind.accepts s = true := by
  cases v with
  | text | items => rfl
  | switch | number =>
      simp only [give] at gives
      split at gives
      · next reads => simp [kind, Kind.accepts, reads, Except.isOk, Except.toBool]
      · cases gives

theorem Flag.Value.isSwitch_iff {v : Value} : v.isSwitch = true ↔ v.kind = .switch := by
  rw [isSwitch_eq, decide_eq_true_eq]

namespace FlagSet

variable {fs fs' : FlagSet} {arg name : String} {args rest : List String} {flag : Flag} {v : Flag.Value}

/-- The arguments start with a flag and a value that it takes; the others stand behind. -/
inductive Gives (fs : FlagSet) : List String → Flag → Flag.Value → List String → Prop
  /-- The value stands in the same argument. -/
  | attached {arg value : String} {rest : List String} {flag : Flag} {v : Flag.Value}
      (reads : fs.Reads arg flag (some value)) (gives : flag.value.give value = .ok v) :
      Gives fs (arg :: rest) flag v rest
  /-- A switch stands for itself. -/
  | switched {arg : String} {rest : List String} {flag : Flag} {v : Flag.Value} (reads : fs.Reads arg flag none)
      (switch : flag.value.kind = .switch) (gives : flag.value.give "true" = .ok v) :
      Gives fs (arg :: rest) flag v rest
  /-- The value stands in the next argument. -/
  | followed {arg value : String} {rest : List String} {flag : Flag} {v : Flag.Value} (reads : fs.Reads arg flag none)
      (noSwitch : flag.value.kind ≠ .switch) (gives : flag.value.give value = .ok v) :
      Gives fs (arg :: value :: rest) flag v rest

/-- A command line gives the flag of a name a value, whether a fault stops it further on or not. -/
inductive Sets (fs : FlagSet) : List String → String → Prop
  /-- At once. -/
  | here {args rest : List String} {flag : Flag} {v : Flag.Value} (gives : fs.Gives args flag v rest) :
      Sets fs args flag.name
  /-- Behind a flag with its value. -/
  | behind {args rest : List String} {flag : Flag} {v : Flag.Value} {name : String}
      (gives : fs.Gives args flag v rest) (later : Sets fs rest name) : Sets fs args name
  /-- Behind a positional argument. -/
  | past {arg : String} {rest : List String} {name : String} (notEnd : (arg == "--") = false)
      (positional : isPositional arg = true) (later : Sets fs rest name) : Sets fs (arg :: rest) name

/-- The flag set after command lines are read one after the other, whatever comes of each. -/
def parses (fs : FlagSet) (lines : List (List String)) : FlagSet :=
  lines.foldl (fun fs args => (fs.parse args).1) fs

/-! ## One command line -/

theorem Reads.of_mention {value : Option String} (notEnd : ¬(arg == "--") = true) (notPositional : ¬isPositional arg = true)
    (mention : fs.mention arg = .ok ⟨flag, value⟩) : fs.Reads arg flag value :=
  ⟨eq_false_of_ne_true notEnd, eq_false_of_ne_true notPositional, mention⟩

theorem Reads.unique {flag' : Flag} {value value' : Option String} (reads : fs.Reads arg flag value)
    (reads' : fs.Reads arg flag' value') : flag' = flag ∧ value' = value := by
  have same := Except.ok.inj (reads'.mention.symm.trans reads.mention)
  exact ⟨congrArg Mention.flag same, congrArg Mention.attached same⟩

theorem Reads.gives_attached {flag' : Flag} {value : String} (reads : fs.Reads arg flag (some value))
    (gives : fs.Gives (arg :: args) flag' v rest) : flag' = flag ∧ flag.value.give value = .ok v ∧ rest = args := by
  cases gives with
  | attached reads' given =>
      obtain ⟨rfl, same⟩ := reads.unique reads'
      cases same
      exact ⟨rfl, given, rfl⟩
  | switched reads' | followed reads' => cases (reads.unique reads').2

theorem Reads.gives_switched {flag' : Flag} (reads : fs.Reads arg flag none) (switch : flag.value.kind = .switch)
    (gives : fs.Gives (arg :: args) flag' v rest) : flag' = flag ∧ flag.value.give "true" = .ok v ∧ rest = args := by
  cases gives with
  | attached reads' => cases (reads.unique reads').2
  | switched reads' _ given =>
      obtain ⟨rfl, -⟩ := reads.unique reads'
      exact ⟨rfl, given, rfl⟩
  | followed reads' noSwitch =>
      obtain ⟨rfl, -⟩ := reads.unique reads'
      exact absurd switch noSwitch

theorem Reads.gives_followed {flag' : Flag} (reads : fs.Reads arg flag none) (noSwitch : flag.value.kind ≠ .switch)
    (gives : fs.Gives (arg :: args) flag' v rest) :
    ∃ value, flag' = flag ∧ flag.value.give value = .ok v ∧ args = value :: rest := by
  cases gives with
  | attached reads' => cases (reads.unique reads').2
  | switched reads' switch =>
      obtain ⟨rfl, -⟩ := reads.unique reads'
      exact absurd switch noSwitch
  | followed reads' _ given =>
      obtain ⟨rfl, -⟩ := reads.unique reads'
      exact ⟨_, rfl, given, rfl⟩

theorem Gives.unique {flag' : Flag} {v' : Flag.Value} {rest' : List String} (gives : fs.Gives args flag v rest)
    (gives' : fs.Gives args flag' v' rest') : flag' = flag ∧ v' = v ∧ rest' = rest := by
  cases gives with
  | attached reads given =>
      obtain ⟨rfl, given', rfl⟩ := reads.gives_attached gives'
      exact ⟨rfl, Except.ok.inj (given'.symm.trans given), rfl⟩
  | switched reads switch given =>
      obtain ⟨rfl, given', rfl⟩ := reads.gives_switched switch gives'
      exact ⟨rfl, Except.ok.inj (given'.symm.trans given), rfl⟩
  | followed reads noSwitch given =>
      obtain ⟨value, rfl, given', same⟩ := reads.gives_followed noSwitch gives'
      obtain ⟨rfl, rfl⟩ := List.cons.inj same
      exact ⟨rfl, Except.ok.inj (given'.symm.trans given), rfl⟩

/-- An argument at the start that is not positional and ends nothing is read as a flag. -/
theorem Gives.not_isPositional (gives : fs.Gives (arg :: args) flag v rest) :
    (arg == "--") = false ∧ isPositional arg = false := by
  cases gives with
  | attached reads | switched reads | followed reads => exact ⟨reads.notEnd, reads.notPositional⟩

theorem Gives.sets_iff (gives : fs.Gives args flag v rest) :
    fs.Sets args name ↔ name = flag.name ∨ fs.Sets rest name := by
  constructor
  · intro sets
    cases sets with
    | here gives' => exact .inl (congrArg Flag.name (gives.unique gives').1)
    | behind gives' later =>
        obtain ⟨-, -, rfl⟩ := gives.unique gives'
        exact .inr later
    | past notEnd positional => exact absurd (positional.symm.trans gives.not_isPositional.2) nofun
  · rintro (rfl | later)
    · exact .here gives
    · exact .behind gives later

/-- Positional arguments give no flag a value. -/
theorem sets_past (notEnd : (arg == "--") = false) (positional : isPositional arg = true) :
    fs.Sets (arg :: rest) name ↔ fs.Sets rest name := by
  constructor
  · intro sets
    cases sets with
    | here gives | behind gives => exact absurd (positional.symm.trans gives.not_isPositional.2) nofun
    | past _ _ later => exact later
  · exact .past notEnd positional

theorem not_sets_nil : ¬fs.Sets [] name := by
  intro sets
  cases sets with
  | here gives | behind gives => cases gives

/-- Arguments that start with neither of them give no flag a value. -/
theorem not_sets (stops : (arg == "--") = true ∨ isPositional arg = false)
    (nothing : ∀ flag v rest', ¬fs.Gives (arg :: rest) flag v rest') : ¬fs.Sets (arg :: rest) name := by
  intro sets
  cases sets with
  | here gives | behind gives => exact nothing _ _ _ gives
  | past notEnd positional =>
      rw [notEnd, positional] at stops
      rcases stops with stops | stops <;> cases stops

/-! ## Flags of one vocabulary

What a command line gives values to depends on the kinds of the flags and not on what they hold.
-/

theorem find?_alike (same : fs'.vocabulary = fs.vocabulary) (found : fs.find? name = some flag) :
    ∃ flag', fs'.find? name = some flag' ∧ flag'.name = flag.name ∧ flag'.value.kind = flag.value.kind := by
  have kind : fs'.vocabulary.kind? name = some flag.value.kind := same ▸ kind?_eq_some.mpr ⟨flag, found, rfl⟩
  obtain ⟨flag', found', kind⟩ := kind?_eq_some.mp kind
  exact ⟨flag', found', (name_of_find? found').trans (name_of_find? found).symm, kind⟩

theorem findShort?_eq_some {short : String} : fs.findShort? short = some flag ↔
    ∃ name, fs.vocabulary.longName? short = some name ∧ fs.find? name = some flag := by
  constructor
  · intro found
    cases stands : fs.vocabulary.longName? short with
    | some name => exact ⟨name, rfl, findShort?_eq stands ▸ found⟩
    | none => simp [findShort?, Option.map_eq_none_iff.mp stands] at found
  · rintro ⟨name, stands, found⟩
    rw [findShort?_eq stands, found]

theorem findShort?_alike {short : String} (same : fs'.vocabulary = fs.vocabulary)
    (found : fs.findShort? short = some flag) :
    ∃ flag', fs'.findShort? short = some flag' ∧ flag'.name = flag.name ∧ flag'.value.kind = flag.value.kind := by
  obtain ⟨name, stands, found⟩ := findShort?_eq_some.mp found
  obtain ⟨flag', found', alike⟩ := find?_alike same found
  exact ⟨flag', findShort?_eq_some.mpr ⟨name, same ▸ stands, found'⟩, alike⟩

theorem mentionShort?_alike {body : String} {attached value : Option String} (same : fs'.vocabulary = fs.vocabulary)
    (reads : fs.mentionShort? arg body attached = .ok ⟨flag, value⟩) :
    ∃ flag', fs'.mentionShort? arg body attached = .ok ⟨flag', value⟩ ∧ flag'.name = flag.name ∧
      flag'.value.kind = flag.value.kind := by
  cases chars : body.toList with
  | nil => simp [mentionShort?, chars] at reads
  | cons c behind =>
      cases found : fs.findShort? (String.singleton c) with
      | none => simp [mentionShort?, chars, found] at reads
      | some short =>
          obtain ⟨flag', found', alike⟩ := findShort?_alike same found
          simp only [mentionShort?, chars, found, found', Flag.Value.isSwitch_eq, alike.2] at reads ⊢
          split at reads
          · next alone =>
              cases reads
              exact ⟨flag', if_pos alone, alike⟩
          · next more =>
              split at reads
              · cases reads
              · next takes =>
                  cases reads
                  exact ⟨flag', by rw [if_neg more, if_neg takes], alike⟩

/-- An argument that calls a flag calls the one of the same name and kind in every set of the vocabulary. -/
theorem mention_alike {value : Option String} (same : fs'.vocabulary = fs.vocabulary)
    (reads : fs.mention arg = .ok ⟨flag, value⟩) :
    ∃ flag', fs'.mention arg = .ok ⟨flag', value⟩ ∧ flag'.name = flag.name ∧ flag'.value.kind = flag.value.kind := by
  simp only [mention] at reads ⊢
  generalize String.ofList (arg.toList.drop (if Text.startsWith "--" arg then 2 else 1)) = body at reads ⊢
  -- a long name comes before a shorthand, and which of them there are is a matter of the vocabulary
  split at reads
  · next found =>
      cases reads
      obtain ⟨flag', found', alike⟩ := find?_alike same found
      exact ⟨flag', by simp only [found'], alike⟩
  · next absent =>
      have absent' := kind?_eq_none.mp (same ▸ kind?_eq_none.mpr absent)
      simp only [absent']
      split at reads
      · cases reads
      · next known =>
          obtain ⟨flag', reads', alike⟩ := mentionShort?_alike same reads
          exact ⟨flag', by rw [if_neg known, reads'], alike⟩

theorem find?_of_mention {value : Option String} (reads : fs.mention arg = .ok ⟨flag, value⟩) :
    fs.find? flag.name = some flag := by
  simp only [mention] at reads
  generalize String.ofList (arg.toList.drop (if Text.startsWith "--" arg then 2 else 1)) = body at reads
  split at reads
  · next found =>
      cases reads
      rwa [name_of_find? found]
  · split at reads
    · cases reads
    · simp only [mentionShort?] at reads
      split at reads
      · cases reads
      · split at reads
        · cases reads
        · next found =>
            obtain ⟨name, -, found⟩ := findShort?_eq_some.mp found
            split at reads
            · cases reads
              rwa [name_of_find? found]
            · split at reads
              · cases reads
              · cases reads
                rwa [name_of_find? found]

theorem Reads.alike {value : Option String} (same : fs'.vocabulary = fs.vocabulary) (reads : fs.Reads arg flag value) :
    ∃ flag', fs'.Reads arg flag' value ∧ flag'.name = flag.name ∧ flag'.value.kind = flag.value.kind := by
  obtain ⟨flag', reads', alike⟩ := mention_alike same reads.mention
  exact ⟨flag', ⟨reads.notEnd, reads.notPositional, reads'⟩, alike⟩

theorem give_alike {flag' : Flag} {value : String} (kind : flag'.value.kind = flag.value.kind)
    (given : flag.value.give value = .ok v) : ∃ v', flag'.value.give value = .ok v' :=
  Flag.Value.give_of_accepts (kind ▸ Flag.Value.accepts_of_give given)

theorem Gives.alike (same : fs'.vocabulary = fs.vocabulary) (gives : fs.Gives args flag v rest) :
    ∃ flag' v', fs'.Gives args flag' v' rest ∧ flag'.name = flag.name := by
  cases gives with
  | attached reads given =>
      obtain ⟨flag', reads', name, kind⟩ := reads.alike same
      obtain ⟨v', given'⟩ := give_alike kind given
      exact ⟨flag', v', .attached reads' given', name⟩
  | switched reads switch given =>
      obtain ⟨flag', reads', name, kind⟩ := reads.alike same
      obtain ⟨v', given'⟩ := give_alike kind given
      exact ⟨flag', v', .switched reads' (kind.trans switch) given', name⟩
  | followed reads noSwitch given =>
      obtain ⟨flag', reads', name, kind⟩ := reads.alike same
      obtain ⟨v', given'⟩ := give_alike kind given
      exact ⟨flag', v', .followed reads' (kind ▸ noSwitch) given', name⟩

theorem Gives.vocabulary_hold (gives : fs.Gives args flag v rest) : (fs.hold flag.name v).vocabulary = fs.vocabulary := by
  cases gives with
  | attached reads given | switched reads _ given | followed reads _ given =>
      exact FlagSet.vocabulary_hold (find?_of_mention reads.mention) (Flag.Value.kind_of_give given)

theorem Sets.alike (same : fs'.vocabulary = fs.vocabulary) (sets : fs.Sets args name) : fs'.Sets args name := by
  induction sets with
  | here gives =>
      obtain ⟨flag', v', gives', named⟩ := gives.alike same
      exact named ▸ .here gives'
  | behind gives _ ih =>
      -- in the other set the flag may take another value from it, but what stands behind is the same
      obtain ⟨flag', v', gives', -⟩ := gives.alike same
      exact .behind gives' ih
  | past notEnd positional _ ih => exact .past notEnd positional ih

theorem sets_congr (same : fs'.vocabulary = fs.vocabulary) : fs'.Sets args name ↔ fs.Sets args name :=
  ⟨.alike same.symm, .alike same⟩

/-! ## What is remembered -/

theorem isChanged_hold (fs : FlagSet) (given name : String) (v : Flag.Value) :
    (fs.hold given v).isChanged name = true ↔ name = given ∨ fs.isChanged name = true := by
  simp only [isChanged, hold, List.contains_iff_mem]
  split
  · next known =>
      refine ⟨.inr, ?_⟩
      rintro (rfl | known)
      · exact known
      · exact known
  · rw [List.mem_append, List.mem_singleton, or_comm]

theorem give_eq_ok {fs₁ : FlagSet} {value : String} (given : fs.give arg flag value = .ok fs₁) :
    ∃ v, flag.value.give value = .ok v ∧ fs₁ = fs.hold flag.name v := by
  simp only [give] at given
  split at given
  · next v gives =>
      cases given
      exact ⟨v, gives, rfl⟩
  · cases given

theorem give_ne_ok {fault : FlagFault} {value : String} (refused : fs.give arg flag value = .error fault) (v : Flag.Value) :
    flag.value.give value ≠ .ok v := by
  intro gives
  simp only [give, gives] at refused
  cases refused

/-- Reading goes from one flag with its value, or one positional argument, to the next, until what is left gives no
    flag a value. -/
theorem readArgs_induction {motive : FlagSet → List String → FlagSet → Prop}
    (stops : ∀ {fs args} (more : Option (List String)), (∀ name, ¬fs.Sets args name) → motive fs args (fs.ended more))
    (past : ∀ {fs arg rest fs'}, (arg == "--") = false → isPositional arg = true →
      motive (fs.addArgs [arg]) rest fs' → motive fs (arg :: rest) fs')
    (gives : ∀ {fs args flag v rest fs'}, fs.Gives args flag v rest →
      motive (fs.hold flag.name v) rest fs' → motive fs args fs')
    (fs : FlagSet) (args : List String) : motive fs args (fs.readArgs args).1 := by
  fun_induction readArgs fs args with
  | case1 fs => exact stops none fun name => not_sets_nil
  | case2 fs arg rest ends =>
      refine stops (some rest) fun name => not_sets (.inl ends) fun flag v rest' gives => ?_
      exact absurd (ends.symm.trans gives.not_isPositional.1) nofun
  | case3 fs arg rest notEnd positional ih => exact past (eq_false_of_ne_true notEnd) positional ih
  | case4 fs arg rest notEnd notPositional fault unread =>
      refine stops none fun name => not_sets (.inr (eq_false_of_ne_true notPositional)) fun flag v rest' gives => ?_
      cases gives with
      | attached reads | switched reads | followed reads => cases unread.symm.trans reads.mention
  | case5 fs arg rest notEnd notPositional flag value mention fs₁ given ih =>
      obtain ⟨v, takes, rfl⟩ := give_eq_ok given
      exact gives (.attached (.of_mention notEnd notPositional mention) takes) ih
  | case6 fs arg rest notEnd notPositional flag value mention fault refused =>
      have reads := Reads.of_mention notEnd notPositional mention
      refine stops none fun name => not_sets (.inr reads.notPositional) fun flag' v rest' gives => ?_
      exact give_ne_ok refused v (reads.gives_attached gives).2.1
  | case7 fs arg rest notEnd notPositional flag mention switch fs₁ given ih =>
      obtain ⟨v, takes, rfl⟩ := give_eq_ok given
      exact gives (.switched (.of_mention notEnd notPositional mention) (Flag.Value.isSwitch_iff.mp switch) takes) ih
  | case8 fs arg rest notEnd notPositional flag mention switch fault refused =>
      have reads := Reads.of_mention notEnd notPositional mention
      refine stops none fun name => not_sets (.inr reads.notPositional) fun flag' v rest' gives => ?_
      exact give_ne_ok refused v (reads.gives_switched (Flag.Value.isSwitch_iff.mp switch) gives).2.1
  | case9 fs arg notEnd notPositional flag mention noSwitch =>
      have reads := Reads.of_mention notEnd notPositional mention
      refine stops none fun name => not_sets (.inr reads.notPositional) fun flag' v rest' gives => ?_
      obtain ⟨value, -, -, missing⟩ := reads.gives_followed (mt Flag.Value.isSwitch_iff.mpr noSwitch) gives
      cases missing
  | case10 fs arg notEnd notPositional flag mention noSwitch value rest fs₁ given ih =>
      obtain ⟨v, takes, rfl⟩ := give_eq_ok given
      exact gives (.followed (.of_mention notEnd notPositional mention) (mt Flag.Value.isSwitch_iff.mpr noSwitch) takes) ih
  | case11 fs arg notEnd notPositional flag mention noSwitch value rest fault refused =>
      have reads := Reads.of_mention notEnd notPositional mention
      refine stops none fun name => not_sets (.inr reads.notPositional) fun flag' v rest' gives => ?_
      obtain ⟨value', -, given, same⟩ := reads.gives_followed (mt Flag.Value.isSwitch_iff.mpr noSwitch) gives
      obtain ⟨rfl, -⟩ := List.cons.inj same
      exact give_ne_ok refused v given

theorem isChanged_ended (fs : FlagSet) (more : Option (List String)) (name : String) :
    (fs.ended more).isChanged name = fs.isChanged name := by
  cases more <;> rfl

/-- Reading adds the flags that the arguments give a value to those given before, also up to a fault. -/
theorem isChanged_readArgs (fs : FlagSet) (args : List String) (name : String) :
    (fs.readArgs args).1.isChanged name = true ↔ fs.Sets args name ∨ fs.isChanged name = true := by
  refine readArgs_induction (motive := fun fs args fs' =>
    fs'.isChanged name = true ↔ fs.Sets args name ∨ fs.isChanged name = true) ?stops ?past ?gives fs args
  case stops =>
    intro fs args more nothing
    rw [isChanged_ended, or_iff_right (nothing name)]
  case past =>
    intro fs arg rest fs' notEnd positional ih
    rw [ih, sets_past notEnd positional]
    exact or_congr (sets_congr rfl) Iff.rfl
  case gives =>
    intro fs args flag v rest fs' gives ih
    rw [ih, isChanged_hold, gives.sets_iff, sets_congr gives.vocabulary_hold, or_left_comm, or_assoc]

/-- A flag that the arguments give no value keeps the one it has. -/
theorem find?_readArgs (fs : FlagSet) (args : List String) {name : String} (untouched : ¬fs.Sets args name) :
    (fs.readArgs args).1.find? name = fs.find? name := by
  refine readArgs_induction (motive := fun fs args fs' =>
    ¬fs.Sets args name → fs'.find? name = fs.find? name) ?stops ?past ?gives fs args untouched
  case stops =>
    intro fs args more _ _
    rw [find?_ended]
  case past =>
    intro fs arg rest fs' notEnd positional ih untouched
    have same : (fs.addArgs [arg]).vocabulary = fs.vocabulary := rfl
    rw [sets_past notEnd positional, ← sets_congr same] at untouched
    exact ih untouched
  case gives =>
    intro fs args flag v rest fs' gives ih untouched
    rw [gives.sets_iff, not_or] at untouched
    rw [ih (mt (sets_congr gives.vocabulary_hold).mp untouched.2), find?_hold, if_neg untouched.1]

/-- No flag gets another kind by reading. -/
theorem vocabulary_readArgs (fs : FlagSet) (args : List String) :
    (fs.readArgs args).1.vocabulary = fs.vocabulary := by
  refine readArgs_induction (motive := fun fs _ fs' => fs'.vocabulary = fs.vocabulary) ?stops ?past ?gives fs args
  case stops =>
    intro fs args more _
    cases more <;> rfl
  case past => exact fun _ _ ih => ih
  case gives => exact fun gives ih => ih.trans gives.vocabulary_hold

/-! ## One command line after the other -/

theorem vocabulary_parse (fs : FlagSet) (args : List String) : (fs.parse args).1.vocabulary = fs.vocabulary :=
  vocabulary_readArgs _ args

theorem isChanged_parse (fs : FlagSet) (args : List String) (name : String) :
    (fs.parse args).1.isChanged name = true ↔ fs.Sets args name ∨ fs.isChanged name = true := by
  rw [parse, isChanged_readArgs]
  exact or_congr (sets_congr rfl) Iff.rfl

theorem find?_parse (fs : FlagSet) (args : List String) {name : String} (untouched : ¬fs.Sets args name) :
    (fs.parse args).1.find? name = fs.find? name := by
  have same : FlagSet.vocabulary { fs with args := [], cells := fs.cells.restart } = fs.vocabulary := rfl
  exact find?_readArgs _ args (mt (sets_congr same).mp untouched)

theorem vocabulary_parses (fs : FlagSet) (lines : List (List String)) : (fs.parses lines).vocabulary = fs.vocabulary := by
  induction lines generalizing fs with
  | nil => rfl
  | cons args lines ih => exact (ih _).trans (vocabulary_parse fs args)

theorem parses_append (fs : FlagSet) (earlier : List (List String)) (last : List String) :
    fs.parses (earlier ++ [last]) = ((fs.parses earlier).parse last).1 := by
  simp only [parses, List.foldl_append, List.foldl_cons, List.foldl_nil]

theorem isChanged_parses (fs : FlagSet) (lines : List (List String)) (name : String) :
    (fs.parses lines).isChanged name = true ↔ (∃ args ∈ lines, fs.Sets args name) ∨ fs.isChanged name = true := by
  induction lines generalizing fs with
  | nil => simp [parses]
  | cons args lines ih =>
      have behind := ih (fs.parse args).1
      simp only [sets_congr (vocabulary_parse fs args), isChanged_parse] at behind
      simp only [parses, List.foldl_cons, List.mem_cons, exists_eq_or_imp] at behind ⊢
      rw [behind, or_assoc, or_left_comm]

/-- After any command lines, whatever came of each, a flag counts as given exactly if the last line gave it a value, or
    if one before it did, or if it counted as given before all of them. If the last line gave it none, it holds what it
    held before that line. -/
theorem isChanged_sticks (fs : FlagSet) (earlier : List (List String)) (last : List String) (name : String) :
    ((fs.parses (earlier ++ [last])).isChanged name = true ↔
      fs.Sets last name ∨ (∃ args ∈ earlier, fs.Sets args name) ∨ fs.isChanged name = true) ∧
    (¬fs.Sets last name → (fs.parses (earlier ++ [last])).find? name = (fs.parses earlier).find? name) := by
  -- which flags a line sets is judged in the first flag set: the lines before it change no kind
  have same := vocabulary_parses fs earlier
  rw [parses_append]
  constructor
  · rw [isChanged_parse, isChanged_parses, sets_congr same]
  · exact fun untouched => find?_parse _ last (mt (sets_congr same).mp untouched)

/-- A switch that the first of two lines gives counts as given after the second, which has no flag. Both are read
    without a fault. -/
theorem isChanged_stale :
    ∃ fs : FlagSet, fs.isChanged "v" = false ∧ (fs.parse ["--v"]).2 = none ∧ ((fs.parse ["--v"]).1.parse []).2 = none ∧
      (fs.parses [["--v"], []]).isChanged "v" = true ∧ ¬fs.Sets [] "v" := by
  refine ⟨(empty.register (.switch false) "v" "" "Verbose" "").1, rfl, ?_, rfl, ?_, not_sets_nil⟩
  · decide +kernel
  · decide +kernel

end FlagSet

end Lantern
