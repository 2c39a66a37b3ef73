import Mathlib
import Lantern.Proofs.Paths

/-!
# What changes in a file tree

In a sound tree every node is in a directory. Writing, removing and making directories keep a tree
sound, and each changes the node at one place only.
-/

namespace Lantern.FileTree

variable {t t' : FileTree} {k l : Location} {n : FileNode} {path : String}

/-! ## Single nodes -/

theorem node?_fixed (t : FileTree) (fixed : isFixed l) : t.node? l = some .dir := if_pos fixed

theorem find?_others (nodes : List (Location × FileNode)) (k l : Location) :
    (nodes.filter (·.1 != l)).find? (·.1 == k) = if k = l then none else nodes.find? (·.1 == k) := by
  rw [List.find?_filter]
  split
  · next eq => simp [eq]
  · next ne =>
      congr 1
      funext entry
      by_cases eq : entry.1 = k
      · simp [eq, ne]
      · simp [eq]

theorem node?_put_self (t : FileTree) (n : FileNode) (free : ¬ isFixed l) :
    (t.put l n).node? l = some n := by
  rw [put, if_neg free, node?, if_neg free, List.find?_append, find?_others, if_pos rfl]
  simp

theorem node?_put_ne (t : FileTree) (n : FileNode) (ne : k ≠ l) : (t.put l n).node? k = t.node? k := by
  unfold put node?
  split
  · rfl
  · split
    · rfl
    · rw [List.find?_append, find?_others, if_neg ne]
      simp [ne.symm]

theorem node?_drop_self (t : FileTree) (free : ¬ isFixed l) : (t.drop l).node? l = none := by
  simp [drop, node?, free]

theorem node?_drop_ne (t : FileTree) (ne : k ≠ l) : (t.drop l).node? k = t.node? k := by
  rw [node?, node?, drop, find?_others, if_neg ne]

theorem exists_mem_of_node? (free : ¬ isFixed l) (found : t.node? l = some n) : (l, n) ∈ t.nodes := by
  rw [node?, if_neg free, Option.map_eq_some_iff] at found
  obtain ⟨⟨k, m⟩, found, rfl⟩ := found
  have key := List.find?_some found
  obtain rfl : k = l := by simpa using key
  exact List.mem_of_find?_eq_some found

theorem exists_node?_of_mem (mem : (l, n) ∈ t.nodes) : ∃ m, t.node? l = some m := by
  by_cases fixed : isFixed l
  · exact ⟨.dir, node?_fixed t fixed⟩
  · rw [node?, if_neg fixed]
    cases found : t.nodes.find? (·.1 == l) with
    | none =>
        have := List.find?_eq_none.mp found (l, n) mem
        simp at this
    | some entry => exact ⟨entry.2, rfl⟩

theorem isFixed_dropLast (fixed : isFixed l) : isFixed l.dropLast := by
  simp only [isFixed, Bool.or_eq_true, List.all_eq_true, beq_iff_eq] at fixed ⊢
  rcases fixed with above | rfl
  · exact .inl fun name mem => above name (List.mem_of_mem_dropLast mem)
  · exact .inl nofun

theorem ne_nil_of_not_fixed (free : ¬ isFixed l) : l ≠ [] := by
  rintro rfl
  exact free rfl

theorem dropLast_ne (free : ¬ isFixed l) : l.dropLast ≠ l := by
  intro eq
  have length := congrArg List.length eq
  have := List.length_pos_of_ne_nil (ne_nil_of_not_fixed free)
  rw [List.length_dropLast] at length
  omega

/-! ## Sound trees -/

/-- Every node is in a directory. -/
def Sound (t : FileTree) : Prop := ∀ l n, t.node? l = some n → t.node? l.dropLast = some .dir

theorem sound_empty : Sound empty := by
  intro l n found
  by_cases fixed : isFixed l
  · exact node?_fixed _ (isFixed_dropLast fixed)
  · exact absurd (exists_mem_of_node? fixed found) nofun

theorem Sound.above (sound : Sound t) {below : Location} (some_ : below ≠ [])
    (found : t.node? (l ++ below) = some n) : t.node? l = some .dir := by
  induction below using List.reverseRecOn generalizing n with
  | nil => exact absurd rfl some_
  | append_singleton below name ih =>
      have parent := sound _ _ found
      rw [← List.append_assoc, List.dropLast_concat] at parent
      by_cases last : below = []
      · rwa [last, List.append_nil] at parent
      · exact ih last parent

theorem Sound.isOccupied (sound : Sound t) (occupied : t.isOccupied l) : t.node? l = some .dir := by
  obtain ⟨⟨k, m⟩, mem, inside⟩ := List.any_eq_true.mp occupied
  obtain ⟨_, found⟩ := exists_node?_of_mem mem
  obtain rfl : k.dropLast = l := by simpa using inside
  exact sound k _ found

theorem Sound.put (sound : Sound t) (free : ¬ isFixed l) (parent : t.node? l.dropLast = some .dir)
    (kept : t.node? l = some .dir → n = .dir) : Sound (t.put l n) := by
  intro k m found
  by_cases own : k = l
  · rw [own, node?_put_ne _ _ (dropLast_ne free)]
    exact parent
  · rw [node?_put_ne _ _ own] at found
    have above := sound k m found
    by_cases inside : k.dropLast = l
    · rw [inside] at above ⊢
      rw [node?_put_self _ _ free, kept above]
    · rwa [node?_put_ne _ _ inside]

theorem Sound.drop (sound : Sound t) (empty : ¬ t.isOccupied l) : Sound (t.drop l) := by
  intro k m found
  by_cases fixed : isFixed k
  · exact node?_fixed _ (isFixed_dropLast fixed)
  · have other : k ≠ l := by
      rintro rfl
      rw [node?_drop_self _ fixed] at found
      cases found
    rw [node?_drop_ne _ other] at found
    have outside : k.dropLast ≠ l := by
      intro inside
      refine empty (List.any_eq_true.mpr ⟨(k, m), exists_mem_of_node? fixed found, ?_⟩)
      simpa using inside
    rw [node?_drop_ne _ outside]
    exact sound k m found

/-! ## Places that are reached -/

theorem follow_place {here : Location} {names : List String} (found : t.follow here names = .ok l) :
    l = names.foldl step here := by
  induction names generalizing here with
  | nil => exact (Except.ok.inj found).symm
  | cons name names ih =>
      rw [follow] at found
      split at found
      · cases found
      · exact ih found
      · cases found

/-- A path that leads through directories does so as long as they are there. -/
theorem follow_mono (dirs : ∀ k, t.node? k = some .dir → t'.node? k = some .dir) {here : Location}
    {names : List String} (found : t.follow here names = .ok l) : t'.follow here names = .ok l := by
  induction names generalizing here with
  | nil => exact found
  | cons name names ih =>
      rw [follow] at found ⊢
      split at found
      · cases found
      · next isDir =>
          rw [dirs _ isDir]
          exact ih found
      · cases found

theorem locate_place (found : t.locate path = .ok l) : l = place path := by
  unfold locate at found
  split at found
  · cases found
  · exact follow_place found

theorem locate_mono (dirs : ∀ k, t.node? k = some .dir → t'.node? k = some .dir)
    (found : t.locate path = .ok l) : t'.locate path = .ok l := by
  unfold locate at found ⊢
  split at found
  · cases found
  · next some_ =>
      rw [if_neg some_]
      exact follow_mono dirs found

theorem Sound.step (sound : Sound t) {here : Location} (isDir : t.node? here = some .dir)
    (name : String) : t.node? (step here name).dropLast = some .dir := by
  have above := sound here .dir isDir
  unfold FileTree.step
  split
  · exact above
  · split
    · split
      · rwa [List.dropLast_concat]
      · split
        · exact above
        · exact sound _ _ above
    · rwa [List.dropLast_concat]

theorem Sound.follow (sound : Sound t) {here : Location} {names : List String}
    (inside : t.node? here.dropLast = some .dir) (found : t.follow here names = .ok l) :
    t.node? l.dropLast = some .dir := by
  induction names generalizing here with
  | nil =>
      obtain rfl := Except.ok.inj found
      exact inside
  | cons name names ih =>
      rw [FileTree.follow] at found
      split at found
      · cases found
      · next isDir => exact ih (sound.step isDir name) found
      · cases found

theorem Sound.locate (sound : Sound t) (found : t.locate path = .ok l) :
    t.node? l.dropLast = some .dir := by
  unfold FileTree.locate at found
  split at found
  · cases found
  · refine sound.follow ?_ found
    split
    · exact node?_fixed t rfl
    · exact node?_fixed t rfl

theorem follow_descends (sound : Sound t) {here : Location} {names : List String}
    (descends : Descends here names) (found : t.node? (here ++ names) = some n) :
    t.follow here names = .ok (here ++ names) := by
  induction names generalizing here with
  | nil => simp [follow]
  | cons name names ih =>
      rw [follow, sound.above (by simp) found]
      dsimp only
      rw [List.append_cons] at found ⊢
      rw [descends.1]
      exact ih descends.2 found

/-- Whatever is at the place of a path that leads down can be reached. -/
theorem Sound.locate_straight (sound : Sound t) {rooted : Bool} {names : List String}
    (straight : Path.Straight path rooted names) (found : t.node? (place path) = some n) :
    t.locate path = .ok (place path) := by
  have reached : t.follow (origin rooted) names = .ok (origin rooted ++ names) :=
    follow_descends sound straight.descends (straight.place ▸ found)
  have notEmpty : ¬ path.isEmpty := by
    -- The empty path has the empty text as its only part, which leads nowhere.
    intro empty
    obtain rfl := String.isEmpty_iff.mp empty
    obtain rfl : false = rooted := straight.starts
    obtain rfl : [""] = names := straight.parts
    exact absurd straight.descends.1 nofun
  rw [FileTree.locate, if_neg notEmpty, straight.starts, straight.parts, straight.place]
  cases rooted with
  | true => exact reached
  | false => exact reached

/-! ## Files -/

/-- A file is at a place. -/
def FileAt (t : FileTree) (l : Location) : Prop := ∃ n, n ≠ .dir ∧ t.node? l = some n

/-- A path leads to a file. -/
def HasFile (t : FileTree) (path : String) : Prop := ∃ n, n ≠ .dir ∧ t.stat path = .ok n

theorem stat_eq_ok : t.stat path = .ok n ↔
    t.locate path = .ok (place path) ∧ t.node? (place path) = some n := by
  unfold stat
  constructor
  · intro found
    split at found
    · cases found
    · next l located =>
        obtain rfl := locate_place located
        split at found
        · next m isNode => exact ⟨located, (Except.ok.inj found) ▸ isNode⟩
        · cases found
  · rintro ⟨located, isNode⟩
    simp only [located, isNode]

theorem HasFile.fileAt (file : t.HasFile path) : t.FileAt (place path) := by
  obtain ⟨n, isFile, found⟩ := file
  exact ⟨n, isFile, (stat_eq_ok.mp found).2⟩

theorem Sound.hasFile (sound : Sound t) {rooted : Bool} {names : List String}
    (straight : Path.Straight path rooted names) (file : t.FileAt (place path)) : t.HasFile path := by
  obtain ⟨n, isFile, found⟩ := file
  exact ⟨n, isFile, stat_eq_ok.mpr ⟨sound.locate_straight straight found, found⟩⟩

/-! ## Writing -/

theorem putFile_cases (written : t.putFile path n = .ok t') :
    t.locate path = .ok (place path) ∧ ¬ isFixed (place path) ∧
      t.node? (place path) ≠ some .dir ∧ t' = t.put (place path) n := by
  unfold putFile at written
  split at written
  · cases written
  · next l located =>
      obtain rfl := locate_place located
      split at written
      · cases written
      · next notDir =>
          have other : t.node? (place path) ≠ some .dir := by simpa using notDir
          exact ⟨located, fun fixed => other (node?_fixed t fixed), other, (Except.ok.inj written).symm⟩

theorem node?_putFile_ne (written : t.putFile path n = .ok t') (ne : k ≠ place path) :
    t'.node? k = t.node? k := by
  obtain ⟨-, -, -, rfl⟩ := putFile_cases written
  exact node?_put_ne t n ne

theorem dir_putFile (written : t.putFile path n = .ok t') (isDir : t.node? k = some .dir) :
    t'.node? k = some .dir := by
  have ne : k ≠ place path := by
    rintro rfl
    exact (putFile_cases written).2.2.1 isDir
  rwa [node?_putFile_ne written ne]

theorem stat_putFile (written : t.putFile path n = .ok t') : t'.stat path = .ok n := by
  refine stat_eq_ok.mpr ⟨locate_mono (fun k => dir_putFile written) (putFile_cases written).1, ?_⟩
  obtain ⟨-, free, -, rfl⟩ := putFile_cases written
  exact node?_put_self t n free

/-- Writing a file leaves what is elsewhere. -/
theorem stat_putFile_ne {other : String} (written : t.putFile other n = .ok t')
    (ne : place path ≠ place other) {m : FileNode} (found : t.stat path = .ok m) :
    t'.stat path = .ok m := by
  obtain ⟨located, isNode⟩ := stat_eq_ok.mp found
  refine stat_eq_ok.mpr ⟨locate_mono (fun k => dir_putFile written) located, ?_⟩
  rwa [node?_putFile_ne written ne]

theorem Sound.putFile (sound : Sound t) (written : t.putFile path n = .ok t') : Sound t' := by
  obtain ⟨located, free, notDir, rfl⟩ := putFile_cases written
  exact sound.put free (sound.locate located) fun isDir => absurd isDir notDir

theorem FileAt.putFile (file : t.FileAt k) (isFile : n ≠ .dir) (written : t.putFile path n = .ok t') :
    t'.FileAt k := by
  by_cases own : k = place path
  · obtain ⟨-, free, -, rfl⟩ := putFile_cases written
    rw [own]
    exact ⟨n, isFile, node?_put_self t n free⟩
  · rwa [FileAt, node?_putFile_ne written own]

theorem fileAt_putFile_ne (written : t.putFile path n = .ok t') (ne : k ≠ place path) :
    t'.FileAt k ↔ t.FileAt k := by
  rw [FileAt, FileAt, node?_putFile_ne written ne]

theorem Sound.exists_putFile (sound : Sound t) {rooted : Bool} {names : List String}
    (straight : Path.Straight path rooted names) (file : t.FileAt (place path)) (n : FileNode) :
    ∃ t', t.putFile path n = .ok t' := by
  obtain ⟨m, isFile, found⟩ := file
  refine ⟨t.put (place path) n, ?_⟩
  simp [FileTree.putFile, sound.locate_straight straight found, found, isFile]

/-! ## Removing -/

theorem remove_cases (t : FileTree) (path : String) :
    (t.remove path = t ∧ (t.locate path = .ok (place path) → t.isOccupied (place path))) ∨
      (¬ t.isOccupied (place path) ∧ t.remove path = t.drop (place path)) := by
  unfold remove
  split
  · next failed => exact .inl ⟨rfl, fun located => by rw [failed] at located; cases located⟩
  · next l located =>
      obtain rfl := locate_place located
      split
      · next occupied => exact .inl ⟨rfl, fun _ => occupied⟩
      · next empty => exact .inr ⟨empty, rfl⟩

theorem Sound.remove (sound : Sound t) (path : String) : Sound (t.remove path) := by
  rcases remove_cases t path with ⟨same, -⟩ | ⟨empty, dropped⟩
  · rwa [same]
  · rw [dropped]
    exact sound.drop empty

theorem node?_remove_ne (t : FileTree) (ne : k ≠ place path) : (t.remove path).node? k = t.node? k := by
  rcases remove_cases t path with ⟨same, -⟩ | ⟨-, dropped⟩
  · rw [same]
  · rw [dropped, node?_drop_ne _ ne]

theorem fileAt_remove_ne (t : FileTree) (ne : k ≠ place path) :
    (t.remove path).FileAt k ↔ t.FileAt k := by
  rw [FileAt, FileAt, node?_remove_ne t ne]

theorem node?_of_remove (found : (t.remove path).node? k = some n) : t.node? k = some n := by
  by_cases own : k = place path
  · rcases remove_cases t path with ⟨same, -⟩ | ⟨-, dropped⟩
    · rwa [same] at found
    · rw [dropped] at found
      by_cases fixed : isFixed k
      · rwa [node?_fixed _ fixed] at found ⊢
      · rw [own] at found fixed
        rw [node?_drop_self _ fixed] at found
        cases found
  · rwa [node?_remove_ne t own] at found

theorem dir_of_remove (k : Location) (isDir : (t.remove path).node? k = some .dir) :
    t.node? k = some .dir :=
  node?_of_remove isDir

/-- What is removed is no file afterwards. -/
theorem Sound.not_fileAt_remove (sound : Sound t) (located : t.locate path = .ok (place path)) :
    ¬ (t.remove path).FileAt (place path) := by
  rintro ⟨n, isFile, isNode⟩
  have notFixed : ¬ isFixed (place path) := by
    intro fixed
    rw [node?_fixed _ fixed] at isNode
    exact isFile (Option.some.inj isNode).symm
  rcases remove_cases t path with ⟨same, occupied⟩ | ⟨-, dropped⟩
  · rw [same, sound.isOccupied (occupied located)] at isNode
    exact isFile (Option.some.inj isNode).symm
  · rw [dropped, node?_drop_self _ notFixed] at isNode
    cases isNode

theorem Sound.not_hasFile_remove (sound : Sound t) (path : String) : ¬ (t.remove path).HasFile path := by
  intro file
  obtain ⟨n, isFile, found⟩ := file
  obtain ⟨located, isNode⟩ := stat_eq_ok.mp found
  exact sound.not_fileAt_remove (locate_mono dir_of_remove located) ⟨n, isFile, isNode⟩

/-- Removing a file leaves what is elsewhere. -/
theorem stat_remove {other : String} (file : t.FileAt (place other)) (ne : place path ≠ place other)
    (found : t.stat path = .ok n) : (t.remove other).stat path = .ok n := by
  obtain ⟨located, isNode⟩ := stat_eq_ok.mp found
  refine stat_eq_ok.mpr ⟨locate_mono (fun k isDir => ?_) located, ?_⟩
  · have elsewhere : k ≠ place other := by
      rintro rfl
      obtain ⟨m, isFile, own⟩ := file
      exact isFile (Option.some.inj (own.symm.trans isDir))
    rwa [node?_remove_ne t elsewhere]
  · rwa [node?_remove_ne t ne]

/-! ## Making directories -/

/-- Nothing is gone, and only directories are new. -/
structure Grows (t t' : FileTree) : Prop where
  kept : ∀ l n, t.node? l = some n → t'.node? l = some n
  made : ∀ l n, t'.node? l = some n → n = .dir ∨ t.node? l = some n

theorem Grows.refl (t : FileTree) : Grows t t := ⟨fun _ _ => id, fun _ _ => .inr⟩

theorem Grows.trans {t'' : FileTree} (first : Grows t t') (second : Grows t' t'') : Grows t t'' :=
  ⟨fun l n found => second.kept l n (first.kept l n found),
    fun l n found => (second.made l n found).elim .inl (first.made l n)⟩

theorem Grows.stat (grows : Grows t t') (found : t.stat path = .ok n) : t'.stat path = .ok n := by
  obtain ⟨located, isNode⟩ := stat_eq_ok.mp found
  exact stat_eq_ok.mpr ⟨locate_mono (fun k => grows.kept k .dir) located, grows.kept _ _ isNode⟩

theorem Grows.fileAt (grows : Grows t t') : t'.FileAt l ↔ t.FileAt l := by
  constructor
  · rintro ⟨n, isFile, found⟩
    exact ⟨n, isFile, (grows.made l n found).resolve_left isFile⟩
  · rintro ⟨n, isFile, found⟩
    exact ⟨n, isFile, grows.kept l n found⟩

theorem Sound.makeDir (sound : Sound t) (made : t.makeDir path = .ok t') : Sound t' ∧ Grows t t' := by
  unfold FileTree.makeDir at made
  split at made
  · cases made
  · next l located =>
      split at made
      · cases made
      · next absent =>
          obtain rfl := Except.ok.inj made
          have none_ : t.node? l = none := by simpa using absent
          have free : ¬ isFixed l := by
            intro fixed
            rw [node?_fixed t fixed] at none_
            cases none_
          refine ⟨sound.put free (sound.locate located) fun _ => rfl, fun k n found => ?_, fun k n found => ?_⟩
          · rw [node?_put_ne]
            · exact found
            · rintro rfl
              rw [none_] at found
              cases found
          · by_cases own : k = l
            · rw [own, node?_put_self _ _ free] at found
              exact .inl (Option.some.inj found).symm
            · rw [node?_put_ne _ _ own] at found
              exact .inr found

theorem Sound.makeDirsFrom (depth : Nat) (sound : Sound t) (path : String) :
    Sound (makeDirsFrom depth t path).1 ∧ Grows t (makeDirsFrom depth t path).1 := by
  induction depth generalizing path with
  | zero => exact ⟨sound, .refl t⟩
  | succ depth ih =>
      rw [FileTree.makeDirsFrom]
      split
      · exact ⟨sound, .refl t⟩
      · exact ⟨sound, .refl t⟩
      · have parents : Sound (if (parentText path).isEmpty then (t, none)
            else FileTree.makeDirsFrom depth t (parentText path)).1 ∧
            Grows t (if (parentText path).isEmpty then (t, none)
              else FileTree.makeDirsFrom depth t (parentText path)).1 := by
          split
          · exact ⟨sound, .refl t⟩
          · exact ih _
        dsimp only
        split
        · next eq => rwa [eq] at parents
        · next eq =>
            rw [eq] at parents
            split
            · next made =>
                obtain ⟨sound', grows⟩ := parents.1.makeDir made
                exact ⟨sound', parents.2.trans grows⟩
            · split
              · exact parents
              · exact parents

theorem Sound.makeDirs (sound : Sound t) (path : String) :
    Sound (t.makeDirs path).1 ∧ Grows t (t.makeDirs path).1 :=
  sound.makeDirsFrom _ path

end Lantern.FileTree
