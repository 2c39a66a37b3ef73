import Lantern.Proofs.Printing
import Lantern.Proofs.Spelling

/-!
# What numerals denote

A numeral denotes a natural number of any size: hexadecimal behind `0x`, octal behind `0`, decimal
otherwise. Its token is a word. It is the number modulo 2^64 as long as the number fits into 64 bits,
and it is remarked on when it is not the number itself; the text of the token is read back as the same
word. What starts with a digit and is no such numeral is refused, unless it is so long that the number
leaves the range before the first wrong digit is met.
-/

namespace Lantern

namespace Text

/-! ## Digits -/

/-- No decimal digit of any script is a letter. -/
theorem isLetter_of_isDecimal {c : Char} (decimal : isDecimal c) : isLetter c = false := by
  unfold isDecimal at decimal
  unfold isLetter
  split at decimal
  · next small =>
      rw [if_pos small]
      obtain ⟨low, high⟩ := toNat_of_isDigit decimal
      rw [← Char.ofNat_toNat c]
      interval_cases c.toNat <;> decide
  · next large =>
      rw [if_neg large]
      have apart : (decimalRanges.all fun d => letterRanges.all fun l => d.2.blt l.1 || l.2.blt d.1) = true := by
        decide +kernel
      by_contra isLetter
      rw [Bool.not_eq_false] at isLetter
      obtain ⟨⟨low, high⟩, mem, inside⟩ := List.any_eq_true.mp decimal
      obtain ⟨⟨low', high'⟩, mem', inside'⟩ := List.any_eq_true.mp isLetter
      have between := List.all_eq_true.mp (List.all_eq_true.mp apart _ mem) _ mem'
      simp only [Bool.or_eq_true, Nat.blt_eq] at between
      simp only [Bool.and_eq_true, decide_eq_true_eq] at inside inside'
      omega

/-- The value of a digit, letters counting from ten. -/
def digit (c : Char) : Nat :=
  if c.isDigit then c.toNat - 48 else if c.toNat < 97 then c.toNat - 55 else c.toNat - 87

/-- The number that digits denote in a base. -/
def positional (base : Nat) (ds : List Char) : Nat := Nat.ofDigits base (ds.map digit).reverse

theorem positional_cons (base : Nat) (d : Char) (ds : List Char) :
    positional base (d :: ds) = digit d * base ^ ds.length + positional base ds := by
  simp [positional, Nat.ofDigits_append, Nat.mul_comm, Nat.add_comm]

namespace Numeral

/-- A character is a digit of a base. -/
def IsDigitOf (base : Nat) (c : Char) : Prop := digitValue? c = some (digit c) ∧ digit c < base

/-- A character is no digit of a base. -/
def NoDigitOf (base : Nat) (c : Char) : Prop := c ≠ '_' ∧ ∀ d, digitValue? c = some d → base ≤ d

theorem isDigitOf_of_isDigit {c : Char} (isDigit : c.isDigit) : IsDigitOf 10 c := by
  obtain ⟨value, small⟩ := digitValue?_of_isDigit isDigit
  have own : digit c = c.toNat - '0'.toNat := by rw [digit, if_pos isDigit]; rfl
  rw [← own] at value small
  exact ⟨value, small⟩

theorem isDigit_of_octal {c : Char} (octal : '0' ≤ c ∧ c ≤ '7') : c.isDigit :=
  Char.isDigit_iff_toNat.mpr ⟨octal.1, le_trans (b := 55) octal.2 (by decide)⟩

theorem isDigitOf_of_octal {c : Char} (octal : '0' ≤ c ∧ c ≤ '7') : IsDigitOf 8 c := by
  have low : 48 ≤ c.toNat := octal.1
  have high : c.toNat ≤ 55 := octal.2
  rw [← Char.ofNat_toNat c]
  unfold IsDigitOf
  interval_cases c.toNat <;> decide

theorem isDigitOf_of_isHexDigit {c : Char} (hex : Token.isHexDigit c) : IsDigitOf 16 c := by
  simp only [Token.isHexDigit, Bool.or_eq_true, Bool.and_eq_true, decide_eq_true_eq] at hex
  rw [← Char.ofNat_toNat c]
  unfold IsDigitOf
  obtain (⟨low, high⟩ | ⟨low, high⟩) | ⟨low, high⟩ := hex
  · have low : 48 ≤ c.toNat := low
    have high : c.toNat ≤ 57 := high
    interval_cases c.toNat <;> decide
  · have low : 97 ≤ c.toNat := low
    have high : c.toNat ≤ 102 := high
    interval_cases c.toNat <;> decide
  · have low : 65 ≤ c.toNat := low
    have high : c.toNat ≤ 70 := high
    interval_cases c.toNat <;> decide

theorem digitValue?_of_not_isDigit {c : Char} (decimal : isDecimal c) (other : ¬c.isDigit) :
    digitValue? c = none := by
  unfold isDecimal at decimal
  split at decimal
  · exact absurd decimal other
  · next large =>
      have above (d : Char) (small : d.toNat < 0x80) : ¬c ≤ d := fun le => by
        have : c.toNat ≤ d.toNat := le
        omega
      simp [digitValue?, above '9' (by decide), above 'z' (by decide), above 'Z' (by decide)]

/-- A decimal digit of another script is a digit of no base, and one of the first 128 characters may
    be too large for the base. -/
theorem isDigitOf_or_noDigitOf (base : Nat) {c : Char} (decimal : isDecimal c) :
    (c.isDigit ∧ IsDigitOf base c) ∨ NoDigitOf base c := by
  have noSpace : c ≠ '_' := by
    rintro rfl
    exact absurd decimal (by decide)
  by_cases isDigit : c.isDigit
  · obtain ⟨value, -⟩ := isDigitOf_of_isDigit isDigit
    by_cases small : digit c < base
    · exact .inl ⟨isDigit, value, small⟩
    · refine .inr ⟨noSpace, fun d eq => ?_⟩
      rw [value] at eq
      cases eq
      exact Nat.not_lt.mp small
  · exact .inr ⟨noSpace, fun d eq => by simp [digitValue?_of_not_isDigit decimal isDigit] at eq⟩

theorem noSpace_of_isDigitOf {base : Nat} {c : Char} (good : IsDigitOf base c) : c ≠ '_' := by
  rintro rfl
  exact absurd good.1 (by decide)

/-- Digits are read as the number they denote, if it fits. -/
theorem readDigits_eq {base : Nat} (positive : 0 < base) (spaced : Bool) {ds : List Char}
    (digits : ∀ d ∈ ds, IsDigitOf base d) {n : Nat} (fits : n < wordSize) :
    readDigits base spaced n ds =
      if n * base ^ ds.length + positional base ds < wordSize then
        .ok (n * base ^ ds.length + positional base ds)
      else .error .outOfRange := by
  induction ds generalizing n with
  | nil => simp [readDigits, positional, fits]
  | cons d ds ih =>
      obtain ⟨own, others⟩ := List.forall_mem_cons.mp digits
      have total : n * base ^ (d :: ds).length + positional base (d :: ds) =
          (n * base + digit d) * base ^ ds.length + positional base ds := by
        rw [positional_cons, List.length_cons]
        ring
      simp only [readDigits, own.1, Nat.not_le.mpr own.2, noSpace_of_isDigitOf own, beq_iff_eq,
        Bool.and_eq_true, false_and, if_false, total]
      by_cases inside : n * base + digit d < wordSize
      · rw [if_neg (Nat.not_le.mpr inside), ih others inside]
      · have grows := Nat.le_mul_of_pos_right (n * base + digit d) (Nat.pow_pos (n := ds.length) positive)
        rw [if_pos (Nat.not_lt.mp inside), if_neg (by omega)]

/-- A wrong digit is met before the number can leave the range. -/
theorem readDigits_malformed {base : Nat} (spaced : Bool) {ds : List Char}
    (each : ∀ d ∈ ds, IsDigitOf base d ∨ NoDigitOf base d) (wrong : ∃ d ∈ ds, NoDigitOf base d) {n : Nat}
    (short : (n + 1) * base ^ ds.length ≤ wordSize) :
    readDigits base spaced n ds = .error .malformed := by
  induction ds generalizing n with
  | nil => simp at wrong
  | cons d ds ih =>
      obtain ⟨own, others⟩ := List.forall_mem_cons.mp each
      rcases own with good | bad
      · have later : ∃ e ∈ ds, NoDigitOf base e := by
          obtain ⟨e, mem, bad⟩ := wrong
          rcases List.mem_cons.mp mem with rfl | mem
          · exact absurd good.2 (Nat.not_lt.mpr (bad.2 _ good.1))
          · exact ⟨e, mem, bad⟩
        have small : n * base + digit d + 1 ≤ (n + 1) * base := by
          have := good.2
          rw [Nat.add_mul]
          omega
        have short : (n * base + digit d + 1) * base ^ ds.length ≤ wordSize := by
          refine (Nat.mul_le_mul_right _ small).trans ?_
          rwa [Nat.mul_assoc, Nat.mul_comm base, ← Nat.pow_succ]
        have positive : 0 < base := Nat.zero_lt_of_lt good.2
        have grows := Nat.le_mul_of_pos_right (n * base + digit d + 1)
          (Nat.pow_pos (n := ds.length) positive)
        have inside : ¬wordSize ≤ n * base + digit d := by omega
        simp only [readDigits, good.1, Nat.not_le.mpr good.2, noSpace_of_isDigitOf good, beq_iff_eq,
          Bool.and_eq_true, false_and, if_false, if_neg inside, ih others later short]
      · simp only [readDigits, bad.1, beq_iff_eq, Bool.and_eq_true, false_and, if_false]
        split
        · rfl
        · next v value => rw [if_pos (bad.2 v value)]

theorem announcedBase_octal {ds : List Char} (digits : ∀ d ∈ ds, isDecimal d) :
    announcedBase ('0' :: ds) = (8, ds) := by
  match ds, digits with
  | [], _ => rfl
  | [_], _ => rfl
  | d :: e :: ds, digits =>
      have apart {b : Char} (letter : ¬isDecimal b) : d ≠ b := by
        rintro rfl
        exact letter (digits d List.mem_cons_self)
      simp [announcedBase, apart (b := 'b') (by decide), apart (b := 'B') (by decide),
        apart (b := 'o') (by decide), apart (b := 'O') (by decide), apart (b := 'x') (by decide),
        apart (b := 'X') (by decide)]

theorem readNat_eq {text ds : List Char} {base : Nat} (some_ : text ≠ [])
    (announced : announcedBase text = (base, ds)) (noSpace : '_' ∉ ds) :
    readNat text = readDigits base true 0 ds := by
  have some_ : text.isEmpty = false := by simpa using some_
  unfold readNat
  simp only [announced, some_, noSpace, Bool.false_eq_true, if_false, List.contains_eq_mem,
    decide_false, Bool.false_and]
  cases readDigits base true 0 ds <;> rfl

end Numeral

end Text

namespace Token

open Text Text.Numeral

/-! ## Numerals -/

/-- A text is a numeral, and denotes a number. -/
inductive Denotes : List Char → Nat → Prop
  | hex {x : Char} {ds : List Char} (announced : x = 'x' ∨ x = 'X') (some_ : ds ≠ [])
      (digits : ∀ d ∈ ds, isHexDigit d) : Denotes ('0' :: x :: ds) (positional 16 ds)
  | octal {ds : List Char} (digits : ∀ d ∈ ds, '0' ≤ d ∧ d ≤ '7') : Denotes ('0' :: ds) (positional 8 ds)
  | decimal {d : Char} {ds : List Char} (first : d ≠ '0') (digits : ∀ e ∈ d :: ds, e.isDigit) :
      Denotes (d :: ds) (positional 10 (d :: ds))

/-- A text is followed by nothing that would still belong to the number, and by nothing that a number
    may not be followed by: a letter or an underscore. -/
def Stops (text rest : List Char) : Prop :=
  ∀ d ∈ rest.head?, startsName d = false ∧ (if announcesHex text then isHexDigit d else isDecimal d) = false

/-! ## Their value -/

/-- A numeral announces its base, and what follows are digits of the base. -/
theorem Denotes.announced {text : List Char} {v : Nat} (denotes : Denotes text v) :
    ∃ base ds, announcedBase text = (base, ds) ∧ 0 < base ∧ (∀ d ∈ ds, IsDigitOf base d) ∧
      v = positional base ds := by
  cases denotes with
  | @hex x ds announced some_ digits =>
      refine ⟨16, ds, ?_, by decide, fun d mem => isDigitOf_of_isHexDigit (digits d mem), rfl⟩
      obtain ⟨d, ds, rfl⟩ := List.exists_cons_of_ne_nil some_
      rcases announced with rfl | rfl <;> rfl
  | @octal ds digits =>
      exact ⟨8, ds, announcedBase_octal fun d mem => isDecimal_of_isDigit (isDigit_of_octal (digits d mem)),
        by decide, fun d mem => isDigitOf_of_octal (digits d mem), rfl⟩
  | @decimal d ds first digits =>
      refine ⟨10, d :: ds, announcedBase_decimal ?_, by decide,
        fun e mem => isDigitOf_of_isDigit (digits e mem), rfl⟩
      rintro eq
      exact first (Option.some.inj eq)

theorem Denotes.ne_nil {text : List Char} {v : Nat} (denotes : Denotes text v) : text ≠ [] := by
  cases denotes <;> exact List.cons_ne_nil _ _

theorem Denotes.isDecimal_head {text rest cs : List Char} {c : Char} {v : Nat} (denotes : Denotes text v)
    (eq : c :: cs = text ++ rest) : isDecimal c := by
  cases denotes with
  | hex => cases eq; decide
  | octal => cases eq; decide
  | decimal first digits =>
      obtain ⟨rfl, -⟩ := List.cons.inj eq
      exact isDecimal_of_isDigit (digits c List.mem_cons_self)

theorem Denotes.readNat {text : List Char} {v : Nat} (denotes : Denotes text v) :
    readNat text = if v < wordSize then .ok v else .error .outOfRange := by
  obtain ⟨base, ds, announced, positive, digits, rfl⟩ := denotes.announced
  have noSpace : '_' ∉ ds := fun mem => noSpace_of_isDigitOf (digits '_' mem) rfl
  have read := readDigits_eq positive true digits (n := 0) (by decide)
  rw [Nat.zero_mul, Nat.zero_add] at read
  rw [readNat_eq denotes.ne_nil announced noSpace, read]

/-- The characters of a numeral are the ones the scanner takes. -/
theorem Denotes.splitNumber {text rest : List Char} {v : Nat} (denotes : Denotes text v)
    (stops : Stops text rest) : splitNumber (text ++ rest) = (text, rest) := by
  have decimal (digits : ∀ c ∈ text, isDecimal c) : Token.splitNumber (text ++ rest) = (text, rest) := by
    have noHex := announcesHex_digits denotes.ne_nil digits
    refine splitNumber_decimal denotes.ne_nil digits fun c mem => ⟨(stops c mem).1, ?_⟩
    simpa [noHex] using (stops c mem).2
  cases denotes with
  | @hex x ds announced some_ digits =>
      have isHex : (x == 'x' || x == 'X') = true := by simpa using announced
      have ends := span_stops digits fun c mem => by simpa [announcesHex, isHex] using (stops c mem).2
      simp only [Token.splitNumber, List.cons_append, isHex, if_true, ends]
  | @octal ds digits =>
      exact decimal (List.forall_mem_cons.mpr
        ⟨by decide, fun c mem => isDecimal_of_isDigit (isDigit_of_octal (digits c mem))⟩)
  | @decimal d ds first digits => exact decimal fun c mem => isDecimal_of_isDigit (digits c mem)

/-! ## What is no numeral -/

/-- What the scanner takes for a number is not followed by what would continue it. -/
theorem splitNumber_stops {c : Char} (cs : List Char) (decimal : isDecimal c) :
    ∀ d ∈ (splitNumber (c :: cs)).2.head?,
      (if announcesHex (splitNumber (c :: cs)).1 then isHexDigit d else isDecimal d) = false := by
  have stays {p : Char → Bool} (ds : List Char) : ∀ d ∈ (ds.span p).2.head?, p d = false := by
    intro d mem
    rw [List.span_eq_takeWhile_dropWhile] at mem
    have := List.head?_dropWhile_not p ds
    rw [Option.mem_def.mp mem] at this
    simpa using this
  by_cases hex : announcesHex (c :: cs)
  · unfold announcesHex at hex
    split at hex
    · next x ds eq =>
        cases eq
        simp only [splitNumber, announcesHex, hex, if_true]
        exact stays ds
    · simp at hex
  · rw [splitNumber_of_announcesHex (by simpa using hex)]
    have noHex : announcesHex ((c :: cs).span isDecimal).1 = false := by
      have digits : ∀ d ∈ ((c :: cs).span isDecimal).1, isDecimal d := by
        rw [List.span_eq_takeWhile_dropWhile]
        exact fun d mem => List.mem_takeWhile_imp mem
      exact announcesHex_digits (by simp [List.span_eq_takeWhile_dropWhile, decimal]) digits
    simpa only [noHex, Bool.false_eq_true, if_false] using stays (c :: cs)

/-- In the digits of a short text the wrong one is met before the range is left. -/
theorem readNat_malformed {text ds : List Char} {base : Nat} (some_ : text ≠ [])
    (announced : announcedBase text = (base, ds)) (digits : ∀ d ∈ ds, isDecimal d)
    (wrong : ∃ d ∈ ds, ¬(d.isDigit ∧ IsDigitOf base d)) (short : base ^ ds.length ≤ wordSize) :
    readNat text = .error .malformed := by
  have noSpace : '_' ∉ ds := fun mem => absurd (digits '_' mem) (by decide)
  rw [readNat_eq some_ announced noSpace]
  obtain ⟨d, mem, wrong⟩ := wrong
  refine readDigits_malformed true (fun e mem => (isDigitOf_or_noDigitOf base (digits e mem)).imp_left And.right)
    ⟨d, mem, (isDigitOf_or_noDigitOf base (digits d mem)).resolve_left wrong⟩ ?_
  rwa [Nat.zero_add, Nat.one_mul]

theorem IsNumber.malformed {text : List Char} (isNumber : IsNumber text) (short : text.length ≤ 19)
    (no : ∀ v, ¬Denotes text v) : readNat text = .error .malformed := by
  rcases isNumber with ⟨some_, digits⟩ | ⟨x, ds, rfl, announced, digits⟩
  · obtain ⟨d, ds, rfl⟩ := List.exists_cons_of_ne_nil some_
    by_cases zero : d = '0'
    · subst zero
      have others := (List.forall_mem_cons.mp digits).2
      have wrong : ∃ d ∈ ds, ¬(d.isDigit ∧ IsDigitOf 8 d) := by
        by_contra fine
        push Not at fine
        refine no _ (.octal fun d mem => ?_)
        obtain ⟨isDigit, -, small⟩ := fine d mem
        have := toNat_of_isDigit isDigit
        rw [digit, if_pos isDigit] at small
        exact ⟨this.1, show d.toNat ≤ 55 by omega⟩
      refine readNat_malformed some_ (announcedBase_octal others) others wrong ?_
      exact (Nat.pow_le_pow_right (by decide) (Nat.le_of_lt_succ short)).trans (by decide)
    · have wrong : ∃ e ∈ d :: ds, ¬(e.isDigit ∧ IsDigitOf 10 e) := by
        by_contra fine
        push Not at fine
        exact no _ (.decimal zero fun e mem => (fine e mem).1)
      refine readNat_malformed some_ (announcedBase_decimal fun eq => zero (Option.some.inj eq)) digits wrong ?_
      exact (Nat.pow_le_pow_right (by decide) short).trans (by decide)
  · have none_ : ds = [] := by
      by_contra some_
      exact no _ (.hex announced some_ digits)
    subst none_
    rcases announced with rfl | rfl <;> rfl

/-! ## The token of a number -/

/-- The word that stands for a number: the number modulo 2^64 if it fits, else the largest pattern. -/
def wordOf (v : Nat) : Int64 := if v < wordSize then Int64.ofNat v else -1

/-- What is remarked on a numeral at a place. -/
def remarkOn (at_ : Span) (text : List Char) (v : Nat) : List Diagnostic :=
  if signedLimit ≤ v then [⟨.warning .overflow, at_, "Integer constant overflow: " ++ String.ofList text⟩]
  else []

theorem numberValue_denotes (at_ : Span) {text : List Char} {v : Nat} (denotes : Denotes text v)
    (log : Array Diagnostic) :
    StateT.run (ExceptT.run (numberValue at_ text)) log =
      (.ok (wordOf v), log ++ (remarkOn at_ text v).toArray) := by
  have read := denotes.readNat
  unfold wordOf remarkOn
  by_cases fits : v < wordSize
  · rw [if_pos fits] at read
    by_cases large : signedLimit ≤ v
    · simp [numberValue, read, fits, large, Checked.warn]
      rfl
    · simp [numberValue, read, fits, large]
      rfl
  · rw [if_neg fits] at read
    have large : signedLimit ≤ v := le_trans (by decide) (Nat.not_lt.mp fits)
    simp [numberValue, read, fits, large, Checked.warn]
    rfl

theorem noName_of_isDecimal {c : Char} (decimal : isDecimal c) : ¬startsName c := by
  simp only [startsName, Text.isLetter_of_isDecimal decimal, Bool.false_or, beq_iff_eq]
  rintro rfl
  exact absurd decimal (by decide)

theorem readLexeme_alone (file : Nat) (m : Mark) {c : Char} (cs : List Char) (decimal : isDecimal c)
    (alone : ∀ d ∈ (splitNumber (c :: cs)).2.head?, startsName d = false) :
    readLexeme file m c cs = do
      let stop := m.past (splitNumber (c :: cs)).1
      return (.number (← numberValue (m.upTo file stop) (splitNumber (c :: cs)).1), stop,
        (splitNumber (c :: cs)).2) := by
  rw [readLexeme, if_neg (noName_of_isDecimal decimal), if_pos decimal]
  dsimp only
  split
  · next next eq => rw [if_neg (by simp [alone next eq])]
  · rfl

theorem readLexeme_followed (file : Nat) (m : Mark) {c next : Char} (cs : List Char) (decimal : isDecimal c)
    (followed : next ∈ (splitNumber (c :: cs)).2.head?) (names : startsName next) :
    readLexeme file m c cs = Checked.fail (m.upTo file (m.past (splitNumber (c :: cs)).1))
      ("Invalid number literal: " ++ String.ofList (splitNumber (c :: cs)).1 ++ next.toString) := by
  rw [readLexeme, if_neg (noName_of_isDecimal decimal), if_pos decimal]
  dsimp only
  rw [Option.mem_def.mp followed]
  dsimp only
  rw [if_pos names]
  rfl

/-- The decimal text of a word is read back as the word. -/
theorem readDecimalInt_value (n : Int64) : readDecimalInt (Lexeme.number n).value = .ok n.toInt := by
  have isDigit (k : Nat) : ∀ c ∈ Nat.toDigits 10 k, c.isDigit :=
    fun c => Nat.isDigit_of_mem_toDigits (by decide) (by decide)
  have read {k : Nat} (fits : k < wordSize) : readDecimal (Nat.toDigits 10 k) = .ok k := by
    have value : Nat.ofDigitChars 10 (Nat.toDigits 10 k) 0 = k :=
      Nat.ofDigitChars_toDigits (by decide) (by decide)
    have := readDigits_decimal false (isDigit k) (n := 0) (by rwa [value])
    rw [value] at this
    simp [readDecimal, Nat.toDigits_ne_nil, this]
  have least := n.le_toInt
  have most := n.toInt_lt
  show readDecimalInt (Int.repr n.toInt) = _
  unfold readDecimalInt
  rcases eq : n.toInt with k | k
  · rw [eq] at most
    have small : k < signedLimit := Int.ofNat_lt.mp most
    have bare : takeSign (Nat.toDigits 10 k) = (false, Nat.toDigits 10 k) := by
      unfold takeSign
      split
      · next eq => exact absurd (isDigit k '+' (eq ▸ List.mem_cons_self)) (by decide)
      · next eq => exact absurd (isDigit k '-' (eq ▸ List.mem_cons_self)) (by decide)
      · rfl
    have digits : (Int.repr (Int.ofNat k)).toList = Nat.toDigits 10 k := Nat.toList_repr
    rw [digits, bare]
    dsimp only
    rw [read (small.trans (by decide))]
    exact if_neg (Nat.not_le.mpr small)
  · rw [eq] at least
    have small : k + 1 ≤ signedLimit := by
      show k + 1 ≤ 2 ^ 63
      omega
    have digits : (Int.repr (Int.negSucc k)).toList = '-' :: Nat.toDigits 10 (k + 1) := by
      rw [← Nat.toList_repr]
      exact String.toList_append
    rw [digits, show takeSign ('-' :: Nat.toDigits 10 (k + 1)) = (true, Nat.toDigits 10 (k + 1)) from rfl]
    dsimp only
    rw [read (Nat.lt_of_le_of_lt small (by decide))]
    exact if_neg (Nat.not_lt.mpr small)

theorem wordOf_eq (v : Nat) :
    if v < 2 ^ 64 then (wordOf v).toInt ≡ v [ZMOD 2 ^ 64] else wordOf v = -1 := by
  unfold wordOf
  split
  · next fits =>
      rw [if_pos (show v < wordSize from fits), Int64.toInt_ofNat']
      exact Int.bmod_emod
  · next large => rw [if_neg (show ¬v < wordSize from large)]

theorem filter_remarkOn (ws : WarningSet) (at_ : Span) (text : List Char) (v : Nat) :
    (remarkOn at_ text v).filter (Diagnostic.isShown ws) =
      if 2 ^ 63 ≤ v ∧ ws.contains .overflow then
        [⟨.warning .overflow, at_, "Integer constant overflow: " ++ String.ofList text⟩]
      else [] := by
  unfold remarkOn
  by_cases large : signedLimit ≤ v
  · rw [if_pos large]
    have large : 2 ^ 63 ≤ v := large
    simp only [large, true_and, List.filter_cons, List.filter_nil, Diagnostic.isShown]
    rfl
  · rw [if_neg large, if_neg fun both => large both.1]
    rfl

/-- A numeral that nothing else follows is the token of the number modulo 2^64 if the number has 64
    bits, else of -1, and both the text of the token and the parser give that word. It is remarked on
    from 2^63 on. Whatever else starts with a digit and takes at most 19 characters is an error. -/
theorem readLexeme_numeral (file : Nat) (m : Mark) (c : Char) (cs : List Char) :
    (∀ text rest v, c :: cs = text ++ rest → Denotes text v → Stops text rest →
      ∃ (n : Int64) (given : List Diagnostic),
      (∀ log, StateT.run (ExceptT.run (readLexeme file m c cs)) log =
        (.ok (.number n, m.past text, rest), log ++ given.toArray)) ∧
      (∀ k span ts, Parser.primary (k + 1) (⟨.number n, span⟩ :: ts) =
        .ok (.number (Parser.at_ span) n, ts)) ∧
      readDecimalInt (Lexeme.number n).value = .ok n.toInt ∧
      (if v < 2 ^ 64 then n.toInt ≡ v [ZMOD 2 ^ 64] else n = -1) ∧
      ∀ ws : WarningSet, given.filter (Diagnostic.isShown ws) =
        if 2 ^ 63 ≤ v ∧ ws.contains .overflow then
          [⟨.warning .overflow, m.upTo file (m.past text),
            "Integer constant overflow: " ++ String.ofList text⟩]
        else []) ∧
    (isDecimal c → (splitNumber (c :: cs)).1.length ≤ 19 →
      (∀ text rest v, c :: cs = text ++ rest → Denotes text v → ¬Stops text rest) →
        ∃ tail, readLexeme file m c cs = Checked.fail (m.upTo file (m.past (splitNumber (c :: cs)).1))
          ("Invalid number literal: " ++ tail)) := by
  constructor
  · intro text rest v eq denotes stops
    have split : splitNumber (c :: cs) = (text, rest) := eq ▸ denotes.splitNumber stops
    have decimal : isDecimal c := denotes.isDecimal_head eq
    have alone : ∀ d ∈ (splitNumber (c :: cs)).2.head?, startsName d = false := by
      rw [split]
      exact fun d mem => (stops d mem).1
    refine ⟨wordOf v, remarkOn (m.upTo file (m.past text)) text v, fun log => ?_,
      fun k span ts => Parser.primary_number rfl k ts, readDecimalInt_value _, wordOf_eq v,
      fun ws => filter_remarkOn ws _ text v⟩
    rw [readLexeme_alone file m cs decimal alone, split]
    have value := numberValue_denotes (m.upTo file (m.past text)) denotes log
    rw [ExceptT.run_bind, StateT.run_bind, value]
    rfl
  · intro decimal short no
    by_cases alone : ∀ d ∈ (splitNumber (c :: cs)).2.head?, startsName d = false
    · have none_ (v : Nat) : ¬Denotes (splitNumber (c :: cs)).1 v := fun denotes =>
        no _ _ v (splitNumber_append (c :: cs)).symm denotes fun d mem =>
          ⟨alone d mem, splitNumber_stops cs decimal d mem⟩
      have malformed := (isNumber_splitNumber cs decimal).malformed short none_
      refine ⟨String.ofList (splitNumber (c :: cs)).1, ?_⟩
      rw [readLexeme_alone file m cs decimal alone]
      simp only [numberValue, malformed]
      rfl
    · push Not at alone
      obtain ⟨next, mem, names⟩ := alone
      refine ⟨String.ofList (splitNumber (c :: cs)).1 ++ next.toString, ?_⟩
      rw [readLexeme_followed file m cs decimal mem (by simpa using names), String.append_assoc]

/-- The largest 64-bit pattern is -1, and an octal numeral has no digit 8. -/
theorem readLexeme_numeral_limits :
    (∃ given : List Diagnostic,
      (∀ log, StateT.run (ExceptT.run (readLexeme 0 Mark.start '0' ('x' :: List.replicate 16 'F' ++ [';']))) log =
        (.ok (.number (-1), Mark.start.past ('0' :: 'x' :: List.replicate 16 'F'), [';']), log ++ given.toArray)) ∧
      ∀ ws : WarningSet, (given.filter (Diagnostic.isShown ws)).length = if ws.contains .overflow then 1 else 0) ∧
    ∃ tail, readLexeme 0 Mark.start '0' ['8', '9'] =
      Checked.fail (Mark.start.upTo 0 (Mark.start.past ['0', '8', '9'])) ("Invalid number literal: " ++ tail) := by
  constructor
  · have denotes : Denotes ('0' :: 'x' :: List.replicate 16 'F') (positional 16 (List.replicate 16 'F')) :=
      .hex (.inl rfl) (by decide) fun d mem => (List.mem_replicate.mp mem).2 ▸ rfl
    have value : positional 16 (List.replicate 16 'F') = 0xFFFFFFFFFFFFFFFF := by decide +kernel
    rw [value] at denotes
    have stops : Stops ('0' :: 'x' :: List.replicate 16 'F') [';'] := fun d mem => by
      obtain rfl : d = ';' := by simpa using mem.symm
      decide
    obtain ⟨n, given, read, -, -, word, shown⟩ :=
      (readLexeme_numeral 0 Mark.start '0' ('x' :: List.replicate 16 'F' ++ [';'])).1 _ _ _ rfl denotes stops
    have least := n.le_toInt
    have most := n.toInt_lt
    rw [if_pos (by decide)] at word
    have minusOne : n.toInt = -1 := by
      unfold Int.ModEq at word
      omega
    obtain rfl : n = -1 := Int64.toInt_inj.mp minusOne
    refine ⟨given, read, fun ws => ?_⟩
    rw [shown ws]
    cases ws.contains .overflow <;> simp
  · refine (readLexeme_numeral 0 Mark.start '0' ['8', '9']).2 (by decide) (by decide) ?_
    intro text rest v eq denotes stops
    have taken := denotes.splitNumber stops
    rw [← eq] at taken
    obtain ⟨rfl, rfl⟩ := Prod.mk.inj (taken.symm.trans (show _ = (['0', '8', '9'], []) by decide))
    cases denotes with
    | hex announced => exact absurd announced (by decide)
    | octal digits => exact absurd (digits '8' (by simp)) (by decide)
    | decimal first => exact first rfl

end Token

end Lantern
