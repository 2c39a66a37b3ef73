import Mathlib
import Lantern.Proofs.Scanning

/-!
# Scanning what is spelled

Lexemes written one behind the other, with a space between two of them, are scanned back as they
were, and nothing is remarked on the way.
-/

namespace Lantern

/-! ## Decimal numerals -/

namespace Text

theorem toNat_of_isDigit {c : Char} (digit : c.isDigit) : 48 ≤ c.toNat ∧ c.toNat ≤ 57 :=
  Char.isDigit_iff_toNat.mp digit

theorem isDecimal_of_isDigit {c : Char} (digit : c.isDigit) : isDecimal c := by
  have small : c.toNat < 0x80 := by
    have := toNat_of_isDigit digit
    omega
  rw [isDecimal, if_pos small]
  exact digit

namespace Numeral

theorem digitValue?_of_isDigit {c : Char} (digit : c.isDigit) :
    digitValue? c = some (c.toNat - '0'.toNat) ∧ c.toNat - '0'.toNat < 10 := by
  have inside : '0' ≤ c ∧ c ≤ '9' := Char.isDigit_iff_toNat.mp digit
  refine ⟨by simp [digitValue?, inside], ?_⟩
  have := toNat_of_isDigit digit
  show c.toNat - 48 < 10
  omega

theorem le_ofDigitChars (cs : List Char) (n : Nat) : n ≤ Nat.ofDigitChars 10 cs n := by
  induction cs generalizing n with
  | nil => exact Nat.le_refl n
  | cons c cs ih =>
      rw [Nat.ofDigitChars_cons]
      exact Nat.le_trans (by omega) (ih _)

theorem readDigits_decimal (spaced : Bool) {cs : List Char} (digits : ∀ c ∈ cs, c.isDigit) {n : Nat}
    (fits : Nat.ofDigitChars 10 cs n < wordSize) :
    readDigits 10 spaced n cs = .ok (Nat.ofDigitChars 10 cs n) := by
  induction cs generalizing n with
  | nil => rfl
  | cons c cs ih =>
      obtain ⟨digit, others⟩ := List.forall_mem_cons.mp digits
      obtain ⟨value, small⟩ := digitValue?_of_isDigit digit
      have notSpace : c ≠ '_' := by
        rintro rfl
        exact absurd digit (by decide)
      rw [Nat.ofDigitChars_cons, Nat.mul_comm] at fits ⊢
      have room := Nat.lt_of_le_of_lt (le_ofDigitChars cs _) fits
      simp only [readDigits, value, notSpace, beq_iff_eq, Bool.and_eq_true, false_and, if_false,
        Nat.not_le.mpr small, Nat.not_le.mpr room, ih others fits]

/-- Only zero is written with a leading zero. -/
theorem head_toDigits {n : Nat} (positive : 0 < n) : (Nat.toDigits 10 n).head? ≠ some '0' := by
  induction n using Nat.strongRecOn with
  | ind n ih =>
      rw [Nat.toDigits_eq_if (by decide)]
      split
      · next small => interval_cases n <;> decide
      · next large =>
          have := ih (n / 10) (by omega) (by omega)
          obtain ⟨d, ds, eq⟩ := List.exists_cons_of_ne_nil (Nat.toDigits_ne_nil (n := n / 10) (b := 10))
          rw [eq] at this ⊢
          exact this

theorem announcedBase_decimal {cs : List Char} (first : cs.head? ≠ some '0') :
    announcedBase cs = (10, cs) := by
  unfold announcedBase
  split
  · exact absurd rfl first
  · exact absurd rfl first
  · rfl

theorem readNat_toDigits {n : Nat} (fits : n < wordSize) : readNat (Nat.toDigits 10 n) = .ok n := by
  rcases Nat.eq_zero_or_pos n with rfl | positive
  · rfl
  have digits : ∀ c ∈ Nat.toDigits 10 n, c.isDigit :=
    fun c => Nat.isDigit_of_mem_toDigits (by decide) (by decide)
  have value : Nat.ofDigitChars 10 (Nat.toDigits 10 n) 0 = n :=
    Nat.ofDigitChars_toDigits (by decide) (by decide)
  have noSpace : '_' ∉ Nat.toDigits 10 n := fun mem => absurd (digits '_' mem) (by decide)
  have read := readDigits_decimal true digits (n := 0) (by rwa [value])
  rw [value] at read
  simp [readNat, Nat.toDigits_ne_nil, announcedBase_decimal (head_toDigits positive), read, noSpace]

end Numeral

end Text

namespace Token

/-! ## One lexeme -/

/-- What stands behind a spelled lexeme: a space, if anything. -/
def Ends (rest : List Char) : Prop := ∀ c ∈ rest.head?, c = ' '

/-- Characters that all pass are split off up to a rest whose first character does not. -/
theorem span_stops {p : Char → Bool} {text rest : List Char} (all : ∀ c ∈ text, p c)
    (stops : ∀ c ∈ rest.head?, p c = false) : (text ++ rest).span p = (text, rest) := by
  have stays : rest.takeWhile p = [] ∧ rest.dropWhile p = rest := by
    cases rest with
    | nil => exact ⟨rfl, rfl⟩
    | cons c rest => simp [stops c rfl]
  rw [List.span_eq_takeWhile_dropWhile, List.takeWhile_append_of_pos all,
    List.dropWhile_append_of_pos all, stays.1, stays.2, List.append_nil]

theorem span_ends {p : Char → Bool} {text rest : List Char} (all : ∀ c ∈ text, p c) (space : ¬ p ' ')
    (ends : Ends rest) : (text ++ rest).span p = (text, rest) :=
  span_stops all fun c mem => by simpa [ends c mem] using space

/-- The text of a lexeme is read as that lexeme, whatever stands behind a space. -/
def Reads (text : List Char) (lexeme : Lexeme) : Prop :=
  ∀ file m rest, Ends rest → ∃ c cs, text ++ rest = c :: cs ∧
    skipGap file .blank m (c :: cs) = pure (m, c :: cs) ∧
      readLexeme file m c cs = pure (lexeme, m.past text, rest)

theorem skipGap_start (file : Nat) (m : Mark) {c : Char} (cs : List Char) (full : ¬ isBlank c)
    (starts : c ≠ '/') : skipGap file .blank m (c :: cs) = pure (m, c :: cs) := by
  simp [skipGap, full, starts]

/-- Letters, digits and quotes are no blanks and begin no comment. -/
theorem skipGap_word (file : Nat) (m : Mark) {c : Char} (cs : List Char)
    (word : startsName c ∨ Text.isDecimal c ∨ c = '"') :
    skipGap file .blank m (c :: cs) = pure (m, c :: cs) := by
  have apart {d : Char} (no : ¬ startsName d ∧ ¬ Text.isDecimal d ∧ d ≠ '"') : c ≠ d := by
    rintro rfl
    tauto
  refine skipGap_start file m cs ?_ (apart (by decide))
  simp only [isBlank, Bool.or_eq_true, beq_iff_eq, not_or]
  exact ⟨⟨⟨apart (by decide), apart (by decide)⟩, apart (by decide)⟩, apart (by decide)⟩

theorem reads_name {name : String} (starts : ∃ c ∈ name.toList.head?, startsName c)
    (continues : ∀ c ∈ name.toList, continuesName c) : Reads name.toList (ofName name) := by
  intro file m rest ends
  obtain ⟨c, first, starts⟩ := starts
  obtain ⟨cs, eq⟩ := List.head?_eq_some_iff.mp first
  refine ⟨c, cs ++ rest, by rw [eq, List.cons_append], skipGap_word file m _ (.inl starts), ?_⟩
  rw [readLexeme, if_pos starts, ← List.cons_append, ← eq, span_ends continues (by decide) ends]
  simp only [String.ofList_toList]

theorem reads_keyword (word : Keyword) : Reads word.spelling.toList (.keyword word) := by
  have own : ofName word.spelling = .keyword word := by cases word <;> decide
  have starts : word.spelling.toList.head?.any startsName := by cases word <;> decide
  have continues : word.spelling.toList.all continuesName := by cases word <;> decide
  rw [← own]
  exact reads_name (Option.any_eq_true _ _ |>.mp starts) (List.all_eq_true.mp continues)

/-- Whether a text starts as hexadecimal numerals do. -/
def announcesHex : List Char → Bool
  | '0' :: x :: _ => x == 'x' || x == 'X'
  | _ => false

theorem splitNumber_of_announcesHex {cs : List Char} (noHex : announcesHex cs = false) :
    splitNumber cs = cs.span Text.isDecimal := by
  unfold splitNumber
  split
  · next x cs => rw [if_neg (by simpa [announcesHex] using noHex)]
  · rfl

/-- No decimal digit, and nothing that may stand behind a number, announces a hexadecimal numeral. -/
theorem announcesHex_decimal {text rest : List Char} (some_ : text ≠ [])
    (digits : ∀ c ∈ text, Text.isDecimal c) (ends : ∀ c ∈ rest.head?, startsName c = false) :
    announcesHex (text ++ rest) = false := by
  have second {c : Char} (fine : Text.isDecimal c ∨ startsName c = false) : (c == 'x' || c == 'X') = false := by
    by_contra announces
    simp only [Bool.not_eq_false, Bool.or_eq_true, beq_iff_eq] at announces
    rcases announces with rfl | rfl <;> exact absurd fine (by decide)
  unfold announcesHex
  split
  · next x cs eq =>
      obtain ⟨_, text, rfl⟩ := List.exists_cons_of_ne_nil some_
      obtain ⟨-, tail⟩ := List.cons.inj eq
      cases text with
      | nil => exact second (.inr (ends x (by rw [show rest = _ from tail]; rfl)))
      | cons y text =>
        obtain ⟨rfl, -⟩ := List.cons.inj tail
        exact second (.inl (digits _ (by simp)))
  · rfl

theorem announcesHex_digits {text : List Char} (some_ : text ≠ []) (digits : ∀ c ∈ text, Text.isDecimal c) :
    announcesHex text = false := by
  have none_ : ∀ c ∈ ([] : List Char).head?, startsName c = false := nofun
  simpa using announcesHex_decimal some_ digits none_

theorem splitNumber_decimal {text rest : List Char} (some_ : text ≠ [])
    (digits : ∀ c ∈ text, Text.isDecimal c)
    (ends : ∀ c ∈ rest.head?, startsName c = false ∧ Text.isDecimal c = false) :
    splitNumber (text ++ rest) = (text, rest) := by
  rw [splitNumber_of_announcesHex (announcesHex_decimal some_ digits fun c mem => (ends c mem).1)]
  exact span_stops digits fun c mem => (ends c mem).2

theorem reads_number {n : Nat} (fits : n < Text.Numeral.signedLimit) :
    Reads (Nat.toDigits 10 n) (.number (Int64.ofNat n)) := by
  intro file m rest ends
  have digits : ∀ c ∈ Nat.toDigits 10 n, c.isDigit :=
    fun c => Nat.isDigit_of_mem_toDigits (by decide) (by decide)
  have split := splitNumber_decimal Nat.toDigits_ne_nil (fun c mem => Text.isDecimal_of_isDigit (digits c mem))
    fun c mem => ends c mem ▸ (by decide : startsName ' ' = false ∧ Text.isDecimal ' ' = false)
  have read : Text.Numeral.readNat (Nat.toDigits 10 n) = .ok n :=
    Text.Numeral.readNat_toDigits (fits.trans (by decide))
  obtain ⟨c, cs, eq⟩ := List.exists_cons_of_ne_nil (Nat.toDigits_ne_nil (n := n) (b := 10))
  rw [eq] at digits split read ⊢
  have digit := digits c List.mem_cons_self
  have decimal := Text.isDecimal_of_isDigit digit
  have noName : ¬ startsName c := by
    obtain ⟨low, high⟩ := Text.toNat_of_isDigit digit
    rw [← Char.ofNat_toNat c]
    interval_cases c.toNat <;> decide
  refine ⟨c, cs ++ rest, rfl, skipGap_word file m _ (.inr (.inl decimal)), ?_⟩
  have value (at_ : Span) : numberValue at_ (c :: cs) = pure (Int64.ofNat n) := by
    simp [numberValue, read, Nat.not_le.mpr fits]
  rw [readLexeme, if_neg noName, if_pos decimal, ← List.cons_append, split]
  cases rest with
  | nil => simp [value]
  | cons d rest =>
      obtain rfl : d = ' ' := ends d rfl
      simp [value, show startsName ' ' = false by decide]

/-- A spelled character of a string literal is read as the character. -/
theorem stringBody_spellChar (file : Nat) (start : Mark) (read : List Char) (m : Mark) (v : Char)
    (rest : List Char) :
    stringBody file start read m (Lexeme.spellChar v ++ rest) =
      stringBody file start (v :: read) (m.past (Lexeme.spellChar v)) rest := by
  have escaped (e : Char) (known : escape? e = some v) (noHex : e ≠ 'x') :
      stringBody file start read m (['\\', e] ++ rest) =
        stringBody file start (v :: read) (m.past ['\\', e]) rest := by
    simp [stringBody, known, noHex, Mark.past]
  unfold Lexeme.spellChar
  split
  · next isEscape =>
      obtain rfl : v = '\\' := by simpa using isEscape
      exact escaped '\\' rfl (by decide)
  · split
    · next isQuote =>
        obtain rfl : v = '"' := by simpa using isQuote
        exact escaped '"' rfl (by decide)
    · split
      · next isFeed =>
          obtain rfl : v = '\n' := by simpa using isFeed
          exact escaped 'n' rfl (by decide)
      · next notEscape notQuote notFeed =>
          simp [stringBody, notEscape, notQuote, notFeed, Mark.past]

theorem stringBody_spelled (file : Nat) (start : Mark) (read : List Char) (m : Mark)
    (vs rest : List Char) :
    stringBody file start read m (vs.flatMap Lexeme.spellChar ++ '"' :: rest) =
      pure (String.ofList (read.reverse ++ vs), m.past (vs.flatMap Lexeme.spellChar ++ ['"']), rest) := by
  induction vs generalizing read m with
  | nil => simp [stringBody, Mark.past]
  | cons v vs ih =>
      rw [List.flatMap_cons, List.append_assoc, stringBody_spellChar, ih, List.reverse_cons,
        List.append_assoc, List.append_assoc, ← Mark.past_append]
      rfl

theorem reads_text (value : String) :
    Reads ('"' :: value.toList.flatMap Lexeme.spellChar ++ ['"']) (.text value) := by
  intro file m rest ends
  refine ⟨'"', value.toList.flatMap Lexeme.spellChar ++ '"' :: rest, by simp,
    skipGap_word file m _ (.inr (.inr rfl)), ?_⟩
  have body := stringBody_spelled file m [] (m.next '"') value.toList rest
  simp [readLexeme, show startsName '"' = false by decide, show Text.isDecimal '"' = false by decide,
    body, Mark.past]

theorem reads_punct (mark : Punct) : Reads mark.spelling.toList (.punct mark) := by
  intro file m rest ends
  cases rest with
  | nil => cases mark <;> exact ⟨_, _, rfl, rfl, rfl⟩
  | cons c rest =>
      obtain rfl : c = ' ' := ends c rfl
      cases mark <;> exact ⟨_, _, rfl, rfl, rfl⟩

end Token

/-- A lexeme that can be written: a name that is no keyword, a number that is not negative, and any
    text, keyword or punctuator. -/
def Lexeme.Spellable : Lexeme → Prop
  | .endOfFile => False
  | .ident name => (∃ c ∈ name.toList.head?, Token.startsName c) ∧
      (∀ c ∈ name.toList, Token.continuesName c) ∧ Keyword.ofName? name = none
  | .number n => 0 ≤ n
  | .text _ | .keyword _ | .punct _ => True

namespace Token

theorem reads_spelling {lexeme : Lexeme} (spellable : lexeme.Spellable) :
    Reads lexeme.spelling.toList lexeme := by
  cases lexeme with
  | endOfFile => exact spellable.elim
  | ident name =>
      obtain ⟨starts, continues, free⟩ := spellable
      have reads := reads_name starts continues
      rwa [ofName, free] at reads
  | number n =>
      have value : n.toInt = n.toNatClampNeg := by
        have := Int64.le_iff_toInt_le.mp spellable
        rw [Int64.toInt_zero] at this
        rw [← Int64.toNat_toInt, Int.toNat_of_nonneg this]
      have fits : n.toNatClampNeg < Text.Numeral.signedLimit := by
        have := n.toInt_lt
        show _ < 2 ^ 63
        omega
      have digits : (Lexeme.number n).spelling.toList = Nat.toDigits 10 n.toNatClampNeg := by
        rw [Lexeme.spelling, value]
        exact Nat.toList_repr
      have reads := reads_number fits
      rwa [Int64.ofNat_toNatClampNeg n spellable, ← digits] at reads
  | text value =>
      rw [Lexeme.spelling, String.toList_ofList]
      exact reads_text value
  | keyword word => exact reads_keyword word
  | punct mark => exact reads_punct mark

/-! ## A whole text -/

theorem readFrom_space (file bound : Nat) (m : Mark) (cs : List Char) :
    readFrom file bound m (' ' :: cs) = readFrom file bound (m.next ' ') cs := by
  cases bound with
  | zero => rfl
  | succ bound => rfl

theorem Reads.readFrom {text : List Char} {lexeme : Lexeme} (reads : Reads text lexeme)
    (file bound : Nat) (m : Mark) (rest : List Char) (ends : Ends rest) :
    readFrom file (bound + 1) m (text ++ rest) = do
      let ts ← Token.readFrom file bound (m.past text) rest
      return ⟨lexeme, m.upTo file (m.past text)⟩ :: ts := by
  obtain ⟨c, cs, eq, starts, read⟩ := reads file m rest ends
  rw [Token.readFrom, eq, starts, pure_bind]
  dsimp only
  rw [read, pure_bind]

/-- Spelled lexemes with a space between two of them are scanned from any mark on. -/
theorem readFrom_spelled (file : Nat) {ls : List Lexeme} (spellable : ∀ l ∈ ls, l.Spellable)
    {bound : Nat} (m : Mark)
    (long : ([' '].intercalate (ls.map (·.spelling.toList))).length < bound) :
    ∃ tokens : List Token, readFrom file bound m ([' '].intercalate (ls.map (·.spelling.toList))) = pure tokens ∧
      tokens.map Token.lexeme = ls ++ [.endOfFile] := by
  induction ls generalizing bound m with
  | nil =>
      obtain ⟨bound, rfl⟩ := Nat.exists_eq_succ_of_ne_zero (Nat.ne_zero_of_lt long)
      exact ⟨_, rfl, rfl⟩
  | cons l ls ih =>
      obtain ⟨bound, rfl⟩ := Nat.exists_eq_succ_of_ne_zero (Nat.ne_zero_of_lt long)
      obtain ⟨own, others⟩ := List.forall_mem_cons.mp spellable
      have reads := reads_spelling own
      cases ls with
      | nil =>
          -- Behind the last lexeme only the end of the text is left, which needs a bound of its own.
          rw [List.map_singleton, List.intercalate_singleton] at long ⊢
          obtain ⟨_, _, eq, -⟩ := reads file m [] nofun
          obtain ⟨bound, rfl⟩ : ∃ n, bound = n + 1 := by
            refine Nat.exists_eq_succ_of_ne_zero ?_
            have := congrArg List.length eq
            simp only [List.length_append, List.length_nil, List.length_cons] at this
            omega
          have read := reads.readFrom file (bound + 1) m [] nofun
          rw [List.append_nil] at read
          exact ⟨_, read, rfl⟩
      | cons next ls =>
          have ends : Ends (' ' :: [' '].intercalate ((next :: ls).map (·.spelling.toList))) := by
            simp [Ends]
          rw [List.map_cons, List.intercalate_cons_of_ne_nil (by simp), List.append_assoc,
            List.singleton_append] at long ⊢
          rw [reads.readFrom file bound m _ ends, readFrom_space]
          rw [List.length_append, List.length_cons] at long
          have shorter : ([' '].intercalate ((next :: ls).map (·.spelling.toList))).length < bound := by
            omega
          obtain ⟨tokens, read, lexemes⟩ := ih others (m.past l.spelling.toList |>.next ' ') shorter
          rw [read]
          exact ⟨_, rfl, congrArg (l :: ·) lexemes⟩

/-- Scanning gives back every list of lexemes from their spellings with single spaces between them,
    and remarks nothing. -/
theorem readAll_spelled (file : Nat) {ls : List Lexeme} (spellable : ∀ l ∈ ls, l.Spellable) :
    ∃ tokens, (readAll file (" ".intercalate (ls.map Lexeme.spelling))).outcome = (some tokens, []) ∧
      tokens.map Token.lexeme = ls ++ [.endOfFile] := by
  have text : (" ".intercalate (ls.map Lexeme.spelling)).toList =
      [' '].intercalate (ls.map (·.spelling.toList)) := by
    simp [String.toList_intercalate, Function.comp_def]
  obtain ⟨tokens, read, lexemes⟩ :=
    readFrom_spelled file spellable Mark.start (Nat.lt_succ_self _)
  refine ⟨tokens, ?_, lexemes⟩
  rw [readAll, text, read]
  rfl

/-- Division, which alone of the punctuators starts as a comment does, the largest number and a text
    that needs every escape. -/
theorem readAll_spelled_division :
    " ".intercalate ([.ident "é", .punct .slash, .number Int64.maxValue, .keyword .print,
      .text "\"\\\n\t"].map Lexeme.spelling) = "é / 9223372036854775807 print \"\\\"\\\\\\n\t\"" ∧
    ∃ tokens, (readAll 0 (" ".intercalate ([.ident "é", .punct .slash, .number Int64.maxValue,
        .keyword .print, .text "\"\\\n\t"].map Lexeme.spelling))).outcome = (some tokens, []) ∧
      tokens.map Token.lexeme = [.ident "é", .punct .slash, .number Int64.maxValue, .keyword .print,
        .text "\"\\\n\t", .endOfFile] := by
  refine ⟨by decide +kernel, readAll_spelled 0 ?_⟩
  simp only [List.forall_mem_cons, List.not_mem_nil, false_imp_iff, implies_true, and_true,
    Lexeme.Spellable]
  exact ⟨⟨⟨'é', rfl, by decide +kernel⟩, List.all_eq_true.mp (by decide +kernel), by decide +kernel⟩,
    by decide⟩

end Token

end Lantern
