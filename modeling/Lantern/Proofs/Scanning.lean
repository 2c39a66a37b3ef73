import Mathlib
import Lantern.Proofs.Outcomes
import Lantern.Token.Lexer

/-!
# Tokens tile their text

A text that is scanned without an error is its tokens with blanks and comments between them. Every
token covers characters that spell it, and its span names the line and the column they start at.
-/

namespace Lantern

/-! ## Marks -/

namespace Mark

theorem past_append (m : Mark) (cs ds : List Char) : m.past (cs ++ ds) = (m.past cs).past ds :=
  List.foldl_append

theorem past_concat (m : Mark) (cs : List Char) (c : Char) :
    m.past (cs ++ [c]) = (m.past cs).next c :=
  past_append m cs [c]

@[simp] theorem next_offset (m : Mark) (c : Char) : (m.next c).offset = m.offset + 1 := by
  unfold next
  split <;> rfl

@[simp] theorem past_offset (m : Mark) (cs : List Char) :
    (m.past cs).offset = m.offset + cs.length := by
  induction cs generalizing m with
  | nil => rfl
  | cons c cs ih =>
      show ((m.next c).past cs).offset = _
      rw [ih, next_offset, List.length_cons]
      omega

/-- The number of characters behind the last line feed. -/
def lineLength (cs : List Char) : Nat := (cs.reverse.takeWhile (· != '\n')).length

theorem past_start (cs : List Char) :
    start.past cs = ⟨cs.length, cs.count '\n' + 1, lineLength cs + 1⟩ := by
  induction cs using List.reverseRecOn with
  | nil => rfl
  | append_singleton cs c ih =>
      rw [past_concat, ih]
      by_cases isFeed : c = '\n'
      · simp [next, isFeed, lineLength]
      · simp [next, isFeed, lineLength]

end Mark

namespace Token

/-! ## What stands between tokens -/

/-- Blanks, line comments up to the end of their line, and closed block comments. What follows them
    is the first argument. -/
inductive Separates (after : List Char) : List Char → Prop
  | nothing : Separates after []
  | blank {c : Char} {more : List Char} (isBlank : isBlank c) (rest : Separates after more) :
      Separates after (c :: more)
  | line {inside more : List Char} (onLine : '\n' ∉ inside)
      (ends : more ++ after = [] ∨ (more ++ after).head? = some '\n') (rest : Separates after more) :
      Separates after ('/' :: '/' :: inside ++ more)
  | block {inside more : List Char} (firstEnd : ¬ ['*', '/'] <:+: inside)
      (rest : Separates after more) :
      Separates after ('/' :: '*' :: inside ++ '*' :: '/' :: more)

/-- What the scanner passes over in each of its modes. -/
def Passes (after : List Char) : Gap → List Char → Prop
  | .blank, gap => Separates after gap
  | .line, gap => ∃ inside more, gap = inside ++ more ∧ '\n' ∉ inside ∧
      (more ++ after = [] ∨ (more ++ after).head? = some '\n') ∧ Separates after more
  | .opening _, gap => ∃ c inside more, gap = c :: inside ++ '*' :: '/' :: more ∧
      ¬ ['*', '/'] <:+: inside ∧ Separates after more
  | .block _, gap => ∃ inside more, gap = inside ++ '*' :: '/' :: more ∧
      ¬ ['*', '/'] <:+: inside ∧ Separates after more
  | .closing, gap => (gap = [] ∧ after = []) ∨ ∃ c more, gap = c :: more ∧ Separates after more

/-- A character that closes no comment together with the next one may be put inside it. -/
theorem not_closed_cons {c : Char} {inside : List Char}
    (open_ : ¬ (c = '*' ∧ inside.head? = some '/')) (firstEnd : ¬ ['*', '/'] <:+: inside) :
    ¬ ['*', '/'] <:+: c :: inside := by
  rw [List.infix_cons_iff]
  rintro (starts | within)
  · cases inside with
    | nil => simp at starts
    | cons d inside =>
        simp only [List.cons_prefix_cons, List.nil_prefix, and_true] at starts
        exact open_ ⟨starts.1.symm, by rw [← starts.2]; rfl⟩
  · exact firstEnd within

theorem gives_skipGap (file : Nat) (mode : Gap) (m : Mark) (cs : List Char) :
    (skipGap file mode m cs).Gives fun r =>
      ∃ gap, cs = gap ++ r.2 ∧ r.1 = m.past gap ∧ Passes r.2 mode gap := by
  induction cs generalizing mode m with
  | nil =>
      cases mode with
      | blank => exact Checked.gives_pure ⟨[], rfl, rfl, .nothing⟩
      | line => exact Checked.gives_pure ⟨[], rfl, rfl, [], [], rfl, by simp, .inl rfl, .nothing⟩
      | closing => exact Checked.gives_pure ⟨[], rfl, rfl, .inl ⟨rfl, rfl⟩⟩
      | opening | block => exact Checked.gives_fail
  | cons c cs ih =>
      -- One more character is passed over before `gap`.
      have step (mode mode' : Gap)
          (passes : ∀ after gap, cs = gap ++ after → Passes after mode' gap →
            Passes after mode (c :: gap)) :
          (skipGap file mode' (m.next c) cs).Gives fun r =>
            ∃ gap, c :: cs = gap ++ r.2 ∧ r.1 = m.past gap ∧ Passes r.2 mode gap := by
        refine (ih mode' (m.next c)).mono fun r ⟨gap, eq, stop, passed⟩ => ?_
        exact ⟨c :: gap, by rw [eq, List.cons_append], stop, passes r.2 gap eq passed⟩
      cases mode with
      | blank =>
          unfold skipGap
          split
          · next isBlank => exact step .blank .blank fun _ _ _ rest => .blank isBlank rest
          · split
            · next slashes =>
                obtain ⟨rfl, next⟩ : c = '/' ∧ cs.head? = some '/' := by simpa using slashes
                refine step .blank .line fun after gap eq passed => ?_
                obtain ⟨inside, more, rfl, onLine, ends, rest⟩ := passed
                cases inside with
                | nil =>
                    rw [List.nil_append] at eq
                    rcases ends with ends | ends
                    · simp [eq, ends] at next
                    · simp [eq, ends] at next
                | cons d inside =>
                    obtain rfl : d = '/' := by simpa [eq] using next
                    exact .line (fun mem => onLine (List.mem_cons_of_mem _ mem)) ends rest
            · split
              · next opens =>
                  obtain ⟨rfl, next⟩ : c = '/' ∧ cs.head? = some '*' := by simpa using opens
                  refine step .blank (.opening m) fun after gap eq passed => ?_
                  obtain ⟨d, inside, more, rfl, firstEnd, rest⟩ := passed
                  obtain rfl : d = '*' := by simpa [eq] using next
                  exact .block firstEnd rest
              · exact Checked.gives_pure ⟨[], rfl, rfl, .nothing⟩
      | line =>
          unfold skipGap
          split
          · next isFeed =>
              obtain rfl : c = '\n' := by simpa using isFeed
              exact step .line .blank fun _ gap _ rest =>
                ⟨[], _, rfl, by simp, .inr rfl, .blank rfl rest⟩
          · next notFeed =>
              refine step .line .line fun after gap _ passed => ?_
              obtain ⟨inside, more, rfl, onLine, ends, rest⟩ := passed
              refine ⟨c :: inside, more, rfl, ?_, ends, rest⟩
              rintro (_ | ⟨_, mem⟩)
              · exact notFeed rfl
              · exact onLine mem
      | opening opened =>
          refine step (.opening opened) (.block opened) fun after gap _ passed => ?_
          obtain ⟨inside, more, rfl, firstEnd, rest⟩ := passed
          exact ⟨c, inside, more, rfl, firstEnd, rest⟩
      | block opened =>
          unfold skipGap
          split
          · next closes =>
              obtain ⟨rfl, next⟩ : c = '*' ∧ cs.head? = some '/' := by simpa using closes
              refine step (.block opened) .closing fun after gap eq passed => ?_
              rcases passed with ⟨rfl, rfl⟩ | ⟨d, more, rfl, rest⟩
              · rw [eq] at next
                cases next
              · obtain rfl : d = '/' := by simpa [eq] using next
                exact ⟨[], more, rfl, by simp, rest⟩
          · next open_ =>
              refine step (.block opened) (.block opened) fun after gap eq passed => ?_
              obtain ⟨inside, more, rfl, firstEnd, rest⟩ := passed
              refine ⟨c :: inside, more, rfl, not_closed_cons ?_ firstEnd, rest⟩
              rintro ⟨rfl, next⟩
              refine open_ ?_
              simp [eq, next]
      | closing =>
          exact step .closing .blank fun _ gap _ rest => .inr ⟨c, gap, rfl, rest⟩

/-! ## How tokens are spelled -/

/-- The characters inside a string literal, and the value they stand for. -/
inductive Quotes : List Char → List Char → Prop
  | nil : Quotes [] []
  | plain {c : Char} {cs vs : List Char} (free : c ≠ '\n' ∧ c ≠ '"' ∧ c ≠ '\\')
      (rest : Quotes cs vs) : Quotes (c :: cs) (c :: vs)
  | escape {e v : Char} {cs vs : List Char} (known : escape? e = some v) (rest : Quotes cs vs) :
      Quotes ('\\' :: e :: cs) (v :: vs)
  | hex {a b : Char} {cs vs : List Char} (digits : isHexDigit a ∧ isHexDigit b)
      (rest : Quotes cs vs) : Quotes ('\\' :: 'x' :: a :: b :: cs) (hexChar a b :: vs)
  | unknown {e : Char} {cs vs : List Char} (noHex : e ≠ 'x') (unknown : escape? e = none)
      (rest : Quotes cs vs) : Quotes ('\\' :: e :: cs) (e :: vs)

/-- A number as it is written: decimal digits, or hexadecimal ones behind their announcement. -/
def IsNumber (cs : List Char) : Prop :=
  (cs ≠ [] ∧ ∀ c ∈ cs, Text.isDecimal c) ∨
    ∃ x ds, cs = '0' :: x :: ds ∧ (x = 'x' ∨ x = 'X') ∧ ∀ d ∈ ds, isHexDigit d

/-- The characters of a token spell its lexeme. -/
inductive Spells : List Char → Lexeme → Prop
  | ident {cs : List Char} (starts : ∃ c ∈ cs.head?, startsName c)
      (continues : ∀ c ∈ cs, continuesName c) (free : Keyword.ofName? (String.ofList cs) = none) :
      Spells cs (.ident (String.ofList cs))
  | keyword (word : Keyword) : Spells word.spelling.toList (.keyword word)
  | punct (mark : Punct) : Spells mark.spelling.toList (.punct mark)
  | text {cs vs : List Char} (inside : Quotes cs vs) :
      Spells ('"' :: cs ++ ['"']) (.text (String.ofList vs))
  | number {cs : List Char} {n : Nat} (isNumber : IsNumber cs) (value : Text.Numeral.readNat cs = .ok n) :
      Spells cs (.number (Int64.ofNat n))
  | tooLarge {cs : List Char} (isNumber : IsNumber cs)
      (value : Text.Numeral.readNat cs = .error .outOfRange) : Spells cs (.number (-1))

/-- The rest `cs` of a string literal is read up to its closing quote, behind the value `read`. -/
def Literal (read : List Char) (m : Mark) (cs : List Char) (r : String × Mark × List Char) : Prop :=
  ∃ inside vs, cs = inside ++ '"' :: r.2.2 ∧ r.1 = String.ofList (read.reverse ++ vs) ∧
    r.2.1 = m.past (inside ++ ['"']) ∧ Quotes inside vs

theorem Literal.after {read cs : List Char} {m : Mark} {r : String × Mark × List Char}
    (taken : List Char) {v : Char}
    (more : ∀ {cs vs}, Quotes cs vs → Quotes (taken ++ cs) (v :: vs))
    (rest : Literal (v :: read) (m.past taken) cs r) : Literal read m (taken ++ cs) r := by
  obtain ⟨inside, vs, eq, value, stop, quotes⟩ := rest
  refine ⟨taken ++ inside, v :: vs, ?_, ?_, ?_, more quotes⟩
  · rw [eq, List.append_assoc]
  · rw [value, List.reverse_cons, List.append_assoc, List.singleton_append]
  · rw [stop, ← Mark.past_append, List.append_assoc]

theorem gives_stringBody (file : Nat) (start : Mark) (read : List Char) (m : Mark) (cs : List Char) :
    (stringBody file start read m cs).Gives (Literal read m cs) := by
  induction read, m, cs using stringBody.induct file start with
  | case1 => exact Checked.gives_fail
  | case2 read m c cs isFeed =>
      rw [stringBody, if_pos isFeed]
      exact Checked.gives_fail
  | case3 read m c cs notFeed isQuote =>
      rw [stringBody, if_neg notFeed, if_pos isQuote]
      obtain rfl : c = '"' := by simpa using isQuote
      exact Checked.gives_pure ⟨[], [], rfl, by simp, rfl, .nil⟩
  | case4 read m c notFeed notQuote isEscape =>
      rw [stringBody, if_neg notFeed, if_neg notQuote, if_pos isEscape]
      exact Checked.gives_fail
  | case5 read m c notFeed notQuote isEscape e isHex =>
      rw [stringBody, if_neg notFeed, if_neg notQuote, if_pos isEscape]
      simp only [if_pos isHex]
      exact Checked.gives_fail
  | case6 read m c notFeed notQuote isEscape e isHex a cs notDigit =>
      rw [stringBody, if_neg notFeed, if_neg notQuote, if_pos isEscape]
      simp only [if_pos isHex, if_pos notDigit]
      exact Checked.gives_fail
  | case7 read m c notFeed notQuote isEscape e isHex a isDigit =>
      rw [stringBody, if_neg notFeed, if_neg notQuote, if_pos isEscape]
      simp only [if_pos isHex, if_neg isDigit]
      exact Checked.gives_fail
  | case8 read m c notFeed notQuote isEscape e isHex a isDigit b cs notDigit =>
      rw [stringBody, if_neg notFeed, if_neg notQuote, if_pos isEscape]
      simp only [if_pos isHex, if_neg isDigit, if_pos notDigit]
      exact Checked.gives_fail
  | case9 read m c notFeed notQuote isEscape e _ isHex a digitA b cs digitB ih =>
      rw [stringBody, if_neg notFeed, if_neg notQuote, if_pos isEscape]
      simp only [if_pos isHex, if_neg digitA, if_neg digitB]
      obtain rfl : c = '\\' := by simpa using isEscape
      obtain rfl : e = 'x' := by simpa using isHex
      exact ih.mono fun r =>
        Literal.after ['\\', 'x', a, b] (.hex ⟨by simpa using digitA, by simpa using digitB⟩)
  | case10 read m c notFeed notQuote isEscape e cs _ notHex v known ih =>
      rw [stringBody, if_neg notFeed, if_neg notQuote, if_pos isEscape]
      simp only [if_neg notHex, known]
      obtain rfl : c = '\\' := by simpa using isEscape
      exact ih.mono fun r => Literal.after ['\\', e] (.escape known)
  | case11 read m c notFeed notQuote isEscape e cs _ notHex unknown ih =>
      rw [stringBody, if_neg notFeed, if_neg notQuote, if_pos isEscape]
      simp only [if_neg notHex, unknown]
      obtain rfl : c = '\\' := by simpa using isEscape
      refine Checked.gives_true.bind fun _ _ => ih.mono fun r => ?_
      exact Literal.after ['\\', e] (.unknown (by simpa using notHex) unknown)
  | case12 read m c cs notFeed notQuote notEscape ih =>
      rw [stringBody, if_neg notFeed, if_neg notQuote, if_neg notEscape]
      refine ih.mono fun r => Literal.after [c] (.plain ⟨?_, ?_, ?_⟩)
      · simpa using notFeed
      · simpa using notQuote
      · simpa using notEscape

theorem splitNumber_append (cs : List Char) : (splitNumber cs).1 ++ (splitNumber cs).2 = cs := by
  unfold splitNumber
  split
  · split
    · simp [List.span_eq_takeWhile_dropWhile]
    · simp [List.span_eq_takeWhile_dropWhile]
  · simp [List.span_eq_takeWhile_dropWhile]

theorem isNumber_splitNumber {c : Char} (cs : List Char) (decimal : Text.isDecimal c) :
    IsNumber (splitNumber (c :: cs)).1 := by
  have digits (ds : List Char) : ((c :: ds).span Text.isDecimal).1 ≠ [] ∧
      ∀ d ∈ ((c :: ds).span Text.isDecimal).1, Text.isDecimal d := by
    rw [List.span_eq_takeWhile_dropWhile]
    exact ⟨by simp [decimal], fun d mem => List.mem_takeWhile_imp mem⟩
  unfold splitNumber
  split
  · next x cs' eq =>
      obtain ⟨rfl, rfl⟩ := List.cons.inj eq
      split
      · next isHex =>
          rw [List.span_eq_takeWhile_dropWhile]
          exact .inr ⟨x, _, rfl, by simpa using isHex, fun d mem => List.mem_takeWhile_imp mem⟩
      · exact .inl (digits _)
  · exact .inl (digits _)

theorem spells_ofName {c : Char} {cs : List Char} (starts : startsName c)
    (continues : ∀ d ∈ c :: cs, continuesName d) : Spells (c :: cs) (ofName (String.ofList (c :: cs))) := by
  unfold ofName
  split
  · next word found =>
      have spelled : word.spelling = String.ofList (c :: cs) := by
        simpa using List.find?_some found
      have := Spells.keyword word
      rwa [spelled, String.toList_ofList] at this
  · next free => exact .ident ⟨c, rfl, starts⟩ continues free

theorem gives_numberValue (at_ : Span) {digits : List Char} (isNumber : IsNumber digits) :
    (numberValue at_ digits).Gives fun n => Spells digits (.number n) := by
  unfold numberValue
  dsimp only
  split
  · next n value =>
      split
      · exact Checked.gives_true.bind fun _ _ => Checked.gives_pure (.number isNumber value)
      · exact Checked.gives_pure (.number isNumber value)
  · next value =>
      exact Checked.gives_true.bind fun _ _ => Checked.gives_pure (.tooLarge isNumber value)
  · exact Checked.gives_fail

/-- What a token takes from `cs`: text that spells its lexeme, up to where it stops. -/
def Takes (m : Mark) (cs : List Char) (r : Lexeme × Mark × List Char) : Prop :=
  ∃ text, cs = text ++ r.2.2 ∧ text ≠ [] ∧ r.2.1 = m.past text ∧ Spells text r.1

/-- A punctuator is the characters it is recognised by. -/
theorem spelling_of_punct? {c : Char} {next : Option Char} {mark : Punct} {both : Bool}
    (isPunct : punct? c next = some (mark, both)) :
    mark.spelling.toList = c :: (if both then next.toList else []) := by
  unfold punct? at isPunct
  dsimp only at isPunct
  split at isPunct
  all_goals
    repeat' split at isPunct
    all_goals cases isPunct
    all_goals first | rfl | (obtain rfl : next = some _ := beq_iff_eq.mp (by assumption); rfl)

theorem takes_punct {m : Mark} {c : Char} {cs : List Char} {mark : Punct} {both : Bool}
    (isPunct : punct? c cs.head? = some (mark, both)) :
    Takes m (c :: cs) (.punct mark,
      if both then (m.past (c :: cs.take 1), cs.drop 1) else (m.next c, cs)) := by
  have spelled := Spells.punct mark
  rw [spelling_of_punct? isPunct] at spelled
  cases both with
  | false => exact ⟨[c], rfl, nofun, rfl, spelled⟩
  | true =>
      refine ⟨c :: cs.take 1, (List.take_append_drop 2 (c :: cs)).symm, nofun, rfl, ?_⟩
      rw [List.take_one]
      exact spelled

theorem takes_number (file : Nat) (m : Mark) {c : Char} (cs : List Char) (decimal : Text.isDecimal c) :
    (numberValue (m.upTo file (m.past (splitNumber (c :: cs)).1)) (splitNumber (c :: cs)).1).Gives
      fun n => Takes m (c :: cs)
        (.number n, m.past (splitNumber (c :: cs)).1, (splitNumber (c :: cs)).2) := by
  have isNumber := isNumber_splitNumber cs decimal
  refine (gives_numberValue _ isNumber).mono fun n spelled => ?_
  refine ⟨_, (splitNumber_append _).symm, ?_, rfl, spelled⟩
  rcases isNumber with ⟨some_, -⟩ | ⟨x, ds, eq, -⟩
  · exact some_
  · simp [eq]

theorem gives_readLexeme (file : Nat) (m : Mark) (c : Char) (cs : List Char) :
    (readLexeme file m c cs).Gives (Takes m (c :: cs)) := by
  unfold readLexeme
  split
  · next starts =>
      rw [List.span_eq_takeWhile_dropWhile]
      have first : continuesName c := by
        simp only [startsName, continuesName, Bool.or_eq_true] at *
        tauto
      refine Checked.gives_pure
        ⟨(c :: cs).takeWhile continuesName, List.takeWhile_append_dropWhile.symm, ?_, rfl, ?_⟩
      · simp [first]
      · have continues : ∀ d ∈ (c :: cs).takeWhile continuesName, continuesName d :=
          fun d mem => List.mem_takeWhile_imp mem
        rw [List.takeWhile_cons, if_pos first] at continues ⊢
        exact spells_ofName starts continues
  · split
    · next decimal =>
        have value := takes_number file m cs decimal
        dsimp only
        split
        · split
          · exact Checked.gives_fail.bind (P := fun _ => False) nofun
          · exact value.bind fun n taken => Checked.gives_pure taken
        · exact value.bind fun n taken => Checked.gives_pure taken
    · split
      · next isQuote =>
          obtain rfl : c = '"' := by simpa using isQuote
          refine (gives_stringBody file m [] _ cs).bind fun ⟨value, stop, rest⟩ literal => ?_
          obtain ⟨inside, vs, eq, rfl, rfl, quotes⟩ := literal
          refine Checked.gives_pure ⟨'"' :: inside ++ ['"'], ?_, by simp, rfl, .text quotes⟩
          simpa using eq
      · split
        · next isPunct => exact Checked.gives_pure (takes_punct isPunct)
        · next isPunct => exact Checked.gives_pure (takes_punct isPunct)
        · exact Checked.gives_fail

/-! ## The whole text -/

/-- The characters of `cs` from the offset `a` up to the offset `b`. -/
def between (cs : List Char) (a b : Nat) : List Char := (cs.take b).drop a

theorem between_append (before text after : List Char) {a b : Nat} (start : a = before.length)
    (stop : b = before.length + text.length) : between (before ++ (text ++ after)) a b = text := by
  subst start stop
  simp [between, ← List.append_assoc, ← List.length_append]

/-- The first offset behind a token that starts at `q.1`. -/
def stopOf (q : Nat × Token) : Nat := q.1 + q.2.span.length.toNat

/-- A token as it stands at its offset in the text `cs` of a file. -/
structure StandsIn (file : Nat) (cs : List Char) (q : Nat × Token) : Prop where
  file : q.2.span.file = file
  line : q.2.span.line = (cs.take q.1).count '\n' + 1
  column : q.2.span.column = Mark.lineLength (cs.take q.1) + 1
  inside : q.1 ≤ stopOf q ∧ stopOf q ≤ cs.length
  spells : q.2.lexeme ≠ .endOfFile →
    between cs q.1 (stopOf q) ≠ [] ∧ Spells (between cs q.1 (stopOf q)) q.2.lexeme

/-- From the offset `start` on, separators stand before the first token and between two of them. -/
def Separated (cs : List Char) : Nat → List (Nat × Token) → Prop
  | _, [] => True
  | start, q :: qs => start ≤ q.1 ∧ Separates (cs.drop q.1) (between cs start q.1) ∧
      Separated cs (stopOf q) qs

/-- From the offset `start` on, the text `cs` of a file is the given tokens and what separates them. -/
structure Tiled (file : Nat) (cs : List Char) (start : Nat) (tokens : List (Nat × Token)) : Prop where
  standing : ∀ q ∈ tokens, StandsIn file cs q
  separated : Separated cs start tokens
  increasing : tokens.Pairwise (·.1 < ·.1)
  ends : ∃ others span, tokens = others ++ [(cs.length, ⟨.endOfFile, span⟩)] ∧
    ∀ q ∈ others, q.2.lexeme ≠ .endOfFile

/-- The token that takes `text` behind `before`. -/
def placed (file : Nat) (before text : List Char) (lexeme : Lexeme) : Nat × Token :=
  (before.length, ⟨lexeme, (Mark.start.past before).upTo file (Mark.start.past (before ++ text))⟩)

@[simp] theorem stopOf_placed (file : Nat) (before text : List Char) (lexeme : Lexeme) :
    stopOf (placed file before text lexeme) = before.length + text.length := by
  simp [stopOf, placed, Mark.upTo, Mark.past_start]

theorem standsIn_placed (file : Nat) (before text after : List Char) (lexeme : Lexeme)
    (spells : lexeme ≠ .endOfFile → text ≠ [] ∧ Spells text lexeme) :
    StandsIn file (before ++ (text ++ after)) (placed file before text lexeme) := by
  have line : (placed file before text lexeme).2.span.line = (before.count '\n' + 1 : Nat) := by
    simp [placed, Mark.upTo, Mark.past_start]
  have column : (placed file before text lexeme).2.span.column = (Mark.lineLength before + 1 : Nat) := by
    simp [placed, Mark.upTo, Mark.past_start]
  constructor
  · rfl
  · exact line.trans (by simp [placed])
  · exact column.trans (by simp [placed])
  · rw [stopOf_placed]
    simp [placed]
  · rw [stopOf_placed, show (placed file before text lexeme).1 = before.length from rfl,
      between_append _ _ _ rfl rfl]
    exact spells

theorem Spells.ne_endOfFile {text : List Char} {lexeme : Lexeme} (spells : Spells text lexeme) :
    lexeme ≠ .endOfFile := by
  cases spells <;> nofun

theorem tiled_stop (file : Nat) {before gap : List Char} (separates : Separates [] gap) :
    Tiled file (before ++ gap) before.length [placed file (before ++ gap) [] .endOfFile] := by
  have stands := standsIn_placed file (before ++ gap) [] [] .endOfFile (absurd rfl)
  rw [List.append_nil, List.append_nil] at stands
  refine ⟨by simpa using stands, ⟨by simp [placed], ?_, trivial⟩, by simp, [], _, rfl, List.forall_mem_nil _⟩
  have gapText : between (before ++ gap) before.length (before ++ gap).length = gap := by
    simpa using between_append before gap [] rfl List.length_append
  simpa only [placed, gapText, List.drop_length] using separates

theorem Tiled.le {file start : Nat} {cs : List Char} {tokens : List (Nat × Token)}
    (tiled : Tiled file cs start tokens) : ∀ q ∈ tokens, start ≤ q.1 := by
  cases tokens with
  | nil => exact List.forall_mem_nil _
  | cons q qs =>
      have first : start ≤ q.1 := tiled.separated.1
      have later := List.pairwise_cons.mp tiled.increasing
      exact List.forall_mem_cons.mpr ⟨first, fun r mem => first.trans (later.1 r mem).le⟩

theorem Tiled.cons {file : Nat} {before gap text rest : List Char} {lexeme : Lexeme}
    {tokens : List (Nat × Token)} (separates : Separates (text ++ rest) gap) (nonempty : text ≠ [])
    (spells : Spells text lexeme)
    (others : Tiled file (before ++ (gap ++ (text ++ rest))) (before ++ gap ++ text).length tokens) :
    Tiled file (before ++ (gap ++ (text ++ rest))) before.length
      (placed file (before ++ gap) text lexeme :: tokens) := by
  have stands := standsIn_placed file (before ++ gap) text rest lexeme fun _ => ⟨nonempty, spells⟩
  rw [List.append_assoc] at stands
  have here : (placed file (before ++ gap) text lexeme).1 = before.length + gap.length :=
    List.length_append
  have behind : (before ++ (gap ++ (text ++ rest))).drop (before.length + gap.length) = text ++ rest := by
    rw [← List.append_assoc, ← List.length_append, List.drop_left]
  constructor
  case standing => exact List.forall_mem_cons.mpr ⟨stands, others.standing⟩
  case separated =>
    refine ⟨by omega, ?_, ?_⟩
    · rw [here, behind, between_append _ _ _ rfl rfl]
      exact separates
    · rw [stopOf_placed, ← List.length_append]
      exact others.separated
  case increasing =>
    refine List.pairwise_cons.mpr ⟨fun q mem => ?_, others.increasing⟩
    have after := others.le q mem
    have := List.length_pos_of_ne_nil nonempty
    simp only [List.length_append] at after
    omega
  case ends =>
    obtain ⟨init, span, rfl, inner⟩ := others.ends
    exact ⟨_ :: init, span, rfl, List.forall_mem_cons.mpr ⟨spells.ne_endOfFile, inner⟩⟩

theorem gives_readFrom (file bound : Nat) (before cs : List Char) (long : cs.length < bound) :
    (readFrom file bound (Mark.start.past before) cs).Gives fun ts =>
      ∃ tokens, tokens.map Prod.snd = ts ∧ Tiled file (before ++ cs) before.length tokens := by
  induction bound generalizing before cs with
  | zero => omega
  | succ bound ih =>
      unfold readFrom
      refine (gives_skipGap file .blank _ cs).bind fun ⟨_, cs'⟩ ⟨gap, eq, stop, separates⟩ => ?_
      obtain rfl : _ = Mark.start.past (before ++ gap) := stop.trans (Mark.past_append _ _ _).symm
      dsimp only at eq separates
      cases cs' with
      | nil =>
          rw [List.append_nil] at eq
          refine Checked.gives_pure ⟨[placed file (before ++ gap) [] .endOfFile], ?_, ?_⟩
          · simp [placed]
          · rw [eq]
            exact tiled_stop file separates
      | cons c cs' =>
          refine (gives_readLexeme file _ c cs').bind fun ⟨lexeme, _, rest⟩ taken => ?_
          obtain ⟨text, eq', nonempty, stop, spells⟩ := taken
          obtain rfl : _ = Mark.start.past (before ++ gap ++ text) :=
            stop.trans (Mark.past_append _ _ _).symm
          dsimp only at eq' spells
          rw [eq'] at eq separates
          have shorter : rest.length < bound := by
            have lengths := congrArg List.length eq
            have := List.length_pos_of_ne_nil nonempty
            simp only [List.length_append] at lengths
            omega
          refine (ih _ rest shorter).bind fun ts ⟨tokens, map, others⟩ => ?_
          refine Checked.gives_pure ⟨placed file (before ++ gap) text lexeme :: tokens, ?_, ?_⟩
          · exact congrArg (List.cons _) map
          · rw [eq]
            refine .cons separates nonempty spells ?_
            simpa only [List.append_assoc] using others

end Token

/-! ## The line a diagnostic shows -/

namespace Text

theorem head_piecesFrom (p : Char → Bool) (piece cs : List Char) :
    ∃ more, (piecesFrom p piece cs)[0]? = some (piece.reverse ++ more) := by
  induction cs generalizing piece with
  | nil => exact ⟨[], by simp [piecesFrom]⟩
  | cons c cs ih =>
      unfold piecesFrom
      split
      · exact ⟨[], by simp⟩
      · obtain ⟨more, eq⟩ := ih (c :: piece)
        exact ⟨c :: more, by simpa using eq⟩

/-- The pieces between line feeds hold every other character at its place. -/
theorem piecesFrom_past (piece before after : List Char) {c : Char} (notFeed : c ≠ '\n') (m : Mark)
    (reached : m.column = piece.length + 1) :
    ∃ n piece', (m.past before).line = m.line + n ∧
      (piecesFrom (· == '\n') piece (before ++ c :: after))[n]? = some piece' ∧
      piece'[(m.past before).column - 1]? = some c := by
  induction before generalizing piece m with
  | nil =>
      obtain ⟨more, eq⟩ := head_piecesFrom (· == '\n') (c :: piece) after
      refine ⟨0, (c :: piece).reverse ++ more, rfl, ?_, ?_⟩
      · simpa [piecesFrom, notFeed] using eq
      · simp [Mark.past, reached]
  | cons d before ih =>
      by_cases isFeed : d = '\n'
      · obtain ⟨n, piece', lines, own, found⟩ := ih [] (m.next d) (by simp [Mark.next, isFeed])
        refine ⟨n + 1, piece', ?_, ?_, found⟩
        · rw [show m.past (d :: before) = (m.next d).past before from rfl, lines]
          simp [Mark.next, isFeed]
          omega
        · simpa [piecesFrom, isFeed] using own
      · obtain ⟨n, piece', lines, own, found⟩ := ih (d :: piece) (m.next d) (by simp [Mark.next, isFeed, reached])
        refine ⟨n, piece', ?_, ?_, found⟩
        · rw [show m.past (d :: before) = (m.next d).past before from rfl, lines]
          simp [Mark.next, isFeed]
        · simpa [piecesFrom, isFeed] using own

theorem dropEnding_getElem? {line : String} {i : Nat} {c : Char} (found : line.toList[i]? = some c)
    (notReturn : c ≠ '\r') : (dropEnding "\r" line).toList[i]? = some c := by
  unfold dropEnding
  split
  · next ends =>
      obtain ⟨front, eq⟩ := List.isSuffixOf_iff_suffix.mp ends
      have last : "\r".toList = ['\r'] := rfl
      rw [last] at eq
      rw [← eq] at found ⊢
      rw [String.toList_ofList, last, List.length_append, Nat.add_sub_cancel, List.take_left]
      rcases Nat.lt_or_ge i front.length with within | beyond
      · rwa [List.getElem?_append_left within] at found
      · rw [List.getElem?_append_right beyond] at found
        have := List.mem_of_getElem? found
        simp at this
        exact absurd this notReturn
  · exact found

end Text

namespace Token

/-- No token starts with a line ending. -/
theorem Spells.head_ne {text : List Char} {lexeme : Lexeme} (spells : Spells text lexeme) {c : Char}
    (first : text.head? = some c) : c ≠ '\n' ∧ c ≠ '\r' := by
  cases spells with
  | ident starts =>
      obtain ⟨d, own, starts⟩ := starts
      obtain rfl : d = c := Option.some.inj (own.symm.trans first)
      constructor <;> (rintro rfl; exact absurd starts (by decide))
  | keyword word =>
      constructor <;> (rintro rfl; cases word <;> exact absurd first (by decide))
  | punct mark =>
      constructor <;> (rintro rfl; cases mark <;> exact absurd first (by decide))
  | text =>
      obtain rfl : '"' = c := by simpa using first
      decide
  | number isNumber | tooLarge isNumber =>
      have decimal : Text.isDecimal c := by
        rcases isNumber with ⟨-, digits⟩ | ⟨x, ds, rfl, -⟩
        · exact digits c (List.mem_of_mem_head? first)
        · obtain rfl : '0' = c := by simpa using first
          decide
      constructor <;> (rintro rfl; exact absurd decimal (by decide))

theorem StandsIn.sourceLine? {file : Nat} {source : String} {q : Nat × Token}
    (stands : StandsIn file source.toList q) (notEnd : q.2.lexeme ≠ .endOfFile) {sources : List Source}
    {name : String} (known : sources[file]? = some ⟨name, source⟩) :
    ∃ line c, Diagnostic.sourceLine? sources q.2.span = some line ∧ source.toList[q.1]? = some c ∧
      line.toList[(q.2.span.column - 1).toNat]? = some c := by
  obtain ⟨nonempty, spells⟩ := stands.spells notEnd
  obtain ⟨c, more, eq⟩ := List.exists_cons_of_ne_nil nonempty
  obtain ⟨notFeed, notReturn⟩ := spells.head_ne (c := c) (by rw [eq]; rfl)
  have own : source.toList[q.1]? = some c := by
    have first : ((source.toList.take (stopOf q)).drop q.1)[0]? = some c := by
      rw [show (source.toList.take (stopOf q)).drop q.1 = c :: more from eq]
      rfl
    rw [List.getElem?_drop, Nat.add_zero, List.getElem?_take] at first
    split at first
    · exact first
    · cases first
  obtain ⟨inside, isOwn⟩ := List.getElem?_eq_some_iff.mp own
  have parts : source.toList = source.toList.take q.1 ++ c :: source.toList.drop (q.1 + 1) := by
    rw [← isOwn, ← List.drop_eq_getElem_cons inside, List.take_append_drop]
  obtain ⟨n, piece, lines, isPiece, found⟩ := Text.piecesFrom_past [] (source.toList.take q.1)
    (source.toList.drop (q.1 + 1)) notFeed Mark.start rfl
  rw [← parts] at isPiece
  rw [Mark.past_start] at lines found
  have isLine : (Text.lines source)[n]? = some (String.ofList piece) := by
    simp [Text.lines, isPiece]
  have lineNumber : (q.2.span.line - 1).toNat = n := by
    rw [stands.line]
    simp only [Mark.start] at lines
    omega
  have columnNumber : (q.2.span.column - 1).toNat = Mark.lineLength (source.toList.take q.1) := by
    rw [stands.column]
    omega
  refine ⟨Text.dropEnding "\r" (String.ofList piece), c, ?_, own, ?_⟩
  · have fileKnown : Diagnostic.sourceOf? sources q.2.span = some ⟨name, source⟩ := by
      simp [Diagnostic.sourceOf?, stands.file, known]
    have positive : ¬ q.2.span.line < 1 := by
      rw [stands.line]
      omega
    simp [Diagnostic.sourceLine?, fileKnown, positive, lineNumber, isLine]
  · rw [columnNumber]
    exact Text.dropEnding_getElem? (by simpa using found) notReturn

/-- A text that is scanned without an error is its tokens, one behind the other, with blanks and
    comments between them, and ends with the only token for its end. Every other token covers the
    characters that spell it. All stand where their spans say, also in the line a diagnostic shows. -/
theorem readAll_tiled (file : Nat) (source : String) {tokens : List Token}
    (read : (readAll file source).outcome.1 = some tokens) :
    ∃ placed, placed.map Prod.snd = tokens ∧ Tiled file source.toList 0 placed ∧
      ∀ sources name, sources[file]? = some ⟨name, source⟩ → ∀ q ∈ placed,
        q.2.lexeme ≠ .endOfFile → ∃ line c, Diagnostic.sourceLine? sources q.2.span = some line ∧
          source.toList[q.1]? = some c ∧ line.toList[(q.2.span.column - 1).toNat]? = some c := by
  have gives := gives_readFrom file (source.toList.length + 1) [] source.toList (Nat.lt_succ_self _)
  obtain ⟨placed, map, tiled⟩ := gives.of_outcome read
  exact ⟨placed, map, tiled, fun sources name known q mem notEnd =>
    (tiled.standing q mem).sourceLine? notEnd known⟩

/-- A string literal goes on behind an escaped line feed, and the next token stands on a later line. -/
theorem readAll_tiled_twoLines :
    (readAll 0 "/*/ **/x \"\\\n\"\t+= 0x1F//;").outcome.1 =
      some [⟨.ident "x", 0, 1, 8, 1⟩, ⟨.text "\n", 0, 1, 10, 4⟩, ⟨.punct .plusAssign, 0, 2, 3, 2⟩,
        ⟨.number 31, 0, 2, 6, 4⟩, ⟨.endOfFile, 0, 2, 13, 0⟩] ∧
    ∃ placed, placed.map Prod.snd =
        [⟨.ident "x", 0, 1, 8, 1⟩, ⟨.text "\n", 0, 1, 10, 4⟩, ⟨.punct .plusAssign, 0, 2, 3, 2⟩,
          ⟨.number 31, 0, 2, 6, 4⟩, ⟨.endOfFile, 0, 2, 13, 0⟩] ∧
      Tiled 0 "/*/ **/x \"\\\n\"\t+= 0x1F//;".toList 0 placed := by
  have read : (readAll 0 "/*/ **/x \"\\\n\"\t+= 0x1F//;").outcome.1 =
      some [⟨.ident "x", 0, 1, 8, 1⟩, ⟨.text "\n", 0, 1, 10, 4⟩, ⟨.punct .plusAssign, 0, 2, 3, 2⟩,
        ⟨.number 31, 0, 2, 6, 4⟩, ⟨.endOfFile, 0, 2, 13, 0⟩] := by
    decide +kernel
  obtain ⟨placed, map, tiled, -⟩ := readAll_tiled 0 _ read
  exact ⟨read, placed, map, tiled⟩

end Token

end Lantern
