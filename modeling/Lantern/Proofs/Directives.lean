import Mathlib
import Lantern.Nasm.Data

/-!
# Reading data directives

The operands of a data directive are a list of items between commas: runs in double quotes, which stand
for their own bytes, and bytes as decimal numbers. Reading what is written for some bytes gives these
bytes and the zero behind them. Every run was gathered for as long as it could be, so no run is empty
and no two are neighbours.
-/

namespace Lantern.Nasm

/-! ## A reader -/

/-- Where a reader of operands is. -/
inductive Spot where
  /-- In front of an item. -/
  | item
  /-- Inside quotes, behind the given characters, latest first. -/
  | quoted (run : List Char)
  /-- Inside a number of the given value so far. -/
  | number (value : Nat)
  /-- Behind a run. -/
  | behind

/-- A number as a byte, if it is one. -/
def byte? (n : Nat) : Option Datum := if n < 256 then some (.byte (UInt8.ofNat n)) else none

/-- The items of the operands still to be read. -/
def readItems : Spot → List Char → Option (List Datum)
  | .item, [] | .quoted _, [] => none
  | .number n, [] => (byte? n).map fun d => [d]
  | .behind, [] => some []
  | .item, c :: cs =>
    if c = ' ' then readItems .item cs
    else if c = '"' then readItems (.quoted []) cs
    else if c.isDigit then readItems (.number (c.toNat - '0'.toNat)) cs
    else none
  | .quoted run, c :: cs =>
    if c = '"' then
      (readItems .behind cs).map (.run (run.reverse.flatMap String.utf8EncodeChar) :: ·)
    else readItems (.quoted (c :: run)) cs
  | .number n, c :: cs =>
    if c.isDigit then readItems (.number (10 * n + (c.toNat - '0'.toNat))) cs
    else if c = ',' then
      (byte? n).bind fun d => (readItems .item cs).map (d :: ·)
    else none
  | .behind, c :: cs => if c = ',' then readItems .item cs else none

/-- The bytes that an item stands for. -/
def Datum.bytes : Datum → List UInt8
  | .run bytes => bytes
  | .byte b => [b]

/-- Whether an item is a run in quotes. -/
def Datum.isRun : Datum → Bool
  | .run _ => true
  | .byte _ => false

/-! ## What may be written -/

/-- An item as it may be written: a run has something in it, and nothing that would end it or that is
    not printable. -/
def Datum.Sound : Datum → Prop
  | .run bytes => bytes ≠ [] ∧ ∀ b ∈ bytes, 0x20 ≤ b ∧ b < 0x7F ∧ b ≠ 0x22
  | .byte _ => True

/-- Two items of which one is a byte. -/
def Apart (a b : Datum) : Prop := ¬(a.isRun = true ∧ b.isRun = true)

theorem isQuotable_iff {b : UInt8} : isQuotable b = true ↔ 0x20 ≤ b ∧ b < 0x7F ∧ b ≠ 0x22 := by
  simp [isQuotable, and_assoc]

/-- The items of some bytes, with those of a run before them, stand for all of these bytes. -/
theorem bytes_dataFrom (run bs : List UInt8) :
    (dataFrom run bs).flatMap Datum.bytes = run.reverse ++ bs := by
  fun_induction dataFrom run bs with
  | case1 run none_ => simp [List.isEmpty_iff.mp none_]
  | case2 run some_ => simp [Datum.bytes]
  | case3 run b bs quotable ih => simp [ih]
  | case4 run b bs other none_ ih => simp [ih, List.isEmpty_iff.mp none_, Datum.bytes]
  | case5 run b bs other some_ ih => simp [ih, Datum.bytes]

theorem sound_run {run : List UInt8} (quotable : ∀ b ∈ run, isQuotable b = true)
    (some_ : ¬run.isEmpty = true) : (Datum.run run.reverse).Sound := by
  refine ⟨by simpa using some_, fun b mem => ?_⟩
  exact isQuotable_iff.mp (quotable b (by simpa using mem))

theorem sound_dataFrom {run : List UInt8} (quotable : ∀ b ∈ run, isQuotable b = true)
    (bs : List UInt8) : ∀ d ∈ dataFrom run bs, d.Sound := by
  fun_induction dataFrom run bs with
  | case1 => simp
  | case2 run some_ => simpa using sound_run quotable some_
  | case3 run b bs own ih => exact ih (by simpa using ⟨own, quotable⟩)
  | case4 run b bs other none_ ih => simpa [Datum.Sound] using ih (by simp)
  | case5 run b bs other some_ ih =>
      exact List.forall_mem_cons.mpr
        ⟨sound_run quotable some_, List.forall_mem_cons.mpr ⟨trivial, ih (by simp)⟩⟩

/-- Nothing is told apart from a byte. -/
theorem chain_byte {b : UInt8} {ds : List Datum} (chain : ds.IsChain Apart) :
    (Datum.byte b :: ds).IsChain Apart := by
  cases ds with
  | nil => exact .singleton _
  | cons d ds => exact .cons_cons (by simp [Apart, Datum.isRun]) chain

/-- Behind a run comes a byte or the zero at the end. -/
theorem chain_dataFrom (run bs : List UInt8) (b : UInt8) :
    (dataFrom run bs ++ [Datum.byte b]).IsChain Apart := by
  have behind {r : List UInt8} {c : UInt8} {ds : List Datum}
      (chain : (Datum.byte c :: ds).IsChain Apart) : (Datum.run r :: .byte c :: ds).IsChain Apart :=
    .cons_cons (by simp [Apart, Datum.isRun]) chain
  fun_induction dataFrom run bs with
  | case1 => exact chain_byte .nil
  | case2 => exact behind (chain_byte .nil)
  | case3 run c bs quotable ih => exact ih
  | case4 run c bs other none_ ih => exact chain_byte ih
  | case5 run c bs other some_ ih => exact behind (chain_byte ih)

/-! ## Reading items back -/

/-- The character of a byte that may stand in quotes. -/
theorem char_of_quotable {b : UInt8} (quotable : isQuotable b = true) :
    (Char.ofNat b.toNat).toNat = b.toNat ∧ Char.ofNat b.toNat ≠ '"' ∧
      String.utf8EncodeChar (Char.ofNat b.toNat) = [b] := by
  obtain ⟨-, high, other⟩ := isQuotable_iff.mp quotable
  have high : b.toNat < 0x7F := UInt8.lt_iff_toNat_lt.mp high
  have same : (Char.ofNat b.toNat).toNat = b.toNat := by
    rw [Char.toNat_ofNat, if_pos (.inl (by omega))]
  refine ⟨same, fun quote => other (UInt8.toNat_inj.mp ?_), ?_⟩
  · rw [← same, quote]
    rfl
  · have value : (Char.ofNat b.toNat).val.toNat = b.toNat := same
    simp only [String.utf8EncodeChar, value, show b.toNat ≤ 127 by omega, if_true, UInt8.ofNat_toNat]

/-- What may stand behind an item. -/
def Closes (tail : List Char) : Prop := ∀ c ∈ tail.head?, c = ','

theorem readItems_quoted {cs : List Char} (free : ∀ c ∈ cs, c ≠ '"') (run tail : List Char) :
    readItems (.quoted run) (cs ++ '"' :: tail) =
      (readItems .behind tail).map (.run ((run.reverse ++ cs).flatMap String.utf8EncodeChar) :: ·) := by
  induction cs generalizing run with
  | nil => simp [readItems]
  | cons c cs ih =>
      obtain ⟨own, others⟩ := List.forall_mem_cons.mp free
      simp [readItems, own, ih others]

theorem readItems_digits {ds : List Char} (digits : ∀ c ∈ ds, c.isDigit) (n : Nat) (tail : List Char) :
    readItems (.number n) (ds ++ tail) = readItems (.number (Nat.ofDigitChars 10 ds n)) tail := by
  induction ds generalizing n with
  | nil => rfl
  | cons d ds ih =>
      obtain ⟨own, others⟩ := List.forall_mem_cons.mp digits
      simp only [List.cons_append, readItems, own, if_true, ih others, Nat.ofDigitChars_cons]

theorem readItems_number {n : Nat} {d : Datum} (isByte : byte? n = some d) {tail : List Char}
    (closes : Closes tail) :
    readItems (.number n) tail = (readItems .behind tail).map (d :: ·) := by
  cases tail with
  | nil => simp [readItems, isByte]
  | cons c tail =>
      obtain rfl : c = ',' := closes c rfl
      simp [readItems, isByte, show ','.isDigit = false by decide]

/-- A written item is read as itself. -/
theorem readItems_text {d : Datum} (sound : d.Sound) {tail : List Char} (closes : Closes tail) :
    readItems .item (d.text.toList ++ tail) = (readItems .behind tail).map (d :: ·) := by
  cases d with
  | run bytes =>
      obtain ⟨-, quotable⟩ := sound
      have quotable : ∀ b ∈ bytes, isQuotable b = true := fun b mem => isQuotable_iff.mpr (quotable b mem)
      have free : ∀ c ∈ bytes.map fun b => Char.ofNat b.toNat, c ≠ '"' := by
        simpa using fun b mem => (char_of_quotable (quotable b mem)).2.1
      have back : (bytes.map fun b => Char.ofNat b.toNat).flatMap String.utf8EncodeChar = bytes := by
        rw [List.flatMap_map]
        calc bytes.flatMap (fun b => String.utf8EncodeChar (Char.ofNat b.toNat))
            = bytes.flatMap (fun b => [b]) :=
              List.flatMap_congr fun b mem => (char_of_quotable (quotable b mem)).2.2
          _ = bytes := by simp
      have read := readItems_quoted free [] tail
      rw [List.reverse_nil, List.nil_append, back] at read
      simpa [Datum.text, readItems] using read
  | byte b =>
      have digits : ∀ c ∈ Nat.toDigits 10 b.toNat, c.isDigit :=
        fun c => Nat.isDigit_of_mem_toDigits (by decide) (by decide)
      have value : Nat.ofDigitChars 10 (Nat.toDigits 10 b.toNat) 0 = b.toNat :=
        Nat.ofDigitChars_toDigits (by decide) (by decide)
      have isByte : byte? b.toNat = some (.byte b) := by
        simp [byte?, b.toNat_lt]
      have written : (Datum.byte b).text.toList = Nat.toDigits 10 b.toNat := Nat.toList_repr
      obtain ⟨c, cs, eq⟩ := List.exists_cons_of_ne_nil (Nat.toDigits_ne_nil (n := b.toNat) (b := 10))
      rw [written, eq, List.cons_append]
      rw [eq] at digits value
      obtain ⟨own, others⟩ := List.forall_mem_cons.mp digits
      have noBlank : c ≠ ' ' := by rintro rfl; exact absurd own (by decide)
      have noQuote : c ≠ '"' := by rintro rfl; exact absurd own (by decide)
      rw [Nat.ofDigitChars_cons, Nat.mul_zero, Nat.zero_add] at value
      simp only [readItems, noBlank, noQuote, own, if_true, if_false, readItems_digits others, value]
      exact readItems_number isByte closes

theorem toList_operands (ds : List Datum) : (", ".intercalate (ds.map Datum.text)).toList =
    [',', ' '].intercalate (ds.map fun d => d.text.toList) := by
  simp [String.toList_intercalate, Function.comp_def]

/-- Written items are read as themselves. -/
theorem readItems_intercalate {ds : List Datum} (sound : ∀ d ∈ ds, d.Sound) (some_ : ds ≠ []) :
    readItems .item (", ".intercalate (ds.map Datum.text)).toList = some ds := by
  rw [toList_operands]
  induction ds with
  | nil => exact absurd rfl some_
  | cons d ds ih =>
      obtain ⟨own, others⟩ := List.forall_mem_cons.mp sound
      cases ds with
      | nil =>
          have last : Closes [] := nofun
          have read := readItems_text own last
          simpa [readItems] using read
      | cons e ds =>
          rw [List.map_cons, List.intercalate_cons_of_ne_nil (by simp), List.append_assoc,
            readItems_text own (by simp [Closes])]
          simp only [List.cons_append, List.nil_append, readItems, if_true, ih others nofun, Option.map_some]

/-! ## What is written -/

/-- A character that is printable by itself. -/
def Plain (c : Char) : Prop := c ≠ '\n' ∧ 0x20 ≤ c.toNat ∧ c.toNat < 0x7F

theorem plain_of_toNat {c : Char} (low : 0x20 ≤ c.toNat) (high : c.toNat < 0x7F) : Plain c := by
  refine ⟨?_, low, high⟩
  rintro rfl
  exact absurd low (by decide)

theorem plain_text {d : Datum} (sound : d.Sound) : ∀ c ∈ d.text.toList, Plain c := by
  intro c mem
  cases d with
  | run bytes =>
      simp only [Datum.text, String.toList_append, String.toList_ofList, List.mem_append] at mem
      rcases mem with (mem | mem) | mem
      · rw [List.mem_singleton.mp mem]
        exact plain_of_toNat (by decide) (by decide)
      · obtain ⟨b, inside, rfl⟩ := List.mem_map.mp mem
        obtain ⟨low, high, other⟩ := sound.2 b inside
        have same := (char_of_quotable (isQuotable_iff.mpr ⟨low, high, other⟩)).1
        refine plain_of_toNat ?_ ?_
        · rw [same]
          exact UInt8.le_iff_toNat_le.mp low
        · rw [same]
          exact UInt8.lt_iff_toNat_lt.mp high
      · rw [List.mem_singleton.mp mem]
        exact plain_of_toNat (by decide) (by decide)
  | byte b =>
      have mem : c ∈ Nat.toDigits 10 b.toNat := by rwa [← Nat.toList_repr]
      have digit : c.isDigit := Nat.isDigit_of_mem_toDigits (by decide) (by decide) mem
      obtain ⟨low, high⟩ := Char.isDigit_iff_toNat.mp digit
      have low : 48 ≤ c.toNat := low
      have high : c.toNat ≤ 57 := high
      exact plain_of_toNat (by omega) (by omega)

theorem plain_intercalate {ds : List Datum} (sound : ∀ d ∈ ds, d.Sound) :
    ∀ c ∈ (", ".intercalate (ds.map Datum.text)).toList, Plain c := by
  rw [toList_operands]
  induction ds with
  | nil => simp
  | cons d ds ih =>
      obtain ⟨own, others⟩ := List.forall_mem_cons.mp sound
      cases ds with
      | nil => simpa using plain_text own
      | cons e ds =>
          intro c mem
          rw [List.map_cons, List.intercalate_cons_of_ne_nil (by simp), List.append_assoc,
            List.mem_append, List.mem_append] at mem
          rcases mem with mem | mem | mem
          · exact plain_text own c mem
          · have both : c = ',' ∨ c = ' ' := by simpa using mem
            rcases both with rfl | rfl <;> exact plain_of_toNat (by decide) (by decide)
          · exact ih others c mem

/-- The operands written for any bytes stand on one line, in printable characters; they are read as
    items that stand for these bytes and a zero; and a run has something in it, no quote among that,
    and no run for a neighbour. -/
theorem bytesData_read (bytes : List UInt8) :
    (∀ c ∈ (bytesData bytes).toList, c ≠ '\n' ∧ 0x20 ≤ c.toNat ∧ c.toNat < 0x7F) ∧
    ∃ items, readItems .item (bytesData bytes).toList = some items ∧
      items.flatMap Datum.bytes = bytes ++ [0] ∧
      (∀ run, .run run ∈ items → run ≠ [] ∧ ∀ b ∈ run, 0x20 ≤ b ∧ b < 0x7F ∧ b ≠ 0x22) ∧
      items.IsChain fun a b => ¬(a.isRun = true ∧ b.isRun = true) := by
  have sound : ∀ d ∈ dataOf bytes, d.Sound := by
    intro d mem
    rcases List.mem_append.mp mem with mem | mem
    · exact sound_dataFrom (by simp) bytes d mem
    · rw [List.mem_singleton.mp mem]
      trivial
  refine ⟨plain_intercalate sound, dataOf bytes, readItems_intercalate sound (by simp [dataOf]),
    ?_, fun run mem => sound _ mem, chain_dataFrom [] bytes 0⟩
  simp [dataOf, bytes_dataFrom, Datum.bytes]

/-- A comma and what looks like a number inside of quotes belong to the run. -/
example : readItems .item "\"1, 2\", 34, 10, 0".toList =
    some [.run [49, 44, 32, 50], .byte 34, .byte 10, .byte 0] := by decide

end Lantern.Nasm
