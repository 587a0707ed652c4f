import Mathlib.Algebra.Ring.Int.Defs
import Mathlib.Algebra.Ring.Nat
import RobotScript.Proofs.RoundTrip
import RobotScript.Proofs.Scanner

/-!
# Integers as they are written

A numeral is an optional minus sign and digits, leading zeros and any length allowed. What it
denotes is said digit by digit from their places, not in the way in which it is read.

* `Numeral.numberText_iff`: the texts of numerals are the lexemes of kind `number`.
* `Numeral.int32?_text`: a numeral is read as the integer it denotes, if that has 32 bits.
* `Expr.parse_eq_number_iff`: a text is read as a number exactly if it is a numeral between
  separators.
* `numerals_are_read_exactly`: what becomes of every numeral, and of every 32-bit integer.
-/

namespace RobotScript

open Grammar Reader Scan

/-- **A numeral**: an optional minus sign and one or more digits. -/
structure Numeral where
  negative : Bool
  digits : List (Fin 10)
  filled : digits ≠ []

namespace Numeral

/-- What digits amount to: each counts ten to the power of the number of digits after it. -/
def magnitude : List (Fin 10) → Nat
  | [] => 0
  | d :: ds => d * 10 ^ ds.length + magnitude ds

/-- **The integer that a numeral denotes.** -/
def value (n : Numeral) : Int := if n.negative then -(magnitude n.digits) else magnitude n.digits

/-- The character of a digit. -/
def char (d : Fin 10) : Char := Nat.digitChar d

def chars (n : Numeral) : List Char := n.digits.map char

/-- The text of a numeral. -/
def text (n : Numeral) : String := (if n.negative then "-" else "") ++ String.ofList n.chars

variable (n : Numeral)

theorem toList_text : n.text.toList = if n.negative then '-' :: n.chars else n.chars := by
  unfold text
  cases n.negative <;> simp

theorem chars_ne_nil : n.chars ≠ [] := by
  unfold chars
  simpa using n.filled

theorem isDigit_of_mem_chars {c : Char} (h : c ∈ n.chars) : c.isDigit = true := by
  obtain ⟨d, -, rfl⟩ := List.mem_map.1 h
  rw [char, Nat.isDigit_digitChar]
  exact decide_eq_true d.isLt

/-- A digit is the character of a number below ten. -/
theorem exists_digit {c : Char} (h : '0' ≤ c ∧ c ≤ '9') : ∃ d, char d = c := by
  have hlow : 48 ≤ c.toNat := h.1
  have hhigh : c.toNat ≤ 57 := h.2
  refine ⟨⟨c.toNat - 48, by omega⟩, Char.toNat_inj.1 ?_⟩
  show (Nat.digitChar (c.toNat - 48)).toNat = c.toNat
  rw [Nat.toNat_digitChar_of_lt_ten (by omega)]
  omega

theorem exists_digits {cs : List Char} (h : ∀ c ∈ cs, '0' ≤ c ∧ c ≤ '9') :
    ∃ ds : List (Fin 10), ds.map char = cs := by
  induction cs with
  | nil => exact ⟨[], rfl⟩
  | cons c cs ih =>
    obtain ⟨hc, hcs⟩ := List.forall_mem_cons.1 h
    obtain ⟨d, rfl⟩ := exists_digit hc
    obtain ⟨ds, rfl⟩ := ih hcs
    exact ⟨d :: ds, rfl⟩

/-- **The texts of numerals** are an optional minus sign and one or more digits. -/
theorem numberText_iff (s : String) : NumberText s ↔ ∃ n : Numeral, n.text = s := by
  constructor
  · rintro ⟨cs, heq, hne, hcs⟩
    obtain ⟨ds, rfl⟩ := exists_digits hcs
    have hfilled : ds ≠ [] := by simpa using hne
    rcases heq with heq | heq
    · refine ⟨⟨false, ds, hfilled⟩, String.toList_inj.1 ?_⟩
      rw [heq, toList_text]; rfl
    · refine ⟨⟨true, ds, hfilled⟩, String.toList_inj.1 ?_⟩
      rw [heq, toList_text]; rfl
  · rintro ⟨n, rfl⟩
    refine ⟨n.chars, ?_, n.chars_ne_nil, fun d hd => ?_⟩
    · rw [toList_text]
      cases n.negative
      · exact .inl rfl
      · exact .inr rfl
    · exact (Kind.isDigit_iff d).1 (n.isDigit_of_mem_chars hd)

theorem isWord_text : IsWord n.text := by
  have hall : n.chars.all isPlain = true :=
    List.all_eq_true.2 fun c hc => isPlain_of_isDigit (n.isDigit_of_mem_chars hc)
  unfold IsWord
  rw [toList_text]
  split
  · refine ⟨List.cons_ne_nil _ _, ?_⟩
    rw [List.all_cons, hall]; rfl
  · exact ⟨n.chars_ne_nil, hall⟩

theorem classify_text : Kind.classify n.text = .number :=
  (Kind.classify_eq_number_iff _).2 ((numberText_iff _).2 ⟨n, rfl⟩)

/-- **Reading digits from the left**: what was read before moves up by as many places as there are
digits. -/
theorem ofDigitChars_digits (ds : List (Fin 10)) (before : Nat) :
    Nat.ofDigitChars 10 (ds.map char) before =
      before * 10 ^ ds.length + magnitude ds := by
  induction ds generalizing before with
  | nil => simp [magnitude]
  | cons d ds ih =>
    rw [List.map_cons, char, Nat.ofDigitChars_cons_digitChar_of_lt_ten d.isLt, ih, magnitude,
      List.length_cons, Nat.add_mul, Nat.pow_succ]
    have hplaces : 10 * before * 10 ^ ds.length = before * (10 ^ ds.length * 10) := by
      rw [Nat.mul_comm 10 before, Nat.mul_assoc, Nat.mul_comm 10]
    omega

theorem digits?_chars : Decimal.digits? n.chars = some (magnitude n.digits) := by
  have hvalue : Nat.ofDigitChars 10 n.chars 0 = magnitude n.digits := by
    have hread := ofDigitChars_digits n.digits 0
    rwa [Nat.zero_mul, Nat.zero_add] at hread
  rw [Decimal.digits?_of_digits n.chars_ne_nil fun c hc => n.isDigit_of_mem_chars hc, hvalue]

theorem int?_text : Decimal.int? n.text.toList = some n.value := by
  unfold value
  rw [toList_text]
  cases n.negative with
  | true =>
    show (Decimal.digits? n.chars).map (fun m => -(m : Int)) = _
    rw [digits?_chars]; rfl
  | false =>
    show Decimal.int? n.chars = _
    rw [Decimal.int?_of_digits fun c hc => n.isDigit_of_mem_chars hc, digits?_chars]; rfl

/-- **A numeral is read as the integer it denotes**, if that has 32 bits. -/
theorem int32?_text : Decimal.int32? n.text =
    if -2 ^ 31 ≤ n.value ∧ n.value < 2 ^ 31 then some (Int32.ofInt n.value) else none := by
  have hrange : (Int32.minValue.toInt ≤ n.value ∧ n.value ≤ Int32.maxValue.toInt) ↔
      (-2 ^ 31 ≤ n.value ∧ n.value < 2 ^ 31) := by
    have hmin : Int32.minValue.toInt = -2 ^ 31 := by decide
    have hmax : Int32.maxValue.toInt = 2 ^ 31 - 1 := by decide
    rw [hmin, hmax]
    omega
  unfold Decimal.int32?
  rw [int?_text, Option.bind_some]
  unfold Decimal.toInt32?
  by_cases h : -2 ^ 31 ≤ n.value ∧ n.value < 2 ^ 31
  · rw [if_pos h, if_pos (hrange.2 h)]
  · rw [if_neg h, if_neg (mt hrange.1 h)]

theorem int32?_text_iff (value : Int32) :
    Decimal.int32? n.text = some value ↔ value.toInt = n.value := by
  rw [int32?_text]
  constructor
  · intro h
    split at h
    · rename_i hrange
      cases h
      exact Int32.toInt_ofInt_of_le hrange.1 hrange.2
    · cases h
  · intro h
    have hmin := value.le_toInt
    have hmax := value.toInt_lt
    rw [← h, if_pos ⟨hmin, hmax⟩, Int32.ofInt_toInt]

end Numeral

/-- A text is one lexeme, which is a word, if the word stands in it between separators. -/
theorem lexemes_eq_singleton_iff {l : String} (hl : IsWord l) (text : String) :
    lexemes text = [l] ↔ ∃ before after, Gap before ∧ Gap after ∧ text = before ++ l ++ after := by
  constructor
  · intro h
    obtain ⟨-, gaps, hlaid⟩ := (lexemes_eq_iff text [l]).1 h
    obtain ⟨before, more, rfl⟩ := hlaid.exists_gap
    have hbefore := (List.forall_mem_cons.1 hlaid.gap).1
    obtain ⟨rest, rfl, hrest⟩ := hlaid.tail
    obtain ⟨after, more, rfl⟩ := hrest.exists_gap
    have hafter := (List.forall_mem_cons.1 hrest.gap).1
    refine ⟨before, after, hbefore, hafter, ?_⟩
    rw [hrest.text_eq, weave]
  · rintro ⟨before, after, hbefore, hafter, rfl⟩
    have hlaid : Laid (before ++ l ++ after) [before, after] [l] :=
      (laid_nil hafter).cons hbefore fun _ h => by cases h
    refine lexemes_of_laid hlaid fun l' hl' => ?_
    rw [List.mem_singleton.1 hl']
    exact (legal_iff l).2 (.inr hl)

/-- A text is read as a number if it is one lexeme, of that kind and with that value. -/
theorem Expr.parse_eq_number {text : String} {value : Int32} :
    Expr.parse text = .ok (.number value) ↔
      ∃ l, Scan.lexemes text = [l] ∧ Kind.classify l = .number ∧
        Decimal.int32? l = some value := by
  rw [Expr.parse_eq_ok_iff]
  unfold Token.scan
  constructor
  · rintro ⟨hderives, -⟩
    generalize hts : (Scan.lexemes text).map Token.ofLexeme = ts at hderives
    cases hderives with
    | @number t _ kind reads =>
      obtain ⟨l, hl, rfl⟩ := List.map_eq_singleton_iff.1 hts
      exact ⟨l, hl, kind, reads⟩
  · rintro ⟨l, hl, hkind, hvalue⟩
    rw [hl]
    exact ⟨.number hkind hvalue, by simp [Expr.depth]⟩

/-- **A text is read as a number** exactly if it is a numeral between separators. -/
theorem Expr.parse_eq_number_iff (text : String) (value : Int32) :
    Expr.parse text = .ok (.number value) ↔ ∃ before after, ∃ n : Numeral,
      Gap before ∧ Gap after ∧ text = before ++ n.text ++ after ∧ value.toInt = n.value := by
  rw [Expr.parse_eq_number]
  constructor
  · rintro ⟨l, hl, hkind, hvalue⟩
    have htext : NumberText l := (Kind.classify_eq_number_iff l).1 hkind
    obtain ⟨n, rfl⟩ := (Numeral.numberText_iff l).1 htext
    obtain ⟨before, after, hbefore, hafter, rfl⟩ := (lexemes_eq_singleton_iff n.isWord_text _).1 hl
    exact ⟨before, after, n, hbefore, hafter, rfl, (n.int32?_text_iff value).1 hvalue⟩
  · rintro ⟨before, after, n, hbefore, hafter, htext, hvalue⟩
    refine ⟨n.text, ?_, n.classify_text, (n.int32?_text_iff value).2 hvalue⟩
    exact (lexemes_eq_singleton_iff n.isWord_text text).2 ⟨before, after, hbefore, hafter, htext⟩

/-- A number token that is no 32-bit integer is left in place. -/
theorem Grammar.wholeExpression_notInteger {t : Token} (hkind : t.kind = .number)
    (hvalue : Decimal.int32? t.lexeme = none) :
    wholeExpression [t] = .error .notInteger [t] := by
  have hnumber : (number : Reader Expr) [t] = .error .notInteger [t] :=
    number_cons_none (by rw [if_pos hkind, hvalue]) []
  have hexpr : (expression maxNesting : Reader Expr) [t] = .error .notInteger [t] := by
    rw [maxNesting, expression, nested_eq, peekKind_cons hkind]
    exact hnumber
  rw [wholeExpression, whole, bind_eq_of_error hexpr]

/-- **Numerals are read exactly.** A numeral of any length is read as the integer it denotes if that
has 32 bits, and is refused by name otherwise. A text is read as a number only if it is a numeral
between separators, and every 32-bit integer is read from its own text. -/
theorem numerals_are_read_exactly :
    (∀ s, NumberText s ↔ ∃ n : Numeral, n.text = s) ∧
    (∀ n : Numeral, Expr.parse n.text =
      if -2 ^ 31 ≤ n.value ∧ n.value < 2 ^ 31 then .ok (.number (Int32.ofInt n.value))
      else .error (.parse "not a valid integer" [n.text])) ∧
    (∀ text value, Expr.parse text = .ok (.number value) ↔ ∃ before after, ∃ n : Numeral,
      Gap before ∧ Gap after ∧ text = before ++ n.text ++ after ∧ value.toInt = n.value) ∧
    (∀ value : Int32, Expr.parse (Decimal.ofInt value.toInt) = .ok (.number value)) := by
  refine ⟨Numeral.numberText_iff, fun n => ?_, Expr.parse_eq_number_iff, fun value => ?_⟩
  · have hlexemes : lexemes n.text = [n.text] := (cut_word n.isWord_text).lexemes_eq
    have hread := n.int32?_text
    split
    · rename_i hrange
      rw [if_pos hrange] at hread
      exact Expr.parse_eq_number.2 ⟨n.text, hlexemes, n.classify_text, hread⟩
    · rename_i hrange
      rw [if_neg hrange] at hread
      have hfault := wholeExpression_notInteger (t := Token.ofLexeme n.text) n.classify_text hread
      have hscan : Token.scan n.text = [Token.ofLexeme n.text] := by
        rw [Token.scan, hlexemes]; rfl
      unfold Expr.parse Parser.ofText Parser.expression
      rw [hscan, Parser.call_of_error hfault]; rfl
  · have hwritable : (Expr.number value).Writable := trivial
    exact (Expr.parse_render_iff (.number value)).2 ⟨hwritable, by simp [Expr.depth]⟩

end RobotScript
