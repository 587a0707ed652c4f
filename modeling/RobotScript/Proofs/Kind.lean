import RobotScript.Token
import RobotScript.Proofs.Decimal

/-!
# Which lexemes have which kind

* `VariableName`: a dollar sign, a letter, then letters and digits.
* `NumberText`: an optional minus sign, then digits.
* `Fits`: what the lexemes of a kind look like, said without regard to any order of tests.
* `fits_classify`, `Fits.unique`: a lexeme looks like the kind it is given, and like no other one.
* `classify_eq_var_iff`, `classify_eq_number_iff`: so the variables are the variable names, and the
  numbers are the texts of digits.
* `classify_sensor` and so on: a reserved word has the kind that carries it.
* `classify_ofInt`: the text of an integer is a number.
-/

namespace RobotScript

/-- An ASCII letter. -/
def IsLetter (c : Char) : Prop := ('A' ≤ c ∧ c ≤ 'Z') ∨ ('a' ≤ c ∧ c ≤ 'z')

/-- A dollar sign, a letter, then letters and digits to the end. -/
def VariableName (s : String) : Prop :=
  ∃ c cs, s.toList = '$' :: c :: cs ∧ IsLetter c ∧
    ∀ d ∈ cs, IsLetter d ∨ ('0' ≤ d ∧ d ≤ '9')

/-- An optional minus sign, then one or more digits to the end. -/
def NumberText (s : String) : Prop :=
  ∃ ds, (s.toList = ds ∨ s.toList = '-' :: ds) ∧ ds ≠ [] ∧ ∀ d ∈ ds, '0' ≤ d ∧ d ≤ '9'

namespace Kind

theorem isAlpha_iff (c : Char) : c.isAlpha = true ↔ IsLetter c := by
  show (decide ('A'.val ≤ c.val ∧ c.val ≤ 'Z'.val) ||
    (decide ('a'.val ≤ c.val) && decide (c.val ≤ 'z'.val))) = true ↔ _
  rw [Bool.or_eq_true, Bool.and_eq_true, decide_eq_true_iff, decide_eq_true_iff,
    decide_eq_true_iff]
  rfl

theorem isDigit_iff (c : Char) : c.isDigit = true ↔ '0' ≤ c ∧ c ≤ '9' := by
  show (decide ('0'.val ≤ c.val) && decide (c.val ≤ '9'.val)) = true ↔ _
  rw [Bool.and_eq_true, decide_eq_true_iff, decide_eq_true_iff]
  rfl

theorem isVariable_iff (s : String) : isVariable s.toList = true ↔ VariableName s := by
  unfold VariableName
  constructor
  · intro h
    unfold isVariable at h
    split at h
    · rename_i c cs heq
      rw [Bool.and_eq_true, List.all_eq_true, isAlpha_iff] at h
      refine ⟨c, cs, heq, h.1, fun d hd => ?_⟩
      have hd := h.2 d hd
      rwa [Char.isAlphanum, Bool.or_eq_true, isAlpha_iff, isDigit_iff] at hd
    · cases h
  · rintro ⟨c, cs, heq, hc, hcs⟩
    rw [heq]
    simp only [isVariable]
    rw [Bool.and_eq_true, List.all_eq_true, isAlpha_iff]
    refine ⟨hc, fun d hd => ?_⟩
    rw [Char.isAlphanum, Bool.or_eq_true, isAlpha_iff, isDigit_iff]
    exact hcs d hd

theorem isNumber_of_digits {ds : List Char} (h : ∀ d ∈ ds, d.isDigit = true) :
    isNumber ds = (!ds.isEmpty && ds.all Char.isDigit) := by
  unfold isNumber
  split
  · exact absurd (h _ List.mem_cons_self) (by decide)
  · rfl

theorem isNumber_iff (s : String) : isNumber s.toList = true ↔ NumberText s := by
  have hrun : ∀ ds : List Char, (!ds.isEmpty && ds.all Char.isDigit) = true ↔
      ds ≠ [] ∧ ∀ d ∈ ds, '0' ≤ d ∧ d ≤ '9' := by
    intro ds
    simp [List.all_eq_true, isDigit_iff]
  constructor
  · intro h
    unfold isNumber at h
    split at h
    · rename_i ds heq
      exact ⟨ds, .inr heq, (hrun ds).1 h⟩
    · exact ⟨s.toList, .inl rfl, (hrun _).1 h⟩
  · rintro ⟨ds, heq | heq, hne, hds⟩
    · rw [heq, isNumber_of_digits fun d hd => (isDigit_iff d).2 (hds d hd)]
      exact (hrun ds).2 ⟨hne, hds⟩
    · rw [heq]
      exact (hrun ds).2 ⟨hne, hds⟩

theorem head_of_variableName {s : String} (h : VariableName s) : s.toList.head? = some '$' := by
  obtain ⟨c, cs, heq, -⟩ := h
  rw [heq]; rfl

theorem head_of_numberText {s : String} (h : NumberText s) :
    ∃ c, s.toList.head? = some c ∧ (c = '-' ∨ c.isDigit = true) := by
  obtain ⟨ds, heq | heq, hne, hds⟩ := h
  · obtain ⟨d, ds, rfl⟩ := List.exists_cons_of_ne_nil hne
    exact ⟨d, by rw [heq]; rfl, .inr ((isDigit_iff d).2 (hds d List.mem_cons_self))⟩
  · exact ⟨'-', by rw [heq]; rfl, .inl rfl⟩

theorem not_variableName {s : String} (h : NumberText s) : ¬ VariableName s := by
  intro hname
  obtain ⟨c, hc, hsign⟩ := head_of_numberText h
  rw [head_of_variableName hname] at hc
  cases hc
  rcases hsign with hsign | hsign <;> exact absurd hsign (by decide)

/-- How a reserved word or sign is spelled; the other kinds have no spelling of their own. -/
def spelling? : Kind → Option String
  | .action w => some (Word.spelling w)
  | .sensor w => some (Word.spelling w)
  | .operator w => some (Word.spelling w)
  | .relop w => some (Word.spelling w)
  | .combinator w => some (Word.spelling w)
  | .loop => some "loop"
  | .ifWord => some "if"
  | .elifWord => some "elif"
  | .elseWord => some "else"
  | .whileWord => some "while"
  | .assign => some "="
  | .leftParen => some "("
  | .rightParen => some ")"
  | .leftBrace => some "\x7b"
  | .rightBrace => some "\x7d"
  | .comma => some ","
  | .semicolon => some ";"
  | .var | .number | .word => none

theorem spelling?_reserved : (reserved.all fun p => p.2.spelling? == some p.1) = true := by decide

/-- **A reserved word or sign is recognised by its spelling** and by nothing else. -/
theorem lookup_reserved_iff {s : String} {kind : Kind} :
    reserved.lookup s = some kind ↔ kind.spelling? = some s := by
  constructor
  · intro h
    obtain ⟨l₁, l₂, heq, -⟩ := List.lookup_eq_some_iff.1 h
    have hmem : (s, kind) ∈ reserved := by rw [heq]; simp
    exact beq_iff_eq.1 (List.all_eq_true.1 spelling?_reserved _ hmem)
  · intro h
    cases kind with
    | action w | sensor w | operator w | relop w | combinator w =>
      cases h
      cases w <;> decide
    | var | number | word => cases h
    | _ => cases h; decide

/-- The word does not begin like a variable or a number. -/
def apart (word : String) : Bool :=
  word.toList.head?.all fun c => c != '$' && c != '-' && !c.isDigit

theorem apart_reserved : (reserved.all fun p => apart p.1) = true := by decide

/-- No reserved word or sign begins like a variable or a number. -/
theorem head_of_spelling {s : String} {kind : Kind} {c : Char} (h : kind.spelling? = some s)
    (hc : s.toList.head? = some c) : c ≠ '$' ∧ c ≠ '-' ∧ c.isDigit = false := by
  obtain ⟨l₁, l₂, heq, -⟩ := List.lookup_eq_some_iff.1 (lookup_reserved_iff.2 h)
  have hmem : (s, kind) ∈ reserved := by rw [heq]; simp
  have hapart := List.all_eq_true.1 apart_reserved _ hmem
  simp only [apart, hc, Option.all_some, Bool.and_eq_true, bne_iff_ne, Bool.not_eq_true'] at hapart
  obtain ⟨⟨hdollar, hminus⟩, hdigit⟩ := hapart
  exact ⟨hdollar, hminus, hdigit⟩

/-- **What the lexemes of a kind look like.** A plain word is what looks like no other kind. -/
inductive Fits (s : String) : Kind → Prop
  | reserved {kind : Kind} (spelled : kind.spelling? = some s) : Fits s kind
  | var (name : VariableName s) : Fits s .var
  | number (text : NumberText s) : Fits s .number
  | word (free : ∀ kind : Kind, kind.spelling? ≠ some s) (name : ¬ VariableName s)
      (text : ¬ NumberText s) : Fits s .word

variable {s : String} {kind kind' : Kind}

theorem not_variableName_of_spelling (h : kind.spelling? = some s) : ¬ VariableName s := by
  intro hname
  exact (head_of_spelling h (head_of_variableName hname)).1 rfl

theorem not_numberText_of_spelling (h : kind.spelling? = some s) : ¬ NumberText s := by
  intro htext
  obtain ⟨c, hc, hsign⟩ := head_of_numberText htext
  obtain ⟨-, hminus, hdigit⟩ := head_of_spelling h hc
  rcases hsign with hsign | hsign
  · exact hminus hsign
  · rw [hdigit] at hsign
    cases hsign

/-- A lexeme looks like the kind it is given. -/
theorem fits_classify (s : String) : (classify s).Fits s := by
  unfold classify
  split
  · rename_i kind hlookup
    exact .reserved (lookup_reserved_iff.1 hlookup)
  · rename_i hnone
    have hfree : ∀ kind : Kind, kind.spelling? ≠ some s := by
      intro kind hspelled
      rw [lookup_reserved_iff.2 hspelled] at hnone
      cases hnone
    by_cases hname : isVariable s.toList = true
    · rw [if_pos hname]
      exact .var ((isVariable_iff s).1 hname)
    · rw [if_neg hname]
      by_cases htext : isNumber s.toList = true
      · rw [if_pos htext]
        exact .number ((isNumber_iff s).1 htext)
      · rw [if_neg htext]
        exact .word hfree (mt (isVariable_iff s).2 hname) (mt (isNumber_iff s).2 htext)

/-- **A lexeme looks like one kind only.** -/
theorem Fits.unique (h : kind.Fits s) (h' : kind'.Fits s) : kind = kind' := by
  cases h with
  | reserved spelled =>
    cases h' with
    | reserved spelled' =>
      have hlookup := lookup_reserved_iff.2 spelled
      rw [lookup_reserved_iff.2 spelled'] at hlookup
      exact (Option.some.inj hlookup).symm
    | var name => exact absurd name (not_variableName_of_spelling spelled)
    | number text => exact absurd text (not_numberText_of_spelling spelled)
    | word free => exact absurd spelled (free _)
  | var name =>
    cases h' with
    | reserved spelled => exact absurd name (not_variableName_of_spelling spelled)
    | var => rfl
    | number text => exact absurd name (not_variableName text)
    | word _ free => exact absurd name free
  | number text =>
    cases h' with
    | reserved spelled => exact absurd text (not_numberText_of_spelling spelled)
    | var name => exact absurd name (not_variableName text)
    | number => rfl
    | word _ _ free => exact absurd text free
  | word free name text =>
    cases h' with
    | reserved spelled => exact absurd spelled (free _)
    | var name' => exact absurd name' name
    | number text' => exact absurd text' text
    | word => rfl

theorem classify_eq_iff (s : String) (kind : Kind) : classify s = kind ↔ kind.Fits s := by
  constructor
  · rintro rfl
    exact fits_classify s
  · intro h
    exact (fits_classify s).unique h

/-- **The variables are the variable names.** -/
theorem classify_eq_var_iff (s : String) : classify s = .var ↔ VariableName s := by
  rw [classify_eq_iff]
  constructor
  · intro h
    cases h with
    | reserved spelled => cases spelled
    | var name => exact name
  · exact .var

/-- **The numbers are the texts of digits**, with or without a minus sign. -/
theorem classify_eq_number_iff (s : String) : classify s = .number ↔ NumberText s := by
  rw [classify_eq_iff]
  constructor
  · intro h
    cases h with
    | reserved spelled => cases spelled
    | number text => exact text
  · exact .number

theorem classify_of_spelling (h : kind.spelling? = some s) : classify s = kind :=
  (classify_eq_iff s kind).2 (.reserved h)

theorem classify_sensor (word : Sensor) : classify (Word.spelling word) = .sensor word :=
  classify_of_spelling rfl

theorem classify_operator (op : ArithOp) : classify (Word.spelling op) = .operator op :=
  classify_of_spelling rfl

theorem classify_relop (op : Relop) : classify (Word.spelling op) = .relop op :=
  classify_of_spelling rfl

theorem classify_combinator (word : Combinator) :
    classify (Word.spelling word) = .combinator word :=
  classify_of_spelling rfl

theorem classify_action (word : Action) : classify (Word.spelling word) = .action word :=
  classify_of_spelling rfl

/-- **The text of an integer is a number.** -/
theorem classify_ofInt (i : Int) : classify (Decimal.ofInt i) = .number := by
  rw [classify_eq_number_iff, ← isNumber_iff]
  have hne : (Nat.toDigits 10 i.natAbs).isEmpty = false := by
    rw [List.isEmpty_eq_false_iff]; exact Nat.toDigits_ne_nil
  have hall : (Nat.toDigits 10 i.natAbs).all Char.isDigit = true :=
    List.all_eq_true.2 fun c hc => Decimal.isDigit_of_mem_toDigits hc
  rw [Decimal.toList_ofInt]
  split
  · simp only [isNumber]
    rw [hne, hall]; rfl
  · unfold isNumber
    split
    · rename_i heq
      have := Decimal.isDigit_of_mem_toDigits (n := i.natAbs) (c := '-') (by rw [heq]; simp)
      exact absurd this (by decide)
    · rw [hne, hall]; rfl

end Kind

end RobotScript
