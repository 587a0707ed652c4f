import RobotScript.Reading
import RobotScript.Proofs.Kind
import RobotScript.Proofs.Parser
import RobotScript.Proofs.Scan

/-!
# Trees from their own text

The text of an expression is cut into the lexemes it was put together from, these have the
kinds the grammar asks for, and so the expression is read again; likewise for conditions.

* `Expr.Writable`, `Condition.Writable`: the trees that can be written in a script.
* `Expr.cut_render`: the text of a writable tree is cut into its lexemes.
* `Expr.writable_of_derives`: only writable trees are derived from scanned tokens.
* `reparse_iff_writable`: a tree is read back from its text if and only if it is writable
  and at most 64 levels deep.
-/

namespace RobotScript

open Grammar Scan

/-- Every variable has a variable name, and only barrel sensors have a rank. -/
def Expr.Writable : Expr → Prop
  | .number _ | .sensor _ => True
  | .ranked word rank => (word = .barrelLR ∨ word = .barrelFB) ∧ rank.Writable
  | .var name => VariableName name
  | .binary _ left right => left.Writable ∧ right.Writable

/-- All expressions in the condition are writable. -/
def Condition.Writable : Condition → Prop
  | .compare _ left right => left.Writable ∧ right.Writable
  | .and left right | .or left right => left.Writable ∧ right.Writable
  | .not inner => inner.Writable

/-- The lexemes an expression is written with. -/
def Expr.lexemes : Expr → List String
  | .number value => [Decimal.ofInt value.toInt]
  | .sensor word => [Word.spelling word]
  | .ranked word rank => Word.spelling word :: "(" :: (rank.lexemes ++ [")"])
  | .var name => [name]
  | .binary op left right =>
    Word.spelling op :: "(" :: (left.lexemes ++ "," :: (right.lexemes ++ [")"]))

/-- The lexemes a condition is written with. -/
def Condition.lexemes : Condition → List String
  | .compare op left right =>
    Word.spelling op :: "(" :: (left.lexemes ++ "," :: (right.lexemes ++ [")"]))
  | .and left right => "and" :: "(" :: (left.lexemes ++ "," :: (right.lexemes ++ [")"]))
  | .or left right => "or" :: "(" :: (left.lexemes ++ "," :: (right.lexemes ++ [")"]))
  | .not inner => "not" :: "(" :: (inner.lexemes ++ [")"])

theorem isPlain_of_isDigit {c : Char} (h : c.isDigit = true) : isPlain c = true := by
  have hne : ∀ d : Char, d.isDigit = false → (c == d) = false := by
    intro d hd
    rw [beq_eq_false_iff_ne]
    rintro rfl
    rw [h] at hd; cases hd
  simp only [isPlain, isSeparator, isDelimiter]
  simp [hne]

theorem isPlain_of_isLetter {c : Char} (h : IsLetter c) : isPlain c = true := by
  have hne : ∀ d : Char, d.isAlpha = false → (c == d) = false := by
    intro d hd
    rw [beq_eq_false_iff_ne]
    rintro rfl
    rw [(Kind.isAlpha_iff c).2 h] at hd; cases hd
  simp only [isPlain, isSeparator, isDelimiter]
  simp [hne]

theorem isWord_ofInt (i : Int) : IsWord (Decimal.ofInt i) := by
  have hall : (Nat.toDigits 10 i.natAbs).all isPlain = true :=
    List.all_eq_true.2 fun c hc => isPlain_of_isDigit (Decimal.isDigit_of_mem_toDigits hc)
  unfold IsWord
  rw [Decimal.toList_ofInt]
  split
  · refine ⟨List.cons_ne_nil _ _, ?_⟩
    rw [List.all_cons, hall]; rfl
  · exact ⟨Nat.toDigits_ne_nil, hall⟩

theorem isWord_of_variableName {name : String} (h : VariableName name) : IsWord name := by
  obtain ⟨c, cs, heq, hc, hcs⟩ := h
  have hall : cs.all isPlain = true := by
    refine List.all_eq_true.2 fun d hd => ?_
    rcases hcs d hd with hd | hd
    · exact isPlain_of_isLetter hd
    · exact isPlain_of_isDigit ((Kind.isDigit_iff d).2 hd)
  unfold IsWord
  rw [heq]
  refine ⟨List.cons_ne_nil _ _, ?_⟩
  rw [List.all_cons, List.all_cons, isPlain_of_isLetter hc, hall]; rfl

theorem isWord_sensor (word : Sensor) : IsWord (Word.spelling word) := by
  cases word <;> decide

theorem isWord_operator (op : ArithOp) : IsWord (Word.spelling op) := by
  cases op <;> decide

theorem isWord_relop (op : Relop) : IsWord (Word.spelling op) := by
  cases op <;> decide

theorem isWord_combinator (word : Combinator) : IsWord (Word.spelling word) := by
  cases word <;> decide

/-- **The text of a writable expression is cut into its lexemes.** -/
theorem Expr.cut_render {e : Expr} (h : e.Writable) : Cut e.render e.lexemes := by
  induction e with
  | number value => exact cut_word (isWord_ofInt _)
  | sensor word => exact cut_word (isWord_sensor word)
  | ranked word rank ih => exact cut_call (isWord_sensor word) (ih h.2)
  | var name => exact cut_word (isWord_of_variableName h)
  | binary op left right ihl ihr => exact cut_call₂ (isWord_operator op) (ihl h.1) (ihr h.2)

/-- **The text of a writable condition is cut into its lexemes.** -/
theorem Condition.cut_render {c : Condition} (h : c.Writable) : Cut c.render c.lexemes := by
  induction c with
  | compare op left right =>
    exact cut_call₂ (isWord_relop op) (Expr.cut_render h.1) (Expr.cut_render h.2)
  | and left right ihl ihr =>
    exact cut_call₂ (w := "and") (by decide) (ihl h.1) (ihr h.2)
  | or left right ihl ihr =>
    exact cut_call₂ (w := "or") (by decide) (ihl h.1) (ihr h.2)
  | not inner ih => exact cut_call (w := "not") (by decide) (ih h)

theorem Expr.derives_lexemes {e : Expr} (h : e.Writable) :
    DerivesExpr (e.lexemes.map Token.ofLexeme) e := by
  induction e with
  | number value => exact .number (Kind.classify_ofInt _) (Decimal.int32?_ofInt value)
  | sensor word => exact .sensor (Kind.classify_sensor word)
  | ranked word rank ih =>
    simp only [Expr.lexemes, List.map_cons, List.map_append, List.map_nil]
    exact .ranked (Kind.classify_sensor word) h.1 (by decide) (ih h.2) (by decide)
  | var name => exact .var (t := Token.ofLexeme name) ((Kind.classify_eq_var_iff name).2 h)
  | binary op left right ihl ihr =>
    simp only [Expr.lexemes, List.map_cons, List.map_append, List.map_nil]
    exact .binary (Kind.classify_operator op) (by decide) (ihl h.1) (by decide) (ihr h.2)
      (by decide)

theorem Condition.derives_lexemes {c : Condition} (h : c.Writable) :
    DerivesCondition (c.lexemes.map Token.ofLexeme) c := by
  induction c with
  | compare op left right =>
    simp only [Condition.lexemes, List.map_cons, List.map_append, List.map_nil]
    exact .compare (Kind.classify_relop op) (by decide) (Expr.derives_lexemes h.1) (by decide)
      (Expr.derives_lexemes h.2) (by decide)
  | and left right ihl ihr =>
    simp only [Condition.lexemes, List.map_cons, List.map_append, List.map_nil]
    exact .and (by decide) (by decide) (ihl h.1) (by decide) (ihr h.2) (by decide)
  | or left right ihl ihr =>
    simp only [Condition.lexemes, List.map_cons, List.map_append, List.map_nil]
    exact .or (by decide) (by decide) (ihl h.1) (by decide) (ihr h.2) (by decide)
  | not inner ih =>
    simp only [Condition.lexemes, List.map_cons, List.map_append, List.map_nil]
    exact .not (by decide) (by decide) (ih h) (by decide)

/-- The kind of each token is that of its lexeme. -/
def Classified (ts : List Token) : Prop := ∀ t ∈ ts, t.kind = Kind.classify t.lexeme

theorem classified_scan (text : String) : Classified (Token.scan text) := by
  intro t ht
  obtain ⟨lexeme, -, rfl⟩ := List.mem_map.1 ht
  rfl

/-- **Only writable expressions are derived from scanned tokens.** -/
theorem Expr.writable_of_derives {ts : List Token} {e : Expr} (h : DerivesExpr ts e)
    (hts : Classified ts) : e.Writable := by
  induction h with
  | number | sensor => trivial
  | @var t kind =>
    -- the kind was found from the lexeme, so the lexeme is a variable name
    rw [hts t List.mem_cons_self] at kind
    exact (Kind.classify_eq_var_iff t.lexeme).1 kind
  | @ranked t l r word ts rank kind barrel left arg right ih =>
    exact ⟨barrel, ih fun t ht => hts t (by simp [ht])⟩
  | @binary t l c r op ts us e₁ e₂ kind left first comma second right ih₁ ih₂ =>
    exact ⟨ih₁ fun t ht => hts t (by simp [ht]), ih₂ fun t ht => hts t (by simp [ht])⟩

/-- **Only writable conditions are derived from scanned tokens.** -/
theorem Condition.writable_of_derives {ts : List Token} {c : Condition}
    (h : DerivesCondition ts c) (hts : Classified ts) : c.Writable := by
  induction h with
  | @compare t l c r op ts us e₁ e₂ kind left first comma second right =>
    exact ⟨Expr.writable_of_derives first fun t ht => hts t (by simp [ht]),
      Expr.writable_of_derives second fun t ht => hts t (by simp [ht])⟩
  | @and t l c r ts us c₁ c₂ kind left first comma second right ih₁ ih₂ =>
    exact ⟨ih₁ fun t ht => hts t (by simp [ht]), ih₂ fun t ht => hts t (by simp [ht])⟩
  | @or t l c r ts us c₁ c₂ kind left first comma second right ih₁ ih₂ =>
    exact ⟨ih₁ fun t ht => hts t (by simp [ht]), ih₂ fun t ht => hts t (by simp [ht])⟩
  | @not t l r ts inner kind left arg right ih => exact ih fun t ht => hts t (by simp [ht])

/-- The tokens of its text derive an expression exactly if it is writable. -/
theorem Expr.derives_scan_iff (e : Expr) : DerivesExpr (Token.scan e.render) e ↔ e.Writable := by
  constructor
  · intro h; exact Expr.writable_of_derives h (classified_scan _)
  · intro h
    rw [Token.scan, (Expr.cut_render h).lexemes_eq]
    exact Expr.derives_lexemes h

theorem Condition.derives_scan_iff (c : Condition) :
    DerivesCondition (Token.scan c.render) c ↔ c.Writable := by
  constructor
  · intro h; exact Condition.writable_of_derives h (classified_scan _)
  · intro h
    rw [Token.scan, (Condition.cut_render h).lexemes_eq]
    exact Condition.derives_lexemes h

theorem Expr.parse_render_iff (e : Expr) :
    Expr.parse e.render = .ok e ↔ e.Writable ∧ e.depth ≤ 64 := by
  rw [← e.derives_scan_iff]
  exact Expr.parse_eq_ok_iff

theorem Condition.parse_render_iff (c : Condition) :
    Condition.parse c.render = .ok c ↔ c.Writable ∧ c.depth ≤ 64 := by
  have accepts : AcceptsExactly DerivesCondition Condition.depth
      fun ts => (Parser.ofTokens ts).condition.1 := decides_condition.acceptsExactly rfl
  rw [← c.derives_scan_iff]
  exact accepts.answer_iff (Token.scan c.render) c

/-- **A tree is read back from its text if and only if it can be written in a script** and
is at most 64 levels deep. -/
theorem reparse_iff_writable :
    (∀ e : Expr, Expr.parse e.render = .ok e ↔ e.Writable ∧ e.depth ≤ 64) ∧
    (∀ c : Condition, Condition.parse c.render = .ok c ↔ c.Writable ∧ c.depth ≤ 64) :=
  ⟨Expr.parse_render_iff, Condition.parse_render_iff⟩

end RobotScript
