import RobotScript.Reading
import RobotScript.Proofs.Entry

/-!
# What a parser answers

* `parser_accepts_grammar`: a new parser gives exactly the trees that the grammar derives
  from all its tokens, cut at 64 levels of nesting, and no token list has two of them.
* `parse_error_at_first_offence`: a parse error quotes the tokens from the first one on
  that no tree can have after the tokens before it, and the cursor is left there.
-/

namespace RobotScript

open Grammar

variable {α : Type} {D : Lang α} {depth : α → Nat} {read : Nat → Reader α} {reader : Reader α}

theorem Parser.call_of_ok {ts rest : List Token} {a : α} (h : reader ts = .ok a rest) :
    (Parser.ofTokens ts).call reader = (.ok a, ⟨ts, ts.length - rest.length⟩) := by
  unfold Parser.call Stream.rest Parser.ofTokens Stream.ofTokens
  rw [List.drop_zero, h]; rfl

theorem Parser.call_of_error {ts rest : List Token} {fault : Fault}
    (h : reader ts = .error fault rest) :
    (Parser.ofTokens ts).call reader =
      (.error (fault.toError rest), ⟨ts, ts.length - rest.length⟩) := by
  unfold Parser.call Stream.rest Parser.ofTokens Stream.ofTokens
  rw [List.drop_zero, h]; rfl

/-- The answers for token lists are the trees of a language, cut at depth 64. -/
structure AcceptsExactly (D : Lang α) (depth : α → Nat) (answer : List Token → Except Error α) :
    Prop where
  shallow : ∀ ts a, D ts a → depth a ≤ 64 → answer ts = .ok a
  deep : ∀ ts a, D ts a → 64 < depth a →
    ∃ context, answer ts = .error (.parse "Nesting too deep" context)
  underived : ∀ ts, (∀ a, ¬ D ts a) → ∃ message context, answer ts = .error (.parse message context)
  derived : ∀ ts a, answer ts = .ok a → D ts a ∧ depth a ≤ 64
  unambiguous : ∀ ts a b, D ts a → D ts b → a = b

theorem Grammar.Decides.acceptsExactly (h : Decides D depth read) (hr : reader = read maxNesting) :
    AcceptsExactly D depth fun ts => ((Parser.ofTokens ts).call reader).1 where
  shallow ts a hD hd := by
    have hok : reader ts = .ok a [] := by rw [hr]; exact h.complete hD hd
    rw [Parser.call_of_ok hok]
  deep ts a hD hd := by
    obtain ⟨rest, herr⟩ : ∃ rest, read maxNesting ts = .error .tooDeep rest := h.tooDeep hD hd
    rw [← hr] at herr
    exact ⟨_, by rw [Parser.call_of_error herr]; rfl⟩
  underived ts hD := by
    cases hread : reader ts with
    | ok a rest => rw [hr] at hread; exact absurd (h.sound hread).1 (hD a)
    | error fault rest => exact ⟨_, _, by rw [Parser.call_of_error hread]; rfl⟩
  derived ts a hans := by
    cases hread : reader ts with
    | ok b rest =>
      rw [Parser.call_of_ok hread] at hans
      cases hans
      rw [hr] at hread
      exact h.sound hread
    | error fault rest => rw [Parser.call_of_error hread] at hans; cases hans
  unambiguous ts a b := h.unique

theorem AcceptsExactly.answer_iff {answer : List Token → Except Error α}
    (h : AcceptsExactly D depth answer) (ts : List Token) (a : α) :
    answer ts = .ok a ↔ D ts a ∧ depth a ≤ 64 :=
  ⟨h.derived ts a, fun hD => h.shallow ts a hD.1 hD.2⟩

/-- A text is the text of a program exactly if its tokens derive it. -/
theorem Program.parse_eq_ok_iff {text : String} {p : Program} :
    Program.parse text = .ok p ↔ DerivesProgram (Token.scan text) p ∧ p.depth ≤ 64 := by
  have accepts : AcceptsExactly DerivesProgram Program.depth
      fun ts => (Parser.ofTokens ts).program.1 := decides_program.acceptsExactly rfl
  exact accepts.answer_iff (Token.scan text) p

/-- A text is the text of an expression exactly if its tokens derive it. -/
theorem Expr.parse_eq_ok_iff {text : String} {e : Expr} :
    Expr.parse text = .ok e ↔ DerivesExpr (Token.scan text) e ∧ e.depth ≤ 64 := by
  have accepts : AcceptsExactly DerivesExpr Expr.depth fun ts => (Parser.ofTokens ts).expression.1 :=
    decides_expression.acceptsExactly rfl
  exact accepts.answer_iff (Token.scan text) e

/-- **A parser accepts exactly its grammar**, cut at 64 levels. -/
theorem parser_accepts_grammar :
    AcceptsExactly DerivesProgram Program.depth (fun ts => (Parser.ofTokens ts).program.1) ∧
    AcceptsExactly DerivesExpr Expr.depth (fun ts => (Parser.ofTokens ts).expression.1) ∧
    AcceptsExactly DerivesCondition Condition.depth (fun ts => (Parser.ofTokens ts).condition.1) :=
  ⟨decides_program.acceptsExactly rfl, decides_expression.acceptsExactly rfl,
    decides_condition.acceptsExactly rfl⟩

/-- A failed call on a new parser reports a place `k`: the context is what follows it, the
cursor is left there, and the tokens before it are viable. Unless the nesting is too deep,
`k` is the length of the longest viable part. -/
def PointsAtOffence (D : Lang α) (call : Parser → Except Error α × Parser) : Prop :=
  ∀ ts e after, call (Parser.ofTokens ts) = (.error e, after) →
    ∃ message k, k ≤ ts.length ∧ e = .parse message (((ts.drop k).take 5).map Token.lexeme) ∧
      after = ⟨ts, k⟩ ∧ D.Viable (ts.take k) ∧
      (message ≠ "Nesting too deep" → ∀ j ≤ ts.length, D.Viable (ts.take j) → j ≤ k)

theorem Grammar.Decides.pointsAtOffence (h : Decides D depth read)
    (hr : reader = read maxNesting) : PointsAtOffence D fun parser => parser.call reader := by
  intro ts e after hcall
  cases hread : reader ts with
  | ok a rest =>
    simp only [Parser.call_of_ok hread] at hcall; cases hcall
  | error fault rest =>
    simp only [Parser.call_of_error hread] at hcall; cases hcall
    rw [hr] at hread
    obtain ⟨us, rfl, hv⟩ := h.viable hread
    have hk : (us ++ rest).length - rest.length = us.length := by
      rw [List.length_append, Nat.add_sub_cancel]
    refine ⟨fault.message, us.length, ?_, ?_, by rw [hk], ?_, ?_⟩
    · rw [List.length_append]; omega
    · rw [List.drop_left]; rfl
    · rw [List.take_left]; exact hv
    · intro hmessage j hj hvj
      refine h.longest hread ?_ hj hvj
      rintro rfl; exact hmessage rfl

/-- **Parse errors point at the first offending token.** -/
theorem parse_error_at_first_offence :
    PointsAtOffence DerivesProgram Parser.program ∧
    PointsAtOffence DerivesExpr Parser.expression ∧
    PointsAtOffence DerivesCondition Parser.condition :=
  ⟨decides_program.pointsAtOffence rfl, decides_expression.pointsAtOffence rfl,
    decides_condition.pointsAtOffence rfl⟩

end RobotScript
