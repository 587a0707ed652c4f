import RobotScript.Decimal
import RobotScript.Tree
import RobotScript.Proofs.Reader

/-!
# The grammar as a relation

`DerivesProgram ts p`: the grammar, without any limit on nesting, derives the program `p`
from the whole token list `ts`; likewise for the other trees. A reader is not mentioned
here: each rule says which tokens and parts stand side by side.

* `Expr.depth`, `Condition.depth`, `Statement.depth` and `Program.depth` are how many
  blocks, conditions and expressions are open at once at the deepest point of a tree.
* `DerivesStatement.head` says which tokens a statement can begin with.
-/

namespace RobotScript

namespace Grammar

open Lang

/-- `ts` derives the expression. -/
inductive DerivesExpr : Lang Expr
  | number {t : Token} {value : Int32} (kind : t.kind = .number)
      (reads : Decimal.int32? t.lexeme = some value) : DerivesExpr [t] (.number value)
  | var {t : Token} (kind : t.kind = .var) : DerivesExpr [t] (.var t.lexeme)
  | sensor {t : Token} {word : Sensor} (kind : t.kind = .sensor word) :
      DerivesExpr [t] (.sensor word)
  | ranked {t l r : Token} {word : Sensor} {ts : List Token} {rank : Expr}
      (kind : t.kind = .sensor word) (barrel : word = .barrelLR ∨ word = .barrelFB)
      (left : l.kind = .leftParen) (arg : DerivesExpr ts rank) (right : r.kind = .rightParen) :
      DerivesExpr (t :: l :: (ts ++ [r])) (.ranked word rank)
  | binary {t l c r : Token} {op : ArithOp} {ts us : List Token} {e₁ e₂ : Expr}
      (kind : t.kind = .operator op) (left : l.kind = .leftParen) (first : DerivesExpr ts e₁)
      (comma : c.kind = .comma) (second : DerivesExpr us e₂) (right : r.kind = .rightParen) :
      DerivesExpr (t :: l :: (ts ++ c :: (us ++ [r]))) (.binary op e₁ e₂)

/-- `ts` derives the condition. -/
inductive DerivesCondition : Lang Condition
  | compare {t l c r : Token} {op : Relop} {ts us : List Token} {e₁ e₂ : Expr}
      (kind : t.kind = .relop op) (left : l.kind = .leftParen) (first : DerivesExpr ts e₁)
      (comma : c.kind = .comma) (second : DerivesExpr us e₂) (right : r.kind = .rightParen) :
      DerivesCondition (t :: l :: (ts ++ c :: (us ++ [r]))) (.compare op e₁ e₂)
  | and {t l c r : Token} {ts us : List Token} {c₁ c₂ : Condition}
      (kind : t.kind = .combinator .and) (left : l.kind = .leftParen)
      (first : DerivesCondition ts c₁) (comma : c.kind = .comma)
      (second : DerivesCondition us c₂) (right : r.kind = .rightParen) :
      DerivesCondition (t :: l :: (ts ++ c :: (us ++ [r]))) (.and c₁ c₂)
  | or {t l c r : Token} {ts us : List Token} {c₁ c₂ : Condition}
      (kind : t.kind = .combinator .or) (left : l.kind = .leftParen)
      (first : DerivesCondition ts c₁) (comma : c.kind = .comma)
      (second : DerivesCondition us c₂) (right : r.kind = .rightParen) :
      DerivesCondition (t :: l :: (ts ++ c :: (us ++ [r]))) (.or c₁ c₂)
  | not {t l r : Token} {ts : List Token} {inner : Condition}
      (kind : t.kind = .combinator .not) (left : l.kind = .leftParen)
      (arg : DerivesCondition ts inner) (right : r.kind = .rightParen) :
      DerivesCondition (t :: l :: (ts ++ [r])) (.not inner)

mutual

/-- `ts` derives the statement. -/
inductive DerivesStatement : Lang Statement
  | action {t s : Token} {word : Action} (kind : t.kind = .action word)
      (semicolon : s.kind = .semicolon) : DerivesStatement [t, s] (.action word none)
  | counted {t l r s : Token} {word : Action} {ts : List Token} {count : Expr}
      (kind : t.kind = .action word) (repeated : word = .move ∨ word = .wait)
      (left : l.kind = .leftParen) (arg : DerivesExpr ts count) (right : r.kind = .rightParen)
      (semicolon : s.kind = .semicolon) :
      DerivesStatement (t :: l :: (ts ++ [r, s])) (.action word (some count))
  | loop {t : Token} {ts : List Token} {body : Block} (kind : t.kind = .loop)
      (block : DerivesBlock ts body) : DerivesStatement (t :: ts) (.loop body)
  | branch {t : Token} {ts us vs : List Token} {test : Condition} {body : Block}
      {elifs : List Elif} {otherwise : Option Block} (kind : t.kind = .ifWord)
      (guarded : DerivesGuarded ts (test, body)) (more : Many DerivesElif us elifs)
      (last : DerivesElse vs otherwise) :
      DerivesStatement (t :: (ts ++ (us ++ vs))) (.branch test body elifs otherwise)
  | whileLoop {t : Token} {ts : List Token} {test : Condition} {body : Block}
      (kind : t.kind = .whileWord) (guarded : DerivesGuarded ts (test, body)) :
      DerivesStatement (t :: ts) (.whileLoop test body)
  | assign {t a s : Token} {ts : List Token} {value : Expr} (kind : t.kind = .var)
      (sign : a.kind = .assign) (arg : DerivesExpr ts value) (semicolon : s.kind = .semicolon) :
      DerivesStatement (t :: a :: (ts ++ [s])) (.assign t.lexeme value)

/-- `ts` derives the block: one or more statements in braces. -/
inductive DerivesBlock : Lang Block
  | braces {l r : Token} {ts : List Token} {body : Block} (left : l.kind = .leftBrace)
      (statements : Many DerivesStatement ts body) (filled : body ≠ [])
      (right : r.kind = .rightBrace) : DerivesBlock (l :: (ts ++ [r])) body

/-- `ts` derives a condition in parentheses and the block that depends on it. -/
inductive DerivesGuarded : Lang Elif
  | guard {l r : Token} {ts us : List Token} {test : Condition} {body : Block}
      (left : l.kind = .leftParen) (condition : DerivesCondition ts test)
      (right : r.kind = .rightParen) (block : DerivesBlock us body) :
      DerivesGuarded (l :: (ts ++ r :: us)) (test, body)

/-- `ts` derives an `elif` branch. -/
inductive DerivesElif : Lang Elif
  | elif {t : Token} {ts : List Token} {branch : Elif} (kind : t.kind = .elifWord)
      (guarded : DerivesGuarded ts branch) : DerivesElif (t :: ts) branch

/-- `ts` derives an `else` part, which may be missing. -/
inductive DerivesElse : Lang (Option Block)
  | none : DerivesElse [] none
  | some {t : Token} {ts : List Token} {body : Block} (kind : t.kind = .elseWord)
      (block : DerivesBlock ts body) : DerivesElse (t :: ts) (some body)

end

/-- `ts` derives the program: one or more statements. -/
def DerivesProgram : Lang Program :=
  fun ts p => Many DerivesStatement ts p.statements ∧ p.statements ≠ []

/-- The kinds of token a statement can begin with. -/
def opensStatement : Kind → Bool
  | .action _ | .loop | .ifWord | .whileWord | .var => true
  | _ => false

theorem DerivesStatement.head {ts : List Token} {s : Statement} (h : DerivesStatement ts s) :
    ∃ t us, ts = t :: us ∧ opensStatement t.kind := by
  cases h with
  | action kind _ | counted kind _ _ _ _ _ | loop kind _ | branch kind _ _ _ | whileLoop kind _
  | assign kind _ _ _ => exact ⟨_, _, rfl, by rw [kind]; rfl⟩

theorem DerivesElif.head {ts : List Token} {branch : Elif} (h : DerivesElif ts branch) :
    ∃ t us, ts = t :: us ∧ t.kind = .elifWord := by
  cases h with
  | elif kind _ => exact ⟨_, _, rfl, kind⟩

theorem not_derivesStatement_nil (s : Statement) : ¬ DerivesStatement [] s := by
  intro h
  obtain ⟨t, us, hts, -⟩ := h.head
  cases hts

theorem not_derivesExpr_nil (e : Expr) : ¬ DerivesExpr [] e := nofun

theorem not_derivesCondition_nil (c : Condition) : ¬ DerivesCondition [] c := nofun

theorem not_derivesElif_nil (branch : Elif) : ¬ DerivesElif [] branch := by
  intro h
  obtain ⟨t, us, hts, -⟩ := h.head
  cases hts

theorem not_derivesProgram_nil (p : Program) : ¬ DerivesProgram [] p := by
  rintro ⟨hbody, hfilled⟩
  generalize hts : ([] : List Token) = ts, p.statements = body at hbody hfilled
  cases hbody with
  | nil => exact hfilled rfl
  | @cons us vs s _ first _ =>
    obtain ⟨rfl, -⟩ := List.append_eq_nil_iff.1 hts.symm
    exact not_derivesStatement_nil s first

theorem viable_expr : DerivesExpr.Viable [] :=
  ⟨[⟨.number, "0"⟩], .number 0, .number rfl (by decide)⟩

theorem viable_condition : DerivesCondition.Viable [] := by
  obtain ⟨ts, e, he⟩ := viable_expr
  exact ⟨_, _, .compare (t := ⟨.relop .eq, "eq"⟩) (l := ⟨.leftParen, "("⟩) (c := ⟨.comma, ","⟩)
    (r := ⟨.rightParen, ")"⟩) rfl rfl he rfl he rfl⟩

theorem viable_statement : DerivesStatement.Viable [] :=
  ⟨[⟨.action .turnL, "turnL"⟩, ⟨.semicolon, ";"⟩], _, .action rfl rfl⟩

theorem viable_block : DerivesBlock.Viable [] := by
  obtain ⟨ts, s, hs⟩ := viable_statement
  exact ⟨_, _, .braces (l := ⟨.leftBrace, "\x7b"⟩) (r := ⟨.rightBrace, "\x7d"⟩) rfl (.cons hs .nil)
    (List.cons_ne_nil _ _) rfl⟩

end Grammar

def Expr.depth : Expr → Nat
  | .number _ | .sensor _ | .var _ => 1
  | .ranked _ rank => 1 + rank.depth
  | .binary _ left right => 1 + max left.depth right.depth

def Condition.depth : Condition → Nat
  | .compare _ left right => 1 + max left.depth right.depth
  | .and left right | .or left right => 1 + max left.depth right.depth
  | .not inner => 1 + inner.depth

mutual

/-- How many levels a statement opens; a block is one more than its statements. -/
def Statement.depth : Statement → Nat
  | .action _ none => 0
  | .action _ (some count) => count.depth
  | .loop body => 1 + Statement.depthAll body
  | .branch test body elifs otherwise =>
    max (max test.depth (1 + Statement.depthAll body))
      (max (Statement.depthElifs elifs) (Statement.depthElse otherwise))
  | .whileLoop test body => max test.depth (1 + Statement.depthAll body)
  | .assign _ value => value.depth

def Statement.depthAll : List Statement → Nat
  | [] => 0
  | s :: rest => max s.depth (Statement.depthAll rest)

def Statement.depthElifs : List (Condition × List Statement) → Nat
  | [] => 0
  | (test, body) :: rest =>
    max (max test.depth (1 + Statement.depthAll body)) (Statement.depthElifs rest)

def Statement.depthElse : Option (List Statement) → Nat
  | none => 0
  | some body => 1 + Statement.depthAll body

end

theorem Expr.depth_pos (e : Expr) : 0 < e.depth := by
  cases e <;> simp only [Expr.depth] <;> omega

theorem Condition.depth_pos (c : Condition) : 0 < c.depth := by
  cases c <;> simp only [Condition.depth] <;> omega

theorem Statement.depthAll_le_iff {n : Nat} {body : List Statement} :
    Statement.depthAll body ≤ n ↔ ∀ s ∈ body, s.depth ≤ n := by
  induction body with
  | nil => simp [Statement.depthAll]
  | cons s rest ih => rw [Statement.depthAll, List.forall_mem_cons, ← ih]; omega

theorem Statement.depthElifs_le_iff {n : Nat} {elifs : List Elif} :
    Statement.depthElifs elifs ≤ n ↔
      ∀ e ∈ elifs, e.1.depth ≤ n ∧ 1 + Statement.depthAll e.2 ≤ n := by
  induction elifs with
  | nil => simp [Statement.depthElifs]
  | cons e rest ih => rw [Statement.depthElifs, List.forall_mem_cons, ← ih]; omega

/-- **The depth of a program.** -/
def Program.depth (program : Program) : Nat := Statement.depthAll program.statements

end RobotScript
