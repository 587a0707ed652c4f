import RobotScript.Grammar.Production
import RobotScript.Proofs.Derivation

/-!
# Readers follow the grammar

Each production reads the language of its rule (`Reads`): a success is a derivation, and
what is taken before a failure can be completed to one. The completion of a partial parse
is that of the part that failed, followed by anything the rest of the rule allows.

* `reads_expression`, `reads_condition`, `reads_block`, `reads_statement`: by induction on
  the levels left.
* `expression_depth`, `condition_depth`, `block_depth`: a tree that is read with `room`
  levels left has at most that depth.
-/

namespace RobotScript.Grammar

open Reader Lang

theorem takesRank_iff {word : Sensor} :
    word.takesRank = true ↔ word = .barrelLR ∨ word = .barrelFB := by
  cases word <;> decide

theorem takesCount_iff {word : Action} : word.takesCount = true ↔ word = .move ∨ word = .wait := by
  cases word <;> decide

/-- An expression in parentheses, or nothing. -/
inductive DerivesArgument (allowed : Bool) : Lang (Option Expr)
  | none : DerivesArgument allowed [] none
  | some {l r : Token} {ts : List Token} {e : Expr} (may : allowed = true)
      (left : l.kind = .leftParen) (arg : DerivesExpr ts e) (right : r.kind = .rightParen) :
      DerivesArgument allowed (l :: (ts ++ [r])) (some e)

theorem reads_argument (allowed : Bool) (place : Place) {expr : Reader Expr}
    (hexpr : Reads DerivesExpr expr) :
    Reads (DerivesArgument allowed) (argument allowed place expr) := by
  intro ts
  unfold argument
  refine .next ?_
  by_cases h : (allowed && ts.head?.map Token.kind == some .leftParen) = true
  · rw [if_pos h]
    rw [Bool.and_eq_true] at h
    refine ((reads_require _ _).bind fun _ _ _ => hexpr.bind fun _ e _ =>
      (reads_require _ _).bind fun _ _ _ => reads_pure (some e)) ts |>.mono ?_
    intro us a hus
    obtain ⟨l, us, rfl, hl, hus⟩ := seq_sign.1 hus
    obtain ⟨us, e, vs, rfl, he, hus⟩ := hus
    obtain ⟨r, vs, rfl, hr, rfl, rfl⟩ := seq_sign.1 hus
    exact .some h.1 hl he hr
  · rw [if_neg h]
    refine (reads_pure none ts).mono ?_
    rintro us a ⟨rfl, rfl⟩; exact .none

theorem number_cons {t : Token} {value : Int32}
    (h : (if t.kind = .number then Decimal.int32? t.lexeme else none) = some value)
    (ts : List Token) : (number : Reader Expr) (t :: ts) = .ok (.number value) ts := by
  rw [number, bind_eq_of_ok (peek_apply _)]
  simp only [List.head?_cons, h]
  rfl

theorem number_cons_none {t : Token}
    (h : (if t.kind = .number then Decimal.int32? t.lexeme else none) = none) (ts : List Token) :
    (number : Reader Expr) (t :: ts) = .error .notInteger (t :: ts) := by
  rw [number, bind_eq_of_ok (peek_apply _)]
  simp only [List.head?_cons, h]
  rfl

theorem readsAt_number {t : Token} (hk : t.kind = .number) (ts : List Token) :
    ReadsAt DerivesExpr number (t :: ts) := by
  cases hv : Decimal.int32? t.lexeme with
  | none =>
    -- the number is not taken, so what was taken is the empty list
    have h := number_cons_none (t := t) (by rw [if_pos hk, hv]) ts
    constructor <;> intro _ _ hx <;> rw [h] at hx <;> cases hx
    exact ⟨[], rfl, viable_expr⟩
  | some value =>
    have h := number_cons (t := t) (by rw [if_pos hk, hv]) ts
    constructor <;> intro _ _ hx <;> rw [h] at hx <;> cases hx
    exact ⟨[t], rfl, .number hk hv⟩

theorem readsAt_sensor {expr : Reader Expr} (hexpr : Reads DerivesExpr expr) {t : Token}
    {word : Sensor} (hk : t.kind = .sensor word) (ts : List Token) :
    ReadsAt DerivesExpr (sensor expr) (t :: ts) := by
  unfold sensor
  refine .peek ?_
  simp only [List.head?_cons, Option.map_some, hk]
  refine .skip ?_ (((reads_argument word.takesRank .sensor hexpr).bind
    (E := fun a => unit (a.elim (Expr.sensor word) (Expr.ranked word))) fun us a _ => ?_) ts)
  · intro us e hus
    obtain ⟨us, a, vs, rfl, ha, rfl, rfl⟩ := hus
    rw [List.append_nil]
    cases ha with
    | none => exact .sensor hk
    | some may left arg right => exact .ranked hk (takesRank_iff.1 may) left arg right
  · cases a <;> exact reads_pure _

theorem reads_variableName : Reads (fun ts name => ∃ t, ts = [t] ∧ t.kind = .var ∧ name = t.lexeme)
    variableName := by
  refine ((reads_require .var .notVariable).bind fun _ t _ => reads_pure t.lexeme).mono ?_
  intro us name hus
  obtain ⟨t, us, rfl, hk, rfl, rfl⟩ := seq_sign.1 hus
  exact ⟨t, rfl, hk, rfl⟩

/-- **Expressions follow the grammar.** -/
theorem reads_expression : ∀ room, Reads DerivesExpr (expression room) := by
  intro room
  induction room with
  | zero => exact readsAt_throw viable_expr _
  | succ room ih =>
    -- the kind of the next token settles which rule is followed
    intro ts
    unfold expression
    refine .peek ?_
    cases ts with
    | nil => exact readsAt_throw viable_expr _ _
    | cons t ts =>
      simp only [List.head?_cons, Option.map_some]
      cases hk : t.kind with
      | sensor word => exact readsAt_sensor ih hk ts
      | number => exact readsAt_number hk ts
      | var =>
        refine (reads_variableName.bind fun _ name _ => reads_pure (Expr.var name)) _ |>.mono ?_
        rintro us e ⟨_, name, _, rfl, ⟨t, rfl, hk, rfl⟩, rfl, rfl⟩
        exact .var hk
      | operator op =>
        refine .skip ?_ (reads_pair (Expr.binary op) ih ts)
        rintro us e ⟨l, c, r, us, vs, e₁, e₂, rfl, hl, hc, hr, h₁, h₂, rfl⟩
        exact .binary hk hl h₁ hc h₂ hr
      | _ => exact readsAt_throw viable_expr _ _

/-- **Conditions follow the grammar.** -/
theorem reads_condition : ∀ room, Reads DerivesCondition (condition room) := by
  intro room
  induction room with
  | zero => exact readsAt_throw viable_condition _
  | succ room ih =>
    intro ts
    unfold condition
    refine .peek ?_
    cases ts with
    | nil => exact readsAt_throw viable_condition _ _
    | cons t ts =>
      simp only [List.head?_cons, Option.map_some]
      cases hk : t.kind with
      | relop op =>
        refine .skip ?_ (reads_pair (Condition.compare op) (reads_expression room) ts)
        rintro us e ⟨l, c, r, us, vs, e₁, e₂, rfl, hl, hc, hr, h₁, h₂, rfl⟩
        exact .compare hk hl h₁ hc h₂ hr
      | combinator word =>
        cases word with
        | not =>
          refine .skip ?_ (((reads_require _ _).bind fun _ _ _ => ih.bind fun _ inner _ =>
            (reads_require _ _).bind fun _ _ _ => reads_pure (Condition.not inner)) ts)
          intro us e hus
          obtain ⟨l, us, rfl, hl, us, inner, vs, rfl, hi, hus⟩ := seq_sign.1 hus
          obtain ⟨r, vs, rfl, hr, rfl, rfl⟩ := seq_sign.1 hus
          exact .not hk hl hi hr
        | and =>
          refine .skip ?_ (reads_pair Condition.and ih ts)
          rintro us e ⟨l, c, r, us, vs, c₁, c₂, rfl, hl, hc, hr, h₁, h₂, rfl⟩
          exact .and hk hl h₁ hc h₂ hr
        | or =>
          refine .skip ?_ (reads_pair Condition.or ih ts)
          rintro us e ⟨l, c, r, us, vs, c₁, c₂, rfl, hl, hc, hr, h₁, h₂, rfl⟩
          exact .or hk hl h₁ hc h₂ hr
      | _ => exact readsAt_throw viable_condition _ _

section

-- the readers for statements are given the reader for blocks, which follows the grammar
variable {room : Nat} {block : Reader Block} (hblock : Reads DerivesBlock block)

theorem readsAt_action {t : Token} {word : Action} (hk : t.kind = .action word)
    (ts : List Token) : ReadsAt DerivesStatement (action room) (t :: ts) := by
  unfold action
  refine .peek ?_
  simp only [List.head?_cons, Option.map_some, hk]
  refine .skip ?_ (((reads_argument word.takesCount .action (reads_expression room)).bind
    fun _ count _ => (reads_require _ _).bind fun _ _ _ =>
    reads_pure (Statement.action word count)) ts)
  intro us s hus
  obtain ⟨us, count, vs, rfl, hcount, hus⟩ := hus
  obtain ⟨e, vs, rfl, he, rfl, rfl⟩ := seq_sign.1 hus
  cases hcount with
  | none => exact .action hk he
  | some may left arg right =>
    simp only [List.cons_append, List.append_assoc, List.nil_append]
    exact .counted hk (takesCount_iff.1 may) left arg right he

theorem reads_assignment : Reads DerivesStatement (assignment room) := by
  refine (reads_variableName.bind fun _ name _ => (reads_require .assign .noAssign).bind
    fun _ _ _ => (reads_expression room).bind fun _ value _ =>
    (reads_require .semicolon .noAssignEnd).bind fun _ _ _ =>
    reads_pure (Statement.assign name value)).mono ?_
  intro us s hus
  obtain ⟨_, _, us, rfl, ⟨t, rfl, hk, rfl⟩, hus⟩ := hus
  obtain ⟨a, us, rfl, ha, us, value, vs, rfl, hvalue, hus⟩ := seq_sign.1 hus
  obtain ⟨e, vs, rfl, he, rfl, rfl⟩ := seq_sign.1 hus
  exact .assign hk ha hvalue he

include hblock

theorem reads_loop : Reads DerivesStatement (loop block) := by
  refine ((reads_require .loop .notLoop).bind fun _ _ _ => hblock.bind fun _ body _ =>
    reads_pure (Statement.loop body)).mono ?_
  intro us s hus
  obtain ⟨t, us, rfl, hk, us, body, vs, rfl, hbody, rfl, rfl⟩ := seq_sign.1 hus
  rw [List.append_nil]; exact .loop hk hbody

theorem reads_guarded (place : Place) : Reads DerivesGuarded (guarded room block place) := by
  refine ((reads_require .leftParen _).bind fun _ _ _ => (reads_condition room).bind
    fun _ test _ => (reads_require .rightParen _).bind fun _ _ _ => hblock.bind
    fun _ body _ => reads_pure (test, body)).mono ?_
  intro us s hus
  obtain ⟨l, us, rfl, hl, us, test, vs, rfl, htest, hus⟩ := seq_sign.1 hus
  obtain ⟨r, vs, rfl, hr, vs, body, ws, rfl, hbody, rfl, rfl⟩ := seq_sign.1 hus
  rw [List.append_nil]; exact .guard hl htest hr hbody

theorem reads_elif : Reads DerivesElif (elif room block) := by
  refine ((reads_require .elifWord .noElif).bind fun _ _ _ => reads_guarded hblock _).mono ?_
  intro us s hus
  obtain ⟨t, us, rfl, hk, hus⟩ := seq_sign.1 hus
  exact .elif hk hus

theorem reads_otherwise : Reads DerivesElse (otherwise block) := by
  intro ts
  unfold otherwise
  refine .next ?_
  by_cases h : (ts.head?.map Token.kind == some .elseWord) = true
  · rw [if_pos h]
    refine ((reads_require .elseWord .noElse).bind fun _ _ _ => hblock.bind fun _ body _ =>
      reads_pure (some body)) ts |>.mono ?_
    intro us s hus
    obtain ⟨t, us, rfl, hk, us, body, vs, rfl, hbody, rfl, rfl⟩ := seq_sign.1 hus
    rw [List.append_nil]; exact .some hk hbody
  · rw [if_neg h]
    refine (reads_pure none ts).mono ?_
    rintro us a ⟨rfl, rfl⟩; exact .none

theorem reads_branch : Reads DerivesStatement (branch room block) := by
  have hpeek : Peeks (do return !(← isNext .elifWord)) := fun ts => ⟨_, rfl⟩
  refine ((reads_require .ifWord .noIf).bind fun _ _ _ => (reads_guarded hblock _).bind
    fun _ first _ => (reads_sequence hpeek (reads_elif hblock)).bind fun _ elifs _ =>
    (reads_otherwise hblock).bind fun _ last _ =>
    reads_pure (Statement.branch first.1 first.2 elifs last)).mono ?_
  intro us s hus
  obtain ⟨t, us, rfl, hk, us, first, vs, rfl, hfirst, hus⟩ := seq_sign.1 hus
  obtain ⟨vs, elifs, ws, rfl, helifs, ws, last, xs, rfl, hlast, rfl, rfl⟩ := hus
  rw [List.append_nil]; exact .branch hk hfirst helifs hlast

theorem reads_whileLoop : Reads DerivesStatement (whileLoop room block) := by
  refine ((reads_require .whileWord .noWhile).bind fun _ _ _ => (reads_guarded hblock _).bind
    fun _ first _ => reads_pure (Statement.whileLoop first.1 first.2)).mono ?_
  intro us s hus
  obtain ⟨t, us, rfl, hk, us, first, vs, rfl, hfirst, rfl, rfl⟩ := seq_sign.1 hus
  rw [List.append_nil]; exact .whileLoop hk hfirst

theorem reads_statementOf : Reads DerivesStatement (statementOf room block) := by
  intro ts
  unfold statementOf
  refine .peek ?_
  cases ts with
  | nil => exact readsAt_throw viable_statement _ _
  | cons t ts =>
    simp only [List.head?_cons, Option.map_some]
    cases hk : t.kind with
    | action word => exact readsAt_action hk ts
    | loop => exact reads_loop hblock _
    | ifWord => exact reads_branch hblock _
    | whileWord => exact reads_whileLoop hblock _
    | var => exact reads_assignment _
    | _ => exact readsAt_throw viable_statement _ _

end

theorem reads_statements {done : Reader Bool} (hdone : Peeks done) {statement : Reader Statement}
    (h : Reads DerivesStatement statement) :
    Reads (fun ts body => Many DerivesStatement ts body ∧ body ≠ []) (statements done statement) := by
  refine (h.bind fun _ first _ => (reads_sequence hdone h).bind fun _ rest _ =>
    reads_pure (first :: rest)).mono ?_
  rintro _ _ ⟨us, first, _, rfl, hfirst, vs, rest, _, rfl, hrest, rfl, rfl⟩
  rw [List.append_nil]
  exact ⟨.cons hfirst hrest, List.cons_ne_nil _ _⟩

/-- **Blocks follow the grammar.** -/
theorem reads_block : ∀ room, Reads DerivesBlock (block room) := by
  intro room
  induction room with
  | zero => exact readsAt_throw viable_block _
  | succ room ih =>
    have hpeek : Peeks (isNext .rightBrace) := fun ts => ⟨_, rfl⟩
    refine ((reads_require .leftBrace .noBlockOpen).bind fun _ _ _ =>
      (reads_statements hpeek (reads_statementOf ih)).bind fun _ body _ =>
      (reads_require .rightBrace .noBlockClose).bind fun _ _ _ => reads_pure body).mono ?_
    intro us s hus
    obtain ⟨l, us, rfl, hl, us, body, vs, rfl, ⟨hbody, hne⟩, hus⟩ := seq_sign.1 hus
    obtain ⟨r, vs, rfl, hr, rfl, rfl⟩ := seq_sign.1 hus
    exact .braces hl hbody hne hr

/-- **Statements follow the grammar.** -/
theorem reads_statement (room : Nat) : Reads DerivesStatement (statement room) :=
  reads_statementOf (reads_block room)

theorem shortens_statement (room : Nat) : Shortens (statement room) :=
  (reads_statement room).shortens not_derivesStatement_nil

theorem argument_depth (allowed : Bool) (place : Place) {room : Nat} {expr : Reader Expr}
    (h : Yields (fun e => e.depth ≤ room) expr) :
    Yields (fun arg => ∀ e ∈ arg, e.depth ≤ room) (argument allowed place expr) := by
  refine .bind (.any _) fun b _ => ?_
  split
  · exact .bind (.any _) fun _ _ => .bind h fun e he => .bind (.any _) fun _ _ => .pure (by simpa using he)
  · exact .pure (by simp)

theorem expression_depth : ∀ room, Yields (fun e => e.depth ≤ room) (expression room) := by
  intro room
  induction room with
  | zero => exact .throw _
  | succ room ih =>
    refine .bind (.any _) fun k _ => ?_
    split
    · refine .bind (.any _) fun k _ => ?_
      split
      · refine .bind (.any _) fun _ _ => .bind (argument_depth _ _ ih) fun arg harg => ?_
        cases arg with
        | none => exact .pure (by simp only [Expr.depth]; omega)
        | some rank =>
          have := harg rank rfl
          exact .pure (by simp only [Expr.depth]; omega)
      · exact .throw _
    · refine .bind (.any _) fun next _ => ?_
      cases next with
      | none => exact .throw _
      | some t =>
        dsimp only
        split
        · exact .bind (.any _) fun _ _ => .pure (by simp only [Expr.depth]; omega)
        · exact .throw _
    · exact .bind (.any _) fun _ _ => .pure (by simp only [Expr.depth]; omega)
    · exact .bind (.any _) fun _ _ => yields_pair _ ih fun e₁ e₂ h₁ h₂ => by
        simp only [Expr.depth]; omega
    · exact .throw _

theorem condition_depth : ∀ room, Yields (fun c => c.depth ≤ room) (condition room) := by
  intro room
  induction room with
  | zero => exact .throw _
  | succ room ih =>
    refine .bind (.any _) fun k _ => ?_
    split
    · exact .bind (.any _) fun _ _ => yields_pair _ (expression_depth room) fun e₁ e₂ h₁ h₂ => by
        simp only [Condition.depth]; omega
    · refine .bind (.any _) fun _ _ => .bind (.any _) fun _ _ => .bind ih fun inner hinner =>
        .bind (.any _) fun _ _ => .pure ?_
      simp only [Condition.depth]; omega
    · refine .bind (.any _) fun _ _ => yields_pair _ ih fun c₁ c₂ h₁ h₂ => ?_
      split <;> simp only [Condition.depth] <;> omega
    · exact .throw _

section

variable {room : Nat} {block : Reader Block}
  (hblock : Yields (fun body => 1 + Statement.depthAll body ≤ room) block)

include hblock

theorem guarded_depth (place : Place) :
    Yields (fun e => e.1.depth ≤ room ∧ 1 + Statement.depthAll e.2 ≤ room)
      (guarded room block place) :=
  .bind (.any _) fun _ _ => .bind (condition_depth room) fun _ htest => .bind (.any _) fun _ _ =>
    .bind hblock fun _ hbody => .pure ⟨htest, hbody⟩

theorem otherwise_depth :
    Yields (fun last => Statement.depthElse last ≤ room) (otherwise block) := by
  refine .bind (.any _) fun b _ => ?_
  split
  · exact .bind (.any _) fun _ _ => .bind hblock fun body hbody => .pure hbody
  · exact .pure (by simp only [Statement.depthElse]; omega)

theorem statementOf_depth : Yields (fun s => s.depth ≤ room) (statementOf room block) := by
  refine .bind (.any _) fun k _ => ?_
  split
  · refine .bind (.any _) fun k _ => ?_
    split
    · refine .bind (.any _) fun _ _ => .bind (argument_depth _ _ (expression_depth room))
        fun count hcount => .bind (.any _) fun _ _ => .pure ?_
      cases count with
      | none => simp only [Statement.depth]; omega
      | some e => have := hcount e rfl; simp only [Statement.depth]; omega
    · exact .throw _
  · refine .bind (.any _) fun _ _ => .bind hblock fun body hbody => .pure ?_
    simp only [Statement.depth]; omega
  · refine .bind (.any _) fun _ _ => .bind (guarded_depth hblock _) fun first hfirst =>
      .bind (.sequence (.bind (.any _) fun _ _ => guarded_depth hblock _)) fun elifs helifs =>
      .bind (otherwise_depth hblock) fun last hlast => .pure ?_
    have := Statement.depthElifs_le_iff.2 helifs
    simp only [Statement.depth]; omega
  · refine .bind (.any _) fun _ _ => .bind (guarded_depth hblock _) fun first hfirst => .pure ?_
    simp only [Statement.depth]; omega
  · refine .bind (.any _) fun _ _ => .bind (.any _) fun _ _ => .bind (expression_depth room)
      fun value hvalue => .bind (.any _) fun _ _ => .pure ?_
    simp only [Statement.depth]; omega
  · exact .throw _

end

theorem statements_depth {room : Nat} {done : Reader Bool} {statement : Reader Statement}
    (h : Yields (fun s => s.depth ≤ room) statement) :
    Yields (fun body => Statement.depthAll body ≤ room) (statements done statement) :=
  .bind h fun _ hfirst => .bind (.sequence h) fun _ hrest =>
    .pure (Statement.depthAll_le_iff.2 (List.forall_mem_cons.2 ⟨hfirst, hrest⟩))

theorem block_depth : ∀ room,
    Yields (fun body => 1 + Statement.depthAll body ≤ room) (block room) := by
  intro room
  induction room with
  | zero => exact .throw _
  | succ room ih =>
    refine .bind (.any _) fun _ _ => .bind (statements_depth (statementOf_depth ih))
      fun body hbody => .bind (.any _) fun _ _ => .pure ?_
    omega

theorem statement_depth (room : Nat) : Yields (fun s => s.depth ≤ room) (statement room) :=
  statementOf_depth (block_depth room)

end RobotScript.Grammar
