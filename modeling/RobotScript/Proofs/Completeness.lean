import RobotScript.Proofs.Soundness

/-!
# The grammar is read in full

A derivation with enough room is found: the production takes exactly the tokens of the
derivation and gives its tree, whatever comes after, as long as it could not be taken for
a further part: no parenthesis after an expression, no `elif` or `else` after a statement.

* `expression_complete`, `condition_complete`, `block_complete`, `statement_complete`: by
  induction on the levels left, one case for each rule.
-/

namespace RobotScript.Grammar

open Reader Lang

variable {room : Nat}

theorem argument_none {allowed : Bool} {place : Place} {x : Reader Expr} {rest : List Token}
    (h : NotNext .leftParen rest) : argument allowed place x rest = .ok none rest := by
  rw [argument, bind_eq_of_ok (isNext_of_notNext h), Bool.and_false]; rfl

theorem argument_some {place : Place} {x : Reader Expr} {l r : Token} {ts rest : List Token}
    {e : Expr} (hl : l.kind = .leftParen) (hr : r.kind = .rightParen)
    (hx : x (ts ++ r :: rest) = .ok e (r :: rest)) :
    argument true place x (l :: (ts ++ r :: rest)) = .ok (some e) rest := by
  rw [argument, bind_eq_of_ok (isNext_cons hl), Bool.and_self, if_pos rfl,
    bind_eq_of_ok (require_cons hl), bind_eq_of_ok hx, bind_eq_of_ok (require_cons hr)]
  rfl

theorem expression_complete : ∀ {room : Nat} {ts : List Token} {e : Expr}, DerivesExpr ts e →
    e.depth ≤ room → ∀ rest, NotNext .leftParen rest →
    (expression room : Reader Expr) (ts ++ rest) = .ok e rest := by
  intro room
  induction room with
  | zero => intro ts e _ hd; have := Expr.depth_pos e; omega
  | succ room ih =>
    intro ts e h hd rest hrest
    cases h with
    | @number t value kind reads =>
      rw [List.cons_append, List.nil_append, expression, nested_eq, peekKind_cons kind]
      exact number_cons (by rw [if_pos kind, reads]) rest
    | @var t kind =>
      rw [List.cons_append, List.nil_append, expression, nested_eq, peekKind_cons kind]
      exact bind_eq_of_ok (bind_eq_of_ok (require_cons kind))
    | @sensor t word kind =>
      rw [List.cons_append, List.nil_append, expression, nested_eq, peekKind_cons kind]
      dsimp only
      rw [sensor, peekKind_cons kind]
      dsimp only
      rw [skip_bind, bind_eq_of_ok (argument_none hrest)]
      rfl
    | @ranked t l r word ts rank kind barrel left arg right =>
      simp only [Expr.depth] at hd
      have harg := ih arg (by omega) (r :: rest) (notNext_cons (by simp [right]))
      simp only [List.cons_append, List.append_assoc, List.nil_append]
      rw [expression, nested_eq, peekKind_cons kind]
      dsimp only
      rw [sensor, peekKind_cons kind]
      dsimp only
      rw [skip_bind, takesRank_iff.2 barrel, bind_eq_of_ok (argument_some left right harg)]
      rfl
    | @binary t l c r op ts us e₁ e₂ kind left first comma second right =>
      simp only [Expr.depth] at hd
      have h₁ := ih first (by omega) (c :: (us ++ r :: rest)) (notNext_cons (by simp [comma]))
      have h₂ := ih second (by omega) (r :: rest) (notNext_cons (by simp [right]))
      simp only [List.cons_append, List.append_assoc, List.nil_append]
      rw [expression, nested_eq, peekKind_cons kind]
      exact pair_eq_ok (Expr.binary op) left comma right h₁ h₂

theorem condition_complete : ∀ {room : Nat} {ts : List Token} {c : Condition},
    DerivesCondition ts c → c.depth ≤ room → ∀ rest,
    (condition room : Reader Condition) (ts ++ rest) = .ok c rest := by
  intro room
  induction room with
  | zero => intro ts c _ hd; have := Condition.depth_pos c; omega
  | succ room ih =>
    intro ts c h hd rest
    cases h with
    | @compare t l c r op ts us e₁ e₂ kind left first comma second right =>
      simp only [Condition.depth] at hd
      have h₁ := expression_complete first (show e₁.depth ≤ room by omega) (c :: (us ++ r :: rest))
        (notNext_cons (by simp [comma]))
      have h₂ := expression_complete second (show e₂.depth ≤ room by omega) (r :: rest)
        (notNext_cons (by simp [right]))
      simp only [List.cons_append, List.append_assoc, List.nil_append]
      rw [condition, nested_eq, peekKind_cons kind]
      exact pair_eq_ok (Condition.compare op) left comma right h₁ h₂
    | @and t l c r ts us c₁ c₂ kind left first comma second right =>
      simp only [Condition.depth] at hd
      have h₁ := ih first (by omega) (c :: (us ++ r :: rest))
      have h₂ := ih second (by omega) (r :: rest)
      simp only [List.cons_append, List.append_assoc, List.nil_append]
      rw [condition, nested_eq, peekKind_cons kind]
      exact pair_eq_ok Condition.and left comma right h₁ h₂
    | @or t l c r ts us c₁ c₂ kind left first comma second right =>
      simp only [Condition.depth] at hd
      have h₁ := ih first (by omega) (c :: (us ++ r :: rest))
      have h₂ := ih second (by omega) (r :: rest)
      simp only [List.cons_append, List.append_assoc, List.nil_append]
      rw [condition, nested_eq, peekKind_cons kind]
      exact pair_eq_ok Condition.or left comma right h₁ h₂
    | @not t l r ts inner kind left arg right =>
      simp only [Condition.depth] at hd
      have harg := ih arg (by omega) (r :: rest)
      simp only [List.cons_append, List.append_assoc, List.nil_append]
      rw [condition, nested_eq, peekKind_cons kind]
      dsimp only
      rw [skip_bind, bind_eq_of_ok (require_cons left), bind_eq_of_ok harg,
        bind_eq_of_ok (require_cons right)]
      rfl

/-- What may follow a statement without being taken for a part of it. -/
def AfterStatement (ts : List Token) : Prop := NotNext .elifWord ts ∧ NotNext .elseWord ts

theorem afterStatement_cons {t : Token} {ts : List Token} (h : t.kind ≠ .elifWord)
    (h' : t.kind ≠ .elseWord) : AfterStatement (t :: ts) := ⟨notNext_cons h, notNext_cons h'⟩

theorem DerivesStatement.after {us : List Token} {s : Statement} (h : DerivesStatement us s)
    (rest : List Token) : AfterStatement (us ++ rest) := by
  obtain ⟨t, us, rfl, hopen⟩ := h.head
  refine afterStatement_cons ?_ ?_ <;> intro hk <;> rw [hk] at hopen <;> cases hopen

/-- A reader takes every block that is at most `room` deep. -/
def TakesBlocks (room : Nat) (block : Reader Block) : Prop :=
  ∀ {ts body}, DerivesBlock ts body → 1 + Statement.depthAll body ≤ room →
    ∀ rest, block (ts ++ rest) = .ok body rest

section

variable {block : Reader Block} (hblock : TakesBlocks room block)

theorem action_complete {t e : Token} {word : Action} (kind : t.kind = .action word)
    (he : e.kind = .semicolon) (rest : List Token) :
    (action room : Reader Statement) (t :: e :: rest) = .ok (.action word none) rest := by
  have harg : (argument word.takesCount .action (expression room) : Reader (Option Expr))
      (e :: rest) = .ok none (e :: rest) := argument_none (notNext_cons (by simp [he]))
  rw [action, peekKind_cons kind]
  dsimp only
  rw [skip_bind, bind_eq_of_ok harg, bind_eq_of_ok (require_cons he)]
  rfl

theorem counted_complete {t l r e : Token} {word : Action} {ts : List Token} {count : Expr}
    (kind : t.kind = .action word) (repeated : word = .move ∨ word = .wait)
    (left : l.kind = .leftParen) (arg : DerivesExpr ts count) (right : r.kind = .rightParen)
    (he : e.kind = .semicolon) (hd : count.depth ≤ room) (rest : List Token) :
    (action room : Reader Statement) (t :: l :: (ts ++ r :: e :: rest)) =
      .ok (.action word (some count)) rest := by
  have harg := expression_complete arg hd (r :: e :: rest) (notNext_cons (by simp [right]))
  rw [action, peekKind_cons kind]
  dsimp only
  rw [skip_bind, takesCount_iff.2 repeated, bind_eq_of_ok (argument_some left right harg),
    bind_eq_of_ok (require_cons he)]
  rfl

theorem assignment_complete {t a e : Token} {ts : List Token} {value : Expr} (kind : t.kind = .var)
    (sign : a.kind = .assign) (arg : DerivesExpr ts value) (he : e.kind = .semicolon)
    (hd : value.depth ≤ room) (rest : List Token) :
    (assignment room : Reader Statement) (t :: a :: (ts ++ e :: rest)) =
      .ok (.assign t.lexeme value) rest := by
  have harg := expression_complete arg hd (e :: rest) (notNext_cons (by simp [he]))
  have hname : ∀ us, (variableName : Reader String) (t :: us) = .ok t.lexeme us := fun us =>
    bind_eq_of_ok (require_cons kind)
  rw [assignment, bind_eq_of_ok (hname _), bind_eq_of_ok (require_cons sign), bind_eq_of_ok harg,
    bind_eq_of_ok (require_cons he)]
  rfl

include hblock

theorem guarded_complete {ts : List Token} {branch : Elif} (h : DerivesGuarded ts branch)
    (hd : branch.1.depth ≤ room ∧ 1 + Statement.depthAll branch.2 ≤ room) (place : Place)
    (rest : List Token) : guarded room block place (ts ++ rest) = .ok branch rest := by
  cases h with
  | @guard l r ts us test body left condition right body' =>
    have htest := condition_complete condition hd.1 (r :: (us ++ rest))
    have hbody := hblock body' hd.2 rest
    simp only [List.cons_append, List.append_assoc]
    rw [guarded, bind_eq_of_ok (require_cons left), bind_eq_of_ok htest,
      bind_eq_of_ok (require_cons right), bind_eq_of_ok hbody]
    rfl

theorem otherwise_complete {ts : List Token} {last : Option Block} (h : DerivesElse ts last)
    (hd : Statement.depthElse last ≤ room) {rest : List Token} (hrest : NotNext .elseWord rest) :
    otherwise block (ts ++ rest) = .ok last rest := by
  cases h with
  | none =>
    rw [List.nil_append, otherwise, bind_eq_of_ok (isNext_of_notNext hrest)]; rfl
  | @some t ts body kind body' =>
    rw [List.cons_append, otherwise, bind_eq_of_ok (isNext_cons kind), if_pos rfl,
      bind_eq_of_ok (require_cons kind), bind_eq_of_ok (hblock body' hd rest)]
    rfl

theorem elifs_complete (hreads : Reads DerivesBlock block) {ts : List Token} {elifs : List Elif}
    (h : Many DerivesElif ts elifs) (hd : Statement.depthElifs elifs ≤ room) {rest : List Token}
    (hrest : NotNext .elifWord rest) :
    sequence (do return !(← isNext .elifWord)) (elif room block) (ts ++ rest) = .ok elifs rest := by
  have hshort : Shortens (elif room block) := (reads_elif hreads).shortens not_derivesElif_nil
  have hpeek : Peeks (do return !(← isNext .elifWord)) := fun ts => ⟨_, rfl⟩
  refine sequence_complete (F := fun _ => True) hpeek hshort ?_ ?_ h
    (Statement.depthElifs_le_iff.1 hd) trivial ?_
  · intro us branch rest hus hd _
    cases hus with
    | elif kind guarded =>
      rw [List.cons_append, elif, bind_eq_of_ok (require_cons kind)]
      exact guarded_complete hblock guarded hd _ _
  · intro us branch rest hus
    obtain ⟨t, us, rfl, hk⟩ := hus.head
    exact ⟨trivial, bind_eq_of_ok (isNext_cons hk)⟩
  · exact bind_eq_of_ok (isNext_of_notNext hrest)

theorem branch_complete (hreads : Reads DerivesBlock block) {t : Token} {ts us vs : List Token}
    {test : Condition} {body : Block} {elifs : List Elif} {last : Option Block}
    (kind : t.kind = .ifWord) (hfirst : DerivesGuarded ts (test, body))
    (helifs : Many DerivesElif us elifs) (hlast : DerivesElse vs last)
    (hd : (Statement.branch test body elifs last).depth ≤ room) {rest : List Token}
    (hrest : AfterStatement rest) :
    branch room block (t :: (ts ++ (us ++ (vs ++ rest)))) =
      .ok (.branch test body elifs last) rest := by
  simp only [Statement.depth] at hd
  have hd' : test.depth ≤ room ∧ 1 + Statement.depthAll body ≤ room := ⟨by omega, by omega⟩
  -- neither the `else` part nor what follows it begins with `elif`
  have hnext : NotNext .elifWord (vs ++ rest) := by
    cases hlast with
    | none => exact hrest.1
    | some kind _ => exact notNext_cons (by simp [kind])
  rw [branch, bind_eq_of_ok (require_cons kind),
    bind_eq_of_ok (guarded_complete hblock hfirst hd' _ _)]
  dsimp only
  rw [bind_eq_of_ok (elifs_complete hblock hreads helifs (by omega) hnext),
    bind_eq_of_ok (otherwise_complete hblock hlast (by omega) hrest.2)]
  rfl

theorem statementOf_complete (hreads : Reads DerivesBlock block) {ts : List Token} {s : Statement}
    (h : DerivesStatement ts s) (hd : s.depth ≤ room) {rest : List Token}
    (hrest : AfterStatement rest) : statementOf room block (ts ++ rest) = .ok s rest := by
  cases h with
  | action kind he =>
    simp only [List.cons_append, List.nil_append]
    rw [statementOf, peekKind_cons kind]
    exact action_complete kind he rest
  | counted kind repeated left arg right he =>
    simp only [List.cons_append, List.append_assoc, List.nil_append]
    rw [statementOf, peekKind_cons kind]
    exact counted_complete kind repeated left arg right he hd rest
  | loop kind body' =>
    rw [List.cons_append, statementOf, peekKind_cons kind]
    dsimp only
    rw [loop, bind_eq_of_ok (require_cons kind), bind_eq_of_ok (hblock body' hd rest)]
    rfl
  | branch kind first elifs last =>
    simp only [List.cons_append, List.append_assoc]
    rw [statementOf, peekKind_cons kind]
    exact branch_complete hblock hreads kind first elifs last hd hrest
  | @whileLoop t ts test body kind first =>
    simp only [Statement.depth] at hd
    have hd' : test.depth ≤ room ∧ 1 + Statement.depthAll body ≤ room := ⟨by omega, by omega⟩
    rw [List.cons_append, statementOf, peekKind_cons kind]
    dsimp only
    rw [whileLoop, bind_eq_of_ok (require_cons kind),
      bind_eq_of_ok (guarded_complete hblock first hd' _ _)]
    rfl
  | assign kind sign arg he =>
    simp only [List.cons_append, List.append_assoc, List.nil_append]
    rw [statementOf, peekKind_cons kind]
    exact assignment_complete kind sign arg he hd rest

end

/-- All statements of a list are taken, up to a place where `done` holds. -/
theorem statements_complete {done : Reader Bool} {statement : Reader Statement}
    (hdone : Peeks done) (hshort : Shortens statement)
    (hstatement : ∀ us s rest, DerivesStatement us s → s.depth ≤ room → AfterStatement rest →
      statement (us ++ rest) = .ok s rest)
    (hgo : ∀ us s rest, DerivesStatement us s → done (us ++ rest) = .ok false (us ++ rest))
    {ts : List Token} {body : Block} (h : Many DerivesStatement ts body) (hne : body ≠ [])
    (hd : Statement.depthAll body ≤ room) {rest : List Token} (hrest : AfterStatement rest)
    (hend : done rest = .ok true rest) :
    statements done statement (ts ++ rest) = .ok body rest := by
  have hd := Statement.depthAll_le_iff.1 hd
  cases h with
  | nil => exact absurd rfl hne
  | @cons us vs s body head tail =>
    -- a statement is followed by another one or by what follows them all
    have hfollow : AfterStatement (vs ++ rest) := by
      cases tail with
      | nil => exact hrest
      | cons head' _ => rw [List.append_assoc]; exact head'.after _
    have hrest' := sequence_complete hdone hshort hstatement
      (fun us s rest h => ⟨h.after rest, hgo us s rest h⟩) tail (List.forall_mem_cons.1 hd).2 hrest
      hend
    rw [List.append_assoc, statements,
      bind_eq_of_ok (hstatement us s _ head (List.forall_mem_cons.1 hd).1 hfollow),
      bind_eq_of_ok hrest']
    rfl

/-- **Every block that is not too deep is read.** -/
theorem block_complete : ∀ room, TakesBlocks room (block room) := by
  intro room
  induction room with
  | zero => intro ts body _ hd; omega
  | succ room ih =>
    intro ts body h hd rest
    cases h with
    | @braces l r ts body left statements filled right =>
      have hbody : (Grammar.statements (isNext .rightBrace) (statementOf room (block room)) :
          Reader Block) (ts ++ r :: rest) = .ok body (r :: rest) := by
        refine statements_complete (fun ts => ⟨_, rfl⟩) (shortens_statement room) ?_ ?_ statements
          filled (show Statement.depthAll body ≤ room by omega) ?_ (isNext_cons right)
        · intro us s rest h hd hrest
          exact statementOf_complete ih (reads_block room) h hd hrest
        -- no statement begins with a closing brace
        · intro us s rest h
          obtain ⟨t, us, rfl, hopen⟩ := h.head
          exact isNext_of_notNext (notNext_cons (by intro hk; rw [hk] at hopen; cases hopen))
        · exact afterStatement_cons (by simp [right]) (by simp [right])
      simp only [List.cons_append, List.append_assoc, List.nil_append]
      rw [block, nested_eq, bind_eq_of_ok (require_cons left), bind_eq_of_ok hbody,
        bind_eq_of_ok (require_cons right)]
      rfl

/-- **Every statement that is not too deep is read**, in front of what may follow it. -/
theorem statement_complete {ts : List Token} {s : Statement} (h : DerivesStatement ts s)
    (hd : s.depth ≤ room) {rest : List Token} (hrest : AfterStatement rest) :
    (statement room : Reader Statement) (ts ++ rest) = .ok s rest :=
  statementOf_complete (block_complete room) (reads_block room) h hd hrest

end RobotScript.Grammar
