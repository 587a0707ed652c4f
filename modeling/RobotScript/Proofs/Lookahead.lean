import RobotScript.Proofs.Soundness

/-!
# One token of lookahead

What a production does is settled by the tokens it takes and the one after them, and more
room changes nothing but the places where the nesting was found too deep (`Within`).

* `within_expression`, `within_condition`, `within_block`, `within_statement`: with `room`
  levels and with `room'` levels, `room ≤ room'`.
-/

namespace RobotScript.Grammar

open Reader

variable {room room' : Nat}

theorem within_number : Within (number : Reader Expr) number := by
  intro ts
  cases ts with
  | nil =>
    constructor
    · intro e rest h; cases h
    · intro fault rest h _; cases h
      refine ⟨[], rfl, fun vs hvs => ?_⟩
      cases vs with
      | nil => rfl
      | cons v vs => cases hvs
  | cons t ts =>
    cases hv : (if t.kind = .number then Decimal.int32? t.lexeme else none) with
    | none =>
      have h := number_cons_none hv
      constructor <;> intro _ _ hx <;> rw [h] at hx <;> cases hx
      refine fun _ => ⟨[], rfl, fun vs hvs => ?_⟩
      cases vs with
      | nil => cases hvs
      | cons v vs => cases hvs; exact h vs
    | some value =>
      have h := number_cons hv
      constructor <;> intro _ _ hx <;> rw [h] at hx <;> cases hx
      exact ⟨[t], rfl, fun vs _ => h vs⟩

/-- Whether there is an argument is settled by the token before which it is looked for. -/
theorem within_argument (allowed : Bool) (place : Place) {x y : Reader Expr} (h : Within x y) :
    Within (argument allowed place x) (argument allowed place y) := by
  refine (within_isNext _).bind fun b => ?_
  by_cases hb : (allowed && b) = true
  · simp only [hb, if_true]
    exact (within_require _ _).bind fun _ => h.bind fun _ => (within_require _ _).bind fun _ =>
      within_pure _
  · simp only [hb]
    exact within_pure _

theorem within_sensor {x y : Reader Expr} (h : Within x y) : Within (sensor x) (sensor y) := by
  refine within_peekKind.bind fun k => ?_
  cases k with
  | none => exact within_throw _
  | some kind =>
    cases kind with
    | sensor word =>
      refine within_skip.bind fun _ => (within_argument _ _ h).bind fun arg => ?_
      cases arg with
      | none => exact within_pure _
      | some rank => exact within_pure _
    | _ => exact within_throw _

theorem within_variableName : Within variableName variableName :=
  (within_require _ _).bind fun _ => within_pure _

/-- **More room changes nothing for an expression** that was not too deep with less. -/
theorem within_expression : ∀ {room room' : Nat}, room ≤ room' →
    Within (expression room) (expression room') := by
  intro room
  induction room with
  -- without room the nesting is too deep, and then nothing is asked of the other reader
  | zero => intro room' _; exact within_tooDeep _
  | succ room ih =>
    intro room' hle
    obtain ⟨room', rfl⟩ : ∃ n, room' = n + 1 := ⟨room' - 1, by omega⟩
    have ih := ih (show room ≤ room' by omega)
    refine within_peekKind.bind fun k => ?_
    cases k with
    | none => exact within_throw _
    | some kind =>
      cases kind with
      | sensor word => exact within_sensor ih
      | number => exact within_number
      | var => exact within_variableName.bind fun _ => within_pure _
      | operator op => exact within_skip.bind fun _ => within_pair _ ih
      | _ => exact within_throw _

/-- **More room changes nothing for a condition**, nor for the expressions it compares. -/
theorem within_condition : ∀ {room room' : Nat}, room ≤ room' →
    Within (condition room) (condition room') := by
  intro room
  induction room with
  | zero => intro room' _; exact within_tooDeep _
  | succ room ih =>
    intro room' hle
    obtain ⟨room', rfl⟩ : ∃ n, room' = n + 1 := ⟨room' - 1, by omega⟩
    have ih := ih (show room ≤ room' by omega)
    refine within_peekKind.bind fun k => ?_
    cases k with
    | none => exact within_throw _
    | some kind =>
      cases kind with
      | relop op => exact within_skip.bind fun _ => within_pair _ (within_expression (by omega))
      | combinator word =>
        cases word with
        | not =>
          exact within_skip.bind fun _ => (within_require _ _).bind fun _ => ih.bind fun _ =>
            (within_require _ _).bind fun _ => within_pure _
        | and => exact within_skip.bind fun _ => within_pair _ ih
        | or => exact within_skip.bind fun _ => within_pair _ ih
      | _ => exact within_throw _

section

variable {block block' : Reader Block}

/-- An `else` is looked for after the last `elif`, by one token and no more. -/
theorem within_otherwise (hb : Within block block') :
    Within (otherwise block) (otherwise block') := by
  refine (within_isNext _).bind fun b => ?_
  cases b with
  | true => exact (within_require _ _).bind fun _ => hb.bind fun _ => within_pure _
  | false => exact within_pure _

variable (hle : room ≤ room') (hb : Within block block')

include hle

theorem within_action : Within (action room) (action room') := by
  refine within_peekKind.bind fun k => ?_
  cases k with
  | none => exact within_throw _
  | some kind =>
    cases kind with
    | action word =>
      exact within_skip.bind fun _ => (within_argument _ _ (within_expression hle)).bind fun _ =>
        (within_require _ _).bind fun _ => within_pure _
    | _ => exact within_throw _

theorem within_assignment : Within (assignment room) (assignment room') :=
  within_variableName.bind fun _ => (within_require _ _).bind fun _ =>
    (within_expression hle).bind fun _ => (within_require _ _).bind fun _ => within_pure _

include hb

theorem within_guarded (place : Place) :
    Within (guarded room block place) (guarded room' block' place) :=
  (within_require _ _).bind fun _ => (within_condition hle).bind fun _ =>
    (within_require _ _).bind fun _ => hb.bind fun _ => within_pure _

theorem within_elif : Within (elif room block) (elif room' block') :=
  (within_require _ _).bind fun _ => within_guarded hle hb _

/-- The blocks of an `if` follow the grammar, so each `elif` takes a token and the sequence ends. -/
theorem within_branch (hr : Reads DerivesBlock block) (hr' : Reads DerivesBlock block') :
    Within (branch room block) (branch room' block') := by
  have hpeek : Peeks (do return !(← isNext .elifWord)) := fun ts => ⟨_, rfl⟩
  have hshort : Shortens (elif room block) := (reads_elif hr).shortens not_derivesElif_nil
  have hshort' : Shortens (elif room' block') := (reads_elif hr').shortens not_derivesElif_nil
  have hseq := within_sequence hpeek ((within_isNext _).bind fun _ => within_pure _) hshort hshort'
    (within_elif hle hb)
  exact (within_require _ _).bind fun _ => (within_guarded hle hb _).bind fun _ =>
    hseq.bind fun _ => (within_otherwise hb).bind fun _ => within_pure _

/-- A statement changes no more with the room than the blocks in it do. -/
theorem within_statementOf (hr : Reads DerivesBlock block) (hr' : Reads DerivesBlock block') :
    Within (statementOf room block) (statementOf room' block') := by
  refine within_peekKind.bind fun k => ?_
  cases k with
  | none => exact within_throw _
  | some kind =>
    cases kind with
    | action word => exact within_action hle
    | loop => exact (within_require _ _).bind fun _ => hb.bind fun _ => within_pure _
    | ifWord => exact within_branch hle hb hr hr'
    | whileWord =>
      exact (within_require _ _).bind fun _ => (within_guarded hle hb _).bind fun _ => within_pure _
    | var => exact within_assignment hle
    | _ => exact within_throw _

end

theorem within_statements {done : Reader Bool} (hpeek : Peeks done) (hd : Within done done)
    {x y : Reader Statement} (hx : Shortens x) (hy : Shortens y) (h : Within x y) :
    Within (statements done x) (statements done y) :=
  h.bind fun _ => (within_sequence hpeek hd hx hy h).bind fun _ => within_pure _

/-- **More room changes nothing for a block** that was not too deep with less. -/
theorem within_block : ∀ {room room' : Nat}, room ≤ room' → Within (block room) (block room') := by
  intro room
  induction room with
  | zero => intro room' _; exact within_tooDeep _
  | succ room ih =>
    intro room' hle
    obtain ⟨room', rfl⟩ : ∃ n, room' = n + 1 := ⟨room' - 1, by omega⟩
    have hle : room ≤ room' := by omega
    have hs := within_statementOf hle (ih hle) (reads_block room) (reads_block room')
    exact (within_require _ _).bind fun _ =>
      (within_statements (fun ts => ⟨_, rfl⟩) (within_isNext _) (shortens_statement room)
        (shortens_statement room') hs).bind fun _ =>
      (within_require _ _).bind fun _ => within_pure _

theorem within_statement (hle : room ≤ room') : Within (statement room) (statement room') :=
  within_statementOf hle (within_block hle) (reads_block room) (reads_block room')

end RobotScript.Grammar
