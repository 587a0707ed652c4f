import RobotScript.Proofs.Descent

/-!
# Faults that are never met

A production is chosen by the kind of the next token, and then asks for that token itself. A block
reads statements until it sees its end, and then asks for the end. What is asked for in this way is
there, so the faults that would say otherwise are never met.

* `Fault.foreseen`: these faults.
* `Reader.FailsAt`: what a reader can fail with on a token list. It is settled by the tokens that were
  looked at before (`FailsAt.take`), and passes through `>>=`.
* `fails_expression`, `fails_condition`, `fails_block`: by induction on the levels left.
* `foreseen_is_never_missed`: no call on a parser answers with such a fault.
-/

namespace RobotScript

/-- **The faults for tokens that have been seen** before they are asked for. -/
def Fault.foreseen : List Fault :=
  [.notAction, .noOpen .action, .notLoop, .noIf, .noElif, .noElse, .noWhile, .notVariable,
    .noBlockClose, .notSensor, .noOpen .sensor]

/-- The fault is none of those. -/
def Fault.Unforeseen (fault : Fault) : Prop := fault ∉ Fault.foreseen

instance (fault : Fault) : Decidable fault.Unforeseen := inferInstanceAs (Decidable (_ ∉ _))

namespace Reader

variable {α β : Type} {P : Fault → Prop}

/-- What `x` fails with on `ts` has the property. -/
def FailsAt (P : Fault → Prop) (x : Reader α) (ts : List Token) : Prop :=
  ∀ fault rest, x ts = .error fault rest → P fault

/-- **A reader fails only with faults that have the property.** -/
def Fails (P : Fault → Prop) (x : Reader α) : Prop := ∀ ts, FailsAt P x ts

theorem FailsAt.bind {x : Reader α} {f : α → Reader β} {ts : List Token} (hx : FailsAt P x ts)
    (hf : ∀ a rest, x ts = .ok a rest → FailsAt P (f a) rest) : FailsAt P (x >>= f) ts := by
  intro fault rest h
  rcases bind_error h with h | ⟨a, us, ha, h⟩
  · exact hx fault rest h
  · exact hf a us ha fault rest h

theorem Fails.bind {x : Reader α} {f : α → Reader β} (hx : Fails P x) (hf : ∀ a, Fails P (f a)) :
    Fails P (x >>= f) :=
  fun ts => (hx ts).bind fun a rest _ => hf a rest

theorem fails_pure (a : α) : Fails P (pure a) := by
  intro ts fault rest h
  cases h

theorem fails_throw {fault : Fault} (h : P fault) : Fails P (throw fault : Reader α) := by
  intro ts fault' rest h'
  cases h'
  exact h

theorem fails_isDone : Fails P isDone := by
  intro ts fault rest h
  cases h

theorem fails_skip : Fails P skip := by
  intro ts fault rest h
  cases h

theorem fails_require (kind : Kind) {fault : Fault} (h : P fault) : Fails P (require kind fault) := by
  intro ts fault' rest h'
  cases ts with
  | nil => cases h'; exact h
  | cons t ts =>
    by_cases hk : t.kind = kind
    · rw [require_cons hk] at h'; cases h'
    · rw [require_cons_ne hk] at h'; cases h'; exact h

/-- **A token that has been seen is there**, whatever fault is given for the case that it is not. -/
theorem FailsAt.take {kind : Kind} {fault : Fault} {f : Token → Reader β} {t : Token}
    {ts : List Token} (ht : t.kind = kind) (h : FailsAt P (f t) ts) :
    FailsAt P (require kind fault >>= f) (t :: ts) := by
  intro fault' rest h'
  rw [bind_eq_of_ok (require_cons ht)] at h'
  exact h fault' rest h'

/-- A look at the next token settles what is done. -/
theorem FailsAt.peek {f : Option Kind → Reader α} {ts : List Token}
    (h : FailsAt P (f (ts.head?.map Token.kind)) ts) : FailsAt P (peekKind >>= f) ts := h

theorem exists_of_isNext {kind : Kind} {ts : List Token}
    (h : (isNext kind : Reader Bool) ts = .ok true ts) : ∃ t us, ts = t :: us ∧ t.kind = kind := by
  cases ts with
  | nil => cases h
  | cons t us =>
    by_cases hk : t.kind = kind
    · exact ⟨t, us, rfl, hk⟩
    · rw [isNext_of_notNext (notNext_cons hk)] at h
      cases h

/-- Whether the next token is of a kind settles what is done. -/
theorem FailsAt.next {kind : Kind} {f : Bool → Reader α} {ts : List Token}
    (hyes : ∀ t us, ts = t :: us → t.kind = kind → FailsAt P (f true) ts)
    (hno : FailsAt P (f false) ts) : FailsAt P (isNext kind >>= f) ts := by
  refine FailsAt.bind (fun fault rest h => by cases h) fun b rest h => ?_
  have hrest : rest = ts := by cases h; rfl
  subst hrest
  cases b with
  | true =>
    obtain ⟨t, us, hts, ht⟩ := exists_of_isNext h
    exact hyes t us hts ht
  | false => exact hno

theorem fails_pair {x : Reader α} (g : α → α → β) {noOpen noComma noClose : Fault} (hx : Fails P x)
    (hopen : P noOpen) (hcomma : P noComma) (hclose : P noClose) :
    Fails P (pair x noOpen noComma noClose g) :=
  (fails_require _ hopen).bind fun _ => hx.bind fun _ => (fails_require _ hcomma).bind fun _ =>
    hx.bind fun _ => (fails_require _ hclose).bind fun _ => fails_pure _

/-- **The items of a sequence are read only where its test has failed.** -/
theorem fails_sequence {done : Reader Bool} {item : Reader α} (hdone : Peeks done)
    (hitem : ∀ ts, done ts = .ok false ts → FailsAt P item ts) : Fails P (sequence done item) := by
  have hupTo : ∀ n, Fails P (upTo done item n) := by
    intro n
    induction n with
    | zero => exact fails_pure []
    | succ n ih =>
      intro ts
      obtain ⟨b, hb⟩ := hdone ts
      cases b with
      | true =>
        intro fault rest h
        rw [upTo_done hb] at h
        cases h
      | false =>
        have hstep : FailsAt P
            (do let first ← item; let rest ← upTo done item n; return first :: rest) ts :=
          (hitem ts hb).bind fun first rest _ => (ih.bind fun more => fails_pure _) rest
        intro fault rest h
        rw [upTo_item hb] at h
        exact hstep fault rest h
  exact fun ts => hupTo (ts.length + 1) ts

end Reader

namespace Grammar

open Reader

theorem fails_argument (allowed : Bool) (place : Place) {expr : Reader Expr}
    (hexpr : Fails Fault.Unforeseen expr) (hclose : Fault.Unforeseen (.noClose place)) :
    Fails Fault.Unforeseen (argument allowed place expr) := by
  intro ts
  cases allowed with
  | false => exact .next (fun _ _ _ _ => fails_pure none ts) (fails_pure none ts)
  | true =>
    refine .next ?_ (fails_pure none ts)
    rintro t us rfl ht
    -- the parenthesis has been seen
    refine .take ht ((hexpr.bind fun value => ?_) us)
    exact (fails_require _ hclose).bind fun _ => fails_pure (some value)

theorem failsAt_sensor {expr : Reader Expr} (hexpr : Fails Fault.Unforeseen expr) {t : Token}
    {word : Sensor} (ht : t.kind = .sensor word) (ts : List Token) :
    FailsAt Fault.Unforeseen (sensor expr) (t :: ts) := by
  unfold sensor
  refine .peek ?_
  simp only [List.head?_cons, Option.map_some, ht]
  refine (fails_skip.bind fun _ => (fails_argument _ _ hexpr (by decide)).bind fun arg => ?_) (t :: ts)
  cases arg with
  | none => exact fails_pure _
  | some rank => exact fails_pure _

theorem fails_number : Fails Fault.Unforeseen number := by
  intro ts fault rest h
  cases ts with
  | nil => cases h; decide
  | cons t ts =>
    cases hvalue : (if t.kind = .number then Decimal.int32? t.lexeme else none) with
    | none => rw [number_cons_none hvalue] at h; cases h; decide
    | some value => rw [number_cons hvalue] at h; cases h

theorem failsAt_variableName {t : Token} (ht : t.kind = .var) (ts : List Token) :
    FailsAt Fault.Unforeseen variableName (t :: ts) :=
  .take ht (fails_pure t.lexeme ts)

theorem fails_expression : ∀ room, Fails Fault.Unforeseen (expression room) := by
  intro room
  induction room with
  | zero => exact fails_throw (by decide)
  | succ room ih =>
    intro ts
    unfold expression
    refine .peek ?_
    cases ts with
    | nil => exact fails_throw (by decide) _
    | cons t ts =>
      simp only [List.head?_cons, Option.map_some]
      cases ht : t.kind with
      | sensor word => exact failsAt_sensor ih ht ts
      | number => exact fails_number _
      | var => exact (failsAt_variableName ht ts).bind fun name rest _ => fails_pure _ rest
      | operator op =>
        exact (fails_skip.bind fun _ => fails_pair (Expr.binary op) ih (by decide) (by decide)
          (by decide)) _
      | _ => exact fails_throw (by decide) _

theorem fails_condition : ∀ room, Fails Fault.Unforeseen (condition room) := by
  intro room
  induction room with
  | zero => exact fails_throw (by decide)
  | succ room ih =>
    intro ts
    unfold condition
    refine .peek ?_
    cases ts with
    | nil => exact fails_throw (by decide) _
    | cons t ts =>
      simp only [List.head?_cons, Option.map_some]
      cases ht : t.kind with
      | relop op =>
        exact (fails_skip.bind fun _ => fails_pair (Condition.compare op) (fails_expression room)
          (by decide) (by decide) (by decide)) _
      | combinator word =>
        cases word with
        | not =>
          exact (fails_skip.bind fun _ => (fails_require _ (by decide)).bind fun _ => ih.bind fun _ =>
            (fails_require _ (by decide)).bind fun _ => fails_pure _) _
        | and | or =>
          exact (fails_skip.bind fun _ => fails_pair _ ih (by decide) (by decide) (by decide)) _
      | _ => exact fails_throw (by decide) _

section

variable {room : Nat} {block : Reader Block} (hblock : Fails Fault.Unforeseen block) {t : Token}

theorem failsAt_action {word : Action} (ht : t.kind = .action word) (ts : List Token) :
    FailsAt Fault.Unforeseen (action room) (t :: ts) := by
  unfold action
  refine .peek ?_
  simp only [List.head?_cons, Option.map_some, ht]
  have hcount := fails_argument word.takesCount .action (fails_expression room) (by decide)
  exact (fails_skip.bind fun _ => hcount.bind fun _ => (fails_require _ (by decide)).bind fun _ =>
    fails_pure _) (t :: ts)

theorem failsAt_assignment (ht : t.kind = .var) (ts : List Token) :
    FailsAt Fault.Unforeseen (assignment room) (t :: ts) := by
  refine (failsAt_variableName ht ts).bind fun name rest _ => ?_
  exact ((fails_require _ (by decide)).bind fun _ => (fails_expression room).bind fun _ =>
    (fails_require _ (by decide)).bind fun _ => fails_pure _) rest

include hblock

theorem failsAt_loop (ht : t.kind = .loop) (ts : List Token) :
    FailsAt Fault.Unforeseen (loop block) (t :: ts) :=
  .take ht ((hblock.bind fun _ => fails_pure _) ts)

theorem fails_guarded {place : Place} (hopen : Fault.Unforeseen (.noOpen place))
    (hclose : Fault.Unforeseen (.noClose place)) :
    Fails Fault.Unforeseen (guarded room block place) :=
  (fails_require _ hopen).bind fun _ => (fails_condition room).bind fun _ =>
    (fails_require _ hclose).bind fun _ => hblock.bind fun _ => fails_pure _

theorem failsAt_whileLoop (ht : t.kind = .whileWord) (ts : List Token) :
    FailsAt Fault.Unforeseen (whileLoop room block) (t :: ts) :=
  .take ht (((fails_guarded hblock (by decide) (by decide)).bind fun _ => fails_pure _) ts)

/-- An `elif` is read only where the word has been seen. -/
theorem fails_elifs :
    Fails Fault.Unforeseen (sequence (do return !(← isNext .elifWord)) (elif room block)) := by
  refine fails_sequence (fun ts => ⟨_, rfl⟩) fun ts hmore => ?_
  obtain ⟨b, us, hnext, hb⟩ := bind_ok hmore
  cases b with
  | false => cases hb
  | true =>
    cases hb
    obtain ⟨t, us, rfl, ht⟩ := exists_of_isNext hnext
    exact .take ht (fails_guarded hblock (by decide) (by decide) us)

theorem fails_otherwise : Fails Fault.Unforeseen (otherwise block) := by
  intro ts
  refine .next ?_ (fails_pure none ts)
  rintro t us rfl ht
  exact .take ht ((hblock.bind fun body => fails_pure (some body)) us)

theorem failsAt_branch (ht : t.kind = .ifWord) (ts : List Token) :
    FailsAt Fault.Unforeseen (branch room block) (t :: ts) := by
  refine .take ht (((fails_guarded hblock (by decide) (by decide)).bind fun first => ?_) ts)
  exact (fails_elifs hblock).bind fun _ => (fails_otherwise hblock).bind fun _ => fails_pure _

/-- **Each statement asks first for the token by which it was chosen.** -/
theorem fails_statementOf : Fails Fault.Unforeseen (statementOf room block) := by
  intro ts
  unfold statementOf
  refine .peek ?_
  cases ts with
  | nil => exact fails_throw (by decide) _
  | cons t ts =>
    simp only [List.head?_cons, Option.map_some]
    cases ht : t.kind with
    | action word => exact failsAt_action ht ts
    | loop => exact failsAt_loop hblock ht ts
    | ifWord => exact failsAt_branch hblock ht ts
    | whileWord => exact failsAt_whileLoop hblock ht ts
    | var => exact failsAt_assignment ht ts
    | _ => exact fails_throw (by decide) _

end

theorem fails_statements {done : Reader Bool} (hdone : Peeks done) {statement : Reader Statement}
    (h : Fails Fault.Unforeseen statement) : Fails Fault.Unforeseen (statements done statement) :=
  h.bind fun _ => (fails_sequence hdone fun ts _ => h ts).bind fun _ => fails_pure _

/-- Statements end only where their test holds. -/
theorem statements_ok {done : Reader Bool} (hdone : Peeks done) {statement : Reader Statement}
    (hshort : Shortens statement) {ts rest : List Token} {body : Block}
    (h : statements done statement ts = .ok body rest) : done rest = .ok true rest := by
  obtain ⟨first, us, -, h⟩ := bind_ok h
  obtain ⟨more, vs, hmore, h⟩ := bind_ok h
  cases h
  exact sequence_ok hdone hshort hmore

theorem fails_block : ∀ room, Fails Fault.Unforeseen (block room) := by
  intro room
  induction room with
  | zero => exact fails_throw (by decide)
  | succ room ih =>
    have hpeek : Peeks (isNext .rightBrace) := fun ts => ⟨_, rfl⟩
    refine (fails_require _ (by decide)).bind fun _ ts => ?_
    refine (fails_statements hpeek (fails_statementOf ih) ts).bind fun body rest hbody => ?_
    -- the statements have ended, so their end has been seen
    obtain ⟨t, us, rfl, ht⟩ := exists_of_isNext (statements_ok hpeek (shortens_statement room) hbody)
    exact .take ht (fails_pure body us)

theorem fails_program (room : Nat) : Fails Fault.Unforeseen (programWith room) :=
  (fails_statements peeks_isDone (fails_statementOf (fails_block room))).bind fun _ => fails_pure _

theorem fails_whole {α : Type} {fault : Fault} {x : Reader α} (hx : Fails Fault.Unforeseen x)
    (hfault : fault.Unforeseen) : Fails Fault.Unforeseen (whole fault x) := by
  refine hx.bind fun a => fails_isDone.bind fun b => ?_
  cases b with
  | true => exact fails_pure a
  | false => exact fails_throw hfault

end Grammar

/-- What the foreseen faults would say. -/
def Fault.foreseenMessages : List String :=
  ["Not a valid action", "Missing ( in action", "not a valid loop", "Missing if keyword",
    "Missing elif keyword", "Missing else keyword", "Missing while keyword",
    "Not a valid variable name", "Missing \x7d for block", "Not a valid sensor",
    "Missing ( in sensor"]

/-- No other fault says the same. -/
theorem Fault.Unforeseen.message_notMem {fault : Fault} (h : fault.Unforeseen) :
    fault.message ∉ Fault.foreseenMessages := by
  revert h
  cases fault with
  | noOpen place | noClose place | noComma place =>
    cases place with
    | combinator word => cases word <;> decide
    | _ => decide
  | _ => decide

namespace Descent

open Grammar Reader

variable {α : Type} {ts : List Token} {d : Descent}

/-- **The errors of a call are parse errors**, and none has the message of a foreseen fault. -/
def NeverMisses (d : Descent) (call : Descent → Except Error α × Descent) : Prop :=
  ∀ e, (call d).1 = .error e →
    ∃ message context, e = .parse message context ∧ message ∉ Fault.foreseenMessages

theorem Follows.neverMisses {x : Descending α} {y : Reader α} (h : Follows 0 x y) (hd : d.Idle ts)
    (hy : Fails Fault.Unforeseen y) : d.NeverMisses (call x) := by
  intro e he
  obtain ⟨d', -, ⟨a, -, hcall⟩ | ⟨fault, hread, hcall⟩⟩ := h.call_cases hd
  · rw [hcall] at he
    cases he
  · rw [hcall] at he
    cases he
    have hunforeseen := hy d.rest fault d'.rest hread
    exact ⟨fault.message, _, rfl, hunforeseen.message_notMem⟩

end Descent

/-- **A parser never says that a token is missing which it has seen.** After any calls on it, none of
the three that it can be asked next answers with the message of a foreseen fault. -/
theorem foreseen_is_never_missed {ts : List Token} {d : Descent} (h : d.Served ts) :
    d.NeverMisses Descent.program ∧ d.NeverMisses Descent.expression ∧
      d.NeverMisses Descent.condition := by
  have hexpression := Grammar.fails_expression maxNesting
  have hcondition := Grammar.fails_condition maxNesting
  refine ⟨?_, ?_, ?_⟩
  · exact Descent.follows_program.neverMisses h.idle (Grammar.fails_program maxNesting)
  · exact Descent.follows_wholeExpression.neverMisses h.idle
      (Grammar.fails_whole hexpression (by decide))
  · exact Descent.follows_wholeCondition.neverMisses h.idle
      (Grammar.fails_whole hcondition (by decide))

/-- Where the tokens end inside a block, a statement is missing and not the end of the block. -/
theorem open_block_lacks_statement :
    let ts : List Token := [⟨.loop, "loop"⟩, ⟨.leftBrace, "\x7b"⟩, ⟨.action .move, "move"⟩,
      ⟨.semicolon, ";"⟩]
    let d := (Descent.ofTokens ts).program.2
    (Descent.ofTokens ts).program.1 = .error (.parse "Not a valid statement" []) ∧ d.Served ts ∧
      d.expression.1 = .error (.parse "not a valid expression" []) ∧
      d.NeverMisses Descent.program ∧ d.NeverMisses Descent.expression ∧
      d.NeverMisses Descent.condition :=
  ⟨rfl, .program .start, rfl, foreseen_is_never_missed (.program .start)⟩

end RobotScript
