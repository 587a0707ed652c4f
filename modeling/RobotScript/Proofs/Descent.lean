import RobotScript.Descent
import RobotScript.Proofs.Parser

/-!
# Parsers keep nothing but their cursor

A parser counts open levels, and takes tokens by moving a cursor. On the way a reading leaves the
count as it was, whether it succeeds or fails, and moves the cursor only forward and never past
the end. So the count, between calls, says nothing.

* `Stream.advance_cases`: the two ways in which a stream can go on. `Descent.asks_stream` says that
  what a descent looks at is what its stream tells.
* `Descent.MovesTo`: what a reading may change.
* `Descent.Follows`: a reading does on a descent what a reader does on the tokens that are left.
* `Descent.follows_levels`: a reader that is given the levels still free is followed by one that
  counts those open. So it is for expressions, conditions and blocks.
* `Descent.Served`: the descents that calls on a new one can lead to.
* `Descent.Served.eq_parser`: on these, counting makes no difference.
* `parser_keeps_nothing`: whatever the calls before, a call answers as it would on a new parser
  with the tokens that are left.
-/

namespace RobotScript

open Grammar Reader Lang

variable {α β : Type}

/-- The answer of a call depends on the tokens that are left and on nothing else. -/
theorem Parser.call_answer_congr {parser parser' : Parser} {reader : Reader α}
    (h : parser.rest = parser'.rest) : (parser.call reader).1 = (parser'.call reader).1 := by
  unfold Parser.call
  rw [h]
  cases reader parser'.rest with
  | ok => rfl
  | error => rfl

namespace Stream

variable (stream : Stream)

theorem peek_eq : stream.peek = stream.rest.head? := List.head?_drop.symm

theorem left_eq : stream.left = stream.rest.length := List.length_drop.symm

/-- **How a stream goes on**: by one token, or not at all at its end. -/
theorem advance_cases :
    (stream.cursor < stream.tokens.length ∧
      stream.advance.2 = { stream with cursor := stream.cursor + 1 }) ∨
    (stream.rest = [] ∧ stream.advance.2 = stream) := by
  unfold advance
  cases hpeek : stream.peek with
  | some t => exact .inl ⟨(List.getElem?_eq_some_iff.1 hpeek).1, rfl⟩
  | none => exact .inr ⟨List.drop_eq_nil_of_le (List.getElem?_eq_none_iff.1 hpeek), rfl⟩

/-- What is left after a token is taken. -/
theorem rest_advance : stream.advance.2.rest = stream.rest.tail := by
  rcases stream.advance_cases with ⟨-, hnext⟩ | ⟨hend, hnext⟩
  · rw [hnext]
    exact List.tail_drop.symm
  · rw [hnext, hend]; rfl

end Stream

namespace Descent

/-- **What a descent looks at is what its stream tells**, and an error quotes what is upcoming. -/
theorem asks_stream (d : Descent) (kind : Kind) (fault : Fault) :
    (peekKind : Descending (Option Kind)) d = .ok d.peekKind d ∧
    (isNext kind : Descending Bool) d = .ok (d.checkKind kind) d ∧
    (isDone : Descending Bool) d = .ok (!d.hasMore) d ∧
    fault.toError d.rest = .parse fault.message (d.upcoming contextLength) := by
  refine ⟨rfl, ?_, ?_, rfl⟩
  · show EStateM.Result.ok (d.peekKind == some kind) d = .ok (d.checkKind kind) d
    unfold Stream.peekKind Stream.checkKind Stream.check
    cases d.peek <;> rfl
  · have hmore : d.peek.isNone = !d.hasMore := by
      rw [Bool.eq_iff_iff]
      simp [Stream.peek, Stream.hasMore]
    show EStateM.Result.ok d.peek.isNone d = _
    rw [hmore]

/-- **Nothing but the cursor is moved**, and that forward, up to the end at most. -/
structure MovesTo (d d' : Descent) : Prop where
  tokens : d'.tokens = d.tokens
  depth : d'.depth = d.depth
  forward : d.cursor ≤ d'.cursor
  inside : d'.cursor ≤ d'.tokens.length

theorem MovesTo.refl {d : Descent} (h : d.cursor ≤ d.tokens.length) : d.MovesTo d :=
  ⟨rfl, rfl, Nat.le_refl _, h⟩

theorem MovesTo.trans {d d' d'' : Descent} (h : d.MovesTo d') (h' : d'.MovesTo d'') :
    d.MovesTo d'' where
  tokens := h'.tokens.trans h.tokens
  depth := h'.depth.trans h.depth
  forward := Nat.le_trans h.forward h'.forward
  inside := h'.inside

/-- The results of a reading from `d` and of a reader on its tokens are the same. -/
inductive Mirrors (d : Descent) :
    EStateM.Result Fault Descent α → EStateM.Result Fault (List Token) α → Prop
  | ok {a : α} {d' : Descent} (moves : d.MovesTo d') : Mirrors d (.ok a d') (.ok a d'.rest)
  | error {fault : Fault} {d' : Descent} (moves : d.MovesTo d') :
      Mirrors d (.error fault d') (.error fault d'.rest)

theorem Mirrors.before {d d' : Descent} (h : d.MovesTo d')
    {result : EStateM.Result Fault Descent α} {result' : EStateM.Result Fault (List Token) α}
    (hmirrors : d'.Mirrors result result') : d.Mirrors result result' := by
  cases hmirrors with
  | ok moves => exact .ok (h.trans moves)
  | error moves => exact .error (h.trans moves)

/-- **A reading follows a reader** if it does the same where `depth` levels are open. -/
def Follows (depth : Nat) (x : Descending α) (y : Reader α) : Prop :=
  ∀ d : Descent, d.depth = depth → d.cursor ≤ d.tokens.length → d.Mirrors (x d) (y d.rest)

variable {depth : Nat}

theorem follows_pure (a : α) : Follows depth (pure a) (pure a) :=
  fun _ _ hinside => .ok (.refl hinside)

theorem follows_throw (fault : Fault) :
    Follows depth (throw fault : Descending α) (throw fault) :=
  fun _ _ hinside => .error (.refl hinside)

theorem Follows.bind {x : Descending α} {y : Reader α} {f : α → Descending β} {g : α → Reader β}
    (h : Follows depth x y) (h' : ∀ a, Follows depth (f a) (g a)) :
    Follows depth (x >>= f) (y >>= g) := by
  intro d hdepth hinside
  have hfirst := h d hdepth hinside
  rw [bind_apply, bind_apply]
  generalize x d = result, y d.rest = result' at hfirst
  cases hfirst with
  | error moves => exact .error moves
  | @ok a d' moves => exact (h' a d' (moves.depth.trans hdepth) moves.inside).before moves

theorem follows_peek : Follows depth (peek : Descending (Option Token)) peek := by
  intro d hdepth hinside
  show d.Mirrors (.ok d.peek d) (.ok d.rest.head? d.rest)
  rw [d.peek_eq]
  exact .ok (.refl hinside)

theorem follows_skip : Follows depth (skip : Descending Unit) skip := by
  intro d hdepth hinside
  show d.Mirrors (.ok () { d with toParser := ⟨d.advance.2⟩ }) (.ok () d.rest.tail)
  have hmoves : d.MovesTo { d with toParser := ⟨d.advance.2⟩ } := by
    rcases d.advance_cases with ⟨hlt, hnext⟩ | ⟨-, hnext⟩
    · rw [hnext]
      exact ⟨rfl, rfl, Nat.le_succ _, hlt⟩
    · rw [hnext]
      exact .refl hinside
  rw [← d.rest_advance]
  exact .ok hmoves

theorem follows_left : Follows depth (left : Descending Nat) left := by
  intro d hdepth hinside
  show d.Mirrors (.ok d.left d) (.ok d.rest.length d.rest)
  rw [d.left_eq]
  exact .ok (.refl hinside)

/-- **A level is closed again**, whether what it was opened for succeeds or fails. -/
theorem Follows.nested {x : Descending α} {y : Reader α} (h : Follows (depth + 1) x y)
    (hdepth : depth < maxNesting) : Follows depth (nested x) y := by
  intro d hd hinside
  have hfree : ¬ maxNesting ≤ d.depth := by omega
  have hinner := h { d with depth := d.depth + 1 } (by rw [hd]) hinside
  show d.Mirrors (if maxNesting ≤ d.depth then _ else _) (y d.rest)
  rw [if_neg hfree]
  -- inside, the count stays one above that of `d`
  have hback : ∀ d' : Descent, MovesTo { d with depth := d.depth + 1 } d' →
      d.MovesTo { d' with depth := d'.depth - 1 } := by
    intro d' moves
    exact ⟨moves.tokens, by rw [moves.depth]; rfl, moves.forward, moves.inside⟩
  have hrest : y d.rest = y (Descent.mk d.toParser (d.depth + 1)).rest := rfl
  rw [hrest]
  generalize x { d with depth := d.depth + 1 } = result, y _ = result' at hinner
  cases hinner with
  | @ok a d' moves => exact .ok (hback d' moves)
  | @error fault d' moves => exact .error (hback d' moves)

theorem follows_tooDeep (x : Descending α) (h : maxNesting ≤ depth) :
    Follows depth (Reader.nested x) (throw .tooDeep) := by
  intro d hd hinside
  show d.Mirrors (if maxNesting ≤ d.depth then _ else _) (.error .tooDeep d.rest)
  rw [if_pos (hd ▸ h)]
  exact .error (.refl hinside)

/-- **Counting the levels that are open is being given those still free**, if the two read alike
within one level. -/
theorem follows_levels {counting inner : Nat → Descending α} {read : Nat → Reader α}
    (hopen : ∀ n, counting (n + 1) = nested (inner n)) (hfull : read 0 = throw .tooDeep)
    (hinner : ∀ {room room' depth}, depth + room = maxNesting → room < room' →
      Follows depth (counting room') (read room) → Follows depth (inner room') (read (room + 1))) :
    ∀ {room room' depth}, depth + room = maxNesting → room < room' →
      Follows depth (counting room') (read room) := by
  intro room
  induction room with
  | zero =>
    intro room' depth hsum hroom
    obtain ⟨room', rfl⟩ : ∃ n, room' = n + 1 := ⟨room' - 1, by omega⟩
    rw [hopen, hfull]
    exact follows_tooDeep _ (by omega)
  | succ room ih =>
    intro room' depth hsum hroom
    obtain ⟨room', rfl⟩ : ∃ n, room' = n + 1 := ⟨room' - 1, by omega⟩
    have hsum' : depth + 1 + room = maxNesting := by omega
    have hroom' : room < room' := by omega
    rw [hopen]
    exact (hinner hsum' hroom' (ih hsum' hroom')).nested (by omega)

theorem follows_peekKind : Follows depth (peekKind : Descending (Option Kind)) peekKind :=
  follows_peek.bind fun _ => follows_pure _

theorem follows_isNext (kind : Kind) : Follows depth (isNext kind : Descending Bool) (isNext kind) :=
  follows_peekKind.bind fun _ => follows_pure _

theorem follows_isDone : Follows depth (isDone : Descending Bool) isDone :=
  follows_peek.bind fun _ => follows_pure _

theorem follows_require (kind : Kind) (fault : Fault) :
    Follows depth (require kind fault : Descending Token) (require kind fault) := by
  refine follows_peek.bind fun next => ?_
  cases next with
  | none => exact follows_throw fault
  | some t =>
    by_cases hk : t.kind = kind
    · simp only [if_pos hk]
      exact follows_skip.bind fun _ => follows_pure t
    · simp only [if_neg hk]
      exact follows_throw fault

theorem follows_upTo {done : Descending Bool} {done' : Reader Bool} {item : Descending α}
    {item' : Reader α} (hdone : Follows depth done done') (hitem : Follows depth item item') :
    ∀ n, Follows depth (upTo done item n) (upTo done' item' n) := by
  intro n
  induction n with
  | zero => exact follows_pure []
  | succ n ih =>
    refine hdone.bind fun b => ?_
    cases b with
    | true => exact follows_pure []
    | false => exact hitem.bind fun _ => ih.bind fun _ => follows_pure _

theorem follows_sequence {done : Descending Bool} {done' : Reader Bool} {item : Descending α}
    {item' : Reader α} (hdone : Follows depth done done') (hitem : Follows depth item item') :
    Follows depth (sequence done item) (sequence done' item') :=
  follows_left.bind fun n => follows_upTo hdone hitem (n + 1)

theorem follows_pair {x : Descending α} {y : Reader α} (h : Follows depth x y) (g : α → α → β)
    {noOpen noComma noClose : Fault} :
    Follows depth (pair x noOpen noComma noClose g) (pair y noOpen noComma noClose g) :=
  (follows_require _ _).bind fun _ => h.bind fun _ => (follows_require _ _).bind fun _ =>
    h.bind fun _ => (follows_require _ _).bind fun _ => follows_pure _

theorem follows_number : Follows depth (number : Descending Expr) number := by
  refine follows_peek.bind fun next => ?_
  cases next with
  | none => exact follows_throw _
  | some t =>
    dsimp only
    split
    · exact follows_skip.bind fun _ => follows_pure _
    · exact follows_throw _

theorem follows_variableName : Follows depth (variableName : Descending String) variableName :=
  (follows_require _ _).bind fun _ => follows_pure _

theorem follows_argument (allowed : Bool) (place : Place) {x : Descending Expr} {y : Reader Expr}
    (h : Follows depth x y) : Follows depth (argument allowed place x) (argument allowed place y) := by
  refine (follows_isNext _).bind fun b => ?_
  split
  · exact (follows_require _ _).bind fun _ => h.bind fun _ => (follows_require _ _).bind fun _ =>
      follows_pure _
  · exact follows_pure _

theorem follows_sensor {x : Descending Expr} {y : Reader Expr} (h : Follows depth x y) :
    Follows depth (sensor x) (sensor y) := by
  refine follows_peekKind.bind fun k => ?_
  split
  · refine follows_skip.bind fun _ => (follows_argument _ _ h).bind fun arg => ?_
    cases arg with
    | none => exact follows_pure _
    | some rank => exact follows_pure _
  · exact follows_throw _

theorem follows_expression : ∀ {room room' depth : Nat}, depth + room = maxNesting → room < room' →
    Follows depth (Grammar.expression room') (Grammar.expression room) := by
  refine follows_levels (fun _ => rfl) rfl ?_
  intro room room' depth hsum hroom hinner
  refine follows_peekKind.bind fun k => ?_
  split
  · exact follows_sensor hinner
  · exact follows_number
  · exact follows_variableName.bind fun _ => follows_pure _
  · exact follows_skip.bind fun _ => follows_pair hinner _
  · exact follows_throw _

theorem follows_condition : ∀ {room room' depth : Nat}, depth + room = maxNesting → room < room' →
    Follows depth (Grammar.condition room') (Grammar.condition room) := by
  refine follows_levels (fun _ => rfl) rfl ?_
  intro room room' depth hsum hroom hinner
  have hexpr := follows_expression hsum hroom
  refine follows_peekKind.bind fun k => ?_
  split
  · exact follows_skip.bind fun _ => follows_pair hexpr _
  · exact follows_skip.bind fun _ => (follows_require _ _).bind fun _ => hinner.bind fun _ =>
      (follows_require _ _).bind fun _ => follows_pure _
  · exact follows_skip.bind fun _ => follows_pair hinner _
  · exact follows_throw _

section

variable {room room' : Nat} (hsum : depth + room = maxNesting) (hroom : room < room')
  {block : Descending Block} {block' : Reader Block} (hblock : Follows depth block block')

include hsum hroom

theorem follows_action : Follows depth (action room') (action room) := by
  refine follows_peekKind.bind fun k => ?_
  split
  · exact follows_skip.bind fun _ =>
      (follows_argument _ _ (follows_expression hsum hroom)).bind fun _ =>
      (follows_require _ _).bind fun _ => follows_pure _
  · exact follows_throw _

theorem follows_assignment : Follows depth (assignment room') (assignment room) :=
  follows_variableName.bind fun _ => (follows_require _ _).bind fun _ =>
    (follows_expression hsum hroom).bind fun _ => (follows_require _ _).bind fun _ => follows_pure _

include hblock

theorem follows_guarded (place : Place) :
    Follows depth (guarded room' block place) (guarded room block' place) :=
  (follows_require _ _).bind fun _ => (follows_condition hsum hroom).bind fun _ =>
    (follows_require _ _).bind fun _ => hblock.bind fun _ => follows_pure _

theorem follows_branch : Follows depth (branch room' block) (branch room block') := by
  have hotherwise : Follows depth (otherwise block) (otherwise block') := by
    refine (follows_isNext _).bind fun b => ?_
    cases b with
    | true => exact (follows_require _ _).bind fun _ => hblock.bind fun _ => follows_pure _
    | false => exact follows_pure _
  have helif : Follows depth (elif room' block) (elif room block') :=
    (follows_require _ _).bind fun _ => follows_guarded hsum hroom hblock _
  have helifs := follows_sequence ((follows_isNext .elifWord).bind fun b => follows_pure (!b)) helif
  exact (follows_require _ _).bind fun _ => (follows_guarded hsum hroom hblock _).bind fun _ =>
    helifs.bind fun _ => hotherwise.bind fun _ => follows_pure _

theorem follows_statementOf : Follows depth (statementOf room' block) (statementOf room block') := by
  refine follows_peekKind.bind fun k => ?_
  split
  · exact follows_action hsum hroom
  · exact (follows_require _ _).bind fun _ => hblock.bind fun _ => follows_pure _
  · exact follows_branch hsum hroom hblock
  · exact (follows_require _ _).bind fun _ => (follows_guarded hsum hroom hblock _).bind fun _ =>
      follows_pure _
  · exact follows_assignment hsum hroom
  · exact follows_throw _

end

theorem follows_statements {done : Descending Bool} {done' : Reader Bool}
    {statement : Descending Statement} {statement' : Reader Statement}
    (hdone : Follows depth done done') (h : Follows depth statement statement') :
    Follows depth (statements done statement) (statements done' statement') :=
  h.bind fun _ => (follows_sequence hdone h).bind fun _ => follows_pure _

theorem follows_block : ∀ {room room' depth : Nat}, depth + room = maxNesting → room < room' →
    Follows depth (block room') (block room) := by
  refine follows_levels (fun _ => rfl) rfl ?_
  intro room room' depth hsum hroom hinner
  have hstatement := follows_statementOf hsum hroom hinner
  exact (follows_require _ _).bind fun _ =>
    (follows_statements (follows_isNext _) hstatement).bind fun _ =>
    (follows_require _ _).bind fun _ => follows_pure _

theorem follows_program : Follows 0 (programWith levels) (programWith maxNesting) := by
  have hsum : 0 + maxNesting = maxNesting := Nat.zero_add _
  have hlevels : maxNesting < levels := Nat.lt_succ_self _
  have hstatement := follows_statementOf hsum hlevels (follows_block hsum hlevels)
  exact (follows_statements follows_isDone hstatement).bind fun _ => follows_pure _

theorem Follows.whole {x : Descending α} {y : Reader α} (h : Follows depth x y) (fault : Fault) :
    Follows depth (whole fault x) (whole fault y) := by
  refine h.bind fun a => follows_isDone.bind fun b => ?_
  cases b with
  | true => exact follows_pure a
  | false => exact follows_throw fault

/-- **Between calls** no level is open, and the cursor is within the tokens. -/
structure Idle (ts : List Token) (d : Descent) : Prop where
  tokens : d.tokens = ts
  depth : d.depth = 0
  inside : d.cursor ≤ ts.length

variable {ts : List Token} {d : Descent} {x : Descending α} {y : Reader α}

theorem idle_ofTokens (ts : List Token) : Idle ts (ofTokens ts) := ⟨rfl, rfl, Nat.zero_le _⟩

theorem Idle.moved {d' : Descent} (h : d.Idle ts) (hmoves : d.MovesTo d') : d'.Idle ts where
  tokens := hmoves.tokens.trans h.tokens
  depth := hmoves.depth.trans h.depth
  inside := by
    have hinside := hmoves.inside
    rwa [hmoves.tokens, h.tokens] at hinside

/-- A call moves the cursor and gives what a reader gives on the tokens that are left. -/
theorem Follows.call_cases (h : Follows 0 x y) (hd : d.Idle ts) : ∃ d', d.MovesTo d' ∧
    ((∃ a, y d.rest = .ok a d'.rest ∧ d.call x = (.ok a, d')) ∨
      ∃ fault, y d.rest = .error fault d'.rest ∧
        d.call x = (.error (fault.toError d'.rest), d')) := by
  have hmirrors := h d hd.depth (hd.tokens ▸ hd.inside)
  unfold Descent.call
  generalize x d = result, y d.rest = result' at hmirrors
  cases hmirrors with
  | @ok a d' moves => exact ⟨d', moves, .inl ⟨a, rfl, rfl⟩⟩
  | @error fault d' moves => exact ⟨d', moves, .inr ⟨fault, rfl, rfl⟩⟩

theorem Follows.moves (h : Follows 0 x y) (hd : d.Idle ts) : d.MovesTo (d.call x).2 := by
  obtain ⟨d', hmoves, ⟨a, -, hcall⟩ | ⟨fault, -, hcall⟩⟩ := h.call_cases hd
  · rw [hcall]; exact hmoves
  · rw [hcall]; exact hmoves

/-- **A parser that counts does what one does that is given its levels.** -/
theorem Follows.call_eq (h : Follows 0 x y) (hd : d.Idle ts) :
    d.call x = ((d.toParser.call y).1, ⟨(d.toParser.call y).2, 0⟩) := by
  have hmoved : ∀ d' : Descent, d.MovesTo d' → d' = ⟨d.toParser.moveTo d'.rest, 0⟩ := by
    intro d' hmoves
    obtain ⟨⟨⟨tokens, cursor⟩⟩, depth⟩ := d'
    obtain rfl : tokens = d.tokens := hmoves.tokens
    obtain rfl : depth = 0 := hmoves.depth.trans hd.depth
    have hinside : cursor ≤ d.tokens.length := hmoves.inside
    have hcursor : d.tokens.length - (d.tokens.drop cursor).length = cursor := by
      rw [List.length_drop]; omega
    unfold Parser.moveTo Stream.rest
    rw [hcursor]
  unfold Parser.call
  obtain ⟨d', hmoves, ⟨a, hread, hcall⟩ | ⟨fault, hread, hcall⟩⟩ := h.call_cases hd
  · rw [hread, hcall]
    exact Prod.ext rfl (hmoved d' hmoves)
  · rw [hread, hcall]
    exact Prod.ext rfl (hmoved d' hmoves)

theorem follows_wholeExpression :
    Follows 0 (whole .afterExpression (Grammar.expression levels)) wholeExpression :=
  (follows_expression (Nat.zero_add _) (Nat.lt_succ_self _)).whole _

theorem follows_wholeCondition :
    Follows 0 (whole .afterCondition (Grammar.condition levels)) wholeCondition :=
  (follows_condition (Nat.zero_add _) (Nat.lt_succ_self _)).whole _

/-- **The parsers that calls on a new one can lead to**, whatever came of these calls. -/
inductive Served (ts : List Token) : Descent → Prop
  | start : Served ts (ofTokens ts)
  | program {d : Descent} (served : Served ts d) : Served ts d.program.2
  | expression {d : Descent} (served : Served ts d) : Served ts d.expression.2
  | condition {d : Descent} (served : Served ts d) : Served ts d.condition.2

/-- **Calls leave no level open**, and the cursor within the tokens. -/
theorem Served.idle (h : d.Served ts) : d.Idle ts := by
  induction h with
  | start => exact idle_ofTokens ts
  | program _ ih => exact ih.moved (follows_program.moves ih)
  | expression _ ih => exact ih.moved (follows_wholeExpression.moves ih)
  | condition _ ih => exact ih.moved (follows_wholeCondition.moves ih)

theorem Served.eq_parser (h : d.Served ts) :
    d.program = (d.toParser.program.1, ⟨d.toParser.program.2, 0⟩) ∧
    d.expression = (d.toParser.expression.1, ⟨d.toParser.expression.2, 0⟩) ∧
    d.condition = (d.toParser.condition.1, ⟨d.toParser.condition.2, 0⟩) :=
  ⟨follows_program.call_eq h.idle, follows_wholeExpression.call_eq h.idle,
    follows_wholeCondition.call_eq h.idle⟩

/-- **A call takes nothing from the calls before it** but the cursor. -/
structure Forgets (ts : List Token) (d : Descent) (call : Descent → Except Error α × Descent) :
    Prop where
  before : d.Idle ts
  after : (call d).2.Idle ts
  /-- The answer is that of a new parser with the tokens that are left. -/
  answer : (call d).1 = (call (ofTokens (ts.drop d.cursor))).1
  forward : d.cursor ≤ (call d).2.cursor
  /-- A success takes the tokens that are left, of which there are some. -/
  success {a : α} (succeeds : (call d).1 = .ok a) :
    d.cursor < (call d).2.cursor ∧ (call d).2.cursor = ts.length

theorem Follows.forgets {D : Lang α} {depth : α → Nat} {read : Nat → Reader α}
    (h : Follows 0 x (read maxNesting)) (hdecides : Decides D depth read) (hnil : ∀ a, ¬ D [] a)
    (hd : d.Idle ts) : d.Forgets ts (call x) where
  before := hd
  after := hd.moved (h.moves hd)
  answer := by
    have hrest : d.rest = (ofTokens (ts.drop d.cursor)).rest := by
      show d.tokens.drop d.cursor = (ts.drop d.cursor).drop 0
      rw [hd.tokens, List.drop_zero]
    rw [h.call_eq hd, h.call_eq (idle_ofTokens _)]
    exact Parser.call_answer_congr hrest
  forward := (h.moves hd).forward
  success := by
    intro a hsucceeds
    obtain ⟨d', hmoves, ⟨b, hread, hcall⟩ | ⟨fault, -, hcall⟩⟩ := h.call_cases hd
    · rw [hcall]
      show d.cursor < d'.cursor ∧ d'.cursor = ts.length
      obtain ⟨hD, hdepth⟩ := hdecides.sound hread
      -- what derives the tree is all that was left, so nothing is left behind it
      have hend : d'.rest = [] := by
        have hall := hdecides.complete hD hdepth
        rw [hread] at hall
        exact (EStateM.Result.ok.inj hall).2
      have hsome : d.rest ≠ [] := fun hempty => hnil b (hempty ▸ hD)
      have hbefore : ¬ d.tokens.length ≤ d.cursor := fun hle => hsome (List.drop_eq_nil_of_le hle)
      have hafter : d'.tokens.length ≤ d'.cursor := List.drop_eq_nil_iff.1 hend
      have hinside := hmoves.inside
      rw [hmoves.tokens, hd.tokens] at hafter hinside
      rw [hd.tokens] at hbefore
      exact ⟨by omega, by omega⟩
    · rw [hcall] at hsucceeds
      cases hsucceeds

end Descent

/-- **A parser keeps nothing from call to call** but its cursor. After any calls on it, each of the
three it can be asked next finds no level open and leaves none, answers as a new parser does on the
tokens that are left, and moves the cursor forward, to the end if it succeeds. -/
theorem parser_keeps_nothing {ts : List Token} {d : Descent} (h : d.Served ts) :
    d.Forgets ts Descent.program ∧ d.Forgets ts Descent.expression ∧
      d.Forgets ts Descent.condition :=
  ⟨Descent.follows_program.forgets decides_program not_derivesProgram_nil h.idle,
    Descent.follows_wholeExpression.forgets decides_expression not_derivesExpr_nil h.idle,
    Descent.follows_wholeCondition.forgets decides_condition not_derivesCondition_nil h.idle⟩

/-- A program that breaks off in a block at a number leaves a parser that reads the number. -/
theorem number_is_read_after_broken_block :
    let ts : List Token := [⟨.loop, "loop"⟩, ⟨.leftBrace, "\x7b"⟩, ⟨.number, "5"⟩]
    let d := (Descent.ofTokens ts).program.2
    (Descent.ofTokens ts).program.1 = .error (.parse "Not a valid statement" ["5"]) ∧
      d.cursor = 2 ∧ d.expression.1 = .ok (.number 5) ∧ d.Served ts ∧
      d.Forgets ts Descent.program ∧ d.Forgets ts Descent.expression ∧
      d.Forgets ts Descent.condition :=
  ⟨rfl, rfl, rfl, .program .start, parser_keeps_nothing (.program .start)⟩

end RobotScript
