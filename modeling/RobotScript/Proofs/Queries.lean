import Mathlib.Data.List.Infix
import RobotScript.Evaluator
import RobotScript.Proofs.Course
import RobotScript.Proofs.Division
import RobotScript.Robot.Scripted

/-!
# Which sensors are asked, and when

* `Expr.queries`, `Condition.queries`: the sensors in the order in which they are to be asked, which
  the tree alone determines.
* `Expr.Visits`, `Condition.Visits`: evaluation comes to a part of the tree in some state.
* `Expr.follows`, `Condition.follows`: evaluation does its errands in order, up to the first
  division by zero.
* `queries_follow_syntax`: so the sensors are asked in the order of the tree, each with the value of
  its rank.
-/

namespace RobotScript

/-- The sensor that a query asks. -/
def Query.sensor : Query → Sensor
  | .opponentFB => .oppFB
  | .opponentLR => .oppLR
  | .barrelFB _ => .barrelFB
  | .barrelLR _ => .barrelLR
  | .fuel => .fuelLeft
  | .distanceToWall => .wallDist
  | .numBarrels => .numBarrels

@[simp] theorem Sensor.sensor_query (word : Sensor) (rank : Int32) :
    (word.query rank).sensor = word := by
  cases word <;> rfl

/-- The sensor that a call asks, if it asks one. -/
def Call.sensor? : Call → Option Sensor
  | .deed _ => none
  | .query q => some q.sensor

/-- **The order in which an expression asks the sensors**: a rank before its sensor, and the left
side before the right one. -/
def Expr.queries : Expr → List Sensor
  | .number _ | .var _ => []
  | .sensor word => [word]
  | .ranked word rank => rank.queries ++ [word]
  | .binary _ left right => left.queries ++ right.queries

/-- **The order in which a condition asks the sensors**: a comparison its right side first, the
others their left one. -/
def Condition.queries : Condition → List Sensor
  | .compare _ left right => right.queries ++ left.queries
  | .and left right | .or left right => left.queries ++ right.queries
  | .not inner => inner.queries

/-- What evaluation does on its way: it asks a sensor or divides. -/
inductive Errand
  | query (word : Sensor)
  | divide (left right : Expr)

def Errand.sensor? : Errand → Option Sensor
  | .query word => some word
  | .divide .. => none

/-- The sensors asked on errands. -/
def Errand.queries (errands : List Errand) : List Sensor := errands.filterMap Errand.sensor?

@[simp] theorem Errand.queries_append (errands more : List Errand) :
    queries (errands ++ more) = queries errands ++ queries more :=
  List.filterMap_append

/-- The errand that an operation is, once its operands have their values. -/
def ArithOp.errands (left right : Expr) : ArithOp → List Errand
  | .div => [.divide left right]
  | .add | .sub | .mul => []

def Expr.errands : Expr → List Errand
  | .number _ | .var _ => []
  | .sensor word => [.query word]
  | .ranked word rank => rank.errands ++ [.query word]
  | .binary op left right => left.errands ++ (right.errands ++ op.errands left right)

def Condition.errands : Condition → List Errand
  | .compare _ left right => right.errands ++ left.errands
  | .and left right | .or left right => left.errands ++ right.errands
  | .not inner => inner.errands

@[simp] theorem ArithOp.queries_errands (op : ArithOp) (left right : Expr) :
    Errand.queries (op.errands left right) = [] := by
  cases op <;> rfl

theorem Expr.queries_errands (e : Expr) : Errand.queries e.errands = e.queries := by
  induction e with
  | number value => rfl
  | sensor word => rfl
  | ranked word rank ih => rw [Expr.errands, Errand.queries_append, ih]; rfl
  | var name => rfl
  | binary op left right ihl ihr =>
    simp [Expr.errands, Expr.queries, ihl, ihr]

theorem Condition.queries_errands (c : Condition) : Errand.queries c.errands = c.queries := by
  induction c with
  | compare op left right =>
    rw [Condition.errands, Errand.queries_append, left.queries_errands, right.queries_errands]; rfl
  | and left right ihl ihr | or left right ihl ihr =>
    rw [Condition.errands, Errand.queries_append, ihl, ihr]; rfl
  | not inner ih => exact ih

section

variable {ρ : Type} (robot : Robot ρ)

/-- **Evaluating an expression comes to a part of it**, in a state. -/
inductive Expr.Visits : Expr → Run ρ → Expr → Run ρ → Prop
  | here {e : Expr} {run : Run ρ} : Visits e run e run
  | rank {word : Sensor} {rank part : Expr} {run there : Run ρ}
      (inside : Visits rank run part there) : Visits (.ranked word rank) run part there
  | left {op : ArithOp} {left right part : Expr} {run there : Run ρ}
      (inside : Visits left run part there) : Visits (.binary op left right) run part there
  | right {op : ArithOp} {left right part : Expr} {run mid there : Run ρ} {l : Int32}
      (first : left.eval robot run = .ok l mid) (inside : Visits right mid part there) :
      Visits (.binary op left right) run part there

/-- **Evaluating a condition comes to a part of one of its operands**, in a state. -/
inductive Condition.Visits : Condition → Run ρ → Expr → Run ρ → Prop
  | compareRight {op : Relop} {left right part : Expr} {run there : Run ρ}
      (inside : right.Visits robot run part there) : Visits (.compare op left right) run part there
  | compareLeft {op : Relop} {left right part : Expr} {run mid there : Run ρ} {r : Int32}
      (first : right.eval robot run = .ok r mid) (inside : left.Visits robot mid part there) :
      Visits (.compare op left right) run part there
  | andLeft {left right : Condition} {part : Expr} {run there : Run ρ}
      (inside : Visits left run part there) : Visits (.and left right) run part there
  | andRight {left right : Condition} {part : Expr} {run mid there : Run ρ} {l : Bool}
      (first : left.eval robot run = .ok l mid) (inside : Visits right mid part there) :
      Visits (.and left right) run part there
  | orLeft {left right : Condition} {part : Expr} {run there : Run ρ}
      (inside : Visits left run part there) : Visits (.or left right) run part there
  | orRight {left right : Condition} {part : Expr} {run mid there : Run ρ} {l : Bool}
      (first : left.eval robot run = .ok l mid) (inside : Visits right mid part there) :
      Visits (.or left right) run part there
  | not {inner : Condition} {part : Expr} {run there : Run ρ}
      (inside : Visits inner run part there) : Visits (.not inner) run part there

end

namespace Eval

variable {ρ α β : Type}

/-- What is reported of a rank before it is used. -/
def warning (word : Sensor) (r : Int32) : Trace :=
  if r ≤ 13 then [] else [.event (.rankReplaced word r)]

/-- **Evaluation is about to ask a sensor**, whose rank has the given value; it is zero if there is
no rank. -/
inductive Wants (robot : Robot ρ) (V : Expr → Run ρ → Prop) : Sensor → Int32 → Run ρ → Prop
  | plain {word : Sensor} {there : Run ρ} (visits : V (.sensor word) there) :
      Wants robot V word 0 there
  | ranked {word : Sensor} {rank : Expr} {there mid : Run ρ} {r : Int32}
      (visits : V (.ranked word rank) there) (value : rank.eval robot there = .ok r mid) :
      Wants robot V word r mid

/-- **A call asks what evaluation wants at that time**, with the value of the rank if that is at
most 13, and with zero otherwise. -/
def Prompted (robot : Robot ρ) (V : Expr → Run ρ → Prop) (call : Call) (before : Trace) : Prop :=
  ∃ word r there, Wants robot V word r there ∧ before = warning word r ++ there.trace ∧
    call = .query (word.query (if r ≤ 13 then r else 0))

/-- **Between two states just these sensors were asked**, each as evaluation wanted it. -/
structure Asked (robot : Robot ρ) (V : Expr → Run ρ → Prop) (run after : Run ρ)
    (sensors : List Sensor) : Prop where
  order : ∃ marks, after.trace = marks ++ run.trace ∧
    (Trace.calls marks.reverse).map Call.sensor? = sensors.map some
  prompted {call : Call} {raised : Bool} {before : Trace}
    (mem : .call call raised :: before <:+ after.trace) (new : run.trace <:+ before) :
    Prompted robot V call before

/-- **Evaluation failed in a division**, whose divisor was zero, when it had done the errands
before it and no others. -/
def FailsIn (robot : Robot ρ) (V : Expr → Run ρ → Prop) (errands : List Errand) (run : Run ρ)
    (halt : Halt) (after : Run ρ) : Prop :=
  ∃ left right before rest, errands = before ++ .divide left right :: rest ∧
    halt = .error (.divisionByZero (Expr.binary .div left right).render) ∧
    Asked robot V run after (Errand.queries before) ∧
    ∃ there l mid, V (.binary .div left right) there ∧ left.eval robot there = .ok l mid ∧
      right.eval robot mid = .ok 0 after

/-- **A computation does its errands in order**, up to the first division by zero. -/
def Follows (robot : Robot ρ) (V : Expr → Run ρ → Prop) (errands : List Errand) (m : Eval ρ α)
    (run : Run ρ) : Prop :=
  (∀ a after, m run = .ok a after → Asked robot V run after (Errand.queries errands)) ∧
  ∀ halt after, m run = .error halt after → FailsIn robot V errands run halt after

variable {robot : Robot ρ} {V V' : Expr → Run ρ → Prop} {run mid after : Run ρ}
  {sensors more : List Sensor} {errands rest : List Errand}

/-- What was marked after a state is no part of its trace. -/
theorem not_suffix_of_new {mark : Mark} {before : Trace} (new : run.trace <:+ before) :
    ¬ (mark :: before <:+ run.trace) := by
  intro mem
  have hshort := mem.length_le
  have hlong := new.length_le
  rw [List.length_cons] at hshort
  omega

theorem asked_same (h : after.trace = run.trace) : Asked robot V run after [] where
  order := ⟨[], h, rfl⟩
  prompted mem new := absurd (h ▸ mem) (not_suffix_of_new new)

theorem Asked.trans (h : Asked robot V run mid sensors) (h' : Asked robot V mid after more) :
    Asked robot V run after (sensors ++ more) := by
  obtain ⟨marks, hmid, hmarks⟩ := h.order
  obtain ⟨marks', hafter, hmarks'⟩ := h'.order
  refine ⟨⟨marks' ++ marks, ?_, ?_⟩, ?_⟩
  · rw [hafter, hmid, List.append_assoc]
  · rw [List.reverse_append, Trace.calls_append, List.map_append, hmarks, hmarks', List.map_append]
  · intro call raised before mem new
    -- a call was made either before the state in the middle or after it
    have hsuffix : mid.trace <:+ after.trace := ⟨marks', hafter.symm⟩
    rcases List.suffix_or_suffix_of_suffix mem hsuffix with hearly | hlate
    · exact h.prompted hearly new
    · rcases List.suffix_cons_iff.1 hlate with heq | hlate
      · exact h.prompted ⟨[], heq.symm⟩ new
      · exact h'.prompted mem hlate

theorem Prompted.mono (hV : ∀ part there, V part there → V' part there) {call : Call}
    {before : Trace} (h : Prompted robot V call before) : Prompted robot V' call before := by
  obtain ⟨word, r, there, hwants, hbefore, hcall⟩ := h
  refine ⟨word, r, there, ?_, hbefore, hcall⟩
  cases hwants with
  | plain visits => exact .plain (hV _ _ visits)
  | ranked visits value => exact .ranked (hV _ _ visits) value

theorem Asked.mono (hV : ∀ part there, V part there → V' part there)
    (h : Asked robot V run after sensors) : Asked robot V' run after sensors where
  order := h.order
  prompted mem new := (h.prompted mem new).mono hV

theorem Follows.mono {m : Eval ρ α} (hV : ∀ part there, V part there → V' part there)
    (h : Follows robot V errands m run) : Follows robot V' errands m run := by
  refine ⟨fun a after hok => (h.1 a after hok).mono hV, fun halt after herror => ?_⟩
  obtain ⟨left, right, before, rest, herrands, hhalt, hasked, there, l, mid, hvisits, hvalues⟩ :=
    h.2 halt after herror
  exact ⟨left, right, before, rest, herrands, hhalt, hasked.mono hV, there, l, mid,
    hV _ _ hvisits, hvalues⟩

theorem Follows.bind {m : Eval ρ α} {f : α → Eval ρ β} (hm : Follows robot V errands m run)
    (hf : ∀ a mid, m run = .ok a mid → Follows robot V rest (f a) mid) :
    Follows robot V (errands ++ rest) (m >>= f) run := by
  constructor
  · intro b after h
    obtain ⟨a, mid, hfirst, hnext⟩ := bind_ok h
    rw [Errand.queries_append]
    exact (hm.1 a mid hfirst).trans ((hf a mid hfirst).1 b after hnext)
  · intro halt after h
    rcases bind_error h with hfirst | ⟨a, mid, hfirst, hnext⟩
    · obtain ⟨left, right, before, others, rfl, hfails⟩ := hm.2 halt after hfirst
      exact ⟨left, right, before, others ++ rest, by simp, hfails⟩
    · obtain ⟨left, right, before, others, rfl, hhalt, hasked, hvisits⟩ :=
        (hf a mid hfirst).2 halt after hnext
      refine ⟨left, right, errands ++ before, others, by simp, hhalt, ?_, hvisits⟩
      rw [Errand.queries_append]
      exact (hm.1 a mid hfirst).trans hasked

theorem follows_pure (a : α) : Follows robot V [] (pure a : Eval ρ α) run := by
  constructor
  · intro b after h; cases h; exact asked_same rfl
  · intro halt after h; cases h

/-- A value that is put together at the end takes no errand. -/
theorem Follows.map {m : Eval ρ α} (f : α → β) (h : Follows robot V errands m run) :
    Follows robot V errands (m >>= fun a => pure (f a)) run := by
  have hbind := h.bind fun a mid _ => follows_pure (f a)
  rwa [List.append_nil] at hbind

theorem follows_readVar (name : String) : Follows robot V [] (readVar name) run := by
  constructor
  · intro value after h; cases h; exact asked_same rfl
  · intro halt after h; cases h

theorem usedRank_eq (word : Sensor) (r : Int32) (run : Run ρ) :
    usedRank word r run =
      .ok (if r ≤ 13 then r else 0) { run with trace := warning word r ++ run.trace } := by
  unfold usedRank warning maxRank
  by_cases h : r ≤ 13
  · rw [if_neg (Int32.not_lt.2 h), if_pos h, if_pos h]; rfl
  · rw [if_pos (Int32.not_le.1 h), if_neg h, if_neg h]; rfl

theorem calls_warning (word : Sensor) (r : Int32) : Trace.calls (warning word r).reverse = [] := by
  unfold warning
  split <;> rfl

/-- What a sensor reads is what the robot answers, after the report on the rank. -/
theorem sense_eq (robot : Robot ρ) (word : Sensor) (r : Int32) (run : Run ρ) :
    sense robot word r run = ask robot (word.query (if r ≤ 13 then r else 0))
      { run with trace := warning word r ++ run.trace } :=
  bind_eq_of_ok (usedRank_eq word r run)

theorem follows_sense {word : Sensor} {r : Int32} (h : Wants robot V word r run) :
    Follows robot V [.query word] (sense robot word r) run := by
  constructor
  · intro value after hok
    rw [sense_eq] at hok
    cases hok
    refine ⟨⟨.call _ _ :: warning word r, rfl, ?_⟩, ?_⟩
    · rw [List.reverse_cons, Trace.calls_append, calls_warning]
      exact congrArg (fun s => [some s]) (word.sensor_query _)
    · intro call raised before mem new
      rcases List.suffix_cons_iff.1 mem with heq | hold
      · injection heq with hmark hbefore
        injection hmark with hcall
        exact ⟨word, r, run, h, hbefore, hcall⟩
      · -- the report of a rank is no call, and what is older was there before
        unfold warning at hold
        split at hold
        · exact absurd hold (not_suffix_of_new new)
        · rcases List.suffix_cons_iff.1 hold with heq | hold
          · cases heq
          · exact absurd hold (not_suffix_of_new new)
  · intro halt after herror
    rw [sense_eq] at herror
    cases herror

/-- An operation has no value only if it is a division by zero. -/
theorem follows_apply {op : ArithOp} {left right : Expr} {there : Run ρ} {l r : Int32}
    (hvisits : V (.binary op left right) there) (hleft : left.eval robot there = .ok l mid)
    (hright : right.eval robot mid = .ok r run) :
    Follows robot V (op.errands left right) (match op.apply l r with
      | some value => pure value
      | none => fail (.divisionByZero (Expr.binary op left right).render)) run := by
  cases hvalue : op.apply l r with
  | some value =>
    constructor
    · intro a after h
      cases h
      rw [op.queries_errands]
      exact asked_same rfl
    · intro halt after h; cases h
  | none =>
    constructor
    · intro a after h; cases h
    · intro halt after h
      cases h
      obtain rfl := ArithOp.eq_div_of_apply hvalue
      have hzero : r = 0 := by simpa [ArithOp.apply] using hvalue
      rw [hzero] at hright
      exact ⟨left, right, [], [], rfl, rfl, asked_same rfl, there, l, mid, hvisits, hleft, hright⟩

end Eval

open Eval

variable {ρ : Type} (robot : Robot ρ)

/-- **Evaluating an expression does its errands in order.** -/
theorem Expr.follows (e : Expr) (run : Run ρ) :
    Follows robot (e.Visits robot run) e.errands (e.eval robot) run := by
  induction e generalizing run with
  | number value => exact follows_pure value
  | sensor word => exact follows_sense (.plain .here)
  | ranked word rank ih =>
    refine ((ih run).mono fun _ _ => .rank).bind fun r mid hrank => ?_
    exact follows_sense (.ranked .here hrank)
  | var name => exact follows_readVar name
  | binary op left right ihl ihr =>
    refine ((ihl run).mono fun _ _ => .left).bind fun l mid hleft => ?_
    refine ((ihr mid).mono fun _ _ => .right hleft).bind fun r last hright => ?_
    exact follows_apply .here hleft hright

/-- **Evaluating a condition does its errands in order.** -/
theorem Condition.follows (c : Condition) (run : Run ρ) :
    Follows robot (c.Visits robot run) c.errands (c.eval robot) run := by
  induction c generalizing run with
  | compare op left right =>
    refine ((right.follows robot run).mono fun _ _ => .compareRight).bind fun r mid hright => ?_
    exact ((left.follows robot mid).mono fun _ _ => .compareLeft hright).map _
  | and left right ihl ihr =>
    refine ((ihl run).mono fun _ _ => .andLeft).bind fun l mid hleft => ?_
    exact ((ihr mid).mono fun _ _ => .andRight hleft).map _
  | or left right ihl ihr =>
    refine ((ihl run).mono fun _ _ => .orLeft).bind fun l mid hleft => ?_
    exact ((ihr mid).mono fun _ _ => .orRight hleft).map _
  | not inner ih => exact ((ih run).mono fun _ _ => .not).map _

/-- **The calls on the robot follow a tree** with the given query order and errands. -/
structure Stage.CallsFollow {α : Type} (stage : Stage ρ) (m : Eval ρ α) (queries : List Sensor)
    (errands : List Errand) (V : Expr → Run ρ → Prop) : Prop where
  /-- The errands ask the sensors in the query order. -/
  listed : Errand.queries errands = queries
  /-- If there is a value, the calls are the query order. -/
  ok {value : α} {trace : Trace} {after : Stage ρ} (h : stage.run m = (.ok value, trace, after)) :
    trace.calls.map Call.sensor? = queries.map some
  /-- If there is none, a divisor was zero, and the calls are the query order up to there. -/
  error {halt : Halt} {trace : Trace} {after : Stage ρ}
    (h : stage.run m = (.error halt, trace, after)) :
    ∃ left right before rest, halt = .error (.divisionByZero (Expr.binary .div left right).render) ∧
      errands = before ++ .divide left right :: rest ∧
      queries = Errand.queries before ++ Errand.queries rest ∧
      trace.calls.map Call.sensor? = (Errand.queries before).map some ∧
      ∃ there l mid last, V (.binary .div left right) there ∧ left.eval robot there = .ok l mid ∧
        right.eval robot mid = .ok 0 last ∧ trace = last.trace.reverse ∧ after = stage.ofRun last
  /-- Each call is made with the value of its rank. -/
  ranks {result : Except Halt α} {trace : Trace} {after : Stage ρ}
    (h : stage.run m = (result, trace, after)) {earlier later : Trace} {call : Call} {raised : Bool}
    (hcall : trace = earlier ++ .call call raised :: later) : Prompted robot V call earlier.reverse

variable {robot}

/-- How a computation on a stage can end. -/
theorem Stage.run_cases {α : Type} {stage : Stage ρ} {m : Eval ρ α} {result : Except Halt α}
    {trace : Trace} {after : Stage ρ} (h : stage.run m = (result, trace, after)) :
    ∃ last, trace = last.trace.reverse ∧ after = stage.ofRun last ∧
      ((∃ value, result = .ok value ∧ m stage.toRun = .ok value last) ∨
        ∃ halt, result = .error halt ∧ m stage.toRun = .error halt last) := by
  cases hrun : m stage.toRun with
  | ok value last =>
    rw [Stage.run_ok hrun] at h
    cases h
    exact ⟨last, rfl, rfl, .inl ⟨value, rfl, rfl⟩⟩
  | error halt last =>
    rw [Stage.run_error hrun] at h
    cases h
    exact ⟨last, rfl, rfl, .inr ⟨halt, rfl, rfl⟩⟩

theorem Eval.Asked.calls {stage : Stage ρ} {V : Expr → Run ρ → Prop} {last : Run ρ}
    {sensors : List Sensor} (h : Asked robot V stage.toRun last sensors) :
    (Trace.calls last.trace.reverse).map Call.sensor? = sensors.map some := by
  obtain ⟨marks, htrace, hmarks⟩ := h.order
  have hempty : last.trace = marks := htrace.trans (List.append_nil marks)
  rw [hempty, hmarks]

/-- What a computation does with its errands shows in the calls on the robot. -/
theorem Eval.Follows.callsFollow {α : Type} {stage : Stage ρ} {m : Eval ρ α} {queries : List Sensor}
    {errands : List Errand} {V : Expr → Run ρ → Prop} (h : Follows robot V errands m stage.toRun)
    (hlisted : Errand.queries errands = queries) :
    stage.CallsFollow robot m queries errands V := by
  refine ⟨hlisted, ?_, ?_, ?_⟩
  · intro value trace after hrun
    obtain ⟨last, rfl, -, ⟨_, hresult, hok⟩ | ⟨_, hresult, -⟩⟩ := Stage.run_cases hrun
    · rw [← hlisted]
      exact (h.1 _ last hok).calls
    · cases hresult
  · intro halt trace after hrun
    obtain ⟨last, rfl, rfl, ⟨_, hresult, -⟩ | ⟨halt', hresult, herror⟩⟩ := Stage.run_cases hrun
    · cases hresult
    · cases hresult
      obtain ⟨left, right, before, rest, rfl, hhalt, hasked, there, l, mid, hvisits, hleft,
        hright⟩ := h.2 _ last herror
      refine ⟨left, right, before, rest, hhalt, rfl, ?_, hasked.calls, there, l, mid, last, hvisits,
        hleft, hright, rfl, rfl⟩
      rw [← hlisted, Errand.queries_append]
      rfl
  · intro result trace after hrun earlier later call raised hcall
    obtain ⟨last, rfl, -, hend⟩ := Stage.run_cases hrun
    have hasked : ∃ sensors, Asked robot V stage.toRun last sensors := by
      rcases hend with ⟨value, -, hok⟩ | ⟨halt, -, herror⟩
      · exact ⟨_, h.1 value last hok⟩
      · obtain ⟨_, _, before, _, -, -, hasked, -⟩ := h.2 halt last herror
        exact ⟨_, hasked⟩
    obtain ⟨sensors, hasked⟩ := hasked
    have hmem : .call call raised :: earlier.reverse <:+ last.trace := by
      have hreverse := congrArg List.reverse hcall
      rw [List.reverse_reverse, List.reverse_append, List.reverse_cons,
        List.append_assoc] at hreverse
      exact ⟨later.reverse, hreverse.symm⟩
    exact hasked.prompted hmem (List.nil_suffix)

variable (robot)

/-- **Sensors are asked in the order of the tree**, whatever they read and whatever values the
variables have: all of them if there is a value, and those before the failing division if not. A
barrel is asked for with the value of its rank. -/
theorem queries_follow_syntax (stage : Stage ρ) :
    (∀ e : Expr, stage.CallsFollow robot (e.eval robot) e.queries e.errands
      (e.Visits robot stage.toRun)) ∧
    ∀ c : Condition, stage.CallsFollow robot (c.eval robot) c.queries c.errands
      (c.Visits robot stage.toRun) :=
  ⟨fun e => (e.follows robot stage.toRun).callsFollow e.queries_errands,
    fun c => (c.follows robot stage.toRun).callsFollow c.queries_errands⟩

/-- A comparison asks its right side first, and a rank of 20 is replaced by zero. -/
example :
    let c : Condition := .compare .gt (.ranked .barrelLR (.sensor .fuelLeft)) (.sensor .wallDist)
    let stage : Stage Scripted := Stage.fresh {} { fuel := 20 }
    c.queries = [.wallDist, .fuelLeft, .barrelLR] ∧
      (stage.run (c.eval Scripted.robot)).2.1.calls =
        [.query .distanceToWall, .query .fuel, .query (.barrelLR 0)] := by decide

end RobotScript
