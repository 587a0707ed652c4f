import RobotScript.Proofs.Frame
import RobotScript.Proofs.Queries

/-!
# What evaluating adds to the store

Evaluating an expression or a condition changes the store only by reading names that it does not
have. Every part of the tree is evaluated on every way to a value, so the names that are added tell
which variables the tree has.

* `Run.Looks.steps_eq`: looking counts no statement.
* `Expr.eval_frames`, `Condition.eval_frames`: however evaluation ends, no value has changed, and only
  variables of the tree were added.
* `Expr.Occurs.read`, `Condition.Mentions.read`: once there is a value, all of them were read.
* `evaluation_adds_its_variables`: what an evaluator's store has to do with the one before.
-/

namespace RobotScript

variable {ρ α : Type} {robot : Robot ρ}

/-- **The expression occurs in the condition**, in one of the operands that it compares. -/
def Condition.Mentions (c : Condition) (e : Expr) : Prop := ∃ operand ∈ c.operands, e.Occurs operand

section

variable {R : String → Prop} {store after : Store} {name : String}

/-- A name keeps its value where nothing is assigned to. -/
theorem Store.Frame.get?_eq (h : store.Frame R (fun _ => False) after)
    (present : store.contains name = true) : after.get? name = store.get? name := by
  rw [get?_of_contains present, get?_of_contains (h.kept present), h.unassigned id]

/-- Only reading adds names where nothing is assigned to. -/
theorem Store.Frame.added_by_read (h : store.Frame R (fun _ => False) after)
    (present : after.contains name = true) : store.contains name = true ∨ R name := by
  rcases h.added present with hold | hread | hassigned
  · exact .inl hold
  · exact .inr hread
  · exact hassigned.elim

end

theorem Run.Look.steps_eq {run after : Run ρ} (h : Look robot run after) : after.steps = run.steps := by
  cases h <;> rfl

/-- **Looking counts no statement.** -/
theorem Run.Looks.steps_eq {run after : Run ρ} (h : Looks robot run after) :
    after.steps = run.steps := by
  induction h with
  | refl => rfl
  | tail _ look ih => exact look.steps_eq.trans ih

theorem Run.Look.contains {run after : Run ρ} {name : String} (h : Look robot run after)
    (present : run.store.contains name = true) : after.store.contains name = true := by
  cases h with
  | ask | warn => exact present
  | read other => exact (run.store.contains_read other name).2 (.inr present)

/-- **Looking removes no name.** -/
theorem Run.Looks.contains {run after : Run ρ} {name : String} (h : Looks robot run after)
    (present : run.store.contains name = true) : after.store.contains name = true := by
  induction h with
  | refl => exact present
  | tail _ look ih => exact look.contains ih

namespace Eval

variable {R A : String → Prop} {m : Eval ρ α} {run after : Run ρ}

theorem Frames.of_ok {a : α} (h : Frames R A m) (hrun : m run = .ok a after) :
    run.store.Frame R A after.store := by
  have hframe := h run
  rw [hrun] at hframe
  exact hframe

theorem Frames.of_error {halt : Halt} (h : Frames R A m) (hrun : m run = .error halt after) :
    run.store.Frame R A after.store := by
  have hframe := h run
  rw [hrun] at hframe
  exact hframe

theorem OnlyLooks.of_ok {a : α} (h : OnlyLooks robot m) (hrun : m run = .ok a after) :
    Run.Looks robot run after := by
  have hlooks := h run
  rw [hrun] at hlooks
  exact hlooks

theorem OnlyLooks.of_error {halt : Halt} (h : OnlyLooks robot m) (hrun : m run = .error halt after) :
    Run.Looks robot run after ∧ ∃ text, halt = .error (.divisionByZero text) := by
  have hlooks := h run
  rw [hrun] at hlooks
  exact hlooks

end Eval

/-- Nothing is assigned to while an expression is evaluated, and only its variables are read. -/
theorem Expr.eval_frames (robot : Robot ρ) (e : Expr) :
    Eval.Frames (fun name => (Expr.var name).Occurs e) (fun _ => False) (e.eval robot) := by
  refine (Eval.frames_congruence _ _ robot {} 0).expr ?_
  rintro _ hpart name rfl
  exact hpart

theorem Condition.eval_frames (robot : Robot ρ) (c : Condition) :
    Eval.Frames (fun name => c.Mentions (.var name)) (fun _ => False) (c.eval robot) := by
  refine (Eval.frames_congruence _ _ robot {} 0).condition ?_
  rintro operand hoperand _ hpart name rfl
  exact ⟨operand, hoperand, hpart⟩

namespace Eval

variable {β : Type} {name : String} {m : Eval ρ α} {f : α → Eval ρ β}

/-- **The computation has read the name**, once it has a value. -/
def HasRead (name : String) (m : Eval ρ α) : Prop :=
  ∀ run a after, m run = .ok a after → after.store.contains name = true

theorem hasRead_readVar (name : String) : HasRead name (readVar name : Eval ρ Int32) := by
  intro run v after h
  cases h
  exact (run.store.contains_read name name).2 (.inl rfl)

/-- What was read at first stays in the store if there are only looks after it. -/
theorem HasRead.first (h : HasRead name m) (hf : ∀ a, OnlyLooks robot (f a)) :
    HasRead name (m >>= f) := by
  intro run b after hrun
  obtain ⟨a, mid, hfirst, hnext⟩ := bind_ok hrun
  exact ((hf a).of_ok hnext).contains (h run a mid hfirst)

theorem hasRead_next (h : ∀ a, HasRead name (f a)) : HasRead name (m >>= f) := by
  intro run b after hrun
  obtain ⟨a, mid, -, hnext⟩ := bind_ok hrun
  exact h a mid b after hnext

end Eval

open Eval

theorem onlyLooks_apply (robot : Robot ρ) (op : ArithOp) (left right : Expr) (l r : Int32) :
    OnlyLooks robot (match op.apply l r with
      | some value => pure value
      | none => fail (.divisionByZero (Expr.binary op left right).render)) := by
  cases op.apply l r with
  | some value => exact onlyLooks_pure value
  | none => exact (onlyLooks_congruence robot).divisionByZero _

/-- **A variable of an expression was read**, once the expression has a value. -/
theorem Expr.Occurs.read {name : String} {e : Expr} (h : (Expr.var name).Occurs e) (robot : Robot ρ) :
    HasRead name (e.eval robot) := by
  have hlooks := (onlyLooks_congruence robot).expr
  induction h with
  | here => exact hasRead_readVar name
  | @rank word rank _ ih => exact ih.first fun r => onlyLooks_sense word r
  | @left op left right _ ih =>
    exact ih.first fun l => (hlooks right).bind fun r => onlyLooks_apply robot op left right l r
  | @right op left right _ ih =>
    exact hasRead_next fun l => ih.first fun r => onlyLooks_apply robot op left right l r

/-- **A variable of a condition was read**, once the condition has a value. -/
theorem Condition.Mentions.read {name : String} {c : Condition} (h : c.Mentions (.var name))
    (robot : Robot ρ) : HasRead name (c.eval robot) := by
  have hlooks := onlyLooks_congruence robot
  have hpure : ∀ b : Bool, OnlyLooks robot (pure b) := onlyLooks_pure
  obtain ⟨operand, hoperand, hoccurs⟩ := h
  induction c with
  | compare op left right =>
    have hoperand : operand = left ∨ operand = right := by simpa [Condition.operands] using hoperand
    -- the right side is evaluated first
    rcases hoperand with rfl | rfl
    · exact hasRead_next fun r => (hoccurs.read robot).first fun l => hpure _
    · exact (hoccurs.read robot).first fun r => (hlooks.expr left).bind fun l => hpure _
  | and left right ihl ihr | or left right ihl ihr =>
    rcases List.mem_append.1 hoperand with hleft | hright
    · exact (ihl hleft).first fun l => (hlooks.condition right).bind fun r => hpure _
    · exact hasRead_next fun l => (ihr hright).first fun r => hpure _
  | not inner ih => exact (ih hoperand).first fun b => hpure _

/-- **A computation on a stage adds names among `N` to the store**, all of them if it has a value, and
changes nothing else in the evaluator. -/
structure Stage.Adds (stage : Stage ρ) (m : Eval ρ α) (N : String → Prop) : Prop where
  /-- If there is no value, a divisor was zero. -/
  outcome {result : Except Halt α} {trace : Trace} {after : Stage ρ}
    (h : stage.run m = (result, trace, after)) :
    (∃ value, result = .ok value) ∨ ∃ text, result = .error (.error (.divisionByZero text))
  steps {result : Except Halt α} {trace : Trace} {after : Stage ρ}
    (h : stage.run m = (result, trace, after)) : after.evaluator.steps = stage.evaluator.steps
  /-- A name that the store has keeps its value. -/
  kept {result : Except Halt α} {trace : Trace} {after : Stage ρ}
    (h : stage.run m = (result, trace, after)) {name : String}
    (present : stage.evaluator.store.contains name = true) :
    after.evaluator.store.get? name = stage.evaluator.store.get? name
  /-- A name that the store did not have is added with the value zero. -/
  new {result : Except Halt α} {trace : Trace} {after : Stage ρ}
    (h : stage.run m = (result, trace, after)) {name : String}
    (absent : stage.evaluator.store.contains name = false)
    (present : after.evaluator.store.contains name = true) :
    N name ∧ after.evaluator.store.get? name = some 0
  /-- If there is a value, the names of the store are those it had and all among `N`. -/
  names {value : α} {trace : Trace} {after : Stage ρ} (h : stage.run m = (.ok value, trace, after))
    (name : String) : after.evaluator.store.contains name = true ↔
      stage.evaluator.store.contains name = true ∨ N name

/-- A computation that only looks adds the names that it may read, if it reads all of them on its way
to a value. -/
theorem Eval.OnlyLooks.adds {m : Eval ρ α} {N : String → Prop} (hlooks : OnlyLooks robot m)
    (hframes : Frames N (fun _ => False) m)
    (hread : ∀ name, N name → HasRead name m) (stage : Stage ρ) : stage.Adds m N := by
  have hends : ∀ {result : Except Halt α} {trace : Trace} {after : Stage ρ},
      stage.run m = (result, trace, after) →
      after.evaluator.steps = stage.evaluator.steps ∧
        stage.evaluator.store.Frame N (fun _ => False) after.evaluator.store := by
    intro result trace after h
    obtain ⟨last, -, rfl, ⟨value, -, hrun⟩ | ⟨halt, -, hrun⟩⟩ := Stage.run_cases h
    · exact ⟨(hlooks.of_ok hrun).steps_eq, hframes.of_ok hrun⟩
    · exact ⟨(hlooks.of_error hrun).1.steps_eq, hframes.of_error hrun⟩
  constructor
  case outcome =>
    intro result trace after h
    obtain ⟨last, -, -, ⟨value, hresult, -⟩ | ⟨halt, hresult, hrun⟩⟩ := Stage.run_cases h
    · exact .inl ⟨value, hresult⟩
    · obtain ⟨text, rfl⟩ := (hlooks.of_error hrun).2
      exact .inr ⟨text, hresult⟩
  case steps => exact fun h => (hends h).1
  case kept => exact fun h _ present => (hends h).2.get?_eq present
  case new =>
    intro result trace after h name absent present
    have hframe := (hends h).2
    refine ⟨(hframe.added_by_read present).resolve_left ?_, hframe.zero id absent present⟩
    rw [absent]
    exact Bool.false_ne_true
  case names =>
    intro value trace after h name
    have hframe := (hends h).2
    constructor
    · exact hframe.added_by_read
    · rintro (hold | hnew)
      · exact hframe.kept hold
      · obtain ⟨last, -, rfl, ⟨_, -, hrun⟩ | ⟨_, hresult, -⟩⟩ := Stage.run_cases h
        · exact hread name hnew _ _ _ hrun
        · cases hresult

/-- **Evaluating adds to the store exactly the variables of the tree** that were not in it, each with
the value zero. If a divisor is zero, some of them may be missing. No value is changed, and no
statement is counted. -/
theorem evaluation_adds_its_variables (robot : Robot ρ) (stage : Stage ρ) :
    (∀ e : Expr, stage.Adds (e.eval robot) fun name => (Expr.var name).Occurs e) ∧
    ∀ c : Condition, stage.Adds (c.eval robot) fun name => c.Mentions (.var name) := by
  have hlooks := Eval.onlyLooks_congruence robot
  constructor
  · intro e
    exact (hlooks.expr e).adds (e.eval_frames robot) (fun _ h => h.read robot) stage
  · intro c
    exact (hlooks.condition c).adds (c.eval_frames robot) (fun _ h => h.read robot) stage

/-- The second side of the `or` is evaluated although the first one holds, with a rank that its
sensor does not use. -/
example :
    let c : Condition := .or (.compare .eq (.var "$a") (.number 7))
      (.compare .lt (.ranked .fuelLeft (.var "$b")) (.var "$c"))
    let stage : Stage Scripted := (Stage.fresh {} {}).withStore (Store.empty.set "$a" 7)
    (stage.run (c.eval Scripted.robot)).2.2.evaluator.store.snapshot =
      [("$a", 7), ("$b", 0), ("$c", 0)] := by decide

end RobotScript
