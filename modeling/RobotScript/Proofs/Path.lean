import Mathlib.Logic.Relation
import RobotScript.Proofs.Eval

/-!
# The path of a run

* `Run.Step`: what can happen to a run at once. `Run.Reaches` is any number of steps.
* `Reaches.counted`, `Reaches.steps_le`, `Reaches.within`: along every path the counter moves
  with the statements that pass their checkpoint, never down and never past the limit.
* `Reaches.through`: a path goes through a state for every part of its trace.
* `walks_exec`, `walks_program`: evaluation takes a path, and halts only for a reason that
  `Halt.Arises` gives.
-/

namespace RobotScript

variable {ρ : Type}

/-- **What can happen to a run at once.** -/
inductive Run.Step (robot : Robot ρ) (limits : Limits) : Run ρ → Run ρ → Prop
  | report (run : Run ρ) (event : Event) :
      Step robot limits run { run with trace := .event event :: run.trace }
  | perform (run : Run ρ) (deed : Deed) :
      Step robot limits run { run with
        scene := robot.act deed run.scene
        trace := .call (.deed deed) (robot.act deed run.scene).raised :: run.trace }
  | ask (run : Run ρ) (query : Query) :
      Step robot limits run { run with
        scene := (robot.sense query run.scene).2
        trace := .call (.query query) (robot.sense query run.scene).2.raised :: run.trace }
  | read (run : Run ρ) (name : String) :
      Step robot limits run { run with store := (run.store.read name).2 }
  | assign (run : Run ρ) (name : String) (value : Int32) :
      Step robot limits run { run with store := run.store.set name value }
  | pass (run : Run ρ) (lowered : run.scene.raised = false) (allowed : limits.Allows run.steps) :
      Step robot limits run { run with steps := run.steps + 1, trace := .passed :: run.trace }

/-- **Any number of steps.** -/
def Run.Reaches (robot : Robot ρ) (limits : Limits) : Run ρ → Run ρ → Prop :=
  Relation.ReflTransGen (Run.Step robot limits)

/-- **When a run may halt** for the given reason. -/
inductive Halt.Arises (limits : Limits) (run : Run ρ) : Halt → Prop
  | divisionByZero (text : String) : Arises limits run (.error (.divisionByZero text))
  | interrupted (raised : run.scene.raised = true) : Arises limits run (.error .interrupted)
  | refused {halt : Halt} (refuses : limits.Refuses run.steps halt) : Arises limits run halt
  | unfinished : Arises limits run .unfinished

namespace Run

variable {robot : Robot ρ} {limits : Limits} {run mid after : Run ρ}

/-- How many statements of a trace have passed their checkpoint. -/
def passed (trace : Trace) : Nat := trace.count .passed

/-- A step counts a statement exactly if it marks one as passed. -/
theorem Step.counted (h : Step robot limits run after) :
    after.steps.toNat + passed run.trace = run.steps.toNat + passed after.trace := by
  cases h with
  | pass lowered allowed =>
    have hsteps := allowed.toNat_succ
    simp only [passed, List.count_cons_self]
    omega
  | read | assign => rfl
  | report | perform | ask => simp [passed]

theorem Step.steps_le (h : Step robot limits run after) : run.steps ≤ after.steps := by
  cases h with
  | pass lowered allowed => exact UInt64.le_of_lt allowed.lt_succ
  | report | perform | ask | read | assign => exact UInt64.le_refl _

theorem Step.within {limit : UInt64} (hlimit : limits.maxSteps = some limit)
    (h : Step robot limits run after) (hrun : run.steps ≤ limit) : after.steps ≤ limit := by
  cases h with
  | pass lowered allowed => exact allowed.succ_le hlimit
  | report | perform | ask | read | assign => exact hrun

theorem Reaches.refl (run : Run ρ) : Reaches robot limits run run := Relation.ReflTransGen.refl

theorem Step.reaches (h : Step robot limits run after) : Reaches robot limits run after :=
  Relation.ReflTransGen.single h

theorem Reaches.trans (h : Reaches robot limits run mid) (h' : Reaches robot limits mid after) :
    Reaches robot limits run after :=
  Relation.ReflTransGen.trans h h'

/-- **The counter moves with the statements passed.** -/
theorem Reaches.counted (h : Reaches robot limits run after) :
    after.steps.toNat + passed run.trace = run.steps.toNat + passed after.trace := by
  induction h with
  | refl => rfl
  | tail _ step ih =>
    have := step.counted
    omega

/-- **The counter never goes down.** -/
theorem Reaches.steps_le (h : Reaches robot limits run after) : run.steps ≤ after.steps := by
  induction h with
  | refl => exact UInt64.le_refl _
  | tail _ step ih => exact UInt64.le_trans ih step.steps_le

/-- **The counter never goes past the limit.** -/
theorem Reaches.within {limit : UInt64} (hlimit : limits.maxSteps = some limit)
    (h : Reaches robot limits run after) (hrun : run.steps ≤ limit) : after.steps ≤ limit := by
  induction h with
  | refl => exact hrun
  | tail _ step ih => exact step.within hlimit ih

theorem Step.trace_eq (h : Step robot limits run after) :
    after.trace = run.trace ∨ ∃ mark, after.trace = mark :: run.trace := by
  cases h with
  | read | assign => exact .inl rfl
  | report | perform | ask | pass => exact .inr ⟨_, rfl⟩

/-- **Nothing is taken back from a trace.** -/
theorem Reaches.trace_suffix (h : Reaches robot limits run after) : run.trace <:+ after.trace := by
  induction h with
  | refl => exact List.suffix_refl _
  | tail _ step ih =>
    rcases step.trace_eq with heq | ⟨mark, heq⟩
    · rw [heq]; exact ih
    · rw [heq]; exact ih.trans (List.suffix_cons _ _)

/-- The calls of a path begin with those made before it. -/
theorem Reaches.calls_prefix (h : Reaches robot limits run after) :
    Trace.calls run.trace.reverse <+: Trace.calls after.trace.reverse := by
  have hprefix : run.trace.reverse <+: after.trace.reverse := List.reverse_prefix.2 h.trace_suffix
  exact hprefix.filterMap _

/-- **A path goes through a state for every part of its trace.** -/
theorem Reaches.through (h : Reaches robot limits run after) : ∀ k, run.trace.length ≤ k →
    ∃ mid, Reaches robot limits run mid ∧ Reaches robot limits mid after ∧
      mid.trace.reverse = after.trace.reverse.take k := by
  induction h with
  | refl =>
    intro k hk
    refine ⟨run, .refl run, .refl run, ?_⟩
    rw [List.take_of_length_le (by rw [List.length_reverse]; exact hk)]
  | @tail before last hpath step ih =>
    intro k hk
    rcases Nat.lt_or_ge k last.trace.length with hlt | hge
    · -- the last step has not been taken when the trace is that short
      obtain ⟨mid, hmid, hrest, htrace⟩ := ih k hk
      refine ⟨mid, hmid, hrest.trans step.reaches, ?_⟩
      rw [htrace]
      rcases step.trace_eq with heq | ⟨mark, heq⟩
      · rw [heq]
      · rw [heq, List.length_cons] at hlt
        rw [heq, List.reverse_cons, List.take_append_of_le_length]
        rw [List.length_reverse]; omega
    · refine ⟨last, hpath.tail step, .refl last, ?_⟩
      rw [List.take_of_length_le (by rw [List.length_reverse]; exact hge)]

end Run

namespace Eval

open Run

variable {robot : Robot ρ} {limits : Limits} {α β : Type}

/-- The result is reached from the run, and if it is a halt, there is a reason for it. -/
def Lands (robot : Robot ρ) (limits : Limits) (run : Run ρ) :
    EStateM.Result Halt (Run ρ) α → Prop
  | .ok _ after => Reaches robot limits run after
  | .error halt after => Reaches robot limits run after ∧ halt.Arises limits after

/-- **The computation takes a path**, and halts only for a reason. -/
def Walks (robot : Robot ρ) (limits : Limits) (m : Eval ρ α) : Prop :=
  ∀ run, Lands robot limits run (m run)

theorem Walks.ok {m : Eval ρ α} (hm : Walks robot limits m) {run after : Run ρ} {a : α}
    (h : m run = .ok a after) : Reaches robot limits run after := by
  have := hm run
  rwa [h] at this

theorem walks_pure (a : α) : Walks robot limits (pure a : Eval ρ α) := fun run => .refl run

/-- What lands further on lands from here, too. -/
theorem Lands.trans {run mid : Run ρ} {result : EStateM.Result Halt (Run ρ) α}
    (hpath : Reaches robot limits run mid) (h : Lands robot limits mid result) :
    Lands robot limits run result := by
  cases result with
  | ok a after => exact hpath.trans h
  | error halt after => exact ⟨hpath.trans h.1, h.2⟩

theorem Lands.bind {m : Eval ρ α} {f : α → Eval ρ β} {start run : Run ρ}
    (h : Lands robot limits start (m run)) (hf : ∀ a, Walks robot limits (f a)) :
    Lands robot limits start ((m >>= f) run) := by
  rw [bind_apply]
  cases hm : m run with
  | error halt after => rw [hm] at h; exact h
  | ok a mid =>
    rw [hm] at h
    exact .trans h (hf a mid)

theorem Walks.bind {m : Eval ρ α} {f : α → Eval ρ β} (hm : Walks robot limits m)
    (hf : ∀ a, Walks robot limits (f a)) : Walks robot limits (m >>= f) :=
  fun run => (hm run).bind hf

theorem walks_report (event : Event) : Walks robot limits (report event : Eval ρ Unit) :=
  fun run => (Step.report run event).reaches

theorem walks_throw {halt : Halt} (h : ∀ run : Run ρ, halt.Arises limits run) :
    Walks robot limits (throw halt : Eval ρ α) :=
  fun run => ⟨.refl run, h run⟩

theorem walks_checkStop : Walks robot limits (checkStop : Eval ρ Unit) := by
  intro run
  cases hraised : run.scene.raised with
  | true =>
    rw [checkStop_raised hraised]
    exact ⟨(Step.report run _).reaches, .interrupted hraised⟩
  | false => rw [checkStop_lowered hraised]; exact .refl run

theorem walks_checkpoint : Walks robot limits (checkpoint limits : Eval ρ Unit) := by
  intro run
  rcases checkpoint_cases limits run with ⟨hraised, hrun⟩ | ⟨halt, -, hrefused, hrun⟩ |
    ⟨hlowered, hallowed, hrun⟩
  · rw [hrun]
    exact ⟨(Step.report run _).reaches, .interrupted hraised⟩
  · rw [hrun]
    exact ⟨.refl run, .refused hrefused⟩
  · rw [hrun]
    exact (Step.pass run hlowered hallowed).reaches

theorem Walks.whileHolds {test : Eval ρ Bool} {body : Eval ρ Unit}
    (htest : Walks robot limits test) (hbody : Walks robot limits body) :
    ∀ rounds, Walks robot limits (Eval.whileHolds test body rounds) := by
  intro rounds
  induction rounds with
  | zero => exact walks_throw fun _ => .unfinished
  | succ rounds ih =>
    refine htest.bind fun holds => ?_
    cases holds with
    | true => exact hbody.bind fun _ => ih
    | false => exact walks_pure ()

theorem walks_congruence (robot : Robot ρ) (limits : Limits) (rounds : Nat) :
    LoopCongruence (fun _ m _ => Walks robot limits m) robot robot limits limits rounds rounds where
  pure := walks_pure
  bind := Walks.bind
  divisionByZero text := walks_throw fun _ => .divisionByZero text
  report := walks_report
  perform deed := fun run => (Step.perform run deed).reaches
  ask query := fun run => (Step.ask run query).reaches
  readVar name := fun run => (Step.read run name).reaches
  assign name value := fun run => (Step.assign run name value).reaches
  checkStop := walks_checkStop
  checkpoint := walks_checkpoint
  whileHolds htest hbody := htest.whileHolds hbody rounds

/-- **Carrying out a statement takes a path.** -/
theorem walks_exec (rounds : Nat) (s : Statement) : Walks robot limits (s.exec robot limits rounds) :=
  (walks_congruence robot limits rounds).exec s

theorem walks_execAll (rounds : Nat) (body : Block) :
    Walks robot limits (Statement.execAll robot limits rounds body) :=
  (walks_congruence robot limits rounds).execAll body

theorem Lands.closing {body : Eval ρ Unit} {start run : Run ρ}
    (h : Lands robot limits start (body run)) : Lands robot limits start (closing body run) := by
  unfold Eval.closing
  cases hbody : body run with
  | ok a after =>
    rw [hbody] at h
    have hpath : Reaches robot limits start after := h
    exact hpath.trans (Step.report after _).reaches
  | error halt after =>
    -- the report leaves signal and counter alone, and with them the reason
    rw [hbody] at h
    obtain ⟨hpath, harises⟩ := h
    cases harises with
    | unfinished => exact ⟨hpath, .unfinished⟩
    | divisionByZero text =>
      exact ⟨hpath.trans (Step.report after _).reaches, .divisionByZero text⟩
    | interrupted raised =>
      exact ⟨hpath.trans (Step.report after _).reaches, .interrupted raised⟩
    | refused refuses =>
      cases refuses with
      | overflow unlimited full => exact ⟨hpath, .refused (.overflow unlimited full)⟩
      | limitExceeded limited reached =>
        refine ⟨hpath.trans (Step.report after _).reaches, .refused ?_⟩
        exact .limitExceeded limited reached

theorem Walks.closing {body : Eval ρ Unit} (hbody : Walks robot limits body) :
    Walks robot limits (closing body) :=
  fun run => (hbody run).closing

theorem walks_program (rounds : Nat) (p : Program) :
    Walks robot limits (p.exec robot limits rounds) :=
  (walks_report _).bind fun _ => (walks_execAll rounds p.statements).closing

end Eval

end RobotScript
