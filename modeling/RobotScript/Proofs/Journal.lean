import RobotScript.Robot.Scripted
import RobotScript.Proofs.Course
import RobotScript.Proofs.Task

/-!
# The journal of a run

The events of a run tell what it did.

* `Course.replayed`: the assignments of the journal give the values of the store.
* `Course.owes`, `Course.carriedOut`: the announced actions give the deeds of the robot, all but the
  last one in full.
* `journal_is_faithful`: what the events of a program that returns have to do with its result, its
  store and the calls on the robot.
-/

namespace RobotScript

/-- What is noted on the way: neither the beginning nor the end of a program, nor a stop. -/
def Event.isEntry : Event → Bool
  | .assigned .. | .acting .. | .rankReplaced .. => true
  | _ => false

/-- The report on how a program ended, and after how many statements. -/
def Event.closing (result : Except Error Unit) (steps : UInt64) : Event :=
  match result with
  | .ok _ => .finished steps
  | .error e => .aborted steps e

/-- What is noted at the end of a program: a stop, if it was interrupted, and the report. Nothing is
noted where there is no result. -/
def Event.atEnd (outcome : Except Halt Unit) (steps : UInt64) : List Event :=
  match outcome with
  | .error .overflow | .error .unfinished => []
  | .error (.error .interrupted) => [.stopObserved steps, .closing (.error .interrupted) steps]
  | .error (.error e) => [.closing (.error e) steps]
  | .ok a => [.closing (.ok a) steps]

theorem Event.atEnd_eq (result : Except Error Unit) (steps : UInt64) : ∃ stopped,
    atEnd (result.mapError Halt.error) steps = stopped ++ [closing result steps] ∧
      (result = .error .interrupted → stopped = [.stopObserved steps]) ∧
      (result ≠ .error .interrupted → stopped = []) := by
  cases result with
  | ok a => exact ⟨[], rfl, nofun, fun _ => rfl⟩
  | error e =>
    by_cases he : e = .interrupted
    · subst he
      exact ⟨[.stopObserved steps], rfl, fun _ => rfl, fun hother => absurd rfl hother⟩
    · refine ⟨[], ?_, fun hstop => absurd (Except.error.inj hstop) he, fun _ => rfl⟩
      cases e with
      | interrupted => exact absurd rfl he
      | parse | unreadable | divisionByZero | unknownWord | limitExceeded | invalidLimits => rfl

/-- All announced actions but the last one have been carried out. -/
def Trace.CarriedOut (trace : Trace) : Prop :=
  ∀ earlier last, announced trace = earlier ++ [last] → expand earlier <+: deeds trace

theorem Trace.CarriedOut.append {trace more : Trace} (h : CarriedOut trace)
    (hmore : announced more = []) : CarriedOut (trace ++ more) := by
  intro earlier last hannounced
  rw [announced_append, hmore, List.append_nil] at hannounced
  rw [deeds_append]
  exact (h earlier last hannounced).trans (List.prefix_append _ _)

namespace Run

open Trace

variable {ρ : Type} {P : Statement → Prop} {robot : Robot ρ} {limits : Limits}
  {run after : Run ρ} {start : Store}

/-- The store has the values that the noted assignments give. -/
def Replayed (start : Store) (run : Run ρ) : Prop :=
  ∀ name, run.store.value name = (start.replay (assignments run.trace.reverse)).value name

theorem Look.value (h : Look robot run after) (name : String) :
    after.store.value name = run.store.value name := by
  cases h with
  | read => exact Store.value_read _ _ _
  | ask | warn => rfl

theorem Replayed.append {marks : Trace} (h : Replayed start run) (hstore : after.store = run.store)
    (htrace : after.trace.reverse = run.trace.reverse ++ marks) (hmarks : assignments marks = []) :
    Replayed start after := by
  intro name
  rw [hstore, htrace, assignments_append, hmarks, List.append_nil]
  exact h name

theorem Act.replayed (h : Act P robot limits run after) (hrun : Replayed start run) :
    Replayed start after := by
  cases h with
  | look _ look =>
    intro name
    obtain ⟨marks, htrace, hquiet⟩ := look.quiet
    rw [look.value, htrace, assignments_append, hquiet.assignments, List.append_nil]
    exact hrun name
  | assign target value =>
    -- the event and the change of the store are one act
    intro name
    rw [List.reverse_cons, assignments_append, Store.replay_append]
    show (run.store.set target value).value name = ((start.replay _).set target value).value name
    rw [Store.value_set, Store.value_set, hrun name]
  | pass => exact hrun.append rfl run.counting_trace rfl
  | announce action repeats => exact hrun.append rfl (run.noting_trace _) rfl
  | perform => exact hrun.append rfl List.reverse_cons rfl

/-- **Replaying the assignments gives the values of the store.** -/
theorem Course.replayed (h : Course P robot limits run after) (hrun : Replayed start run) :
    Replayed start after := by
  induction h with
  | refl => exact hrun
  | tail _ act ih => exact act.replayed ih

theorem Act.owes (h : Act P robot limits run after) : ∃ rest, Owes after.trace.reverse rest := by
  cases h with
  | look settled look => exact ⟨[], look.owes settled⟩
  | pass settled => exact ⟨[], Eval.owes_counting settled⟩
  | assign name value settled =>
    refine ⟨[], ?_⟩
    rw [List.reverse_cons]
    exact settled.append rfl rfl
  | announce action repeats settled => exact ⟨_, Eval.owes_announced action repeats settled⟩
  | perform deed rest owed => exact ⟨rest, Eval.owes_performed _ owed⟩

/-- **The deeds done are the first of those announced.** -/
theorem Course.owes (h : Course P robot limits run after)
    (hrun : ∃ rest, Owes run.trace.reverse rest) : ∃ rest, Owes after.trace.reverse rest := by
  induction h with
  | refl => exact hrun
  | tail _ act _ => exact act.owes

theorem Act.carriedOut (h : Act P robot limits run after) (hrun : CarriedOut run.trace.reverse) :
    CarriedOut after.trace.reverse := by
  cases h with
  | look _ look =>
    obtain ⟨marks, htrace, hquiet⟩ := look.quiet
    rw [htrace]
    exact hrun.append hquiet.announced
  | announce action repeats settled =>
    -- an action is announced only when all before it are done
    intro earlier last hannounced
    rw [run.noting_trace, announced_append] at hannounced
    have hearlier : announced run.trace.reverse = earlier := (List.append_inj' hannounced rfl).1
    have hdone : expand (announced run.trace.reverse) = deeds run.trace.reverse ++ [] := settled
    rw [← hearlier, hdone, run.noting_trace, deeds_append]
    exact (List.prefix_append_right_inj _).2 List.nil_prefix
  | pass => rw [run.counting_trace]; exact hrun.append rfl
  | assign | perform => rw [List.reverse_cons]; exact hrun.append rfl

/-- **Every action but the last one announced has been carried out.** -/
theorem Course.carriedOut (h : Course P robot limits run after)
    (hrun : CarriedOut run.trace.reverse) : CarriedOut after.trace.reverse := by
  induction h with
  | refl => exact hrun
  | tail _ act ih => exact act.carriedOut ih

theorem Act.events (h : Act P robot limits run after) :
    ∃ entries, Trace.events after.trace.reverse = Trace.events run.trace.reverse ++ entries ∧
      ∀ e ∈ entries, e.isEntry = true := by
  have hnone : ∀ (e : Event), e ∈ [] → e.isEntry = true := fun e he => by cases he
  cases h with
  | look _ look =>
    cases look with
    | read => exact ⟨[], (List.append_nil _).symm, hnone⟩
    | ask => exact ⟨[], by rw [List.reverse_cons, events_append]; rfl, hnone⟩
    | warn word rank =>
      exact ⟨[.rankReplaced word rank], by rw [run.noting_trace, events_append]; rfl,
        by simp [Event.isEntry]⟩
  | pass => exact ⟨[], by rw [run.counting_trace, events_append]; rfl, hnone⟩
  | perform => exact ⟨[], by rw [List.reverse_cons, events_append]; rfl, hnone⟩
  | assign name value =>
    exact ⟨[.assigned name value], by rw [List.reverse_cons, events_append]; rfl,
      by simp [Event.isEntry]⟩
  | announce action repeats =>
    exact ⟨[.acting action repeats], by rw [run.noting_trace, events_append]; rfl,
      by simp [Event.isEntry]⟩

/-- **On its way a run notes only entries.** -/
theorem Course.events (h : Course P robot limits run after) :
    ∃ entries, Trace.events after.trace.reverse = Trace.events run.trace.reverse ++ entries ∧
      ∀ e ∈ entries, e.isEntry = true := by
  induction h with
  | refl => exact ⟨[], (List.append_nil _).symm, fun e he => by cases he⟩
  | tail _ act ih =>
    obtain ⟨entries, hevents, hentries⟩ := ih
    obtain ⟨more, hmore, hentries'⟩ := act.events
    refine ⟨entries ++ more, by rw [hmore, hevents, List.append_assoc], fun e he => ?_⟩
    exact (List.mem_append.1 he).elim (hentries e) (hentries' e)

/-- The run has got some way through a program of `n` statements that it began with `start`. -/
structure Underway (start : Store) (n : Nat) (run : Run ρ) : Prop where
  replayed : Replayed start run
  owes : ∃ rest, Owes run.trace.reverse rest
  carriedOut : CarriedOut run.trace.reverse
  events : ∃ entries, Trace.events run.trace.reverse = .executing n :: entries ∧
    ∀ e ∈ entries, e.isEntry = true

theorem Course.underway {n : Nat} (h : Course P robot limits (run.noting [.executing n]) after)
    (hrun : run.trace = []) : Underway run.store n after := by
  have hbegun : (run.noting [.executing n]).trace.reverse = [.event (.executing n)] := by
    rw [run.noting_trace, hrun]; rfl
  have hreplayed : Replayed run.store (run.noting [.executing n]) := by
    intro name
    rw [hbegun]; rfl
  have hcarried : CarriedOut (run.noting [.executing n]).trace.reverse := by
    rw [hbegun]
    intro earlier last hannounced
    have hlength := congrArg List.length hannounced
    rw [List.length_append] at hlength
    cases hlength
  refine ⟨h.replayed hreplayed, h.owes ⟨[], by rw [hbegun]; rfl⟩, h.carriedOut hcarried, ?_⟩
  obtain ⟨entries, hevents, hentries⟩ := h.events
  exact ⟨entries, by rw [hevents, hbegun]; rfl, hentries⟩

/-- **The end of a program adds its reports to the trace**, and changes nothing else. -/
theorem Closes.final_eq {last : Run ρ} {halted : EStateM.Result Halt (Run ρ) Unit}
    (h : last.Closes halted) : Stage.final halted =
      last.noting (Event.atEnd (Stage.outcome halted) last.steps).reverse := by
  cases h with
  | finished | overflow | unfinished => rfl
  | aborted halts =>
    cases halts with
    | divisionByZero | interrupted => rfl
    | refused refuses => cases refuses; rfl

/-- Only a stop leaves deeds owed. -/
theorem Closes.settled {last : Run ρ} {halted : EStateM.Result Halt (Run ρ) Unit}
    (h : last.Closes halted) (hother : Stage.outcome halted ≠ .error (.error .interrupted)) :
    Owes last.trace.reverse [] := by
  cases h with
  | finished settled | overflow settled | unfinished settled => exact settled
  | aborted halts =>
    cases halts with
    | divisionByZero _ settled | refused _ settled => exact settled
    | interrupted => exact absurd rfl hother

theorem noting_reverse (run : Run ρ) (events : List Event) :
    (run.noting events.reverse).trace.reverse = run.trace.reverse ++ events.map Mark.event := by
  show (events.reverse.map Mark.event ++ run.trace).reverse = _
  rw [List.reverse_append, ← List.map_reverse, List.reverse_reverse]

theorem quiet_atEnd (outcome : Except Halt Unit) (steps : UInt64) :
    Quiet ((Event.atEnd outcome steps).map Mark.event) := by
  unfold Event.atEnd
  split <;> exact ⟨by simp, rfl, rfl, rfl⟩

section

variable {last : Run ρ} {halted : EStateM.Result Halt (Run ρ) Unit} (h : last.Closes halted)

include h

theorem Closes.trace_eq : (Stage.final halted).trace.reverse =
    last.trace.reverse ++ (Event.atEnd (Stage.outcome halted) last.steps).map Mark.event := by
  rw [h.final_eq, last.noting_reverse]

theorem Closes.replayed (hlast : Replayed start last) : Replayed start (Stage.final halted) := by
  rw [h.final_eq]
  exact hlast.append rfl (last.noting_reverse _) (quiet_atEnd _ _).assignments

theorem Closes.announced :
    Trace.announced (Stage.final halted).trace.reverse = Trace.announced last.trace.reverse := by
  rw [h.trace_eq, announced_append, (quiet_atEnd _ _).announced, List.append_nil]

theorem Closes.deeds :
    Trace.deeds (Stage.final halted).trace.reverse = Trace.deeds last.trace.reverse := by
  rw [h.trace_eq, deeds_append, (quiet_atEnd _ _).deeds, List.append_nil]

end

end Run

open Trace

/-- **The journal of a program that returned** tells what happened from `before` to `after`. -/
structure FaithfulJournal {ρ : Type} (p : Program) (before : Stage ρ) (result : Except Error Unit)
    (trace : Trace) (after : Stage ρ) : Prop where
  /-- It begins with the number of statements, and ends with the result and the final count. In
  between there are entries, and at the end of these a stop exactly if one was the result. -/
  framed : ∃ entries stopped, events trace = [.executing p.statements.length] ++
      (entries ++ stopped) ++ [.closing result after.evaluator.steps] ∧
    (∀ e ∈ entries, e.isEntry = true) ∧
    (result = .error .interrupted → stopped = [.stopObserved after.evaluator.steps]) ∧
    (result ≠ .error .interrupted → stopped = [])
  /-- Its assignments give every variable its final value. -/
  assigned (name : String) : after.evaluator.store.value name =
    (before.evaluator.store.replay (assignments trace)).value name
  /-- Its actions give the deeds of the robot. -/
  performed (uninterrupted : result ≠ .error .interrupted) :
    deeds trace = expand (announced trace)
  /-- After a stop they give more, but only the last action is not carried out. -/
  begun (interrupted : result = .error .interrupted) :
    deeds trace <+: expand (announced trace) ∧ CarriedOut trace

/-- **The events of a program that returns are a faithful journal.** -/
theorem journal_is_faithful {ρ : Type} {robot : Robot ρ} {p : Program} {stage after : Stage ρ}
    {result : Except Error Unit} {trace : Trace}
    (h : stage.Returns robot (.program p) result trace after) :
    FaithfulJournal p stage result trace after := by
  obtain ⟨rounds, halted, hend, hresult, rfl, rfl⟩ := h.ends
  have hend : p.exec robot stage.evaluator.limits rounds stage.toRun = halted := hend
  have hall : ∀ s ∈ p.statements, s.Each fun _ => True := fun s _ =>
    Statement.each_of_forall (fun _ => trivial) s
  obtain ⟨last, hcourse, hcloses⟩ := p.exec_closes robot stage.evaluator.limits rounds hall
    (rfl : stage.toRun.trace = [])
  rw [hend] at hcloses
  have hunderway := hcourse.underway rfl
  constructor
  case framed =>
    obtain ⟨entries, hevents, hentries⟩ := hunderway.events
    obtain ⟨stopped, hreports, hstop, hother⟩ := Event.atEnd_eq result last.steps
    have hsteps : (Stage.final halted).steps = last.steps := by rw [hcloses.final_eq]; rfl
    refine ⟨entries, stopped, ?_, hentries, ?_, hother⟩
    · show _ = [_] ++ _ ++ [Event.closing result (Stage.final halted).steps]
      rw [hcloses.trace_eq, hresult, events_append, hevents, events_reports, hsteps, hreports]
      simp
    · intro hint
      rw [hstop hint, ← hsteps]; rfl
  case assigned => exact hcloses.replayed hunderway.replayed
  case performed =>
    intro hint
    have hsettled : Owes last.trace.reverse [] := by
      refine hcloses.settled fun hstop => hint ?_
      exact Stage.mapError_injective (hresult.symm.trans hstop)
    have howed : expand (announced last.trace.reverse) = deeds last.trace.reverse ++ [] := hsettled
    rw [hcloses.announced, hcloses.deeds, howed, List.append_nil]
  case begun =>
    intro _
    obtain ⟨rest, howes⟩ := hunderway.owes
    have howed : expand (announced last.trace.reverse) = deeds last.trace.reverse ++ rest := howes
    refine ⟨?_, ?_⟩
    · rw [hcloses.announced, hcloses.deeds, howed]
      exact List.prefix_append _ _
    · rw [hcloses.trace_eq]
      exact hunderway.carriedOut.append (Run.quiet_atEnd _ _).announced

/-- The third call, the first of three moves, raises the signal. -/
theorem journal_of_interrupted_moves :
    let program : Program := ⟨[.assign "$a" (.sensor .fuelLeft), .action .turnL none,
      .action .move (some (.var "$a"))]⟩
    let stage : Stage Scripted := Stage.fresh {} { fuel := 3, stopAfter := some 3 }
    ∃ trace after,
      stage.Returns Scripted.robot (.program program) (.error .interrupted) trace after ∧
      events trace = [.executing 3, .assigned "$a" 3, .acting .turnL 1, .acting .move 3,
        .stopObserved 3, .aborted 3 .interrupted] ∧
      deeds trace = [.turnLeft, .moveStep] ∧
      FaithfulJournal program stage (.error .interrupted) trace after := by
  intro program stage
  obtain ⟨trace, after, hreturns, hevents, hdeeds⟩ : ∃ trace after,
      stage.Returns Scripted.robot (.program program) (.error .interrupted) trace after ∧
      events trace = [.executing 3, .assigned "$a" 3, .acting .turnL 1, .acting .move 3,
        .stopObserved 3, .aborted 3 .interrupted] ∧ deeds trace = [.turnLeft, .moveStep] := by
    have hend : Task.exec Scripted.robot ⟨none⟩ 0 (.program program) stage.toRun = _ := rfl
    exact ⟨_, _, Stage.returns_of_run hend rfl rfl rfl, rfl, rfl⟩
  exact ⟨trace, after, hreturns, hevents, hdeeds, journal_is_faithful hreturns⟩

end RobotScript
