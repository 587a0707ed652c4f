import RobotScript.Proofs.Journal
import RobotScript.Proofs.Truncation

/-!
# Stopping

Once the stop signal is raised, and while it stays so, a program comes to rest.

* `Trace.raised`: whether the signal is raised after a trace; `Stage.raised_eq` says that this is
  what the run sees.
* `Trace.AtRest`: what may still happen after a stop. `Course.guarded` says that nothing else does.
* `Stage.follow_mono`: a program that is followed for more rounds goes on from where it was cut.
* `stop_is_safe`: what is certain of a program after the signal is raised, and that it returns.
-/

namespace RobotScript

open Run

variable {ρ : Type}

/-- Whether the signal is raised after a mark: only calls change it. -/
def Mark.raised (before : Bool) : Mark → Bool
  | .call _ now => now
  | .event _ | .passed => before

namespace Trace

/-- Whether the signal is raised after a trace. -/
def raised (start : Bool) (trace : Trace) : Bool := trace.foldl Mark.raised start

/-- No call lowers the signal. -/
def Kept (trace : Trace) : Prop := ∀ call, Mark.call call false ∉ trace

/-- **What may still happen** when the signal is raised after `before`: no deed, no further
statement, and one assignment at most, that of the statement under way. -/
structure AtRest (before later : Trace) : Prop where
  deeds : Trace.deeds later = []
  passed : Mark.passed ∉ later
  once : (assignments later).length ≤ 1
  under : assignments later ≠ [] → Under before

/-- A mark that may still be made when the signal is raised. -/
structure Harmless (before : Trace) (mark : Mark) : Prop where
  deeds : Trace.deeds [mark] = []
  passed : mark ≠ .passed
  under : assignments [mark] ≠ [] → Under before

/-- **Wherever the trace is divided**, its second part is at rest if the signal is raised after the
first one and not lowered again. -/
def Guarded (start : Bool) (trace : Trace) : Prop :=
  ∀ before later, trace = before ++ later → raised start before = true → Kept later →
    AtRest before later

variable {start : Bool} {trace before later more : Trace} {mark : Mark}

theorem raised_append (start : Bool) (trace more : Trace) :
    raised start (trace ++ more) = raised (raised start trace) more := List.foldl_append

theorem Kept.left (h : Kept (trace ++ more)) : Kept trace :=
  fun call hmem => h call (List.mem_append_left more hmem)

theorem raised_of_kept (h : Kept trace) : raised true trace = true := by
  induction trace with
  | nil => rfl
  | cons mark rest ih =>
    have hrest : Kept rest := fun call hmem => h call (List.mem_cons_of_mem mark hmem)
    cases mark with
    | event | passed => exact ih hrest
    | call c now =>
      cases now with
      | true => exact ih hrest
      | false => exact absurd List.mem_cons_self (h c)

theorem atRest_nil : AtRest before [] where
  deeds := rfl
  passed := List.not_mem_nil
  once := Nat.zero_le 1
  under h := absurd rfl h

/-- If no statement was counted since, the one under way was so before. -/
theorem Under.of_append (h : Under (before ++ later)) (hpassed : Mark.passed ∉ later) :
    Under before ∧ assignments later = [] := by
  obtain ⟨earlier, lately, heq, hnone⟩ := h
  -- the statement was counted in one of the two parts, and not in the second
  rcases List.append_eq_append_iff.1 heq with ⟨mid, -, hlater⟩ | ⟨mid, hbefore, hrest⟩
  · exact absurd (by rw [hlater]; simp) hpassed
  · cases mid with
    | nil => exact absurd (by rw [← List.nil_append later, ← hrest]; simp) hpassed
    | cons mark mid =>
      rw [List.cons_append] at hrest
      obtain ⟨rfl, rfl⟩ := List.cons.inj hrest
      rw [assignments_append] at hnone
      obtain ⟨hmid, hlater⟩ := List.append_eq_nil_iff.1 hnone
      exact ⟨⟨earlier, mid, hbefore, hmid⟩, hlater⟩

theorem length_assignments_le (mark : Mark) : (assignments [mark]).length ≤ 1 := by
  unfold assignments events
  exact Nat.le_trans (List.length_filterMap_le _ _) (List.length_filterMap_le _ [mark])

theorem AtRest.concat (h : AtRest before later) (hmark : Harmless (before ++ later) mark) :
    AtRest before (later ++ [mark]) where
  deeds := by rw [deeds_append, h.deeds, hmark.deeds]; rfl
  passed := by
    rw [List.mem_append, List.mem_singleton]
    exact fun hmem => hmem.elim h.passed hmark.passed.symm
  once := by
    rw [assignments_append, List.length_append]
    by_cases hnone : assignments [mark] = []
    · rw [hnone]; exact h.once
    · -- the statement under way has not assigned anything yet
      have hlater := ((hmark.under hnone).of_append h.passed).2
      rw [hlater, List.length_nil, Nat.zero_add]
      exact length_assignments_le mark
  under := by
    intro hsome
    by_cases hnone : assignments [mark] = []
    · rw [assignments_append, hnone, List.append_nil] at hsome
      exact h.under hsome
    · exact ((hmark.under hnone).of_append h.passed).1

theorem guarded_nil : Guarded start [] := by
  intro before later heq _ _
  obtain ⟨rfl, rfl⟩ := List.append_eq_nil_iff.1 heq.symm
  exact atRest_nil

theorem Guarded.concat (h : Guarded start trace)
    (hmark : raised start trace = true → Harmless trace mark) :
    Guarded start (trace ++ [mark]) := by
  intro before later heq hraised hkept
  rcases List.eq_nil_or_concat later with rfl | ⟨init, last, rfl⟩
  · exact atRest_nil
  · -- the new mark is the last one of the second part, and the signal is raised up to it
    rw [List.concat_eq_append] at heq hkept ⊢
    rw [← List.append_assoc] at heq
    obtain ⟨rfl, hlast⟩ := List.append_inj' heq rfl
    obtain rfl : mark = last := List.singleton_inj.1 hlast
    have hstill : raised start (before ++ init) = true := by
      rw [raised_append, hraised]
      exact raised_of_kept hkept.left
    exact (h before init rfl hraised hkept.left).concat (hmark hstill)

/-- Reports leave a trace guarded, if they are not of assignments. -/
theorem Guarded.reports (h : Guarded start trace) (events : List Event)
    (hevents : ∀ e ∈ events, e.assignment? = none) :
    Guarded start (trace ++ events.map Mark.event) := by
  induction events generalizing trace with
  | nil => rw [List.map_nil, List.append_nil]; exact h
  | cons e rest ih =>
    have hnone : assignments [.event e] = [] := by
      show [e].filterMap Event.assignment? = []
      rw [List.filterMap_cons_none (hevents e List.mem_cons_self), List.filterMap_nil]
    have hfirst : Guarded start (trace ++ [.event e]) :=
      h.concat fun _ => ⟨rfl, nofun, fun hsome => absurd hnone hsome⟩
    rw [List.map_cons, List.append_cons]
    exact ih hfirst fun e' he' => hevents e' (List.mem_cons_of_mem e he')

end Trace

open Trace

theorem Event.atEnd_assignment (outcome : Except Halt Unit) (steps : UInt64) :
    ∀ e ∈ Event.atEnd outcome steps, e.assignment? = none := by
  have hclosing : ∀ result, (Event.closing result steps).assignment? = none := by
    intro result
    cases result with
    | ok => rfl
    | error => rfl
  unfold Event.atEnd
  split
  · exact nofun
  · exact nofun
  · exact List.forall_mem_cons.2 ⟨rfl, List.forall_mem_singleton.2 (hclosing _)⟩
  · exact List.forall_mem_singleton.2 (hclosing _)
  · exact List.forall_mem_singleton.2 (hclosing _)

section

variable {robot : Robot ρ} {limits : Limits} {stage : Stage ρ} {run after : Run ρ}

/-- **The signal is as the trace says.** -/
theorem Stage.raised_eq (h : Reaches robot limits stage.toRun run) :
    run.scene.raised =
      Trace.raised (stage.board.isStopped stage.evaluator.signal) run.trace.reverse := by
  induction h with
  | refl => rfl
  | tail _ step ih =>
    cases step with
    | read | assign => exact ih
    | report | pass => rw [List.reverse_cons, raised_append]; exact ih
    | perform | ask => rw [List.reverse_cons, raised_append]; rfl

/-- An act leaves at most one mark, and while the signal is raised, a harmless one. -/
theorem Run.Act.harmless (h : Act Statement.CountsRepeat robot limits run after) :
    after.trace.reverse = run.trace.reverse ∨
      ∃ mark, after.trace.reverse = run.trace.reverse ++ [mark] ∧
        (run.scene.raised = true → Harmless run.trace.reverse mark) := by
  cases h with
  | look _ look =>
    cases look with
    | read => exact .inl rfl
    | ask | warn =>
      exact .inr ⟨_, List.reverse_cons, fun _ => ⟨rfl, nofun, fun hsome => absurd rfl hsome⟩⟩
  | announce =>
    exact .inr ⟨_, List.reverse_cons, fun _ => ⟨rfl, nofun, fun hsome => absurd rfl hsome⟩⟩
  | assign name value _ under =>
    exact .inr ⟨_, List.reverse_cons, fun _ => ⟨rfl, nofun, fun _ => under⟩⟩
  | pass _ lowered =>
    refine .inr ⟨_, List.reverse_cons, fun hraised => ?_⟩
    rw [lowered] at hraised
    cases hraised
  | perform deed rest _ lowered =>
    refine .inr ⟨_, List.reverse_cons, fun hraised => ?_⟩
    rcases lowered with lowered | ⟨s, hs, hno⟩
    · rw [lowered] at hraised
      cases hraised
    · exact absurd hs hno

/-- **A course leaves the trace guarded**, if counts only repeat. -/
theorem Run.Course.guarded (h : Course Statement.CountsRepeat robot limits run after)
    (hrun : Reaches robot limits stage.toRun run)
    (hguarded : Guarded (stage.board.isStopped stage.evaluator.signal) run.trace.reverse) :
    Guarded (stage.board.isStopped stage.evaluator.signal) after.trace.reverse := by
  induction h with
  | refl => exact hguarded
  | tail course act ih =>
    have hmid := Stage.raised_eq (hrun.trans (Course.reaches course))
    rcases act.harmless with heq | ⟨mark, heq, hharmless⟩
    · rw [heq]; exact ih
    · rw [heq]
      exact ih.concat fun hraised => hharmless (hmid.trans hraised)

/-- A program that finds the signal raised ends by itself or at a stop, if it ends at all. -/
theorem Run.Closes.reason {last : Run ρ} {halted : EStateM.Result Halt (Run ρ) Unit}
    (h : last.Closes halted) (hraised : last.scene.raised = true) :
    Stage.outcome halted = .error .unfinished ∨ ∃ result : Except Error Unit,
      Stage.outcome halted = result.mapError Halt.error ∧
      (result = .ok () ∨ result = .error .interrupted ∨
        ∃ text, result = .error (.divisionByZero text)) := by
  have hlowered : ¬ last.scene.raised = false := by rw [hraised]; exact Bool.noConfusion
  cases h with
  | finished => exact .inr ⟨.ok (), rfl, .inl rfl⟩
  | overflow _ lowered => exact absurd lowered hlowered
  | unfinished => exact .inl rfl
  | aborted halts =>
    cases halts with
    | interrupted => exact .inr ⟨_, rfl, .inr (.inl rfl)⟩
    | divisionByZero text => exact .inr ⟨_, rfl, .inr (.inr ⟨text, rfl⟩)⟩
    | refused _ _ lowered => exact absurd lowered hlowered

end

namespace Stage

/-- A program, followed for a number of rounds of each loop. -/
def follow (robot : Robot ρ) (stage : Stage ρ) (p : Program) (rounds : Nat) :
    Except Halt Unit × Trace × Stage ρ :=
  stage.run (p.exec robot stage.evaluator.limits rounds)

/-- The state up to which a program is followed. -/
def followed (robot : Robot ρ) (stage : Stage ρ) (p : Program) (rounds : Nat) : Run ρ :=
  final (p.exec robot stage.evaluator.limits rounds stage.toRun)

theorem follow_outcome (robot : Robot ρ) (stage : Stage ρ) (p : Program) (rounds : Nat) :
    (stage.follow robot p rounds).1 =
      outcome (p.exec robot stage.evaluator.limits rounds stage.toRun) := by
  unfold follow
  rw [run_eq]

theorem follow_trace (robot : Robot ρ) (stage : Stage ρ) (p : Program) (rounds : Nat) :
    (stage.follow robot p rounds).2.1 = (stage.followed robot p rounds).trace.reverse := by
  unfold follow
  rw [run_eq]; rfl

theorem follow_after (robot : Robot ρ) (stage : Stage ρ) (p : Program) (rounds : Nat) :
    (stage.follow robot p rounds).2.2 = stage.ofRun (stage.followed robot p rounds) := by
  unfold follow
  rw [run_eq]; rfl

theorem reaches_followed (robot : Robot ρ) (stage : Stage ρ) (p : Program) (rounds : Nat) :
    Reaches robot stage.evaluator.limits stage.toRun (stage.followed robot p rounds) :=
  reaches_final ((Task.program p).walks robot stage.evaluator.limits rounds) stage.toRun

/-- **With more rounds a program goes on from where it was cut.** -/
theorem follow_mono (robot : Robot ρ) (stage : Stage ρ) (p : Program) {rounds rounds' : Nat}
    (h : rounds ≤ rounds') :
    (stage.follow robot p rounds).2.1 <+: (stage.follow robot p rounds').2.1 := by
  rw [follow_trace, follow_trace, List.reverse_prefix]
  unfold Stage.followed
  have htracks := (Task.program p).fewerRounds robot stage.evaluator.limits h
  rcases htracks.2 stage.toRun stage.toRun rfl with
    hpair | ⟨mid, last, events, hstops, hcut, hsilent, hgoes⟩
  · have heq : p.exec robot stage.evaluator.limits rounds stage.toRun =
        p.exec robot stage.evaluator.limits rounds' stage.toRun := hpair.eq
    exact ⟨[], by rw [List.nil_append, heq]⟩
  · -- a cut is not reported, so its trace is that of a state the longer run goes through
    have hmid : mid = some last := hstops
    have hevents : events = [] := hsilent rfl
    have hcut : p.exec robot stage.evaluator.limits rounds stage.toRun = _ := hcut
    subst hmid hevents
    rw [hcut]
    exact (reaches_of_lands hgoes).trace_suffix

/-- **The signal is raised after `before`**, which is the first part of what a program does, and is
not lowered again however long the program is followed. -/
structure RaisedFrom (robot : Robot ρ) (stage : Stage ρ) (p : Program) (before : Trace) : Prop where
  reached : ∃ rounds, before <+: (stage.follow robot p rounds).2.1
  raised : Trace.raised (stage.board.isStopped stage.evaluator.signal) before = true
  kept (rounds : Nat) (later : Trace) :
    (stage.follow robot p rounds).2.1 = before ++ later → Kept later

/-- **A program has come to rest** after `before`: it did `later` and nothing that moves the counter,
and its variables are changed by the assignments there and by nothing else. -/
structure Rests (stage : Stage ρ) (before later : Trace) (after : Stage ρ) : Prop where
  atRest : AtRest before later
  steps : after.evaluator.steps.toNat = stage.evaluator.steps.toNat + passed before
  stored (name : String) : after.evaluator.store.value name =
    ((stage.evaluator.store.replay (assignments before)).replay (assignments later)).value name

end Stage

/-- **A robot that never lowers the signal.** -/
def Robot.NeverLowers (robot : Robot ρ) : Prop :=
  ∀ scene call, scene.raised = true → (robot.next scene call).raised = true

/-- Against such a robot a raised signal stays raised. -/
theorem Robot.NeverLowers.kept {robot : Robot ρ} {limits : Limits} {run after : Run ρ}
    (hrobot : robot.NeverLowers) (h : Reaches robot limits run after)
    (hraised : run.scene.raised = true) : after.scene.raised = true ∧
      ∃ later, after.trace.reverse = run.trace.reverse ++ later ∧ Kept later := by
  induction h with
  | refl => exact ⟨hraised, [], (List.append_nil _).symm, fun _ => List.not_mem_nil⟩
  | @tail mid last _ step ih =>
    obtain ⟨hmid, later, htrace, hkept⟩ := ih
    -- one more mark keeps the rest, unless it is a call that lowers the signal
    have hmore : ∀ mark, (∀ call, mark ≠ Mark.call call false) → ∃ later',
        (mark :: mid.trace).reverse = run.trace.reverse ++ later' ∧ Kept later' := by
      intro mark hmark
      refine ⟨later ++ [mark], by rw [List.reverse_cons, htrace, List.append_assoc], fun call => ?_⟩
      rw [List.mem_append, List.mem_singleton]
      exact fun hmem => hmem.elim (hkept call) fun heq => hmark call heq.symm
    cases step with
    | read | assign => exact ⟨hmid, later, htrace, hkept⟩
    | report | pass => exact ⟨hmid, hmore _ nofun⟩
    | perform deed =>
      have hnow : (robot.act deed mid.scene).raised = true := hrobot mid.scene (.deed deed) hmid
      refine ⟨hnow, hmore _ fun call heq => ?_⟩
      rw [hnow] at heq
      cases heq
    | ask query =>
      have hnow : (robot.sense query mid.scene).2.raised = true :=
        hrobot mid.scene (.query query) hmid
      refine ⟨hnow, hmore _ fun call heq => ?_⟩
      rw [hnow] at heq
      cases heq

theorem Robot.NeverLowers.raisedFrom {robot : Robot ρ} {stage : Stage ρ} {p : Program}
    {before : Trace} (hrobot : robot.NeverLowers)
    (hreached : ∃ rounds, before <+: (stage.follow robot p rounds).2.1)
    (hraised : Trace.raised (stage.board.isStopped stage.evaluator.signal) before = true) :
    stage.RaisedFrom robot p before := by
  refine ⟨hreached, hraised, fun rounds later htrace => ?_⟩
  rw [Stage.follow_trace] at htrace
  -- the run goes through a state in which `before` and nothing else is done
  obtain ⟨mid, hmid, hrest, hpart⟩ :=
    (stage.reaches_followed robot p rounds).through before.length (Nat.zero_le _)
  rw [htrace, List.take_left] at hpart
  have hup : mid.scene.raised = true := by
    rw [Stage.raised_eq hmid, hpart]; exact hraised
  obtain ⟨-, later', heq, hkept⟩ := hrobot.kept hrest hup
  rw [htrace, hpart] at heq
  rw [List.append_cancel_left heq]
  exact hkept

namespace Stage.RaisedFrom

variable {robot : Robot ρ} {stage : Stage ρ} {p : Program} {before later : Trace} {rounds : Nat}

/-- Where no statement was counted since, the counter stands where it stood. -/
theorem steps_eq {run : Run ρ} (hpath : Reaches robot stage.evaluator.limits stage.toRun run)
    (htrace : run.trace.reverse = before ++ later) (hpassed : Mark.passed ∉ later) :
    run.steps.toNat = stage.evaluator.steps.toNat + passed before := by
  rw [Stage.steps_eq hpath]
  have hcount : passed run.trace.reverse = passed before + passed later := by
    rw [htrace]; exact List.count_append
  have hnone : passed later = 0 := List.count_eq_zero.2 hpassed
  have hreverse : passed run.trace.reverse = passed run.trace := List.count_reverse
  omega

theorem rests (hcounts : ∀ s ∈ p.statements, s.Each Statement.CountsRepeat)
    (h : stage.RaisedFrom robot p before)
    (htrace : (stage.follow robot p rounds).2.1 = before ++ later) :
    stage.Rests before later (stage.follow robot p rounds).2.2 := by
  have hkept := h.kept rounds later htrace
  rw [follow_trace] at htrace
  rw [follow_after]
  obtain ⟨last, hcourse, hcloses⟩ := p.exec_closes robot stage.evaluator.limits rounds hcounts
    (rfl : stage.toRun.trace = [])
  have hguarded : Guarded (stage.board.isStopped stage.evaluator.signal)
      (stage.followed robot p rounds).trace.reverse := by
    unfold Stage.followed
    rw [hcloses.trace_eq]
    refine Guarded.reports ?_ _ (Event.atEnd_assignment _ _)
    refine hcourse.guarded (Step.report _ _).reaches ?_
    exact guarded_nil.reports [_] (List.forall_mem_singleton.2 rfl)
  have hrest := hguarded before later htrace h.raised hkept
  have hsteps := steps_eq (stage.reaches_followed robot p rounds) htrace hrest.passed
  refine ⟨hrest, hsteps, fun name => ?_⟩
  have hreplayed : (stage.followed robot p rounds).store.value name = _ :=
    hcloses.replayed (hcourse.underway rfl).replayed name
  rw [← Store.replay_append, ← assignments_append, ← htrace]
  exact hreplayed

/-- What is followed far enough begins with what was done before the stop. -/
theorem eventually (h : stage.RaisedFrom robot p before) :
    ∃ enough, ∀ rounds, enough ≤ rounds →
      ∃ later, (stage.follow robot p rounds).2.1 = before ++ later := by
  obtain ⟨enough, hreached⟩ := h.reached
  refine ⟨enough, fun rounds hle => ?_⟩
  obtain ⟨later, hlater⟩ := hreached.trans (stage.follow_mono robot p hle)
  exact ⟨later, hlater.symm⟩

/-- After a stop no limit is exceeded, nor does the counter overflow. -/
theorem outcome_cases (h : stage.RaisedFrom robot p before)
    (htrace : (stage.follow robot p rounds).2.1 = before ++ later) :
    (stage.follow robot p rounds).1 = .error .unfinished ∨ ∃ result : Except Error Unit,
      (stage.follow robot p rounds).1 = result.mapError Halt.error ∧
      (result = .ok () ∨ result = .error .interrupted ∨
        ∃ text, result = .error (.divisionByZero text)) := by
  have hstill : (stage.followed robot p rounds).scene.raised = true := by
    rw [raised_eq (stage.reaches_followed robot p rounds), ← follow_trace, htrace, raised_append,
      h.raised]
    exact raised_of_kept (h.kept rounds later htrace)
  have hall : ∀ s ∈ p.statements, s.Each fun _ => True := fun s _ =>
    Statement.each_of_forall (fun _ => trivial) s
  obtain ⟨last, -, hcloses⟩ := p.exec_closes robot stage.evaluator.limits rounds hall
    (rfl : stage.toRun.trace = [])
  have hlast : (stage.followed robot p rounds).scene = last.scene := by
    unfold Stage.followed
    rw [hcloses.final_eq]; rfl
  rw [hlast] at hstill
  rw [follow_outcome]
  exact hcloses.reason hstill

theorem result (h : stage.RaisedFrom robot p before) {result : Except Error Unit}
    (htrace : (stage.follow robot p rounds).2.1 = before ++ later)
    (hresult : (stage.follow robot p rounds).1 = result.mapError Halt.error) :
    result = .ok () ∨ result = .error .interrupted ∨
      ∃ text, result = .error (.divisionByZero text) := by
  rcases h.outcome_cases htrace with hcut | ⟨result', hresult', hreason⟩
  · rw [hresult] at hcut
    cases result <;> cases hcut
  · rw [mapError_injective (hresult.symm.trans hresult')]
    exact hreason

/-- **After a stop a program returns**, unless a block is empty. -/
theorem returns (hcounts : ∀ s ∈ p.statements, s.Each Statement.CountsRepeat)
    (h : stage.RaisedFrom robot p before) (hfilled : (Task.program p).Filled) :
    ∃ result trace after, stage.Returns robot (.program p) result trace after := by
  obtain ⟨enough, henough⟩ := h.eventually
  obtain ⟨later, htrace⟩ := henough (enough + passed before + 1) (by omega)
  have hsteps := (h.rests hcounts htrace).steps
  rw [follow_after] at hsteps
  -- the statements counted before the stop are all there ever are
  have hfew : (stage.followed robot p (enough + passed before + 1)).steps.toNat <
      stage.evaluator.steps.toNat + (enough + passed before + 1) := by
    have heq : (stage.followed robot p (enough + passed before + 1)).steps.toNat = _ := hsteps
    omega
  -- nor can the counter overflow: no checkpoint is passed with the signal raised
  have hroom : (stage.follow robot p (enough + passed before + 1)).1 ≠ .error .overflow := by
    rcases h.outcome_cases htrace with hcut | ⟨result, hresult, -⟩
    · rw [hcut]; exact nofun
    · rw [hresult]; cases result <;> exact nofun
  rw [follow_outcome] at hroom
  exact returns_of_steps hfilled hfew hroom

end Stage.RaisedFrom

theorem Parser.program_countsRepeat {parser after : Parser} {p : Program}
    (h : parser.program = (.ok p, after)) : ∀ s ∈ p.statements, s.Each Statement.CountsRepeat := by
  obtain ⟨ts, hts⟩ := Parser.program_derives h
  intro s hs
  obtain ⟨us, -, hus⟩ := hts.1.of_mem s hs
  refine Grammar.DerivesStatement.each (fun hderives => ?_) hus
  cases hderives with
  | counted _ repeated => exact Grammar.takesCount_iff.2 repeated
  | action | loop | branch | whileLoop | assign => trivial

/-- **What is certain of a program once the signal is raised** after `before`. -/
structure StopsSafely (robot : Robot ρ) (stage : Stage ρ) (p : Program) (before : Trace) :
    Prop where
  /-- However long the program is followed, it rests. -/
  rests (rounds : Nat) (later : Trace)
    (follows : (stage.follow robot p rounds).2.1 = before ++ later) :
    stage.Rests before later (stage.follow robot p rounds).2.2
  /-- In every state on the way the counter stands where it stood. -/
  steps (rounds : Nat) {run : Run ρ}
    (reaches : Reaches robot stage.evaluator.limits stage.toRun run)
    (leads : Reaches robot stage.evaluator.limits run (stage.followed robot p rounds))
    (since : before <+: run.trace.reverse) :
    run.steps.toNat = stage.evaluator.steps.toNat + passed before
  /-- If the program returns, it has rested since then, and no limit is exceeded. -/
  returned {result : Except Error Unit} {trace : Trace} {after : Stage ρ}
    (returns : stage.Returns robot (.program p) result trace after) :
    (∃ later, trace = before ++ later ∧ stage.Rests before later after) ∧
      (result = .ok () ∨ result = .error .interrupted ∨
        ∃ text, result = .error (.divisionByZero text))
  /-- It does return, unless a block is empty. -/
  returns (filled : (Task.program p).Filled) :
    ∃ result trace after, stage.Returns robot (.program p) result trace after

/-- **Raising the stop signal is safe**: after it a program does nothing but finish the statement
under way, and returns. It is enough that counts only repeat, as in all that a parser gives. -/
theorem stop_is_safe {robot : Robot ρ} {stage : Stage ρ} {p : Program} {before : Trace}
    (hcounts : ∀ s ∈ p.statements, s.Each Statement.CountsRepeat)
    (hraised : stage.RaisedFrom robot p before) :
    StopsSafely robot stage p before ∧
      ∀ (parser after : Parser) (q : Program), parser.program = (.ok q, after) →
        ∀ s ∈ q.statements, s.Each Statement.CountsRepeat := by
  refine ⟨?_, fun parser after q hq => Parser.program_countsRepeat hq⟩
  constructor
  case rests =>
    intro rounds later follows
    exact hraised.rests hcounts follows
  case steps =>
    intro rounds run reaches leads since
    obtain ⟨later, hlater⟩ := since
    -- what comes after this state is part of what rests
    obtain ⟨more, hmore⟩ := List.reverse_prefix.2 leads.trace_suffix
    have htrace : (stage.follow robot p rounds).2.1 = before ++ (later ++ more) := by
      rw [Stage.follow_trace, ← hmore, ← hlater, List.append_assoc]
    have hpassed := (hraised.rests hcounts htrace).atRest.passed
    refine Stage.RaisedFrom.steps_eq reaches hlater.symm fun hmem => hpassed ?_
    exact List.mem_append_left more hmem
  case returned =>
    intro result trace after returns
    obtain ⟨n, hn⟩ := returns
    obtain ⟨enough, henough⟩ := hraised.eventually
    obtain ⟨later, hlater⟩ := henough (max n enough) (by omega)
    have hfollow : stage.follow robot p (max n enough) =
        (result.mapError Halt.error, trace, after) := hn _ (by omega)
    have hrests := hraised.rests hcounts hlater
    have hresult := hraised.result hlater (by rw [hfollow])
    rw [hfollow] at hlater hrests
    exact ⟨⟨later, hlater, hrests⟩, hresult⟩
  case returns => exact hraised.returns hcounts

theorem Scripted.neverLowers : robot.NeverLowers := by
  intro scene call hraised
  have hnext : robot.next scene call = _ :=
    next_stopping scene.robot scene.robot.stopAfter scene.raised call
  rw [hnext, hraised]; rfl

/-- The signal is raised by the reading of an assignment in a loop. -/
theorem stop_in_assigned_reading :
    let program : Program := ⟨[.loop [.assign "$a" (.sensor .fuelLeft),
      .action .move (some (.var "$a"))]]⟩
    let stage : Stage Scripted := Stage.fresh {} { fuel := 3, stopAfter := some 1 }
    let before : Trace := [.event (.executing 1), .passed, .passed, .call (.query .fuel) true]
    (stage.follow Scripted.robot program 1).2.1 = before ++
      [.event (.assigned "$a" 3), .event (.stopObserved 2), .event (.aborted 2 .interrupted)] ∧
    StopsSafely Scripted.robot stage program before ∧
    ∃ result trace after, stage.Returns Scripted.robot (.program program) result trace after := by
  intro program stage before
  have hfollow : (stage.follow Scripted.robot program 1).2.1 = before ++
      [.event (.assigned "$a" 3), .event (.stopObserved 2), .event (.aborted 2 .interrupted)] := rfl
  have hraised : stage.RaisedFrom Scripted.robot program before :=
    Scripted.neverLowers.raisedFrom ⟨1, _, hfollow.symm⟩ rfl
  have hcounts : ∀ s ∈ program.statements, s.Each Statement.CountsRepeat := by
    refine List.forall_mem_singleton.2 (.intro trivial (List.forall_mem_singleton.2 ?_))
    exact List.forall_mem_cons.2 ⟨.intro trivial nofun,
      List.forall_mem_singleton.2 (.intro rfl nofun)⟩
  have hfilled : (Task.program program).Filled := by
    refine List.forall_mem_singleton.2 (.intro (List.forall_mem_singleton.2 (List.cons_ne_nil _ _))
      (List.forall_mem_singleton.2 ?_))
    exact List.forall_mem_cons.2 ⟨.intro nofun nofun,
      List.forall_mem_singleton.2 (.intro nofun nofun)⟩
  have hsafe := (stop_is_safe hcounts hraised).1
  exact ⟨hfollow, hsafe, hsafe.returns hfilled⟩

end RobotScript
