import RobotScript.Proofs.Cutoff
import RobotScript.Proofs.Store

/-!
# The course of a run

What a run does at once, with the reasons it has for doing so. Evaluating only looks: it asks,
warns and reads. All else belongs to a statement that was counted.

* `Trace.deeds`, `Trace.announced`, `Trace.assignments`: what a trace says was done.
* `Trace.Owes`: the deeds that were announced and are still to be done.
* `Run.Act`: what carrying out statements can do at once, and when. `Run.Course` is any number
  of acts, which is a path (`Course.reaches`).
* `Run.Halts`: how a course ends before the end of the program.
* `exec_closes`: carrying out a program takes a course and closes it with a report.
-/

namespace RobotScript

def Call.deed? : Call → Option Deed
  | .deed d => some d
  | .query _ => none

/-- The action that an event announces, and how often it is to be done. -/
def Event.action? : Event → Option (Action × Int32)
  | .acting action repeats => some (action, repeats)
  | _ => none

def Event.assignment? : Event → Option (String × Int32)
  | .assigned name value => some (name, value)
  | _ => none

/-- The deeds that an action stands for: moves and waits are repeated. -/
def Action.deeds (action : Action) (repeats : Int32) : List Deed :=
  if action.takesCount then List.replicate repeats.toInt.toNat action.deed else [action.deed]

namespace Trace

def deeds (trace : Trace) : List Deed := (calls trace).filterMap Call.deed?

def announced (trace : Trace) : List (Action × Int32) := (events trace).filterMap Event.action?

def assignments (trace : Trace) : List (String × Int32) :=
  (events trace).filterMap Event.assignment?

/-- The deeds that announced actions stand for. -/
def expand (actions : List (Action × Int32)) : List Deed := actions.flatMap fun a => a.1.deeds a.2

/-- **The deeds that were announced and are still to be done.** -/
def Owes (trace : Trace) (deeds : List Deed) : Prop :=
  expand (announced trace) = Trace.deeds trace ++ deeds

/-- A statement has been counted, and nothing has been assigned since. -/
def Under (trace : Trace) : Prop :=
  ∃ earlier lately, trace = earlier ++ Mark.passed :: lately ∧ assignments lately = []

variable (trace more : Trace)

theorem calls_append : calls (trace ++ more) = calls trace ++ calls more := List.filterMap_append

theorem events_append : events (trace ++ more) = events trace ++ events more :=
  List.filterMap_append

theorem events_reports (reports : List Event) : events (reports.map Mark.event) = reports := by
  unfold events
  rw [List.filterMap_map]
  exact List.filterMap_some

theorem deeds_append : deeds (trace ++ more) = deeds trace ++ deeds more := by
  unfold deeds
  rw [calls_append, List.filterMap_append]

theorem announced_append : announced (trace ++ more) = announced trace ++ announced more := by
  unfold announced
  rw [events_append, List.filterMap_append]

theorem assignments_append :
    assignments (trace ++ more) = assignments trace ++ assignments more := by
  unfold assignments
  rw [events_append, List.filterMap_append]

theorem expand_append (actions more : List (Action × Int32)) :
    expand (actions ++ more) = expand actions ++ expand more := List.flatMap_append

variable {trace more}

theorem Owes.append {deeds : List Deed} (h : Owes trace deeds) (hannounced : announced more = [])
    (hdeeds : Trace.deeds more = []) : Owes (trace ++ more) deeds := by
  unfold Owes at h ⊢
  rw [announced_append, deeds_append, hannounced, hdeeds, List.append_nil, List.append_nil]
  exact h

theorem Under.append (h : Under trace) (hassignments : assignments more = []) :
    Under (trace ++ more) := by
  obtain ⟨earlier, lately, rfl, hlately⟩ := h
  refine ⟨earlier, lately ++ more, by simp, ?_⟩
  rw [assignments_append, hlately, hassignments]; rfl

end Trace

theorem Run.noting_trace {ρ : Type} (run : Run ρ) (event : Event) :
    (run.noting [event]).trace.reverse = run.trace.reverse ++ [.event event] := List.reverse_cons

theorem Run.counting_trace {ρ : Type} (run : Run ρ) :
    run.counting.trace.reverse = run.trace.reverse ++ [.passed] := List.reverse_cons

/-- A count is given only where it repeats the action. -/
def Statement.CountsRepeat : Statement → Prop
  | .action word (some _) => word.takesCount = true
  | _ => True

namespace Run

open Trace

variable {ρ : Type}

/-- **What evaluating can do at once.** -/
inductive Look (robot : Robot ρ) : Run ρ → Run ρ → Prop
  | ask (run : Run ρ) (query : Query) :
      Look robot run { run with
        scene := (robot.sense query run.scene).2
        trace := .call (.query query) (robot.sense query run.scene).2.raised :: run.trace }
  | warn (run : Run ρ) (word : Sensor) (rank : Int32) :
      Look robot run (run.noting [.rankReplaced word rank])
  | read (run : Run ρ) (name : String) :
      Look robot run { run with store := (run.store.read name).2 }

/-- Any number of looks. -/
def Looks (robot : Robot ρ) : Run ρ → Run ρ → Prop := Relation.ReflTransGen (Look robot)

variable {robot : Robot ρ} {run mid after : Run ρ}

/-- What looks add to a trace: no statement, no deed and no assignment. -/
structure Quiet (marks : Trace) : Prop where
  passed : Mark.passed ∉ marks
  deeds : Trace.deeds marks = []
  announced : Trace.announced marks = []
  assignments : Trace.assignments marks = []

theorem Quiet.append {marks more : Trace} (h : Quiet marks) (hmore : Quiet more) :
    Quiet (marks ++ more) where
  passed := by rw [List.mem_append]; exact fun hmem => hmem.elim h.passed hmore.passed
  deeds := by rw [deeds_append, h.deeds, hmore.deeds]; rfl
  announced := by rw [announced_append, h.announced, hmore.announced]; rfl
  assignments := by rw [assignments_append, h.assignments, hmore.assignments]; rfl

theorem Look.quiet (h : Look robot run after) :
    ∃ marks, after.trace.reverse = run.trace.reverse ++ marks ∧ Quiet marks := by
  cases h with
  | read => exact ⟨[], (List.append_nil _).symm, by simp, rfl, rfl, rfl⟩
  | ask query | warn word rank => exact ⟨[_], List.reverse_cons, by simp, rfl, rfl, rfl⟩

/-- **Looking leaves the deeds and assignments of a trace alone.** -/
theorem Looks.quiet (h : Looks robot run after) :
    ∃ marks, after.trace.reverse = run.trace.reverse ++ marks ∧ Quiet marks := by
  induction h with
  | refl => exact ⟨[], (List.append_nil _).symm, by simp, rfl, rfl, rfl⟩
  | tail _ look ih =>
    obtain ⟨marks, htrace, hquiet⟩ := ih
    obtain ⟨more, hmore, hquiet'⟩ := look.quiet
    exact ⟨marks ++ more, by rw [hmore, htrace, List.append_assoc], hquiet.append hquiet'⟩

theorem Look.owes {deeds : List Deed} (h : Look robot run after)
    (howes : Owes run.trace.reverse deeds) : Owes after.trace.reverse deeds := by
  obtain ⟨marks, htrace, hquiet⟩ := h.quiet
  rw [htrace]
  exact howes.append hquiet.announced hquiet.deeds

theorem Looks.under (h : Looks robot run after) (hunder : Under run.trace.reverse) :
    Under after.trace.reverse := by
  obtain ⟨marks, htrace, hquiet⟩ := h.quiet
  rw [htrace]
  exact hunder.append hquiet.assignments

/-- **What carrying out statements can do at once.** Nothing is done while deeds are owed but
those deeds, and none of them while the signal is raised, unless there is a statement among `P`
with a count that repeats nothing. -/
inductive Act (P : Statement → Prop) (robot : Robot ρ) (limits : Limits) : Run ρ → Run ρ → Prop
  | look {run after : Run ρ} (settled : Owes run.trace.reverse []) (look : Look robot run after) :
      Act P robot limits run after
  | pass (run : Run ρ) (settled : Owes run.trace.reverse []) (lowered : run.scene.raised = false)
      (allowed : limits.Allows run.steps) : Act P robot limits run run.counting
  | assign (run : Run ρ) (name : String) (value : Int32) (settled : Owes run.trace.reverse [])
      (under : Under run.trace.reverse) :
      Act P robot limits run { run with
        store := run.store.set name value
        trace := .event (.assigned name value) :: run.trace }
  | announce (run : Run ρ) (action : Action) (repeats : Int32)
      (settled : Owes run.trace.reverse []) :
      Act P robot limits run (run.noting [.acting action repeats])
  | perform (run : Run ρ) (deed : Deed) (rest : List Deed)
      (owed : Owes run.trace.reverse (deed :: rest))
      (lowered : run.scene.raised = false ∨ ∃ s, P s ∧ ¬ s.CountsRepeat) :
      Act P robot limits run { run with
        scene := robot.act deed run.scene
        trace := .call (.deed deed) (robot.act deed run.scene).raised :: run.trace }

/-- **Any number of acts.** -/
def Course (P : Statement → Prop) (robot : Robot ρ) (limits : Limits) : Run ρ → Run ρ → Prop :=
  Relation.ReflTransGen (Act P robot limits)

/-- **How a course ends** before the end of the program. -/
inductive Halts (run : Run ρ) : Halt → Run ρ → Prop
  | divisionByZero (text : String) (settled : Owes run.trace.reverse []) :
      Halts run (.error (.divisionByZero text)) run
  | refused {limits : Limits} {halt : Halt} (refuses : limits.Refuses run.steps halt)
      (settled : Owes run.trace.reverse []) (lowered : run.scene.raised = false) : Halts run halt run
  | unfinished (settled : Owes run.trace.reverse []) : Halts run .unfinished run
  | interrupted (raised : run.scene.raised = true) :
      Halts run (.error .interrupted) (run.noting [.stopObserved run.steps])

variable {P : Statement → Prop} {limits : Limits}

theorem Course.refl (run : Run ρ) : Course P robot limits run run := Relation.ReflTransGen.refl

theorem Course.trans (h : Course P robot limits run mid) (h' : Course P robot limits mid after) :
    Course P robot limits run after :=
  Relation.ReflTransGen.trans h h'

theorem Act.course (h : Act P robot limits run after) : Course P robot limits run after :=
  Relation.ReflTransGen.single h

theorem Look.reaches (h : Look robot run after) : Reaches robot limits run after := by
  cases h with
  | ask query => exact (Step.ask run query).reaches
  | warn word rank => exact (Step.report run _).reaches
  | read name => exact (Step.read run name).reaches

theorem Act.reaches (h : Act P robot limits run after) : Reaches robot limits run after := by
  cases h with
  | look _ look => exact look.reaches
  | pass _ lowered allowed => exact (Step.pass run lowered allowed).reaches
  | assign name value => exact (Step.report run _).reaches.trans (Step.assign _ name value).reaches
  | announce action repeats => exact (Step.report run _).reaches
  | perform deed => exact (Step.perform run deed).reaches

/-- **A course is a path.** -/
theorem Course.reaches (h : Course P robot limits run after) : Reaches robot limits run after := by
  induction h with
  | refl => exact .refl run
  | tail _ act ih => exact ih.trans act.reaches

/-- Looks are acts, if no deeds are owed. -/
theorem Looks.course (h : Looks robot run after) (settled : Owes run.trace.reverse []) :
    Course P robot limits run after ∧ Owes after.trace.reverse [] := by
  induction h with
  | refl => exact ⟨.refl run, settled⟩
  | tail _ look ih => exact ⟨ih.1.trans (Act.look ih.2 look).course, look.owes ih.2⟩

end Run

namespace Eval

open Run Trace

variable {ρ α β : Type} {robot : Robot ρ} {limits : Limits} {rounds : Nat} {P : Statement → Prop}

/-- **The computation only looks**, and halts only at a division by zero. -/
def OnlyLooks (robot : Robot ρ) (m : Eval ρ α) : Prop :=
  ∀ run, match m run with
    | .ok _ after => Looks robot run after
    | .error halt after => Looks robot run after ∧ ∃ text, halt = .error (.divisionByZero text)

theorem onlyLooks_pure (a : α) : OnlyLooks robot (pure a : Eval ρ α) :=
  fun _ => Relation.ReflTransGen.refl

theorem OnlyLooks.bind {m : Eval ρ α} {f : α → Eval ρ β} (hm : OnlyLooks robot m)
    (hf : ∀ a, OnlyLooks robot (f a)) : OnlyLooks robot (m >>= f) := by
  intro run
  have hfirst := hm run
  rw [bind_apply]
  cases h : m run with
  | error halt after => rw [h] at hfirst; exact hfirst
  | ok a mid =>
    rw [h] at hfirst
    have hnext := hf a mid
    dsimp only
    cases h' : f a mid with
    | ok b after => rw [h'] at hnext; exact Relation.ReflTransGen.trans hfirst hnext
    | error halt after =>
      rw [h'] at hnext
      exact ⟨Relation.ReflTransGen.trans hfirst hnext.1, hnext.2⟩

theorem onlyLooks_sense (word : Sensor) (rank : Int32) :
    OnlyLooks robot (sense robot word rank) := by
  have hrank : OnlyLooks robot (usedRank word rank) := by
    unfold usedRank
    split
    · exact OnlyLooks.bind (fun run => .single (.warn run word rank)) fun _ => onlyLooks_pure 0
    · exact onlyLooks_pure rank
  exact hrank.bind fun used run => .single (.ask run (word.query used))

theorem onlyLooks_congruence (robot : Robot ρ) :
    ValueCongruence (fun _ m _ => OnlyLooks robot m) robot robot where
  pure := onlyLooks_pure
  bind := OnlyLooks.bind
  divisionByZero text := fun _ => ⟨Relation.ReflTransGen.refl, text, rfl⟩
  sense := onlyLooks_sense
  readVar name := fun run => .single (.read run name)

/-- The result is reached by a course: the run goes on with nothing owed, or halts. -/
def Arrives (P : Statement → Prop) (robot : Robot ρ) (limits : Limits) (run : Run ρ) :
    EStateM.Result Halt (Run ρ) α → Prop
  | .ok _ after => Course P robot limits run after ∧ Owes after.trace.reverse []
  | .error halt after => ∃ last, Course P robot limits run last ∧ last.Halts halt after

/-- **The computation takes a course**, if nothing is owed before. -/
def Proceeds (P : Statement → Prop) (robot : Robot ρ) (limits : Limits) (m : Eval ρ α) : Prop :=
  ∀ run, Owes run.trace.reverse [] → Arrives P robot limits run (m run)

theorem Arrives.trans {run mid : Run ρ} {result : EStateM.Result Halt (Run ρ) α}
    (h : Course P robot limits run mid) (h' : Arrives P robot limits mid result) :
    Arrives P robot limits run result := by
  cases result with
  | ok a after => exact ⟨h.trans h'.1, h'.2⟩
  | error halt after =>
    obtain ⟨last, hlast, hhalts⟩ := h'
    exact ⟨last, h.trans hlast, hhalts⟩

theorem Arrives.bind {start run : Run ρ} {m : Eval ρ α} {f : α → Eval ρ β}
    (h : Arrives P robot limits start (m run))
    (hf : ∀ a mid, m run = .ok a mid → Owes mid.trace.reverse [] →
      Arrives P robot limits mid (f a mid)) :
    Arrives P robot limits start ((m >>= f) run) := by
  rw [bind_apply]
  cases hm : m run with
  | error halt after => rw [hm] at h; exact h
  | ok a mid =>
    rw [hm] at h
    exact .trans h.1 (hf a mid hm h.2)

theorem proceeds_pure (a : α) : Proceeds P robot limits (pure a : Eval ρ α) :=
  fun run settled => ⟨.refl run, settled⟩

theorem Proceeds.bind {m : Eval ρ α} {f : α → Eval ρ β} (hm : Proceeds P robot limits m)
    (hf : ∀ a, Proceeds P robot limits (f a)) : Proceeds P robot limits (m >>= f) :=
  fun run settled => (hm run settled).bind fun a mid _ hmid => hf a mid hmid

theorem OnlyLooks.proceeds {m : Eval ρ α} (h : OnlyLooks robot m) : Proceeds P robot limits m := by
  intro run settled
  have hrun := h run
  cases hm : m run with
  | ok a after => rw [hm] at hrun; exact hrun.course settled
  | error halt after =>
    rw [hm] at hrun
    obtain ⟨hlooks, text, rfl⟩ := hrun
    obtain ⟨hcourse, hsettled⟩ : Course P robot limits run after ∧ _ := hlooks.course settled
    exact ⟨after, hcourse, .divisionByZero text hsettled⟩

theorem Proceeds.whileHolds {test : Eval ρ Bool} {body : Eval ρ Unit}
    (htest : Proceeds P robot limits test) (hbody : Proceeds P robot limits body) :
    ∀ rounds, Proceeds P robot limits (Eval.whileHolds test body rounds) := by
  intro rounds
  induction rounds with
  | zero => exact fun run settled => ⟨run, .refl run, .unfinished settled⟩
  | succ rounds ih =>
    refine htest.bind fun holds => ?_
    cases holds with
    | true => exact hbody.bind fun _ => ih
    | false => exact proceeds_pure ()

theorem owes_counting {run : Run ρ} (h : Owes run.trace.reverse []) :
    Owes run.counting.trace.reverse [] := by
  rw [Run.counting_trace]
  exact h.append rfl rfl

theorem under_counting (run : Run ρ) : Under run.counting.trace.reverse :=
  ⟨run.trace.reverse, [], run.counting_trace, rfl⟩

/-- What comes after a checkpoint finds the signal lowered and the statement counted. -/
theorem Arrives.counted {run : Run ρ} {f : Unit → Eval ρ α} (settled : Owes run.trace.reverse [])
    (h : run.scene.raised = false → Arrives P robot limits run.counting (f () run.counting)) :
    Arrives P robot limits run ((checkpoint limits >>= f) run) := by
  rcases checkpoint_cases limits run with ⟨hraised, hrun⟩ | ⟨halt, hlowered, hrefused, hrun⟩ |
    ⟨hlowered, hallowed, hrun⟩
  · rw [bind_eq_of_error hrun]
    exact ⟨run, .refl run, .interrupted hraised⟩
  · rw [bind_eq_of_error hrun]
    exact ⟨run, .refl run, .refused hrefused settled hlowered⟩
  · rw [bind_eq_of_ok hrun]
    exact .trans (Act.pass run settled hlowered hallowed).course (h hlowered)

theorem proceeds_checkpoint : Proceeds P robot limits (checkpoint limits : Eval ρ Unit) := by
  intro run settled
  have h : Arrives P robot limits run ((checkpoint limits >>= pure) run) :=
    Arrives.counted settled fun _ => ⟨.refl _, owes_counting settled⟩
  rwa [bind_pure] at h

/-- A deed that is owed is done. -/
theorem owes_performed {run : Run ρ} {deed : Deed} {rest : List Deed} (raised : Bool)
    (h : Owes run.trace.reverse (deed :: rest)) :
    Owes (Mark.call (.deed deed) raised :: run.trace).reverse rest := by
  unfold Owes at h ⊢
  rw [List.reverse_cons, announced_append, deeds_append]
  show expand (announced run.trace.reverse ++ []) = deeds run.trace.reverse ++ [deed] ++ rest
  rw [List.append_nil, List.append_assoc]
  exact h

theorem owes_announced {run : Run ρ} (action : Action) (repeats : Int32)
    (h : Owes run.trace.reverse []) :
    Owes (run.noting [.acting action repeats]).trace.reverse (action.deeds repeats) := by
  unfold Owes at h ⊢
  rw [Run.noting_trace, announced_append, expand_append, h, deeds_append]
  show _ ++ [] ++ expand [(action, repeats)] = _ ++ [] ++ _
  simp [expand]

/-- Before each repetition the signal is looked at. -/
theorem arrives_times (deed : Deed) : ∀ (n : Nat) (run : Run ρ),
    Owes run.trace.reverse (List.replicate n deed) →
      Arrives P robot limits run (times (do checkStop; perform robot deed) n run) := by
  intro n
  induction n with
  | zero => exact fun run owed => ⟨.refl run, owed⟩
  | succ n ih =>
    -- a raised signal leaves the deeds from here on owed
    intro run owed
    show Arrives P robot limits run (((checkStop >>= fun _ => perform robot deed) >>= fun _ =>
      times _ n) run)
    cases hraised : run.scene.raised with
    | true =>
      rw [bind_eq_of_error (bind_eq_of_error (checkStop_raised hraised))]
      exact ⟨run, .refl run, .interrupted hraised⟩
    | false =>
      have hperform : (checkStop >>= fun _ => perform robot deed) run = perform robot deed run :=
        bind_eq_of_ok (checkStop_lowered hraised)
      rw [bind_apply, hperform]
      refine .trans (Act.perform run deed _ owed (.inl hraised)).course (ih _ ?_)
      exact owes_performed _ owed

theorem arrives_act {run : Run ρ} (word : Action) (repeats : Int32)
    (settled : Owes run.trace.reverse [])
    (hlowered : word.takesCount = true ∨ run.scene.raised = false ∨ ∃ s, P s ∧ ¬ s.CountsRepeat) :
    Arrives P robot limits run (act robot word repeats run) := by
  have owed := owes_announced word repeats settled
  refine .trans (Act.announce run word repeats settled).course ?_
  show Arrives P robot limits (run.noting [.acting word repeats])
    ((if word.takesCount = true then _ else _ : Eval ρ Unit) (run.noting [.acting word repeats]))
  unfold Action.deeds at owed
  by_cases hcount : word.takesCount = true
  · rw [if_pos hcount] at owed
    rw [if_pos hcount]
    exact arrives_times word.deed _ _ owed
  · rw [if_neg hcount] at owed
    rw [if_neg hcount]
    have hlowered := hlowered.resolve_left hcount
    exact ⟨(Act.perform _ word.deed [] owed hlowered).course, owes_performed _ owed⟩

theorem proceeds_action (word : Action) (count : Option Expr) (hP : P (.action word count)) :
    Proceeds P robot limits ((Statement.action word count).exec robot limits rounds) := by
  intro run settled
  rw [Statement.exec_eq]
  refine Arrives.counted settled fun hlowered => ?_
  have hlooks := (onlyLooks_congruence robot).repeats count
  refine (hlooks.proceeds run.counting (owes_counting settled)).bind fun n mid hmid hsettled => ?_
  refine arrives_act word n hsettled ?_
  cases count with
  | none =>
    -- nothing was asked since the checkpoint
    have hmid : run.counting = mid := by cases hmid; rfl
    exact .inr (.inl (hmid ▸ hlowered))
  | some e =>
    by_cases hcount : word.takesCount = true
    · exact .inl hcount
    · exact .inr (.inr ⟨.action word (some e), hP, hcount⟩)

theorem proceeds_assign (name : String) (value : Expr) :
    Proceeds P robot limits ((Statement.assign name value).exec robot limits rounds) := by
  intro run settled
  rw [Statement.exec_eq]
  refine Arrives.counted settled fun _ => ?_
  have hlooks := (onlyLooks_congruence robot).expr value
  refine (hlooks.proceeds run.counting (owes_counting settled)).bind fun v mid hmid hsettled => ?_
  -- looking does not assign, so the statement is still under way
  have hpath := hlooks run.counting
  rw [hmid] at hpath
  have hunder : Under mid.trace.reverse := hpath.under (under_counting run)
  refine ⟨(Act.assign mid name v hsettled hunder).course, ?_⟩
  show Owes (Mark.event (.assigned name v) :: mid.trace).reverse []
  rw [List.reverse_cons]
  exact hsettled.append rfl rfl

theorem proceeds_flow (P : Statement → Prop) (robot : Robot ρ) (limits : Limits) (rounds : Nat) :
    FlowCongruence (fun _ => True) (fun _ m _ => Proceeds P robot limits m) robot robot limits
      limits rounds rounds where
  pure := proceeds_pure
  bind := Proceeds.bind
  condition {c} _ := ((onlyLooks_congruence robot).condition c).proceeds
  checkpoint := proceeds_checkpoint

/-- **Carrying out a statement takes a course.** -/
theorem proceeds_exec {s : Statement} (hs : s.Each P) :
    Proceeds P robot limits (s.exec robot limits rounds) := by
  refine (proceeds_flow P robot limits rounds).exec_of (fun _ _ _ _ => trivial) ?_
    (fun htest hbody => htest.whileHolds hbody rounds) hs
  intro t ht hnone
  cases t with
  | action word count => exact proceeds_action word count ht
  | assign name value => exact proceeds_assign name value
  | loop | whileLoop | branch => cases hnone

theorem proceeds_execAll {body : Block} (hbody : ∀ s ∈ body, s.Each P) :
    Proceeds P robot limits (Statement.execAll robot limits rounds body) :=
  (proceeds_flow P robot limits rounds).execAll_of fun s hs => proceeds_exec (hbody s hs)

end Eval

/-- **How a program ends** after the last act of its course. -/
inductive Run.Closes {ρ : Type} (last : Run ρ) : EStateM.Result Halt (Run ρ) Unit → Prop
  | finished (settled : Trace.Owes last.trace.reverse []) :
      Closes last (.ok () (last.noting [.finished last.steps]))
  | aborted {e : Error} {halted : Run ρ} (halts : last.Halts (.error e) halted) :
      Closes last (.error (.error e) (halted.noting [.aborted halted.steps e]))
  | overflow (settled : Trace.Owes last.trace.reverse []) (lowered : last.scene.raised = false) :
      Closes last (.error .overflow last)
  | unfinished (settled : Trace.Owes last.trace.reverse []) : Closes last (.error .unfinished last)

/-- **Carrying out a program** takes a course and closes it with a report. -/
theorem Program.exec_closes {ρ : Type} {P : Statement → Prop} {p : Program} (robot : Robot ρ)
    (limits : Limits) (rounds : Nat) (hp : ∀ s ∈ p.statements, s.Each P) {run : Run ρ}
    (hrun : run.trace = []) :
    ∃ last, Run.Course P robot limits (run.noting [.executing p.statements.length]) last ∧
      last.Closes (p.exec robot limits rounds run) := by
  let begun : Run ρ := run.noting [.executing p.statements.length]
  have hbegun : Trace.Owes begun.trace.reverse [] := by
    show Trace.Owes (Mark.event _ :: run.trace).reverse []
    rw [hrun]; rfl
  have hbody : Eval.Arrives P robot limits begun
      (Statement.execAll robot limits rounds p.statements begun) :=
    Eval.proceeds_execAll hp begun hbegun
  show ∃ last, Run.Course P robot limits begun last ∧ last.Closes (Eval.closing _ begun)
  unfold Eval.closing
  cases hend : Statement.execAll robot limits rounds p.statements begun with
  | ok a after =>
    rw [hend] at hbody
    exact ⟨after, hbody.1, .finished hbody.2⟩
  | error halt after =>
    rw [hend] at hbody
    obtain ⟨last, hcourse, hhalts⟩ := hbody
    refine ⟨last, hcourse, ?_⟩
    cases halt with
    | error e => exact .aborted hhalts
    | overflow =>
      cases hhalts with
      | refused refuses settled lowered => exact .overflow settled lowered
    | unfinished =>
      cases hhalts with
      | refused refuses settled lowered => cases refuses
      | unfinished settled => exact .unfinished settled

end RobotScript
