import RobotScript.Proofs.Path

/-!
# Runs that are cut off

A second run keeps to a first one until it is cut off.

* `Cutoff`: which states of the two runs are alike, and where the second may be cut off.
* `Eval.Tracks`: the second computation ends like the first, or it is cut off in a state from
  which the first goes on.
* `Tracks.bind`, `Tracks.whileHolds`, `Tracks.closing`: such computations can be put together.
* `Cutoff.lockstep`, `Tracks.pairs`: a second run that is never cut off ends like the first.
  `tracks_checkpoint_alike` is what checkpoints need for that.
-/

namespace RobotScript

open Run

variable {ρ ρ' : Type}

/-- The run with reports added to its trace, the latest first. -/
def Run.noting (run : Run ρ) (events : List Event) : Run ρ :=
  { run with trace := events.map Mark.event ++ run.trace }

/-- The run with one more statement counted. -/
def Run.counting (run : Run ρ) : Run ρ :=
  { run with steps := run.steps + 1, trace := .passed :: run.trace }

/-- **How a second run keeps to a first one.** States are alike while it does; it is cut off by
`halt`, in a state that stands where the first one goes on from the state given, or where the first
one overflows if none is given. -/
structure Cutoff (ρ ρ' : Type) where
  Like : Run ρ → Run ρ' → Prop
  halt : Halt
  Stops : Option (Run ρ) → Run ρ' → Prop
  steps_eq {run : Run ρ} {run' : Run ρ'} : Like run run' → run'.steps = run.steps
  reported {run : Run ρ} {run' : Run ρ'} (event : Event) :
    Like run run' → Like (run.noting [event]) (run'.noting [event])

theorem Cutoff.observed (cut : Cutoff ρ ρ') {run : Run ρ} {run' : Run ρ'} (like : cut.Like run run') :
    cut.Like (run.noting [.stopObserved run.steps]) (run'.noting [.stopObserved run'.steps]) := by
  rw [cut.steps_eq like]
  exact cut.reported _ like

/-- The runs are the same, and the second may be cut off where `Stops` says. -/
def Cutoff.same (halt : Halt) (Stops : Option (Run ρ) → Run ρ → Prop) : Cutoff ρ ρ where
  Like run run' := run = run'
  halt := halt
  Stops := Stops
  steps_eq h := by rw [h]
  reported _ h := by rw [h]

/-- The runs stay alike, and the second is never cut off. -/
def Cutoff.lockstep (Like : Run ρ → Run ρ' → Prop)
    (steps_eq : ∀ {run run'}, Like run run' → run'.steps = run.steps)
    (reported : ∀ {run run'} (event : Event), Like run run' →
      Like (run.noting [event]) (run'.noting [event])) : Cutoff ρ ρ' where
  Like := Like
  halt := .unfinished
  Stops _ _ := False
  steps_eq := steps_eq
  reported := reported

namespace Eval

variable {α β : Type} {robot : Robot ρ} {robot' : Robot ρ'} {limits limits' : Limits}
  {rounds rounds' : Nat} {cut : Cutoff ρ ρ'}

/-- Two results with the same value or the same halt, in states that are alike. -/
inductive Pairs (Like : Run ρ → Run ρ' → Prop) :
    EStateM.Result Halt (Run ρ) α → EStateM.Result Halt (Run ρ') α → Prop
  | ok {a : α} {run : Run ρ} {run' : Run ρ'} (like : Like run run') :
      Pairs Like (.ok a run) (.ok a run')
  | error {halt : Halt} {run : Run ρ} {run' : Run ρ'} (like : Like run run') :
      Pairs Like (.error halt run) (.error halt run')

theorem Pairs.eq {result result' : EStateM.Result Halt (Run ρ) α}
    (h : Pairs (fun run run' => run = run') result result') : result' = result := by
  cases h with
  | ok like => rw [like]
  | error like => rw [like]

/-- The result is reached from the state given, or is an overflow if none is given. -/
def GoesOn (robot : Robot ρ) (limits : Limits) :
    Option (Run ρ) → EStateM.Result Halt (Run ρ) α → Prop
  | some mid, result => Lands robot limits mid result
  | none, result => ∃ last, result = .error .overflow last

theorem GoesOn.bind {mid : Option (Run ρ)} {m : Eval ρ α} {f : α → Eval ρ β} {run : Run ρ}
    (h : GoesOn robot limits mid (m run)) (hf : ∀ a, Walks robot limits (f a)) :
    GoesOn robot limits mid ((m >>= f) run) := by
  cases mid with
  | some mid =>
    have hlands : Lands robot limits mid (m run) := h
    exact hlands.bind hf
  | none =>
    obtain ⟨last, hlast⟩ := h
    exact ⟨last, bind_eq_of_error hlast⟩

theorem GoesOn.closing {mid : Option (Run ρ)} {body : Eval ρ Unit} {run : Run ρ}
    (h : GoesOn robot limits mid (body run)) :
    GoesOn robot limits mid (Eval.closing body run) := by
  cases mid with
  | some mid =>
    have hlands : Lands robot limits mid (body run) := h
    exact hlands.closing
  | none =>
    obtain ⟨last, hlast⟩ := h
    refine ⟨last, ?_⟩
    unfold Eval.closing
    rw [hlast]

/-- The second result is a cut, and the first one goes on from where it stops. Only a halt with
an error is reported. -/
def IsCut (cut : Cutoff ρ ρ') (robot : Robot ρ) (limits : Limits)
    (result : EStateM.Result Halt (Run ρ) α) (result' : EStateM.Result Halt (Run ρ') α) : Prop :=
  ∃ mid last events, cut.Stops mid last ∧ result' = .error cut.halt (last.noting events) ∧
    (cut.halt = .unfinished → events = []) ∧ GoesOn robot limits mid result

/-- **The second computation keeps to the first one until it is cut off.** -/
def Tracks (cut : Cutoff ρ ρ') (robot : Robot ρ) (limits : Limits) (m : Eval ρ α)
    (m' : Eval ρ' α) : Prop :=
  Walks robot limits m ∧ ∀ run run', cut.Like run run' →
    Pairs cut.Like (m run) (m' run') ∨ IsCut cut robot limits (m run) (m' run')

theorem tracks_pure (a : α) : Tracks cut robot limits (pure a : Eval ρ α) (pure a) :=
  ⟨walks_pure a, fun _ _ like => .inl (.ok like)⟩

theorem tracks_fail (text : String) : Tracks cut robot limits
    (fail (.divisionByZero text) : Eval ρ α) (fail (.divisionByZero text)) :=
  ⟨walks_throw fun _ => .divisionByZero text, fun _ _ like => .inl (.error like)⟩

theorem tracks_report (event : Event) :
    Tracks cut robot limits (report event : Eval ρ Unit) (report event) :=
  ⟨walks_report event, fun _ _ like => .inl (.ok (cut.reported event like))⟩

theorem Tracks.bind {m : Eval ρ α} {m' : Eval ρ' α} {f : α → Eval ρ β} {f' : α → Eval ρ' β}
    (hm : Tracks cut robot limits m m') (hf : ∀ a, Tracks cut robot limits (f a) (f' a)) :
    Tracks cut robot limits (m >>= f) (m' >>= f') := by
  have hwalks := fun a => (hf a).1
  refine ⟨hm.1.bind hwalks, fun run run' like => ?_⟩
  rcases hm.2 run run' like with hpair | ⟨mid, last, events, hstops, hcut, hsilent, hgoes⟩
  · rw [bind_apply, bind_apply]
    generalize m run = result, m' run' = result' at hpair
    cases hpair with
    | ok like => exact (hf _).2 _ _ like
    | error like => exact .inl (.error like)
  · -- what is left of the first computation only takes it further
    exact .inr ⟨mid, last, events, hstops, bind_eq_of_error hcut, hsilent, hgoes.bind hwalks⟩

theorem Tracks.whileHolds {test : Eval ρ Bool} {test' : Eval ρ' Bool} {body : Eval ρ Unit}
    {body' : Eval ρ' Unit} (htest : Tracks cut robot limits test test')
    (hbody : Tracks cut robot limits body body') : ∀ rounds,
      Tracks cut robot limits (whileHolds test body rounds) (whileHolds test' body' rounds) := by
  intro rounds
  induction rounds with
  | zero => exact ⟨walks_throw fun _ => .unfinished, fun _ _ like => .inl (.error like)⟩
  | succ rounds ih =>
    refine htest.bind fun holds => ?_
    cases holds with
    | true => exact hbody.bind fun _ => ih
    | false => exact tracks_pure ()

theorem Tracks.closing {body : Eval ρ Unit} {body' : Eval ρ' Unit}
    (hbody : Tracks cut robot limits body body') :
    Tracks cut robot limits (closing body) (closing body') := by
  refine ⟨hbody.1.closing, fun run run' like => ?_⟩
  rcases hbody.2 run run' like with hpair | ⟨mid, last, events, hstops, hcut, hsilent, hgoes⟩
  · left
    unfold Eval.closing
    generalize body run = result, body' run' = result' at hpair
    cases hpair with
    | ok like => dsimp only; rw [cut.steps_eq like]; exact .ok (cut.reported _ like)
    | @error halt _ _ like =>
      cases halt with
      | overflow | unfinished => exact .error like
      | error e => dsimp only; rw [cut.steps_eq like]; exact .error (cut.reported _ like)
  · right
    have hclosed := hgoes.closing
    cases hhalt : cut.halt with
    | overflow | unfinished =>
      refine ⟨mid, last, events, hstops, ?_, hsilent, hclosed⟩
      unfold Eval.closing
      rw [hcut, hhalt]
    | error e =>
      refine ⟨mid, last, .aborted last.steps e :: events, hstops, ?_, ?_, hclosed⟩
      · unfold Eval.closing
        rw [hcut, hhalt]; rfl
      · rw [hhalt]; exact nofun

/-- A computation keeps to itself. -/
theorem tracks_self {m : Eval ρ α} {halt : Halt} {Stops : Option (Run ρ) → Run ρ → Prop}
    (hm : Walks robot limits m) : Tracks (.same halt Stops) robot limits m m := by
  refine ⟨hm, fun run run' like => .inl ?_⟩
  cases like
  cases m run with
  | ok a after => exact .ok rfl
  | error halt after => exact .error rfl

section

variable (hraised : ∀ {run run'}, cut.Like run run' → run'.scene.raised = run.scene.raised)

include hraised

/-- If the signal is the same for runs that are alike, both look at it with the same outcome. -/
theorem tracks_checkStop_alike :
    Tracks cut robot limits (checkStop : Eval ρ Unit) (checkStop : Eval ρ' Unit) := by
  refine ⟨walks_checkStop, fun run run' like => .inl ?_⟩
  have hsame := hraised like
  cases hrun : run.scene.raised with
  | true =>
    rw [checkStop_raised hrun, checkStop_raised (hsame.trans hrun)]
    exact .error (cut.observed like)
  | false =>
    rw [checkStop_lowered hrun, checkStop_lowered (hsame.trans hrun)]
    exact .ok like

theorem tracks_checkpoint_alike
    (hcounted : ∀ {run run'}, cut.Like run run' → cut.Like run.counting run'.counting) :
    Tracks cut robot limits (checkpoint limits : Eval ρ Unit) (checkpoint limits : Eval ρ' Unit) := by
  refine ⟨walks_checkpoint, fun run run' like => .inl ?_⟩
  have hsame := hraised like
  have hsteps := cut.steps_eq like
  rcases checkpoint_cases limits run with ⟨hrun, heq⟩ | ⟨halt, hrun, hrefused, heq⟩ |
    ⟨hrun, hallowed, heq⟩
  · rw [heq, checkpoint_raised (hsame.trans hrun)]
    exact .error (cut.observed like)
  · rw [← hsteps] at hrefused
    rw [heq, checkpoint_refused (hsame.trans hrun) hrefused]
    exact .error like
  · rw [← hsteps] at hallowed
    rw [heq, checkpoint_allowed (hsame.trans hrun) hallowed]
    exact .ok (hcounted like)

end

/-- **A run that is never cut off ends like the first one.** -/
theorem Tracks.pairs {m : Eval ρ α} {m' : Eval ρ' α} (hm : Tracks cut robot limits m m')
    (hnever : ∀ mid last, ¬ cut.Stops mid last) {run : Run ρ} {run' : Run ρ'}
    (like : cut.Like run run') : Pairs cut.Like (m run) (m' run') := by
  rcases hm.2 run run' like with hpair | ⟨mid, last, _, hstops, _⟩
  · exact hpair
  · exact absurd hstops (hnever mid last)

end Eval

end RobotScript
