import RobotScript.Robot.Scripted
import RobotScript.Proofs.Store
import RobotScript.Proofs.Task

/-!
# What a run sees of its store

Reading a name that a store does not have adds the name, so the stores of two runs that read
the same names can have different names. Runs see nothing of that.

* `Store.Agrees`: two stores give every name the same value, zero where there is none.
* `agreement_congruence`: runs that differ in nothing but stores that agree stay so.
* `run_sees_only_values`: with stores that agree, a call does the same.
-/

namespace RobotScript

variable {ρ : Type}

/-- **The stores give every name the same value**, zero where there is none. -/
def Store.Agrees (store store' : Store) : Prop := ∀ name, store.value name = store'.value name

namespace Store.Agrees

variable {store store' : Store}

theorem symm (h : store.Agrees store') : store'.Agrees store := fun name => (h name).symm

/-- Stores that agree read the same. -/
theorem read_eq (h : store.Agrees store') (name : String) :
    (store.read name).1 = (store'.read name).1 := by
  rw [read_value, read_value]
  exact h name

/-- Either store may get the name that is read, or have it already. -/
theorem read (h : store.Agrees store') (name : String) :
    (store.read name).2.Agrees (store'.read name).2 := by
  intro other
  rw [value_read, value_read]
  exact h other

theorem set (h : store.Agrees store') (name : String) (value : Int32) :
    (store.set name value).Agrees (store'.set name value) := by
  intro other
  rw [value_set, value_set, h other]

end Store.Agrees

/-- The run with another store. -/
def Run.withStore (run : Run ρ) (store : Store) : Run ρ := { run with store }

/-- The second run is the first one with a store that agrees. -/
def Run.Agrees (run run' : Run ρ) : Prop :=
  ∃ store, run.store.Agrees store ∧ run' = run.withStore store

namespace Eval

variable {robot : Robot ρ} {limits : Limits}

/-- Runs that agree go on side by side. -/
def agreeing : Cutoff ρ ρ :=
  .lockstep Run.Agrees (by rintro run _ ⟨store, -, rfl⟩; rfl)
    (by rintro run _ event ⟨store, h, rfl⟩; exact ⟨store, h, rfl⟩)

theorem agreeing_raised {run run' : Run ρ} (h : agreeing.Like run run') :
    run'.scene.raised = run.scene.raised := by
  obtain ⟨store, -, rfl⟩ := h
  rfl

theorem agreeing_readVar (name : String) :
    Tracks agreeing robot limits (readVar name : Eval ρ Int32) (readVar name) := by
  refine ⟨(walks_congruence robot limits 0).readVar name, fun run _ like => .inl ?_⟩
  obtain ⟨store, h, rfl⟩ := like
  show Pairs _ (.ok (run.store.read name).1 _) (.ok (store.read name).1 _)
  rw [h.read_eq name]
  exact .ok ⟨(store.read name).2, h.read name, rfl⟩

/-- **Runs that agree stay so.** -/
theorem agreement_congruence (robot : Robot ρ) (limits : Limits) (rounds : Nat) :
    LoopCongruence (fun _ m m' => Tracks agreeing robot limits m m') robot robot limits limits rounds
      rounds := by
  have walks := walks_congruence robot limits rounds
  exact {
    pure := tracks_pure
    bind := Tracks.bind
    divisionByZero := tracks_fail
    report := tracks_report
    perform := fun deed => ⟨walks.perform deed, fun _ _ ⟨store, h, hrun'⟩ => .inl (by
      subst hrun'; exact .ok ⟨store, h, rfl⟩)⟩
    ask := fun query => ⟨walks.ask query, fun _ _ ⟨store, h, hrun'⟩ => .inl (by
      subst hrun'; exact .ok ⟨store, h, rfl⟩)⟩
    readVar := agreeing_readVar
    assign := fun name value => ⟨walks.assign name value, fun _ _ ⟨store, h, hrun'⟩ => .inl (by
      subst hrun'; exact .ok ⟨store.set name value, h.set name value, rfl⟩)⟩
    checkStop := tracks_checkStop_alike agreeing_raised
    checkpoint := tracks_checkpoint_alike agreeing_raised fun ⟨store, h, hrun'⟩ => by
      subst hrun'; exact ⟨store, h, rfl⟩
    whileHolds := fun htest hbody => htest.whileHolds hbody rounds }

end Eval

namespace Stage

variable {robot : Robot ρ} {stage after : Stage ρ} {task : Task} {result : Except Error Unit}
  {trace : Trace} {store store' : Store}

/-- A call that returns does so with every store that agrees, and does the same. -/
theorem Returns.agrees (h : (stage.withStore store).Returns robot task result trace after)
    (hagree : store.Agrees store') : ∃ last, after.evaluator.store.Agrees last ∧
      (stage.withStore store').Returns robot task result trace (after.withStore last) := by
  have hpairs : ∀ rounds, Eval.Pairs Run.Agrees
      (task.exec robot (stage.withStore store).evaluator.limits rounds (stage.withStore store).toRun)
      (task.exec robot (stage.withStore store').evaluator.limits rounds
        (stage.withStore store').toRun) := by
    intro rounds
    have htracks := task.tracks (Eval.agreement_congruence robot stage.evaluator.limits rounds)
    exact htracks.pairs (fun _ _ => id) ⟨store', hagree, rfl⟩
  obtain ⟨run, _, ⟨last, hlast, rfl⟩, rfl, rfl, hreturns⟩ := h.alike hpairs
  exact ⟨last, hlast, hreturns⟩

end Stage

/-- **A run sees the values of names and nothing else of its store.** If two stores agree, a call
returns with neither of them, or it does so with both: with the same result, after the same trace,
and on stages that differ in nothing but stores that agree again. -/
theorem run_sees_only_values (robot : Robot ρ) (stage : Stage ρ) (task : Task)
    {store store' : Store} (hagree : store.Agrees store') :
    ((∀ result trace after, ¬ (stage.withStore store).Returns robot task result trace after) ∧
      ∀ result trace after, ¬ (stage.withStore store').Returns robot task result trace after) ∨
    ∃ (result : Except Error Unit) (trace : Trace) (after : Stage ρ) (last last' : Store),
      last.Agrees last' ∧
      (stage.withStore store).Returns robot task result trace (after.withStore last) ∧
      (stage.withStore store').Returns robot task result trace (after.withStore last') := by
  by_cases hreturns : ∃ result trace after,
      (stage.withStore store).Returns robot task result trace after
  · right
    obtain ⟨result, trace, after, h⟩ := hreturns
    obtain ⟨last, hlast, h'⟩ := h.agrees hagree
    exact ⟨result, trace, after, after.evaluator.store, last, hlast, h, h'⟩
  · left
    refine ⟨fun result trace after h => hreturns ⟨result, trace, after, h⟩, ?_⟩
    intro result trace after h'
    obtain ⟨last, -, h⟩ := h'.agrees hagree.symm
    exact hreturns ⟨_, _, _, h⟩

/-- A variable that was never set, and one that was set to zero. -/
theorem unset_variable_runs_as_zero :
    let task : Task := .program ⟨[.assign "$a" (.binary .add (.var "$b") (.sensor .fuelLeft)),
      .action .move (some (.var "$a"))]⟩
    let stage : Stage Scripted := Stage.fresh {} { fuel := 2 }
    let zero := Store.empty.set "$b" 0
    Store.empty.get? "$b" ≠ zero.get? "$b" ∧ Store.empty.Agrees zero ∧
      ∃ (result : Except Error Unit) (trace : Trace) (after : Stage Scripted) (last last' : Store),
        last.Agrees last' ∧
        (stage.withStore Store.empty).Returns Scripted.robot task result trace
          (after.withStore last) ∧
        (stage.withStore zero).Returns Scripted.robot task result trace (after.withStore last') := by
  intro task stage zero
  have hagree : Store.empty.Agrees zero := by
    intro name
    rw [Store.value_set]
    by_cases h : name = "$b"
    · rw [if_pos h, h]; rfl
    · rw [if_neg h]
  obtain ⟨trace, after, hreturns⟩ : ∃ trace after,
      (stage.withStore Store.empty).Returns Scripted.robot task (.ok ()) trace after := by
    have hend : task.exec Scripted.robot ⟨none⟩ 0 (stage.withStore Store.empty).toRun = _ := rfl
    exact ⟨_, _, Stage.returns_of_run hend rfl rfl rfl⟩
  refine ⟨by decide, hagree, ?_⟩
  rcases run_sees_only_values Scripted.robot stage task hagree with ⟨hnever, -⟩ | hsame
  · exact absurd hreturns (hnever _ _ _)
  · exact hsame

end RobotScript
