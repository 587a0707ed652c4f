import RobotScript.Robot.Scripted
import RobotScript.Proofs.Store
import RobotScript.Proofs.Task

/-!
# Which names a run touches

Reading a name can add it to the store, so a run leaves more behind than its assignments.

* `Store.Frame`: from one store to another no name is lost, only names with a property are added,
  and only names that may be assigned to get another value.
* `Eval.Frames`: a computation does no more than that, however it ends.
* `frames_congruence`: so it is for every tree in which these names occur.
* `program_touches_only_its_names`: what the store of a program that returned has to do with the
  store before.
-/

namespace RobotScript

/-- **What may become of a store** if names among `R` are read and names among `A` are assigned
to. -/
structure Store.Frame (R A : String → Prop) (before after : Store) : Prop where
  kept {name : String} (present : before.contains name = true) : after.contains name = true
  added {name : String} (present : after.contains name = true) :
    before.contains name = true ∨ R name ∨ A name
  unassigned {name : String} (never : ¬ A name) : after.value name = before.value name

namespace Store.Frame

variable {R A : String → Prop} {before mid after : Store} {name : String}

theorem refl (store : Store) : store.Frame R A store := ⟨id, .inl, fun _ => rfl⟩

theorem trans (h : before.Frame R A mid) (h' : mid.Frame R A after) : before.Frame R A after where
  kept present := h'.kept (h.kept present)
  added present := (h'.added present).elim h.added .inr
  unassigned never := (h'.unassigned never).trans (h.unassigned never)

theorem read (h : R name) (store : Store) : store.Frame R A (store.read name).2 where
  kept {other} present := (store.contains_read name other).2 (.inr present)
  added {other} present := by
    rcases (store.contains_read name other).1 present with rfl | hold
    · exact .inr (.inl h)
    · exact .inl hold
  unassigned {other} _ := store.value_read name other

theorem set (h : A name) (store : Store) (value : Int32) : store.Frame R A (store.set name value) where
  kept {other} present := (store.contains_set name other value).2 (.inr present)
  added {other} present := by
    rcases (store.contains_set name other value).1 present with rfl | hold
    · exact .inr (.inr h)
    · exact .inl hold
  unassigned {other} never := by
    have hne : other ≠ name := fun heq => never (heq ▸ h)
    rw [store.value_set, if_neg hne]

/-- A name that is added without being assigned to is added with the value zero. -/
theorem zero (h : before.Frame R A after) (never : ¬ A name) (absent : before.contains name = false)
    (present : after.contains name = true) : after.get? name = some 0 := by
  rw [Store.get?_of_contains present, h.unassigned never, Store.value_of_not_contains absent]

end Store.Frame

namespace Eval

variable {ρ α β : Type} {R A : String → Prop} {robot : Robot ρ} {limits : Limits} {rounds : Nat}

/-- **The computation keeps to the names it may read and assign to**, however it ends. -/
def Frames (R A : String → Prop) (m : Eval ρ α) : Prop :=
  ∀ run, match m run with
    | .ok _ after => run.store.Frame R A after.store
    | .error _ after => run.store.Frame R A after.store

theorem frames_pure (a : α) : Frames R A (pure a : Eval ρ α) := fun run => .refl run.store

theorem Frames.bind {m : Eval ρ α} {f : α → Eval ρ β} (hm : Frames R A m)
    (hf : ∀ a, Frames R A (f a)) : Frames R A (m >>= f) := by
  intro run
  have hfirst := hm run
  rw [bind_apply]
  cases h : m run with
  | error halt after => rw [h] at hfirst; exact hfirst
  | ok a mid =>
    rw [h] at hfirst
    have hnext := hf a mid
    dsimp only
    cases h' : f a mid with
    | ok b after => rw [h'] at hnext; exact hfirst.trans hnext
    | error halt after => rw [h'] at hnext; exact hfirst.trans hnext

theorem frames_checkStop : Frames R A (checkStop : Eval ρ Unit) := by
  intro run
  cases hraised : run.scene.raised with
  | true => rw [checkStop_raised hraised]; exact .refl run.store
  | false => rw [checkStop_lowered hraised]; exact .refl run.store

theorem frames_checkpoint : Frames R A (checkpoint limits : Eval ρ Unit) := by
  intro run
  rcases checkpoint_cases limits run with ⟨-, hrun⟩ | ⟨_, -, -, hrun⟩ | ⟨-, -, hrun⟩
  · rw [hrun]; exact .refl run.store
  · rw [hrun]; exact .refl run.store
  · rw [hrun]; exact .refl run.store

theorem Frames.whileHolds {test : Eval ρ Bool} {body : Eval ρ Unit} (htest : Frames R A test)
    (hbody : Frames R A body) : Frames R A (Eval.whileHolds test body rounds) := by
  induction rounds with
  | zero => exact fun run => .refl run.store
  | succ rounds ih =>
    refine htest.bind fun holds => ?_
    cases holds with
    | true => exact hbody.bind fun _ => ih
    | false => exact frames_pure ()

theorem Frames.closing {body : Eval ρ Unit} (hbody : Frames R A body) :
    Frames R A (closing body) := by
  intro run
  have hframe := hbody run
  unfold Eval.closing
  cases h : body run with
  | ok a after => rw [h] at hframe; exact hframe
  | error halt after =>
    rw [h] at hframe
    cases halt with
    | error e => exact hframe
    | overflow | unfinished => exact hframe

/-- **Evaluation keeps to the names of the tree.** Only variables and assignments have to do with the
store. -/
theorem frames_congruence (R A : String → Prop) (robot : Robot ρ) (limits : Limits) (rounds : Nat) :
    PartCongruence (fun e => ∀ name, e = .var name → R name) A (fun _ m _ => Frames R A m) robot
      robot limits limits rounds rounds where
  pure := frames_pure
  bind := Frames.bind
  report _ := fun run => .refl run.store
  perform _ := fun run => .refl run.store
  ask _ := fun run => .refl run.store
  readVar {name} mem := fun run => .read (mem name rfl) run.store
  assign mem value := fun run => .set mem run.store value
  divisionByZero _ := fun run => .refl run.store
  checkStop := frames_checkStop
  checkpoint := frames_checkpoint
  whileHolds := Frames.whileHolds

theorem frames_program (robot : Robot ρ) (limits : Limits) (rounds : Nat) (p : Program) :
    Frames (fun name => p.Mentions (.var name)) p.Assigns (p.exec robot limits rounds) := by
  have hparts := frames_congruence (fun name => p.Mentions (.var name)) p.Assigns robot limits rounds
  have hall := hparts.execAll (fun s hs e he name hname => ⟨s, hs, hname ▸ he⟩)
    fun s hs name hname => ⟨s, hs, hname⟩
  exact (hparts.report _).bind fun _ => hall.closing

end Eval

/-- **A program touches only its names**, however it ends: no name is lost, a name that is added
occurs in the program, and one that is not assigned to keeps its value, which is zero if the name is
new. -/
theorem program_touches_only_its_names {ρ : Type} {robot : Robot ρ} {p : Program}
    {stage after : Stage ρ} {result : Except Error Unit} {trace : Trace}
    (h : stage.Returns robot (.program p) result trace after) :
    (∀ name, stage.evaluator.store.contains name = true → after.evaluator.store.contains name = true) ∧
    (∀ name, after.evaluator.store.contains name = true →
      stage.evaluator.store.contains name = true ∨ p.Uses name) ∧
    ∀ name, ¬ p.Assigns name →
      after.evaluator.store.value name = stage.evaluator.store.value name ∧
      (stage.evaluator.store.contains name = false → after.evaluator.store.contains name = true →
        after.evaluator.store.get? name = some 0) := by
  obtain ⟨rounds, halted, hend, -, -, rfl⟩ := h.ends
  have hframe := Eval.frames_program robot stage.evaluator.limits rounds p stage.toRun
  have hend : p.exec robot stage.evaluator.limits rounds stage.toRun = halted := hend
  have hstore : stage.evaluator.store.Frame (fun name => p.Mentions (.var name)) p.Assigns
      (Stage.final halted).store := by
    rw [hend] at hframe
    cases halted with
    | ok a run => exact hframe
    | error halt run => exact hframe
  refine ⟨fun name => hstore.kept, fun name => hstore.added, fun name never => ?_⟩
  exact ⟨hstore.unassigned never, hstore.zero never⟩

/-- The program fails in its second statement, after it has read two names that the store did not
have. -/
theorem names_of_failed_program :
    let program : Program := ⟨[.assign "$a" (.binary .add (.var "$b") (.number 1)),
      .action .move (some (.binary .div (.number 1) (.var "$c"))), .assign "$d" (.number 2)]⟩
    let stage : Stage Scripted := (Stage.fresh {} {}).withStore (Store.empty.set "$e" 7)
    ∃ trace after, stage.Returns Scripted.robot (.program program)
        (.error (.divisionByZero "div(1,$c)")) trace after ∧
      after.evaluator.store.snapshot = [("$a", 1), ("$b", 0), ("$c", 0), ("$e", 7)] ∧
      (∀ name, after.evaluator.store.contains name = true →
        stage.evaluator.store.contains name = true ∨ program.Uses name) ∧
      ¬ program.Assigns "$c" ∧ after.evaluator.store.get? "$c" = some 0 ∧
      ¬ program.Assigns "$e" ∧
      after.evaluator.store.value "$e" = stage.evaluator.store.value "$e" := by
  intro program stage
  obtain ⟨trace, after, hreturns, hsnapshot⟩ : ∃ trace after,
      stage.Returns Scripted.robot (.program program)
        (.error (.divisionByZero "div(1,$c)")) trace after ∧
      after.evaluator.store.snapshot = [("$a", 1), ("$b", 0), ("$c", 0), ("$e", 7)] := by
    have hend : Task.exec Scripted.robot ⟨none⟩ 0 (.program program) stage.toRun = _ := rfl
    exact ⟨_, _, Stage.returns_of_run hend rfl rfl rfl, by decide⟩
  have htargets : ∀ name, program.Assigns name → name = "$a" ∨ name = "$d" := by
    rintro name ⟨s, hs, hname⟩
    simp only [program, List.mem_cons, List.not_mem_nil, or_false] at hs
    rcases hs with rfl | rfl | rfl
    · rcases hname with htarget | hmem
      · cases htarget; exact .inl rfl
      · cases hmem
    · rcases hname with htarget | hmem
      · cases htarget
      · cases hmem
    · rcases hname with htarget | hmem
      · cases htarget; exact .inr rfl
      · cases hmem
  have hc : ¬ program.Assigns "$c" := fun h => absurd (htargets _ h) (by decide)
  have he : ¬ program.Assigns "$e" := fun h => absurd (htargets _ h) (by decide)
  have hpresent : after.evaluator.store.contains "$c" = true := by
    show (after.evaluator.store.snapshot.lookup "$c").isSome = true
    rw [hsnapshot]; rfl
  obtain ⟨-, hadded, hunassigned⟩ := program_touches_only_its_names hreturns
  refine ⟨trace, after, hreturns, hsnapshot, hadded, hc, ?_, he, (hunassigned _ he).1⟩
  exact (hunassigned _ hc).2 rfl hpresent

end RobotScript
