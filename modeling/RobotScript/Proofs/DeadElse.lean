import Mathlib.Data.List.Forall2
import RobotScript.Proofs.Task
import RobotScript.Robot.Scripted

/-!
# The `else` block of an `if` with an `elif` is dead

* `Statement.SameLive`: two statements are the same but for dead `else` blocks, at any depth
  and at any number of places.
* `SameLive.exec_eq`: such statements do the same.
* `dead_else_never_runs`: programs that are the same but for dead `else` blocks cannot be told apart
  by running them.
-/

namespace RobotScript

open List (Forall₂)

/-- **The same statement but for dead `else` blocks**: that of an `if` with an `elif` may be
replaced by any other one, or left out. -/
inductive Statement.SameLive : Statement → Statement → Prop
  | action (word : Action) (count : Option Expr) :
      SameLive (.action word count) (.action word count)
  | assign (name : String) (value : Expr) : SameLive (.assign name value) (.assign name value)
  | loop {body body' : Block} (inner : Forall₂ SameLive body body') :
      SameLive (.loop body) (.loop body')
  | whileLoop (test : Condition) {body body' : Block} (inner : Forall₂ SameLive body body') :
      SameLive (.whileLoop test body) (.whileLoop test body')
  | branch (test : Condition) {body body' : Block} {elifs elifs' : List Elif}
      {otherwise otherwise' : Option Block} (inner : Forall₂ SameLive body body')
      (tests : elifs.map Prod.fst = elifs'.map Prod.fst)
      (blocks : Forall₂ (Forall₂ SameLive) (elifs.map Prod.snd) (elifs'.map Prod.snd))
      (live : elifs = [] → Option.Rel (Forall₂ SameLive) otherwise otherwise') :
      SameLive (.branch test body elifs otherwise) (.branch test body' elifs' otherwise')

/-- The same program but for dead `else` blocks. -/
def Program.SameLive (p p' : Program) : Prop :=
  Forall₂ Statement.SameLive p.statements p'.statements

namespace Statement

variable {ρ : Type} {robot : Robot ρ} {limits : Limits} {rounds : Nat}

theorem execAll_eq_of_forall₂ {body body' : Block}
    (h : Forall₂ (fun s s' => s.exec robot limits rounds = s'.exec robot limits rounds)
      body body') : execAll robot limits rounds body = execAll robot limits rounds body' := by
  induction h with
  | nil => rfl
  | cons hs _ ih => rw [execAll_cons, execAll_cons, hs, ih]

theorem execElifs_eq_of_forall₂ {elifs elifs' : List Elif}
    (htests : elifs.map Prod.fst = elifs'.map Prod.fst)
    (hblocks : Forall₂ (fun body body' => execAll robot limits rounds body =
      execAll robot limits rounds body') (elifs.map Prod.snd) (elifs'.map Prod.snd)) :
    execElifs robot limits rounds elifs = execElifs robot limits rounds elifs' := by
  induction elifs generalizing elifs' with
  | nil =>
    have hnil : elifs' = [] := List.map_eq_nil_iff.1 htests.symm
    rw [hnil]
  | cons e rest ih =>
    obtain ⟨e', rest', rfl⟩ : ∃ e' rest', elifs' = e' :: rest' := by
      refine List.exists_cons_of_ne_nil fun hnil => ?_
      rw [hnil] at htests
      cases htests
    obtain ⟨test, body⟩ := e
    obtain ⟨test', body'⟩ := e'
    obtain ⟨htest, htests⟩ := List.cons.inj htests
    obtain ⟨hblock, hblocks⟩ := List.forall₂_cons.1 hblocks
    have hrest := ih htests hblocks
    dsimp only at htest hblock
    rw [execElifs, execElifs, htest, hblock, hrest]

theorem forall₂_imp_of_mem {α β : Type} {R S : α → β → Prop} {l : List α} {l' : List β}
    (h : ∀ a ∈ l, ∀ b, R a b → S a b) (hl : Forall₂ R l l') : Forall₂ S l l' := by
  have hboth := (List.forall₂_and_left l l').2 ⟨h, hl⟩
  exact hboth.imp fun a b hab => hab.1 b hab.2

/-- **What is the same but for dead `else` blocks does the same.** -/
theorem SameLive.exec_eq {s s' : Statement} (h : SameLive s s') :
    s.exec robot limits rounds = s'.exec robot limits rounds := by
  induction s using Statement.induction generalizing s' with
  | step s ih =>
    have hblock : ∀ body ∈ s.blocks, ∀ body', Forall₂ SameLive body body' →
        execAll robot limits rounds body = execAll robot limits rounds body' := by
      intro body hmem body' hsame
      exact execAll_eq_of_forall₂ (forall₂_imp_of_mem (fun t ht t' => ih body hmem t ht) hsame)
    rw [Statement.exec_eq, Statement.exec_eq]
    cases h with
    | action word count => rfl
    | assign name value => rfl
    | @loop body body' inner =>
      have hbody := hblock body (.head _) body' inner
      simp only [effect, hbody]
    | @whileLoop test body body' inner =>
      have hbody := hblock body (.head _) body' inner
      simp only [effect, hbody]
    | @branch test body body' elifs elifs' otherwise otherwise' inner tests blocks live =>
      have hbody := hblock body (.head _) body' inner
      have helifs : execElifs robot limits rounds elifs = execElifs robot limits rounds elifs' := by
        refine execElifs_eq_of_forall₂ tests (forall₂_imp_of_mem (fun block hmem => ?_) blocks)
        exact hblock block (.tail _ (List.mem_append_left _ hmem))
      have hempty : elifs'.isEmpty = elifs.isEmpty := by
        simpa using (congrArg List.isEmpty tests).symm
      by_cases hnone : elifs.isEmpty = true
      · -- without an `elif` the `else` block is live
        have helse : execElse robot limits rounds otherwise =
            execElse robot limits rounds otherwise' := by
          cases live (List.isEmpty_iff.1 hnone) with
          | none => rfl
          | @some block block' hsame =>
            refine hblock block (.tail _ (List.mem_append_right _ ?_)) block' hsame
            exact List.mem_singleton_self block
        simp only [effect, hempty, hbody, helifs, helse]
      · simp only [effect, hempty, hbody, helifs, hnone]
        rfl

end Statement

theorem Program.SameLive.exec_eq {ρ : Type} {robot : Robot ρ} {limits : Limits} {rounds : Nat}
    {p p' : Program} (h : p.SameLive p') :
    p.exec robot limits rounds = p'.exec robot limits rounds := by
  have hlength : p.statements.length = p'.statements.length := List.Forall₂.length_eq h
  have hall : Statement.execAll robot limits rounds p.statements =
      Statement.execAll robot limits rounds p'.statements :=
    Statement.execAll_eq_of_forall₂ (List.Forall₂.imp (fun _ _ hs => hs.exec_eq) h)
  unfold Program.exec
  rw [hlength, hall]

/-- **Dead `else` blocks never run**: programs that are the same but for dead `else` blocks take the
same course for every number of rounds, and so return alike or not at all. -/
theorem dead_else_never_runs {ρ : Type} (robot : Robot ρ) (stage : Stage ρ) {p p' : Program}
    (h : p.SameLive p') :
    (∀ rounds, stage.run (p.exec robot stage.evaluator.limits rounds) =
      stage.run (p'.exec robot stage.evaluator.limits rounds)) ∧
    ∀ result trace after, stage.Returns robot (.program p) result trace after ↔
      stage.Returns robot (.program p') result trace after := by
  have hrun : ∀ rounds, stage.run (p.exec robot stage.evaluator.limits rounds) =
      stage.run (p'.exec robot stage.evaluator.limits rounds) := fun rounds => by rw [h.exec_eq]
  refine ⟨hrun, fun result trace after => ?_⟩
  rw [Stage.returns_iff, Stage.returns_iff]
  exact exists_congr fun rounds => by rw [Task.exec, Task.exec, hrun]

/-- A `while` around an `if` with an `elif`, in whose block there is another such `if`. -/
def Program.twoDeadElses (inner outer : Option Block) : Program :=
  let no : Condition := .compare .lt (.sensor .fuelLeft) (.number 0)
  let yes : Condition := .compare .gt (.sensor .fuelLeft) (.number 0)
  let move : Statement := .action .move none
  ⟨[.whileLoop yes [.branch no [move] [(yes, [.branch no [] [(no, [move])] inner, move])] outer]]⟩

/-- At two places at once: one dead `else` block is replaced by a loop without end, and the other
one is left out. -/
theorem dead_else_in_elif_and_while :
    let p := Program.twoDeadElses (some [.action .turnL none]) (some [.action .move none])
    let p' := Program.twoDeadElses (some [.loop []]) none
    let stage : Stage Scripted := Stage.fresh {} { fuel := 1 }
    p.SameLive p' ∧ ∃ trace after, stage.Returns Scripted.robot (.program p) (.ok ()) trace after ∧
      stage.Returns Scripted.robot (.program p') (.ok ()) trace after := by
  intro p p' stage
  have hmove : Forall₂ Statement.SameLive [.action .move none] [.action .move none] :=
    .cons (.action _ _) .nil
  have hsame : p.SameLive p' := by
    refine .cons (.whileLoop _ (.cons (.branch _ hmove rfl (.cons ?_ .nil) nofun) .nil)) .nil
    exact .cons (.branch _ .nil rfl (.cons hmove .nil) nofun) hmove
  have hend : Task.exec Scripted.robot ⟨none⟩ 2
      (.program (.twoDeadElses (some [.action .turnL none]) (some [.action .move none])))
      (Stage.fresh {} ({ fuel := 1 } : Scripted)).toRun = _ := rfl
  obtain ⟨trace, after, hreturns⟩ : ∃ trace after,
      stage.Returns Scripted.robot (.program p) (.ok ()) trace after :=
    ⟨_, _, Stage.returns_of_run hend rfl rfl rfl⟩
  have hreturns' :=
    ((dead_else_never_runs Scripted.robot stage hsame).2 (.ok ()) trace after).1 hreturns
  exact ⟨hsame, trace, after, hreturns, hreturns'⟩

/-- Without an `elif` the `else` block is live. -/
example :
    let test : Condition := .compare .lt (.number 1) (.number 0)
    let calls := fun otherwise : Option Block =>
      ((⟨[.branch test [] [] otherwise]⟩ : Program).run Scripted.robot 0 {}).2.1.calls
    calls (some [.action .turnL none]) = [.deed .turnLeft] ∧ calls none = [] := by decide

end RobotScript
