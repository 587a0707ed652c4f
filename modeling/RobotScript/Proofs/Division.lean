import RobotScript.Proofs.RoundTrip
import RobotScript.Proofs.Task
import RobotScript.Robot.Scripted

/-!
# Divisions by zero

An error that says which division had no value quotes its text. That text is the text of an
expression of the program, and reading it gives the expression back.

* `Eval.Blames`: if a computation fails in a division, then in one that has a property.
* `Eval.blames_program`: a program fails only in a division that occurs in it.
* `division_error_names_division`: so what the error quotes can be read.
-/

namespace RobotScript

namespace Eval

variable {ρ α β : Type} {P : Expr → Prop} {robot : Robot ρ} {limits : Limits} {rounds : Nat}

/-- **A computation fails only in divisions that have the property**, as far as it fails in
divisions. -/
def Blames (P : Expr → Prop) (m : Eval ρ α) : Prop :=
  ∀ run after text, m run = .error (.error (.divisionByZero text)) after →
    ∃ left right, P (.binary .div left right) ∧ text = (Expr.binary .div left right).render

theorem Blames.bind {m : Eval ρ α} {f : α → Eval ρ β} (hm : Blames P m)
    (hf : ∀ a, Blames P (f a)) : Blames P (m >>= f) := by
  intro run after text h
  rcases bind_error h with h | ⟨a, mid, -, h⟩
  · exact hm run after text h
  · exact hf a mid after text h

theorem blames_pure (a : α) : Blames P (pure a : Eval ρ α) := by
  intro run after text h
  cases h

theorem Blames.whileHolds {test : Eval ρ Bool} {body : Eval ρ Unit} (htest : Blames P test)
    (hbody : Blames P body) : Blames P (Eval.whileHolds test body rounds) := by
  induction rounds with
  | zero => intro run after text h; cases h
  | succ rounds ih =>
    refine htest.bind fun holds => ?_
    cases holds with
    | true => exact hbody.bind fun _ => ih
    | false => exact blames_pure ()

theorem Blames.closing {body : Eval ρ Unit} (hbody : Blames P body) : Blames P (closing body) := by
  intro run after text h
  unfold Eval.closing at h
  cases hrun : body run with
  | ok a mid => rw [hrun] at h; cases h
  | error halt mid =>
    rw [hrun] at h
    cases halt with
    | error e => cases h; exact hbody run mid text hrun
    | overflow | unfinished => cases h

theorem blames_checkStop : Blames P (checkStop : Eval ρ Unit) := by
  intro run after text h
  cases hraised : run.scene.raised with
  | true => rw [checkStop_raised hraised] at h; cases h
  | false => rw [checkStop_lowered hraised] at h; cases h

theorem blames_checkpoint : Blames P (checkpoint limits : Eval ρ Unit) := by
  intro run after text h
  rcases checkpoint_cases limits run with ⟨-, hrun⟩ | ⟨_, -, hrefused, hrun⟩ | ⟨-, -, hrun⟩
  · rw [hrun] at h; cases h
  · rw [hrun] at h; cases h; cases hrefused
  · rw [hrun] at h; cases h

/-- No operation but a division fails in one. -/
theorem blames_congruence (P : Expr → Prop) (robot : Robot ρ) (limits : Limits) (rounds : Nat) :
    PartCongruence P (fun _ => True) (fun _ m _ => Blames P m) robot robot limits limits rounds
      rounds where
  pure := blames_pure
  bind := Blames.bind
  report event := by intro run after text h; cases h
  perform deed := by intro run after text h; cases h
  ask query := by intro run after text h; cases h
  readVar _ := by intro run after text h; cases h
  assign _ value := by intro run after text h; cases h
  divisionByZero {left right} mem := by
    intro run after text h
    cases h
    exact ⟨left, right, mem, rfl⟩
  checkStop := blames_checkStop
  checkpoint := blames_checkpoint
  whileHolds := Blames.whileHolds

theorem blames_program (robot : Robot ρ) (limits : Limits) (rounds : Nat) (p : Program) :
    Blames p.Mentions (p.exec robot limits rounds) := by
  have hparts := blames_congruence p.Mentions robot limits rounds
  have hall := hparts.execAll (fun s hs e he => ⟨s, hs, he⟩) fun _ _ _ _ => trivial
  exact (hparts.report _).bind fun _ => hall.closing

end Eval

/-- **An error in a division quotes a division of the program**: its text is read back as a
division, and the program has this very division. -/
theorem division_error_names_division {ρ : Type} (robot : Robot ρ) (stage : Stage ρ)
    {source text : String} {p : Program} {trace : Trace} {after : Stage ρ}
    (hparse : Program.parse source = .ok p)
    (hfails : stage.Returns robot (.program p) (.error (.divisionByZero text)) trace after) :
    ∃ left right, Expr.parse text = .ok (.binary .div left right) ∧
      p.Mentions (.binary .div left right) := by
  obtain ⟨hderives, hdepth⟩ := Program.parse_eq_ok_iff.1 hparse
  obtain ⟨rounds, halted, hend, hresult, -, -⟩ := hfails.ends
  cases halted with
  | ok a run => cases hresult
  | error halt run =>
    cases hresult
    obtain ⟨left, right, hmentions, rfl⟩ :=
      Eval.blames_program robot stage.evaluator.limits rounds p _ _ _ hend
    -- the text can be read if the division can be written, and it was
    obtain ⟨us, hsub, hus⟩ := hderives.mentions hmentions
    have hwritable := Expr.writable_of_derives hus fun t ht => classified_scan source t (hsub ht)
    have hshallow := Nat.le_trans hmentions.depth_le hdepth
    exact ⟨left, right, (Expr.parse_render_iff _).2 ⟨hwritable, hshallow⟩, hmentions⟩

/-- The division stands in a rank, in the condition of a loop. -/
theorem division_in_rank_is_named : ∃ p trace after,
    Program.parse "while (lt(barrelLR(div(1, $a)), 5)) \x7b move; \x7d" = .ok p ∧
    (Stage.fresh {} ({} : Scripted)).Returns Scripted.robot (.program p)
      (.error (.divisionByZero "div(1,$a)")) trace after ∧
    ∃ left right, Expr.parse "div(1,$a)" = .ok (.binary .div left right) ∧
      p.Mentions (.binary .div left right) := by
  let test : Condition :=
    .compare .lt (.ranked .barrelLR (.binary .div (.number 1) (.var "$a"))) (.number 5)
  have hparse : Program.parse "while (lt(barrelLR(div(1, $a)), 5)) \x7b move; \x7d" =
      .ok ⟨[.whileLoop test [.action .move none]]⟩ := by
    have hscan : Token.scan "while (lt(barrelLR(div(1, $a)), 5)) \x7b move; \x7d" =
        [⟨.whileWord, "while"⟩, ⟨.leftParen, "("⟩, ⟨.relop .lt, "lt"⟩, ⟨.leftParen, "("⟩,
          ⟨.sensor .barrelLR, "barrelLR"⟩, ⟨.leftParen, "("⟩, ⟨.operator .div, "div"⟩,
          ⟨.leftParen, "("⟩, ⟨.number, "1"⟩, ⟨.comma, ","⟩, ⟨.var, "$a"⟩, ⟨.rightParen, ")"⟩,
          ⟨.rightParen, ")"⟩, ⟨.comma, ","⟩, ⟨.number, "5"⟩, ⟨.rightParen, ")"⟩,
          ⟨.rightParen, ")"⟩, ⟨.leftBrace, "\x7b"⟩, ⟨.action .move, "move"⟩, ⟨.semicolon, ";"⟩,
          ⟨.rightBrace, "\x7d"⟩] := by decide
    unfold Program.parse Parser.ofText
    rw [hscan]; rfl
  obtain ⟨trace, after, hreturns⟩ : ∃ trace after,
      (Stage.fresh {} ({} : Scripted)).Returns Scripted.robot
        (.program ⟨[.whileLoop test [.action .move none]]⟩)
        (.error (.divisionByZero "div(1,$a)")) trace after := by
    have hend : Task.exec Scripted.robot ⟨none⟩ 1 (.program ⟨[.whileLoop test [.action .move none]]⟩)
        (Stage.fresh {} ({} : Scripted)).toRun = _ := rfl
    exact ⟨_, _, Stage.returns_of_run hend rfl rfl rfl⟩
  exact ⟨_, trace, after, hparse, hreturns,
    division_error_names_division Scripted.robot _ hparse hreturns⟩

end RobotScript
