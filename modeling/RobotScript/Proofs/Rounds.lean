import RobotScript.Proofs.Cutoff

/-!
# The rounds a loop is allowed

* `fewerRounds_congruence`: a run with fewer rounds keeps to one with more until it is cut, so that
  a run that is not cut stays the same with more rounds.
* `pays_exec`: if no block is empty, a run that is cut has counted at least as many
  statements as there are rounds.
-/

namespace RobotScript.Eval

open Run

variable {ρ α β : Type} {robot : Robot ρ} {limits : Limits} {rounds rounds' : Nat}

/-- A run with fewer rounds is the same, but may be cut where the other goes on. -/
def roundsCut : Cutoff ρ ρ := .same .unfinished fun mid last => mid = some last

theorem Tracks.fewerRounds {test test' : Eval ρ Bool} {body body' : Eval ρ Unit}
    (htest : Tracks roundsCut robot limits test test')
    (hbody : Tracks roundsCut robot limits body body') : ∀ {rounds rounds'}, rounds ≤ rounds' →
      Tracks roundsCut robot limits (Eval.whileHolds test body rounds')
        (Eval.whileHolds test' body' rounds) := by
  intro rounds
  induction rounds with
  | zero =>
    -- without rounds the second loop is cut at once, whatever the first does
    intro rounds' _
    have hwalks := htest.1.whileHolds hbody.1 rounds'
    exact ⟨hwalks, fun run run' like =>
      .inr ⟨some run, run', [], congrArg some like, rfl, fun _ => rfl, hwalks run⟩⟩
  | succ rounds ih =>
    intro rounds' hle
    obtain ⟨more, rfl⟩ : ∃ more, rounds' = more + 1 := ⟨rounds' - 1, by omega⟩
    refine htest.bind fun holds => ?_
    cases holds with
    | true => exact hbody.bind fun _ => ih (by omega)
    | false => exact tracks_pure ()

theorem fewerRounds_congruence (robot : Robot ρ) (limits : Limits) (h : rounds ≤ rounds') :
    LoopCongruence (fun _ m m' => Tracks roundsCut robot limits m m') robot robot limits limits
      rounds' rounds := by
  have walks := walks_congruence robot limits rounds
  exact {
    pure := tracks_pure
    bind := Tracks.bind
    divisionByZero := tracks_fail
    report := tracks_report
    perform := fun deed => tracks_self (walks.perform deed)
    ask := fun query => tracks_self (walks.ask query)
    readVar := fun name => tracks_self (walks.readVar name)
    assign := fun name value => tracks_self (walks.assign name value)
    checkStop := tracks_self walks.checkStop
    checkpoint := tracks_self walks.checkpoint
    whileHolds := fun htest hbody => htest.fewerRounds hbody h }

/-- `m'` does what `m` does, unless `m` is cut. -/
def Extends (m m' : Eval ρ α) : Prop :=
  ∀ run, m' run = m run ∨ ∃ after, m run = .error .unfinished after

/-- **More rounds do not change a run that is not cut.** -/
theorem Tracks.extends {m m' : Eval ρ α} (h : Tracks roundsCut robot limits m m') :
    Extends m' m := by
  intro run
  rcases h.2 run run rfl with hpair | ⟨_, last, events, -, hcut, -⟩
  · exact .inl hpair.eq.symm
  · exact .inr ⟨last.noting events, hcut⟩

/-- A computation that does not halt counts a statement. -/
def Advances (m : Eval ρ α) : Prop :=
  ∀ {run after a}, m run = .ok a after → run.steps.toNat < after.steps.toNat

/-- A run of the computation that is cut has counted `rounds` statements. -/
def Spends (rounds : Nat) (m : Eval ρ α) : Prop :=
  ∀ {run after}, m run = .error .unfinished after → run.steps.toNat + rounds ≤ after.steps.toNat

theorem checkpoint_ok {run after : Run ρ} (h : checkpoint limits run = .ok () after) :
    after.steps.toNat = run.steps.toNat + 1 := by
  rcases checkpoint_cases limits run with ⟨-, hrun⟩ | ⟨_, -, -, hrun⟩ | ⟨-, hallowed, hrun⟩
  · rw [hrun] at h; cases h
  · rw [hrun] at h; cases h
  · rw [hrun] at h; cases h; exact hallowed.toNat_succ

/-- Along a path the counter does not go down. -/
theorem Walks.toNat_le {m : Eval ρ α} (hm : Walks robot limits m) {run after : Run ρ} {a : α}
    (h : m run = .ok a after) : run.steps.toNat ≤ after.steps.toNat :=
  UInt64.le_iff_toNat_le.1 (hm.ok h).steps_le

/-- **Every statement that is carried out is counted.** -/
theorem advances_exec (rounds : Nat) (s : Statement) : Advances (s.exec robot limits rounds) := by
  intro run after a h
  -- the checkpoint counts one, and nothing after it takes that back
  rw [Statement.exec_eq] at h
  obtain ⟨_, mid, hmid, hafter⟩ := bind_ok h
  have hcount := checkpoint_ok hmid
  have hmore := ((walks_congruence robot limits rounds).effect s).toNat_le hafter
  omega

theorem advances_execAll (rounds : Nat) {body : Block} (hne : body ≠ []) :
    Advances (Statement.execAll robot limits rounds body) := by
  intro run after a h
  obtain ⟨s, rest, rfl⟩ := List.exists_cons_of_ne_nil hne
  rw [Statement.execAll_cons] at h
  obtain ⟨_, mid, hmid, hafter⟩ := bind_ok h
  have hfirst := advances_exec rounds s hmid
  have hrest := (walks_execAll rounds rest).toNat_le hafter
  omega

/-- What carries the induction: a path is taken, so that no count is lost on the way. -/
def Pays (robot : Robot ρ) (limits : Limits) (rounds : Nat) (m : Eval ρ α) : Prop :=
  Walks robot limits m ∧ Spends rounds m

theorem Pays.bind {m : Eval ρ α} {f : α → Eval ρ β} (hm : Pays robot limits rounds m)
    (hf : ∀ a, Pays robot limits rounds (f a)) : Pays robot limits rounds (m >>= f) := by
  refine ⟨hm.1.bind fun a => (hf a).1, ?_⟩
  intro run after h
  rcases bind_error h with h | ⟨a, mid, hmid, hafter⟩
  · exact hm.2 h
  · have hle := hm.1.toNat_le hmid
    have hspent := (hf a).2 hafter
    omega

/-- A computation that is never cut. -/
theorem pays_of_halts {m : Eval ρ α} (hm : Walks robot limits m)
    (h : ∀ run after, m run ≠ .error .unfinished after) : Pays robot limits rounds m :=
  ⟨hm, fun hcut => absurd hcut (h _ _)⟩

theorem Pays.whileHolds {test : Eval ρ Bool} {body : Eval ρ Unit}
    (htest : Pays robot limits rounds test) (hbody : Pays robot limits rounds body)
    (hadvances : Advances body) : Pays robot limits rounds (Eval.whileHolds test body rounds) := by
  refine ⟨htest.1.whileHolds hbody.1 rounds, ?_⟩
  -- a loop that may go on for `n` more rounds counts a statement in each of them
  have key : ∀ n ≤ rounds, Spends n (Eval.whileHolds test body n) := by
    intro n
    induction n with
    | zero => intro _ run after h; cases h; exact Nat.le_refl _
    | succ n ih =>
      intro hn run after h
      rcases bind_error h with h | ⟨holds, mid, hmid, h⟩
      · have := htest.2 h
        omega
      · have hle := htest.1.toNat_le hmid
        cases holds with
        | false => cases h
        | true =>
          rcases bind_error h with h | ⟨_, next, hnext, h⟩
          · have := hbody.2 h
            omega
          · have hone := hadvances hnext
            have hrest := ih (by omega) h
            omega
  intro run after h
  exact key rounds (Nat.le_refl _) h

theorem checkStop_ne_unfinished (run after : Run ρ) : checkStop run ≠ .error .unfinished after := by
  cases hraised : run.scene.raised with
  | true => rw [checkStop_raised hraised]; intro h; cases h
  | false => rw [checkStop_lowered hraised]; intro h; cases h

theorem checkpoint_ne_unfinished (run after : Run ρ) :
    checkpoint limits run ≠ .error .unfinished after := by
  intro h
  rcases checkpoint_cases limits run with ⟨-, hrun⟩ | ⟨_, -, hrefused, hrun⟩ | ⟨-, -, hrun⟩
  · rw [hrun] at h; cases h
  · rw [hrun] at h; cases h; cases hrefused
  · rw [hrun] at h; cases h

theorem pays_congruence (robot : Robot ρ) (limits : Limits) (rounds : Nat) :
    Congruence (fun _ m _ => Pays robot limits rounds m) robot robot limits limits rounds
      rounds := by
  have walks := walks_congruence robot limits rounds
  exact {
    pure := fun a => pays_of_halts (walks.pure a) fun _ _ h => by cases h
    bind := Pays.bind
    divisionByZero := fun text => pays_of_halts (walks.divisionByZero text) fun _ _ h => by cases h
    report := fun event => pays_of_halts (walks.report event) fun _ _ h => by cases h
    perform := fun deed => pays_of_halts (walks.perform deed) fun _ _ h => by cases h
    ask := fun query => pays_of_halts (walks.ask query) fun _ _ h => by cases h
    readVar := fun name => pays_of_halts (walks.readVar name) fun _ _ h => by cases h
    assign := fun name value => pays_of_halts (walks.assign name value) fun _ _ h => by cases h
    checkStop := pays_of_halts walks.checkStop checkStop_ne_unfinished
    checkpoint := pays_of_halts walks.checkpoint checkpoint_ne_unfinished }

/-- **A cut run has counted as many statements as there are rounds**, if no block is empty. -/
theorem pays_exec {s : Statement} (hs : s.Filled) :
    Pays robot limits rounds (s.exec robot limits rounds) := by
  have hcong := pays_congruence robot limits rounds
  induction hs with
  | @intro s ne_nil inner ih =>
    have hblocks := fun block hblock => hcong.flow.execAll_of (ih block hblock)
    rw [Statement.exec_eq]
    refine hcong.checkpoint.bind fun _ => hcong.effect_of s hblocks ?_
    intro block hblock test test' htest
    exact htest.whileHolds (hblocks block hblock) (advances_execAll rounds (ne_nil block hblock))

theorem pays_execAll {body : Block} (hbody : ∀ s ∈ body, s.Filled) :
    Pays robot limits rounds (Statement.execAll robot limits rounds body) :=
  (pays_congruence robot limits rounds).flow.execAll_of fun s hs => pays_exec (hbody s hs)

theorem Pays.closing {body : Eval ρ Unit} (hbody : Pays robot limits rounds body) :
    Pays robot limits rounds (closing body) := by
  refine ⟨hbody.1.closing, ?_⟩
  intro run after h
  unfold Eval.closing at h
  cases hrun : body run with
  | ok a mid => rw [hrun] at h; cases h
  | error halt mid =>
    rw [hrun] at h
    cases halt with
    | error e => cases h
    | overflow => cases h
    | unfinished => cases h; exact hbody.2 hrun

theorem pays_program {p : Program} (hp : ∀ s ∈ p.statements, s.Filled) :
    Pays robot limits rounds (p.exec robot limits rounds) :=
  ((pays_congruence robot limits rounds).report _).bind fun _ => (pays_execAll hp).closing

end RobotScript.Eval
