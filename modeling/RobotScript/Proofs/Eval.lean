import RobotScript.Run
import RobotScript.Proofs.Tree

/-!
# Evaluation is put together from a few operations

* `Limits.Allows`, `Limits.Refuses`: whether another statement may be counted, and why not.
* `checkpoint_cases`: the three ways a checkpoint can go.
* `Statement.effect`: what a statement does once it is past its checkpoint.
* `Eval.Congruence`: a relation between computations, which may be against different robots,
  holds between the operations that evaluation is made of, and is kept by putting
  computations one after the other. `LoopCongruence` adds loops.
* `Eval.ValueCongruence`, `Eval.FlowCongruence`: the same for expressions alone, and for the flow of
  control, where statements without blocks are taken as a whole. `Eval.CallCongruence` and
  `Eval.OperationCongruence` are about single operations, division apart.
* `Eval.PartCongruence`: the same where variables, divisions and assignments are respected only if
  they have a property.
* `LoopCongruence.exec`: such a relation holds between the two evaluations of every tree.
  What evaluation does to a run is proved through this statement. `PartCongruence.exec` is the
  statement for trees all of whose parts have the property.
-/

namespace RobotScript

namespace Limits

variable {limits : Limits} {steps : UInt64}

/-- **Another statement may be counted** after this many: the limit is not reached, nor is the end of
the counter. -/
structure Allows (limits : Limits) (steps : UInt64) : Prop where
  below {limit : UInt64} (limited : limits.maxSteps = some limit) : steps < limit
  room : steps < Eval.maxCount

/-- **Why no other statement may be counted** after this many. -/
inductive Refuses (limits : Limits) (steps : UInt64) : Halt → Prop
  | limitExceeded {limit : UInt64} (limited : limits.maxSteps = some limit)
      (reached : limit ≤ steps) : Refuses limits steps (.error (.limitExceeded limit))
  | overflow (unlimited : limits.maxSteps = none) (full : steps = Eval.maxCount) :
      Refuses limits steps .overflow

theorem le_maxCount (steps : UInt64) : steps ≤ Eval.maxCount := by
  have hmax : Eval.maxCount.toNat + 1 = UInt64.size := rfl
  have hsize := steps.toNat_lt_size
  rw [UInt64.le_iff_toNat_le]
  omega

theorem allows_or_refuses (limits : Limits) (steps : UInt64) :
    limits.Allows steps ∨ ∃ halt, limits.Refuses steps halt := by
  cases hlimit : limits.maxSteps with
  | none =>
    by_cases hfull : steps = Eval.maxCount
    · exact .inr ⟨_, .overflow hlimit hfull⟩
    · refine .inl ⟨fun limited => ?_, UInt64.lt_of_le_of_ne (le_maxCount steps) hfull⟩
      rw [hlimit] at limited
      cases limited
  | some limit =>
    rcases UInt64.lt_or_le steps limit with hbelow | hreached
    · refine .inl ⟨fun limited => ?_, UInt64.lt_of_lt_of_le hbelow (le_maxCount limit)⟩
      rw [hlimit] at limited
      cases limited
      exact hbelow
    · exact .inr ⟨_, .limitExceeded hlimit hreached⟩

/-- Where there is a limit, it is the reason; the end of the counter is not reached. -/
theorem Refuses.of_limited {halt : Halt} {limit : UInt64} (h : limits.Refuses steps halt)
    (hlimit : limits.maxSteps = some limit) : halt = .error (.limitExceeded limit) ∧ limit ≤ steps := by
  cases h with
  | limitExceeded limited reached =>
    rw [hlimit] at limited
    cases limited
    exact ⟨rfl, reached⟩
  | overflow unlimited =>
    rw [hlimit] at unlimited
    cases unlimited

/-- **Where another statement may be counted, the counter goes up by one.** -/
theorem Allows.toNat_succ (h : limits.Allows steps) : (steps + 1).toNat = steps.toNat + 1 := by
  have hmax : Eval.maxCount.toNat + 1 = UInt64.size := rfl
  -- there is room for one more, so the sum is not taken modulo the size
  have hroom := UInt64.lt_iff_toNat_lt.1 h.room
  have hfits : steps.toNat + 1 < UInt64.size := by omega
  rw [UInt64.toNat_add]
  exact Nat.mod_eq_of_lt hfits

theorem Allows.lt_succ (h : limits.Allows steps) : steps < steps + 1 := by
  rw [UInt64.lt_iff_toNat_lt, h.toNat_succ]
  exact Nat.lt_succ_self _

theorem Allows.succ_le {limit : UInt64} (h : limits.Allows steps)
    (limited : limits.maxSteps = some limit) : steps + 1 ≤ limit := by
  rw [UInt64.le_iff_toNat_le, h.toNat_succ]
  exact UInt64.lt_iff_toNat_lt.1 (h.below limited)

end Limits

/-- Only a division has no value. -/
theorem ArithOp.eq_div_of_apply {op : ArithOp} {left right : Int32}
    (h : op.apply left right = none) : op = .div := by
  cases op with
  | add | sub | mul => cases h
  | div => rfl

namespace Eval

variable {ρ ρ' : Type}

section

variable {limits : Limits} {run : Run ρ}

theorem checkStop_raised (h : run.scene.raised = true) :
    checkStop run = .error (.error .interrupted)
      { run with trace := .event (.stopObserved run.steps) :: run.trace } := by
  unfold checkStop
  rw [bind_apply]
  show (if run.scene.raised = true then _ else _ : Eval ρ Unit) run = _
  rw [if_pos h]; rfl

theorem checkStop_lowered (h : run.scene.raised = false) : checkStop run = .ok () run := by
  unfold checkStop
  rw [bind_apply]
  show (if run.scene.raised = true then _ else _ : Eval ρ Unit) run = _
  rw [if_neg (by rw [h]; decide)]; rfl

theorem checkLimit_reached {limit : UInt64} (hlimit : limits.maxSteps = some limit)
    (h : limit ≤ run.steps) :
    checkLimit limits run = .error (.error (.limitExceeded limit)) run := by
  unfold checkLimit
  rw [hlimit]
  show (if limit ≤ run.steps then _ else _ : Eval ρ Unit) run = _
  rw [if_pos h]; rfl

theorem checkLimit_unlimited (h : limits.maxSteps = none) : checkLimit limits run = .ok () run := by
  unfold checkLimit
  rw [h]; rfl

theorem checkLimit_allowed (h : limits.Allows run.steps) :
    checkLimit limits run = .ok () run := by
  cases hlimit : limits.maxSteps with
  | none => exact checkLimit_unlimited hlimit
  | some limit =>
    unfold checkLimit
    rw [hlimit]
    show (if limit ≤ run.steps then _ else _ : Eval ρ Unit) run = _
    rw [if_neg (UInt64.not_le.2 (h.below hlimit))]; rfl

theorem count_full (h : run.steps = maxCount) : count run = .error .overflow run := by
  unfold count
  rw [bind_apply]
  show (if run.steps = maxCount then _ else _ : Eval ρ Unit) run = _
  rw [if_pos h]; rfl

theorem count_room (h : run.steps < maxCount) :
    count run = .ok () { run with steps := run.steps + 1, trace := .passed :: run.trace } := by
  have hne : run.steps ≠ maxCount := UInt64.ne_of_lt h
  unfold count
  rw [bind_apply]
  show (if run.steps = maxCount then _ else _ : Eval ρ Unit) run = _
  rw [if_neg hne]; rfl

theorem checkpoint_raised (h : run.scene.raised = true) :
    checkpoint limits run = .error (.error .interrupted)
      { run with trace := .event (.stopObserved run.steps) :: run.trace } := by
  unfold checkpoint
  rw [bind_apply, checkStop_raised h]

theorem checkpoint_refused {halt : Halt} (hlowered : run.scene.raised = false)
    (h : limits.Refuses run.steps halt) : checkpoint limits run = .error halt run := by
  unfold checkpoint
  rw [bind_eq_of_ok (checkStop_lowered hlowered)]
  cases h with
  | limitExceeded limited reached => exact bind_eq_of_error (checkLimit_reached limited reached)
  | overflow unlimited full =>
    rw [bind_eq_of_ok (checkLimit_unlimited unlimited)]
    exact count_full full

theorem checkpoint_allowed (hlowered : run.scene.raised = false) (h : limits.Allows run.steps) :
    checkpoint limits run =
      .ok () { run with steps := run.steps + 1, trace := .passed :: run.trace } := by
  unfold checkpoint
  rw [bind_eq_of_ok (checkStop_lowered hlowered), bind_eq_of_ok (checkLimit_allowed h)]
  exact count_room h.room

/-- **What a checkpoint can do.** -/
theorem checkpoint_cases (limits : Limits) (run : Run ρ) :
    (run.scene.raised = true ∧ checkpoint limits run = .error (.error .interrupted)
      { run with trace := .event (.stopObserved run.steps) :: run.trace }) ∨
    (∃ halt, run.scene.raised = false ∧ limits.Refuses run.steps halt ∧
      checkpoint limits run = .error halt run) ∨
    (run.scene.raised = false ∧ limits.Allows run.steps ∧ checkpoint limits run =
      .ok () { run with steps := run.steps + 1, trace := .passed :: run.trace }) := by
  cases hraised : run.scene.raised with
  | true => exact .inl ⟨rfl, checkpoint_raised hraised⟩
  | false =>
    rcases limits.allows_or_refuses run.steps with hallowed | ⟨halt, hrefused⟩
    · exact .inr (.inr ⟨rfl, hallowed, checkpoint_allowed hraised hallowed⟩)
    · exact .inr (.inl ⟨halt, rfl, hrefused, checkpoint_refused hraised hrefused⟩)

end

/-- Gives a variable a value. -/
def assign (name : String) (value : Int32) : Eval ρ Unit :=
  modify fun run => { run with store := run.store.set name value }

end Eval

section

variable {ρ : Type} (robot : Robot ρ) (limits : Limits) (rounds : Nat)

/-- What a statement does once it is past its checkpoint. -/
def Statement.effect : Statement → Eval ρ Unit
  | .action word count => do Eval.act robot word (← Action.repeats robot count)
  | .loop body => Eval.whileHolds (return true) (Statement.execAll robot limits rounds body) rounds
  | .branch test body elifs otherwise => do
    if ← test.eval robot then
      Statement.execAll robot limits rounds body
    else if elifs.isEmpty then
      Statement.execElse robot limits rounds otherwise
    else
      Statement.execElifs robot limits rounds elifs
  | .whileLoop test body =>
    Eval.whileHolds (test.eval robot) (Statement.execAll robot limits rounds body) rounds
  | .assign name value => do
    let v ← value.eval robot
    Eval.report (.assigned name v)
    Eval.assign name v

theorem Statement.exec_eq (s : Statement) :
    s.exec robot limits rounds = Eval.checkpoint limits >>= fun _ => s.effect robot limits rounds := by
  cases s <;> (unfold Statement.exec Statement.effect; rfl)

theorem Statement.execAll_cons (s : Statement) (rest : Block) :
    Statement.execAll robot limits rounds (s :: rest) =
      s.exec robot limits rounds >>= fun _ => Statement.execAll robot limits rounds rest := by
  rw [Statement.execAll]

end

namespace Eval

variable {ρ ρ' : Type}

/-- **A relation that evaluating expressions respects.** -/
structure ValueCongruence (R : (α : Type) → Eval ρ α → Eval ρ' α → Prop) (robot : Robot ρ)
    (robot' : Robot ρ') : Prop where
  pure {α : Type} (a : α) : R α (pure a) (pure a)
  bind {α β : Type} {m : Eval ρ α} {m' : Eval ρ' α} {f : α → Eval ρ β} {f' : α → Eval ρ' β}
    (first : R α m m') (next : ∀ a, R β (f a) (f' a)) : R β (m >>= f) (m' >>= f')
  divisionByZero (text : String) :
    R Int32 (fail (.divisionByZero text)) (fail (.divisionByZero text))
  sense (word : Sensor) (rank : Int32) : R Int32 (sense robot word rank) (sense robot' word rank)
  readVar (name : String) : R Int32 (readVar name) (readVar name)

/-- **A relation that the flow of control respects** where all conditions are among `C`,
statements without blocks and loops apart. -/
structure FlowCongruence (C : Condition → Prop) (R : (α : Type) → Eval ρ α → Eval ρ' α → Prop)
    (robot : Robot ρ) (robot' : Robot ρ') (limits limits' : Limits) (rounds rounds' : Nat) :
    Prop where
  pure {α : Type} (a : α) : R α (pure a) (pure a)
  bind {α β : Type} {m : Eval ρ α} {m' : Eval ρ' α} {f : α → Eval ρ β} {f' : α → Eval ρ' β}
    (first : R α m m') (next : ∀ a, R β (f a) (f' a)) : R β (m >>= f) (m' >>= f')
  condition {c : Condition} (mem : C c) : R Bool (c.eval robot) (c.eval robot')
  checkpoint : R Unit (checkpoint limits) (checkpoint limits')

/-- **A relation that reports, calls and stops respect.** -/
structure CallCongruence (R : (α : Type) → Eval ρ α → Eval ρ' α → Prop) (robot : Robot ρ)
    (robot' : Robot ρ') : Prop where
  pure {α : Type} (a : α) : R α (pure a) (pure a)
  bind {α β : Type} {m : Eval ρ α} {m' : Eval ρ' α} {f : α → Eval ρ β} {f' : α → Eval ρ' β}
    (first : R α m m') (next : ∀ a, R β (f a) (f' a)) : R β (m >>= f) (m' >>= f')
  report (event : Event) : R Unit (report event) (report event)
  perform (deed : Deed) : R Unit (perform robot deed) (perform robot' deed)
  ask (query : Query) : R Int32 (ask robot query) (ask robot' query)
  checkStop : R Unit checkStop checkStop

/-- **A relation that the single operations of evaluation respect.** -/
structure OperationCongruence (R : (α : Type) → Eval ρ α → Eval ρ' α → Prop) (robot : Robot ρ)
    (robot' : Robot ρ') : Prop extends CallCongruence R robot robot' where
  readVar (name : String) : R Int32 (readVar name) (readVar name)
  assign (name : String) (value : Int32) : R Unit (assign name value) (assign name value)

/-- **A relation that evaluation respects in some trees**: those whose expressions all have the
property `P`, and which assign only to names that have the property `A`. -/
structure PartCongruence (P : Expr → Prop) (A : String → Prop)
    (R : (α : Type) → Eval ρ α → Eval ρ' α → Prop) (robot : Robot ρ) (robot' : Robot ρ')
    (limits limits' : Limits) (rounds rounds' : Nat) : Prop
    extends CallCongruence R robot robot' where
  readVar {name : String} (mem : P (.var name)) : R Int32 (readVar name) (readVar name)
  assign {name : String} (mem : A name) (value : Int32) :
    R Unit (assign name value) (assign name value)
  divisionByZero {left right : Expr} (mem : P (.binary .div left right)) :
    R Int32 (fail (.divisionByZero (Expr.binary .div left right).render))
      (fail (.divisionByZero (Expr.binary .div left right).render))
  checkpoint : R Unit (checkpoint limits) (checkpoint limits')
  whileHolds {test : Eval ρ Bool} {test' : Eval ρ' Bool} {body : Eval ρ Unit}
    {body' : Eval ρ' Unit} (guard : R Bool test test') (inner : R Unit body body') :
    R Unit (whileHolds test body rounds) (whileHolds test' body' rounds')

/-- **A relation that evaluation respects**, loops apart. -/
structure Congruence (R : (α : Type) → Eval ρ α → Eval ρ' α → Prop) (robot : Robot ρ)
    (robot' : Robot ρ') (limits limits' : Limits) (rounds rounds' : Nat) : Prop
    extends OperationCongruence R robot robot' where
  divisionByZero (text : String) :
    R Int32 (fail (.divisionByZero text)) (fail (.divisionByZero text))
  checkpoint : R Unit (checkpoint limits) (checkpoint limits')

/-- **A relation that evaluation respects.** -/
structure LoopCongruence (R : (α : Type) → Eval ρ α → Eval ρ' α → Prop) (robot : Robot ρ)
    (robot' : Robot ρ') (limits limits' : Limits) (rounds rounds' : Nat) : Prop
    extends Congruence R robot robot' limits limits' rounds rounds' where
  whileHolds {test : Eval ρ Bool} {test' : Eval ρ' Bool} {body : Eval ρ Unit}
    {body' : Eval ρ' Unit} (guard : R Bool test test') (inner : R Unit body body') :
    R Unit (whileHolds test body rounds) (whileHolds test' body' rounds')

variable {R : (α : Type) → Eval ρ α → Eval ρ' α → Prop} {robot : Robot ρ} {robot' : Robot ρ'}
  {limits limits' : Limits} {rounds rounds' : Nat}

namespace ValueCongruence

variable (h : ValueCongruence R robot robot')

include h

theorem expr (e : Expr) : R Int32 (e.eval robot) (e.eval robot') := by
  induction e with
  | number value => exact h.pure value
  | sensor word => exact h.sense word 0
  | ranked word rank ih => exact h.bind ih fun r => h.sense word r
  | var name => exact h.readVar name
  | binary op left right ihl ihr =>
    refine h.bind ihl fun l => h.bind ihr fun r => ?_
    split
    · exact h.pure _
    · exact h.divisionByZero _

theorem condition (c : Condition) : R Bool (c.eval robot) (c.eval robot') := by
  induction c with
  | compare op left right =>
    exact h.bind (h.expr right) fun r => h.bind (h.expr left) fun l => h.pure _
  | and left right ihl ihr | or left right ihl ihr =>
    exact h.bind ihl fun l => h.bind ihr fun r => h.pure _
  | not inner ih => exact h.bind ih fun b => h.pure _

theorem repeats (count : Option Expr) :
    R Int32 (Action.repeats robot count) (Action.repeats robot' count) := by
  cases count with
  | none => exact h.pure 1
  | some e => exact h.expr e

end ValueCongruence

namespace FlowCongruence

variable {C : Condition → Prop} (h : FlowCongruence C R robot robot' limits limits' rounds rounds')

include h

theorem execAll_of {body : Block}
    (ih : ∀ s ∈ body, R Unit (s.exec robot limits rounds) (s.exec robot' limits' rounds')) :
    R Unit (Statement.execAll robot limits rounds body)
      (Statement.execAll robot' limits' rounds' body) := by
  induction body with
  | nil => unfold Statement.execAll; exact h.pure ()
  | cons s rest ihr =>
    obtain ⟨hs, hrest⟩ := List.forall_mem_cons.1 ih
    unfold Statement.execAll
    exact h.bind hs fun _ => ihr hrest

theorem execElifs_of {elifs : List Elif} (htests : ∀ e ∈ elifs, C e.1)
    (hblocks : ∀ e ∈ elifs, R Unit (Statement.execAll robot limits rounds e.2)
      (Statement.execAll robot' limits' rounds' e.2)) :
    R Unit (Statement.execElifs robot limits rounds elifs)
      (Statement.execElifs robot' limits' rounds' elifs) := by
  induction elifs with
  | nil => unfold Statement.execElifs; exact h.pure ()
  | cons e rest ih =>
    obtain ⟨he, hrest⟩ := List.forall_mem_cons.1 hblocks
    obtain ⟨htest, htests⟩ := List.forall_mem_cons.1 htests
    unfold Statement.execElifs
    refine h.bind (h.condition htest) fun holds => ?_
    cases holds with
    | true => exact he
    | false => exact ih htests hrest

theorem execElse_of {otherwise : Option Block}
    (hblocks : ∀ block ∈ otherwise, R Unit (Statement.execAll robot limits rounds block)
      (Statement.execAll robot' limits' rounds' block)) :
    R Unit (Statement.execElse robot limits rounds otherwise)
      (Statement.execElse robot' limits' rounds' otherwise) := by
  unfold Statement.execElse
  cases otherwise with
  | none => exact h.pure ()
  | some body => exact hblocks body rfl

/-- What a statement does is related if its blocks are, once and repeatedly, or if it has none
and is so itself. -/
theorem effect_of (s : Statement) (htests : ∀ c ∈ s.tests, C c)
    (hplain : s.blocks = [] → R Unit (s.effect robot limits rounds) (s.effect robot' limits' rounds'))
    (hblocks : ∀ block ∈ s.blocks, R Unit (Statement.execAll robot limits rounds block)
      (Statement.execAll robot' limits' rounds' block))
    (hloops : ∀ block ∈ s.blocks, ∀ {test : Eval ρ Bool} {test' : Eval ρ' Bool}, R Bool test test' →
      R Unit (Eval.whileHolds test (Statement.execAll robot limits rounds block) rounds)
        (Eval.whileHolds test' (Statement.execAll robot' limits' rounds' block) rounds')) :
    R Unit (s.effect robot limits rounds) (s.effect robot' limits' rounds') := by
  cases s with
  | action word count => exact hplain rfl
  | assign name value => exact hplain rfl
  | loop body => exact hloops body List.mem_cons_self (h.pure true)
  | whileLoop test body =>
    exact hloops body List.mem_cons_self (h.condition (htests test List.mem_cons_self))
  | branch test body elifs otherwise =>
    unfold Statement.effect
    refine h.bind (h.condition (htests test List.mem_cons_self)) fun holds => ?_
    cases holds with
    | true => exact hblocks body List.mem_cons_self
    | false =>
      simp only [Bool.false_eq_true, if_false]
      split
      · refine h.execElse_of fun block hblock => hblocks block ?_
        exact Statement.mem_blocks_else hblock
      · refine h.execElifs_of (fun e he => htests e.1 ?_) fun e he => hblocks e.2 ?_
        · exact Statement.mem_tests_elif he
        · exact Statement.mem_blocks_elif he

/-- The relation holds between the evaluations of a statement if it does so for all statements
without blocks that are part of it, and passes through loops. -/
theorem exec_of {P : Statement → Prop} (htests : ∀ s, P s → ∀ c ∈ s.tests, C c)
    (hplain : ∀ s, P s → s.blocks = [] →
      R Unit (s.exec robot limits rounds) (s.exec robot' limits' rounds'))
    (hloops : ∀ {test : Eval ρ Bool} {test' : Eval ρ' Bool} {body : Eval ρ Unit}
      {body' : Eval ρ' Unit}, R Bool test test' → R Unit body body' →
      R Unit (Eval.whileHolds test body rounds) (Eval.whileHolds test' body' rounds'))
    {s : Statement} (hs : s.Each P) :
    R Unit (s.exec robot limits rounds) (s.exec robot' limits' rounds') := by
  induction hs with
  | @intro s here inner ih =>
    have hblocks := fun block hblock => h.execAll_of (ih block hblock)
    by_cases hnone : s.blocks = []
    · exact hplain s here hnone
    · rw [Statement.exec_eq, Statement.exec_eq]
      refine h.bind h.checkpoint fun _ =>
        h.effect_of s (htests s here) (fun hnil => absurd hnil hnone) hblocks ?_
      intro block hblock test test' htest
      exact hloops htest (hblocks block hblock)

end FlowCongruence

namespace CallCongruence

variable (h : CallCongruence R robot robot')

include h

theorem sense (word : Sensor) (rank : Int32) :
    R Int32 (Eval.sense robot word rank) (Eval.sense robot' word rank) := by
  refine h.bind ?_ fun used => h.ask _
  unfold usedRank
  split
  · exact h.bind (h.report _) fun _ => h.pure _
  · exact h.pure _

theorem times {body : Eval ρ Unit} {body' : Eval ρ' Unit} (hbody : R Unit body body') :
    ∀ n, R Unit (Eval.times body n) (Eval.times body' n) := by
  intro n
  induction n with
  | zero => exact h.pure ()
  | succ n ih => exact h.bind hbody fun _ => ih

theorem act (action : Action) (repeats : Int32) :
    R Unit (Eval.act robot action repeats) (Eval.act robot' action repeats) := by
  refine h.bind (h.report _) fun _ => ?_
  by_cases hcount : action.takesCount = true
  · rw [if_pos hcount, if_pos hcount]
    exact h.times (h.bind h.checkStop fun _ => h.perform _) _
  · rw [if_neg hcount, if_neg hcount]
    exact h.perform _

end CallCongruence

namespace PartCongruence

variable {P : Expr → Prop} {A : String → Prop}
  (h : PartCongruence P A R robot robot' limits limits' rounds rounds')

include h

theorem expr {e : Expr} (he : e.Each P) : R Int32 (e.eval robot) (e.eval robot') := by
  induction e with
  | number value => exact h.pure value
  | sensor word => exact h.sense word 0
  | ranked word rank ih =>
    exact h.bind (ih he.rank) fun r => h.sense word r
  | var name => exact h.readVar (he _ .here)
  | binary op left right ihl ihr =>
    refine h.bind (ihl he.left) fun l => h.bind (ihr he.right) fun r => ?_
    cases hvalue : op.apply l r with
    | some value => exact h.pure value
    | none =>
      -- the operation that has no value is the expression itself
      obtain rfl := ArithOp.eq_div_of_apply hvalue
      exact h.divisionByZero (he _ .here)

theorem condition {c : Condition} (hc : ∀ e ∈ c.operands, e.Each P) :
    R Bool (c.eval robot) (c.eval robot') := by
  induction c with
  | compare op left right =>
    have hleft := h.expr (hc left (by simp [Condition.operands]))
    have hright := h.expr (hc right (by simp [Condition.operands]))
    exact h.bind hright fun r => h.bind hleft fun l => h.pure _
  | and left right ihl ihr | or left right ihl ihr =>
    have hleft := ihl fun e he => hc e (List.mem_append_left _ he)
    have hright := ihr fun e he => hc e (List.mem_append_right _ he)
    exact h.bind hleft fun l => h.bind hright fun r => h.pure _
  | not inner ih => exact h.bind (ih hc) fun b => h.pure _

theorem flow : FlowCongruence (fun c => ∀ e ∈ c.operands, e.Each P) R robot robot' limits limits'
    rounds rounds' :=
  ⟨h.pure, h.bind, h.condition, h.checkpoint⟩

/-- What a statement without blocks evaluates is its count or its value. -/
theorem plain {s : Statement} (he : ∀ e ∈ s.operands, e.Each P) (ha : ∀ name ∈ s.target?, A name)
    (hnone : s.blocks = []) : R Unit (s.exec robot limits rounds) (s.exec robot' limits' rounds') := by
  rw [Statement.exec_eq, Statement.exec_eq]
  refine h.bind h.checkpoint fun _ => ?_
  unfold Statement.effect
  cases s with
  | action word count =>
    refine h.bind ?_ fun repeats => h.act word repeats
    cases count with
    | none => exact h.pure 1
    | some e => exact h.expr (he e List.mem_cons_self)
  | assign name value =>
    have hvalue := h.expr (he value List.mem_cons_self)
    exact h.bind hvalue fun v => h.bind (h.report _) fun _ => h.assign (ha name rfl) v
  | loop | whileLoop | branch => cases hnone

/-- **The relation holds between the evaluations of a statement** if all its parts have the
property. -/
theorem exec {s : Statement} (he : ∀ e, s.Mentions e → P e) (ha : ∀ name, s.Assigns name → A name) :
    R Unit (s.exec robot limits rounds) (s.exec robot' limits' rounds') := by
  refine h.flow.exec_of ?_ (fun t ht => h.plain ht.1 ht.2) h.whileHolds
    ((Statement.each_operands he).and (Statement.each_target ha))
  intro t ht c hc e hec
  exact ht.1 e (Statement.mem_operands hc hec)

theorem execAll {body : Block} (he : ∀ s ∈ body, ∀ e, s.Mentions e → P e)
    (ha : ∀ s ∈ body, ∀ name, s.Assigns name → A name) :
    R Unit (Statement.execAll robot limits rounds body)
      (Statement.execAll robot' limits' rounds' body) :=
  h.flow.execAll_of fun s hs => h.exec (he s hs) (ha s hs)

end PartCongruence

namespace Congruence

variable (h : Congruence R robot robot' limits limits' rounds rounds')

include h

theorem value : ValueCongruence R robot robot' :=
  ⟨h.pure, h.bind, h.divisionByZero, h.sense, h.readVar⟩

theorem flow : FlowCongruence (fun _ => True) R robot robot' limits limits' rounds rounds' :=
  ⟨h.pure, h.bind, fun {c} _ => h.value.condition c, h.checkpoint⟩

/-- What a statement does is related if its blocks are, once and repeatedly. -/
theorem effect_of (s : Statement)
    (hblocks : ∀ block ∈ s.blocks, R Unit (Statement.execAll robot limits rounds block)
      (Statement.execAll robot' limits' rounds' block))
    (hloops : ∀ block ∈ s.blocks, ∀ {test : Eval ρ Bool} {test' : Eval ρ' Bool}, R Bool test test' →
      R Unit (Eval.whileHolds test (Statement.execAll robot limits rounds block) rounds)
        (Eval.whileHolds test' (Statement.execAll robot' limits' rounds' block) rounds')) :
    R Unit (s.effect robot limits rounds) (s.effect robot' limits' rounds') := by
  refine h.flow.effect_of s (fun _ _ => trivial) (fun hnone => ?_) hblocks hloops
  unfold Statement.effect
  cases s with
  | action word count => exact h.bind (h.value.repeats count) fun n => h.act word n
  | assign name value =>
    exact h.bind (h.value.expr value) fun v => h.bind (h.report _) fun _ => h.assign name v
  | loop | whileLoop | branch => cases hnone

end Congruence

namespace LoopCongruence

variable (h : LoopCongruence R robot robot' limits limits' rounds rounds')

include h

/-- **The relation holds between the evaluations of every statement.** -/
theorem exec (s : Statement) :
    R Unit (s.exec robot limits rounds) (s.exec robot' limits' rounds') := by
  induction s using Statement.induction with
  | step s ih =>
    have hblocks := fun block hblock => h.flow.execAll_of (ih block hblock)
    rw [Statement.exec_eq, Statement.exec_eq]
    refine h.bind h.checkpoint fun _ => h.effect_of s hblocks ?_
    intro block hblock test test' htest
    exact h.whileHolds htest (hblocks block hblock)

theorem execAll (body : Block) :
    R Unit (Statement.execAll robot limits rounds body)
      (Statement.execAll robot' limits' rounds' body) :=
  h.flow.execAll_of fun s _ => h.exec s

/-- The relation holds also past the checkpoint. -/
theorem effect (s : Statement) :
    R Unit (s.effect robot limits rounds) (s.effect robot' limits' rounds') := by
  refine h.effect_of s (fun block _ => h.execAll block) ?_
  intro block _ test test' htest
  exact h.whileHolds htest (h.execAll block)

end LoopCongruence

end Eval

end RobotScript
