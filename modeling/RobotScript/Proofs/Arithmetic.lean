import Mathlib.Data.Int.ModEq
import RobotScript.Proofs.Queries
import RobotScript.Proofs.Truncation

/-!
# Arithmetic on 32 bits

Every operation of an expression wraps around. For sums, differences and products this is the same
as wrapping around once, at the end.

* `Expr.exact`: the value of an expression in unbounded integers.
* `Expr.eval_exact`: without divisions there is a value, and it is the exact one modulo 2^32.
* `Truncates`: what a quotient is; `truncates_div` says that division gives it.
* `Expr.divisions`: the divisions that evaluation comes to, in order. They are those that it visits
  (`Expr.mem_divisions_iff`), and it fails in the first one whose divisor is zero
  (`Expr.eval_cases`).
* `arithmetic_is_exact`: all of this for an expression that an evaluator evaluates.
-/

namespace RobotScript

variable {ρ : Type}

/-- There is no division in the expression. -/
def Expr.Undivided : Expr → Prop
  | .number _ | .sensor _ | .var _ => True
  | .ranked _ rank => rank.Undivided
  | .binary op left right => op ≠ .div ∧ left.Undivided ∧ right.Undivided

/-- The operation on unbounded integers. -/
def ArithOp.exact (left right : Int) : ArithOp → Int
  | .add => left + right
  | .sub => left - right
  | .mul => left * right
  | .div => left.tdiv right

/-- **The value of an expression in unbounded integers**, for given values of the variables and given
readings of its sensors, in the order in which they are asked. The rank of a sensor is asked for
before the sensor itself. -/
def Expr.exact (value : String → Int32) : Expr → List Int32 → Int
  | .number n, _ => n.toInt
  | .var name, _ => (value name).toInt
  | .sensor _, readings | .ranked _ _, readings => (readings.getLastD 0).toInt
  | .binary op left right, readings =>
    op.exact (left.exact value (readings.take left.queries.length))
      (right.exact value (readings.drop left.queries.length))

/-- The readings that a robot gives in calls made one after the other. -/
def Robot.readings (robot : Robot ρ) : Scene ρ → List Call → List Int32
  | _, [] => []
  | scene, .deed deed :: rest => robot.readings (robot.act deed scene) rest
  | scene, .query query :: rest =>
    (robot.sense query scene).1 :: robot.readings (robot.sense query scene).2 rest

theorem Robot.readings_append (robot : Robot ρ) (scene : Scene ρ) (calls more : List Call) :
    robot.readings scene (calls ++ more) =
      robot.readings scene calls ++ robot.readings (robot.follow scene calls) more := by
  induction calls generalizing scene with
  | nil => rfl
  | cons call rest ih =>
    cases call with
    | deed deed => exact ih _
    | query query => exact congrArg (_ :: ·) (ih _)

/-- **Between two states the robot gave these readings**, and no variable changed its value. -/
structure Run.Heard (robot : Robot ρ) (run after : Run ρ) (readings : List Int32) : Prop where
  values (name : String) : after.store.value name = run.store.value name
  answers : ∃ calls, Trace.calls after.trace.reverse = Trace.calls run.trace.reverse ++ calls ∧
    after.scene = robot.follow run.scene calls ∧ robot.readings run.scene calls = readings

namespace Run.Heard

variable {robot : Robot ρ} {run mid after : Run ρ} {readings more : List Int32}

theorem refl (run : Run ρ) : Heard robot run run [] :=
  ⟨fun _ => rfl, [], (List.append_nil _).symm, rfl, rfl⟩

theorem trans (h : Heard robot run mid readings) (h' : Heard robot mid after more) :
    Heard robot run after (readings ++ more) := by
  obtain ⟨calls, hcalls, hscene, hreadings⟩ := h.answers
  obtain ⟨calls', hcalls', hscene', hreadings'⟩ := h'.answers
  refine ⟨fun name => (h'.values name).trans (h.values name), calls ++ calls', ?_, ?_, ?_⟩
  · rw [hcalls', hcalls, List.append_assoc]
  · rw [hscene', hscene]
    exact List.foldl_append.symm
  · rw [robot.readings_append, hreadings, ← hscene, hreadings']

end Run.Heard

namespace Eval

variable (robot : Robot ρ)

theorem readVar_heard (name : String) (run : Run ρ) : ∃ after,
    readVar name run = .ok (run.store.value name) after ∧ run.Heard robot after [] := by
  refine ⟨{ run with store := (run.store.read name).2 }, ?_, ?_⟩
  · rw [← run.store.read_value]; rfl
  · exact ⟨run.store.value_read name, [], (List.append_nil _).symm, rfl, rfl⟩

/-- A sensor gives one reading. -/
theorem sense_heard (word : Sensor) (r : Int32) (run : Run ρ) : ∃ reading after,
    sense robot word r run = .ok reading after ∧ run.Heard robot after [reading] := by
  rw [sense_eq]
  refine ⟨_, _, rfl, fun _ => rfl, [.query (word.query (if r ≤ 13 then r else 0))], ?_, rfl, rfl⟩
  rw [Run.Alike.calls_call, List.reverse_append, Trace.calls_append, calls_warning, List.append_nil]

end Eval

theorem ArithOp.apply_exact {op : ArithOp} (h : op ≠ .div) {l r : Int32} {a b : Int}
    (hl : l.toInt ≡ a [ZMOD 2 ^ 32]) (hr : r.toInt ≡ b [ZMOD 2 ^ 32]) :
    ∃ v, op.apply l r = some v ∧ v.toInt ≡ op.exact a b [ZMOD 2 ^ 32] := by
  have hwrap : ∀ i : Int, i.bmod (2 ^ 32) ≡ i [ZMOD 2 ^ 32] := fun i => Int.bmod_emod
  cases op with
  | add => exact ⟨l + r, rfl, by rw [Int32.toInt_add]; exact (hwrap _).trans (hl.add hr)⟩
  | sub => exact ⟨l - r, rfl, by rw [Int32.toInt_sub]; exact (hwrap _).trans (hl.sub hr)⟩
  | mul => exact ⟨l * r, rfl, by rw [Int32.toInt_mul]; exact (hwrap _).trans (hl.mul hr)⟩
  | div => exact absurd rfl h

/-- Of the integers that are congruent to a given one, a number of 32 bits is one. -/
theorem eq_toInt_iff {v : Int32} {a : Int} (h : v.toInt ≡ a [ZMOD 2 ^ 32]) (i : Int) :
    (-2 ^ 31 ≤ i ∧ i < 2 ^ 31 ∧ i ≡ a [ZMOD 2 ^ 32]) ↔ i = v.toInt := by
  have hlow := v.le_toInt
  have hhigh := v.toInt_lt
  constructor
  · rintro ⟨hi, hi', hmod⟩
    have hsame : i ≡ v.toInt [ZMOD 2 ^ 32] := hmod.trans h.symm
    unfold Int.ModEq at hsame
    omega
  · rintro rfl
    exact ⟨hlow, hhigh, h⟩

theorem ArithOp.div_apply_eq_some {l r v : Int32} (h : ArithOp.div.apply l r = some v) : r ≠ 0 := by
  rintro rfl
  cases h

theorem ArithOp.div_apply_eq_none {l r : Int32} (h : ArithOp.div.apply l r = none) : r = 0 := by
  by_contra hne
  rw [ArithOp.apply, if_neg hne] at h
  cases h

section

variable {robot : Robot ρ} {op : ArithOp} {left right : Expr} {run mid after : Run ρ} {l r : Int32}
  (hl : left.eval robot run = .ok l mid) (hr : right.eval robot mid = .ok r after)

include hl hr

theorem Expr.eval_binary {v : Int32} (hv : op.apply l r = some v) :
    (Expr.binary op left right).eval robot run = .ok v after := by
  refine (bind_eq_of_ok hl).trans ((bind_eq_of_ok hr).trans ?_)
  simp only [hv]
  rfl

theorem Expr.eval_binary_none (hv : op.apply l r = none) :
    (Expr.binary op left right).eval robot run =
      .error (.error (.divisionByZero (Expr.binary op left right).render)) after := by
  refine (bind_eq_of_ok hl).trans ((bind_eq_of_ok hr).trans ?_)
  simp only [hv]
  rfl

end

/-- **Without divisions there is a value**, and modulo 2^32 it is the exact one. -/
theorem Expr.eval_exact (robot : Robot ρ) {e : Expr} (h : e.Undivided) (run : Run ρ) :
    ∃ v after readings, e.eval robot run = .ok v after ∧ run.Heard robot after readings ∧
      readings.length = e.queries.length ∧
      v.toInt ≡ e.exact run.store.value readings [ZMOD 2 ^ 32] := by
  induction e generalizing run with
  | number n => exact ⟨n, run, [], rfl, .refl run, rfl, .refl _⟩
  | var name =>
    obtain ⟨after, hread, hheard⟩ := Eval.readVar_heard robot name run
    exact ⟨_, after, [], hread, hheard, rfl, .refl _⟩
  | sensor word =>
    obtain ⟨reading, after, hsense, hheard⟩ := Eval.sense_heard robot word 0 run
    exact ⟨reading, after, [reading], hsense, hheard, rfl, .refl _⟩
  | ranked word rank ih =>
    obtain ⟨r, mid, readings, hrank, hheard, hlength, -⟩ := ih h run
    obtain ⟨reading, after, hsense, hheard'⟩ := Eval.sense_heard robot word r mid
    refine ⟨reading, after, readings ++ [reading], ?_, hheard.trans hheard', ?_, ?_⟩
    · exact (bind_eq_of_ok hrank).trans hsense
    · simp [Expr.queries, hlength]
    · simp [Expr.exact]
  | binary op left right ihl ihr =>
    obtain ⟨hop, hleft, hright⟩ := h
    obtain ⟨l, mid, readings, hl, hheard, hlength, hexact⟩ := ihl hleft run
    obtain ⟨r, after, more, hr, hheard', hlength', hexact'⟩ := ihr hright mid
    have hvalues : mid.store.value = run.store.value := funext hheard.values
    rw [hvalues] at hexact'
    obtain ⟨v, hv, hvexact⟩ := ArithOp.apply_exact hop hexact hexact'
    refine ⟨v, after, readings ++ more, Expr.eval_binary hl hr hv, hheard.trans hheard', ?_, ?_⟩
    · simp [Expr.queries, hlength, hlength']
    · rw [Expr.exact, List.take_left' hlength, List.drop_left' hlength]
      exact hvexact

/-- **The quotient of two numbers, toward zero**: what remains is smaller than the divisor, and is
zero or has the sign of the dividend. Only one quotient is out of range, and wraps around. -/
structure Truncates (dividend divisor quotient : Int32) : Prop where
  exact (inRange : ¬ (dividend.toInt = -2 ^ 31 ∧ divisor.toInt = -1)) :
    ∃ m : Int, dividend.toInt = quotient.toInt * divisor.toInt + m ∧
      m.natAbs < divisor.toInt.natAbs ∧ (m = 0 ∨ m.sign = dividend.toInt.sign)
  wraps (least : dividend.toInt = -2 ^ 31) (minus : divisor.toInt = -1) : quotient.toInt = -2 ^ 31

theorem truncates_div (l : Int32) {r : Int32} (h : r ≠ 0) : Truncates l r (l / r) := by
  have hleast : l.toInt = -2 ^ 31 ↔ l = Int32.minValue := by
    rw [← Int32.toInt_inj, Int32.toInt_minValue]
  have hminus : r.toInt = -1 ↔ r = -1 := by
    rw [← Int32.toInt_inj]; rfl
  constructor
  · intro inRange
    rw [hleast, hminus] at inRange
    have hquotient : (l / r).toInt = l.toInt.tdiv r.toInt := by
      by_cases hl : l = Int32.minValue
      · exact Int32.toInt_div_of_ne_right l r fun hr => inRange ⟨hl, hr⟩
      · exact Int32.toInt_div_of_ne_left l r hl
    have hzero : r.toInt ≠ 0 := fun hr => h (Int32.toInt_inj.1 hr)
    refine ⟨l.toInt.tmod r.toInt, ?_, ?_, ?_⟩
    · rw [hquotient]
      exact (Int.tdiv_mul_add_tmod _ _).symm
    · rw [Int.natAbs_tmod]
      exact Nat.mod_lt _ (Int.natAbs_pos.2 hzero)
    · have hsign := Int.sign_tmod l.toInt r.toInt
      by_cases hdvd : r.toInt ∣ l.toInt
      · rw [if_pos hdvd] at hsign
        exact .inl (Int.sign_eq_zero_iff_zero.1 hsign)
      · rw [if_neg hdvd] at hsign
        exact .inr hsign
  · intro least minus
    rw [hleast.1 least, hminus.1 minus]
    decide

/-- A division with the values of its operands. -/
structure Division where
  left : Expr
  right : Expr
  dividend : Int32
  divisor : Int32

def Division.node (d : Division) : Expr := .binary .div d.left d.right

/-- **The divisions that evaluation comes to**, in the order in which it does so. It does not come to
what stands after an operand that has no value. -/
def Expr.divisions (robot : Robot ρ) : Expr → Run ρ → List Division
  | .number _, _ | .sensor _, _ | .var _, _ => []
  | .ranked _ rank, run => rank.divisions robot run
  | .binary op left right, run =>
    left.divisions robot run ++
      match left.eval robot run with
      | .error _ _ => []
      | .ok l mid =>
        right.divisions robot mid ++
          match right.eval robot mid with
          | .error _ _ => []
          | .ok r _ => if op = .div then [⟨left, right, l, r⟩] else []

/-- **Evaluation gives a value, or fails in the first division by zero.** -/
theorem Expr.eval_cases (robot : Robot ρ) (e : Expr) (run : Run ρ) :
    (∃ v after, e.eval robot run = .ok v after ∧ ∀ d ∈ e.divisions robot run, d.divisor ≠ 0) ∨
    ∃ before d after, e.eval robot run = .error (.error (.divisionByZero d.node.render)) after ∧
      e.divisions robot run = before ++ [d] ∧ d.divisor = 0 ∧ ∀ d' ∈ before, d'.divisor ≠ 0 := by
  induction e generalizing run with
  | number n => exact .inl ⟨n, run, rfl, nofun⟩
  | var name =>
    obtain ⟨after, hread, -⟩ := Eval.readVar_heard robot name run
    exact .inl ⟨_, after, hread, nofun⟩
  | sensor word =>
    obtain ⟨reading, after, hsense, -⟩ := Eval.sense_heard robot word 0 run
    exact .inl ⟨reading, after, hsense, nofun⟩
  | ranked word rank ih =>
    rcases ih run with ⟨r, mid, hrank, hnone⟩ | ⟨before, d, after, hrank, hfirst⟩
    · obtain ⟨reading, after, hsense, -⟩ := Eval.sense_heard robot word r mid
      exact .inl ⟨reading, after, (bind_eq_of_ok hrank).trans hsense, hnone⟩
    · exact .inr ⟨before, d, after, bind_eq_of_error hrank, hfirst⟩
  | binary op left right ihl ihr =>
    rcases ihl run with ⟨l, mid, hl, hnone⟩ | ⟨before, d, after, hl, hbefore, hzero, hnone⟩
    · rcases ihr mid with ⟨r, after, hr, hnone'⟩ | ⟨before, d, after, hr, hbefore, hzero, hnone'⟩
      · have hdivisions : (Expr.binary op left right).divisions robot run = left.divisions robot run ++
            (right.divisions robot mid ++ if op = .div then [⟨left, right, l, r⟩] else []) := by
          simp only [Expr.divisions, hl, hr]
        cases hv : op.apply l r with
        | some v =>
          left
          refine ⟨v, after, Expr.eval_binary hl hr hv, fun d hd => ?_⟩
          rw [hdivisions, List.mem_append, List.mem_append] at hd
          rcases hd with hd | hd | hd
          · exact hnone d hd
          · exact hnone' d hd
          · split at hd
            · next hop =>
              subst hop
              rw [List.mem_singleton.1 hd]
              exact ArithOp.div_apply_eq_some hv
            · cases hd
        | none =>
          right
          obtain rfl := ArithOp.eq_div_of_apply hv
          have hzero := ArithOp.div_apply_eq_none hv
          refine ⟨left.divisions robot run ++ right.divisions robot mid, ⟨left, right, l, r⟩, after,
            Expr.eval_binary_none hl hr hv, ?_, hzero, fun d hd => ?_⟩
          · rw [hdivisions, if_pos rfl, List.append_assoc]
          · exact (List.mem_append.1 hd).elim (hnone d) (hnone' d)
      · right
        refine ⟨left.divisions robot run ++ before, d, after,
          (bind_eq_of_ok hl).trans (bind_eq_of_error hr), ?_, hzero, ?_⟩
        · simp [Expr.divisions, hl, hr, hbefore]
        · exact fun d' hd' => (List.mem_append.1 hd').elim (hnone d') (hnone' d')
    · right
      refine ⟨before, d, after, bind_eq_of_error hl, ?_, hzero, hnone⟩
      simp [Expr.divisions, hl, hbefore]

theorem Expr.eval_fails_iff {robot : Robot ρ} {e : Expr} {run : Run ρ} :
    (∃ halt after, e.eval robot run = .error halt after) ↔
      ∃ d ∈ e.divisions robot run, d.divisor = 0 := by
  rcases e.eval_cases robot run with ⟨v, last, heval, hnone⟩ |
    ⟨before, d, last, heval, hdivisions, hzero, -⟩
  · constructor
    · rintro ⟨halt, after, h⟩
      rw [heval] at h
      cases h
    · rintro ⟨d, hd, hzero⟩
      exact absurd hzero (hnone d hd)
  · refine ⟨fun _ => ⟨d, ?_, hzero⟩, fun _ => ⟨_, last, heval⟩⟩
    rw [hdivisions]
    exact List.mem_append_right _ (List.mem_singleton_self d)

theorem Expr.eval_first {robot : Robot ρ} {e : Expr} {run : Run ρ} {before rest : List Division}
    {d : Division} (hreached : e.divisions robot run = before ++ d :: rest) (hzero : d.divisor = 0)
    (hearlier : ∀ d' ∈ before, d'.divisor ≠ 0) :
    ∃ after, e.eval robot run = .error (.error (.divisionByZero d.node.render)) after := by
  rcases e.eval_cases robot run with ⟨v, last, heval, hnone⟩ |
    ⟨before', d', last, heval, hdivisions, hzero', hnone⟩
  · refine absurd hzero (hnone d ?_)
    rw [hreached]
    exact List.mem_append_right _ List.mem_cons_self
  · -- a list has one first element of a kind
    have hfirst : (e.divisions robot run).find? (·.divisor == 0) = some d :=
      List.find?_eq_some_iff_append.2 ⟨by simpa using hzero, before, rest, hreached, by simpa⟩
    have hfirst' : (e.divisions robot run).find? (·.divisor == 0) = some d' :=
      List.find?_eq_some_iff_append.2 ⟨by simpa using hzero', before', [], hdivisions, by simpa⟩
    rw [Option.some.inj (hfirst.symm.trans hfirst')]
    exact ⟨last, heval⟩

/-- Evaluation comes to exactly these divisions, and their operands have these values there. -/
theorem Expr.mem_divisions_iff {robot : Robot ρ} {e : Expr} {run : Run ρ} {d : Division} :
    d ∈ e.divisions robot run ↔ ∃ there mid last, e.Visits robot run d.node there ∧
      d.left.eval robot there = .ok d.dividend mid ∧ d.right.eval robot mid = .ok d.divisor last := by
  constructor
  · intro h
    induction e generalizing run with
    | number | sensor | var => cases h
    | ranked word rank ih =>
      obtain ⟨there, mid, last, hvisits, hvalues⟩ := ih h
      exact ⟨there, mid, last, .rank hvisits, hvalues⟩
    | binary op left right ihl ihr =>
      rw [Expr.divisions, List.mem_append] at h
      rcases h with h | h
      · obtain ⟨there, mid, last, hvisits, hvalues⟩ := ihl h
        exact ⟨there, mid, last, .left hvisits, hvalues⟩
      · cases hl : left.eval robot run with
        | error halt mid => simp only [hl] at h; cases h
        | ok l mid =>
          simp only [hl, List.mem_append] at h
          rcases h with h | h
          · obtain ⟨there, mid', last, hvisits, hvalues⟩ := ihr h
            exact ⟨there, mid', last, .right hl hvisits, hvalues⟩
          · cases hr : right.eval robot mid with
            | error halt last => simp only [hr] at h; cases h
            | ok r last =>
              simp only [hr] at h
              split at h
              · next hop =>
                subst hop
                obtain rfl := List.mem_singleton.1 h
                exact ⟨run, mid, last, .here, hl, hr⟩
              · cases h
  · rintro ⟨there, mid, last, hvisits, hl, hr⟩
    obtain ⟨left, right, l, r⟩ := d
    generalize hnode : Division.node _ = node at hvisits
    induction hvisits with
    | here =>
      subst hnode
      have hl : left.eval robot _ = .ok l mid := hl
      have hr : right.eval robot mid = .ok r last := hr
      simp only [Division.node, Expr.divisions, hl, hr, if_pos]
      exact List.mem_append_right _ (List.mem_append_right _ (List.mem_singleton_self _))
    | rank _ ih => exact ih hl hnode
    | left _ ih => exact List.mem_append_left _ (ih hl hnode)
    | right first _ ih =>
      simp only [Expr.divisions, first]
      exact List.mem_append_right _ (List.mem_append_left _ (ih hl hnode))

/-- **What an evaluator makes of an expression.** -/
structure Stage.ComputesExactly (robot : Robot ρ) (stage : Stage ρ) (e : Expr) : Prop where
  /-- Without divisions there is a value. It is the one number of 32 bits that is congruent to the
  exact value, for the readings that were given to the sensors of the expression. -/
  undivided (h : e.Undivided) : ∃ v trace after, stage.run (e.eval robot) = (.ok v, trace, after) ∧
    trace.calls.map Call.sensor? = e.queries.map some ∧
    ∀ i : Int, (-2 ^ 31 ≤ i ∧ i < 2 ^ 31 ∧ i ≡ e.exact stage.evaluator.store.value
      (robot.readings stage.toRun.scene trace.calls) [ZMOD 2 ^ 32]) ↔ i = v.toInt
  /-- Evaluation comes to a division with these operands exactly if it is listed. -/
  reaches (d : Division) : d ∈ e.divisions robot stage.toRun ↔ ∃ there mid last,
    e.Visits robot stage.toRun d.node there ∧ d.left.eval robot there = .ok d.dividend mid ∧
      d.right.eval robot mid = .ok d.divisor last
  /-- Every division that evaluation comes to has a quotient, unless the divisor is zero. -/
  quotient (d : Division) {there mid last : Run ρ} (nonzero : d.divisor ≠ 0)
    (visited : e.Visits robot stage.toRun d.node there)
    (dividend : d.left.eval robot there = .ok d.dividend mid)
    (divisor : d.right.eval robot mid = .ok d.divisor last) :
    ∃ q, d.node.eval robot there = .ok q last ∧ Truncates d.dividend d.divisor q
  /-- It fails exactly if it comes to a division by zero. -/
  fails : (∃ halt, (stage.run (e.eval robot)).1 = .error halt) ↔
    ∃ d ∈ e.divisions robot stage.toRun, d.divisor = 0
  /-- Then the error quotes the first such division. -/
  first (before : List Division) (d : Division) (rest : List Division)
    (reached : e.divisions robot stage.toRun = before ++ d :: rest) (zero : d.divisor = 0)
    (earlier : ∀ d' ∈ before, d'.divisor ≠ 0) :
    (stage.run (e.eval robot)).1 = .error (.error (.divisionByZero d.node.render))

/-- **Arithmetic is exact modulo 2^32**, division goes toward zero, and fails only by zero. -/
theorem arithmetic_is_exact (robot : Robot ρ) (stage : Stage ρ) (e : Expr) :
    stage.ComputesExactly robot e := by
  constructor
  case undivided =>
    intro h
    obtain ⟨v, last, readings, heval, hheard, -, hexact⟩ := e.eval_exact robot h stage.toRun
    have hrun := Stage.run_ok heval
    refine ⟨v, _, _, hrun, ?_, fun i => ?_⟩
    · exact ((e.follows robot stage.toRun).callsFollow e.queries_errands).ok hrun
    · -- the trace of a stage is empty at first, so its calls are those that were made here
      obtain ⟨calls, hcalls, -, hreadings⟩ := hheard.answers
      have hcalls : Trace.calls last.trace.reverse = calls := hcalls
      rw [hcalls, hreadings]
      exact eq_toInt_iff hexact i
  case reaches => exact fun d => Expr.mem_divisions_iff
  case quotient =>
    intro d there mid last nonzero _ hl hr
    have hvalue : ArithOp.div.apply d.dividend d.divisor = some (d.dividend / d.divisor) :=
      if_neg nonzero
    exact ⟨_, Expr.eval_binary hl hr hvalue, truncates_div _ nonzero⟩
  case fails =>
    rw [← Expr.eval_fails_iff]
    constructor
    · rintro ⟨halt, h⟩
      cases heval : e.eval robot stage.toRun with
      | ok v last => rw [Stage.run_ok heval] at h; cases h
      | error halt' last => exact ⟨halt', last, rfl⟩
    · rintro ⟨halt, last, heval⟩
      rw [Stage.run_error heval]
      exact ⟨halt, rfl⟩
  case first =>
    intro before d rest reached zero earlier
    obtain ⟨last, heval⟩ := Expr.eval_first reached zero earlier
    rw [Stage.run_error heval]

end RobotScript
