import Mathlib.Data.List.Induction
import RobotScript.Evaluator

/-!
# Signals are shared along clones

Which handles belong together is said from the operations alone: a handle that was made anew, and
every handle that was cloned from it or from one of its clones.

* `Panel.Family`: the handles that belong to one that was made anew.
* `Panel.Step`: what one operation does to a panel.
* `Panel.family_iff`: a family is all the handles on one signal.
* `Panel.raised_iff`: a signal is raised if the last operation on its handles stopped one of them.
* `Panel.StaysWith`: an evaluator stays in the family of the handle it was given.
* `signals_are_shared_along_clones`: so for every handle of a panel.
-/

namespace RobotScript

namespace Panel

namespace Operation

/-- Whether the operation makes a handle. -/
def makes : Operation → Bool
  | .fresh | .default | .clone _ => true
  | .stop _ | .reset _ => false

/-- The handle that the operation is applied to. -/
def handle? : Operation → Option Nat
  | .fresh | .default => none
  | .clone i | .stop i | .reset i => some i

end Operation

/-- The panel after operations, made one after the other. -/
def after (ops : List Operation) : Panel := ops.foldl apply {}

/-- How many handles operations make. -/
def made (ops : List Operation) : Nat := ops.countP Operation.makes

/-- **Every operation is applied to a handle that was made before.** -/
def Grounded (ops : List Operation) : Prop :=
  ∀ before op, before ++ [op] <+: ops → ∀ i ∈ op.handle?, i < made before

/-- The handle `j` was made anew. -/
def MadeAnew (ops : List Operation) (j : Nat) : Prop :=
  ∃ before op, before ++ [op] <+: ops ∧ (op = .fresh ∨ op = .default) ∧ made before = j

/-- The handle `j` was made as a clone of the handle `i`. -/
def Cloned (ops : List Operation) (i j : Nat) : Prop :=
  ∃ before, before ++ [.clone i] <+: ops ∧ made before = j

/-- **The family of a handle that was made anew**: that handle and all that were cloned from one of
the family. -/
inductive Family (ops : List Operation) (root : Nat) : Nat → Prop
  | root (anew : MadeAnew ops root) : Family ops root root
  | clone {i j : Nat} (parent : Family ops root i) (cloned : Cloned ops i j) : Family ops root j

/-- **The last operation that stopped or reset a handle of the family stopped it.** -/
def LastStopped (ops : List Operation) (root : Nat) : Prop :=
  ∃ before i later, ops = before ++ .stop i :: later ∧ Family ops root i ∧
    ∀ j, Family ops root j → .stop j ∉ later ∧ .reset j ∉ later

variable {ops before : List Operation} {op : Operation} {panel : Panel} {i j root root' : Nat}
  {signal : Signal}

theorem after_concat (ops : List Operation) (op : Operation) :
    after (ops ++ [op]) = (after ops).apply op := by
  unfold after
  rw [List.foldl_append]; rfl

theorem made_concat (ops : List Operation) (op : Operation) :
    made (ops ++ [op]) = made ops + if op.makes then 1 else 0 := by
  unfold made
  rw [List.countP_append, List.countP_singleton]

theorem made_mono (h : before <+: ops) : made before ≤ made ops := h.sublist.countP_le

/-- An operation that makes a handle counts it. -/
theorem made_lt (h : before ++ [op] <+: ops) (hmakes : op.makes = true) :
    made before < made ops := by
  have hle := made_mono h
  rw [made_concat, if_pos hmakes] at hle
  omega

theorem Grounded.mono (h : Grounded ops) (hbefore : before <+: ops) : Grounded before :=
  fun before' op hop => h before' op (hop.trans hbefore)

theorem Grounded.concat (h : Grounded ops) (op : Operation)
    (hop : ∀ i ∈ op.handle?, i < made ops) : Grounded (ops ++ [op]) := by
  intro before op' hbefore
  rcases List.prefix_concat_iff.1 hbefore with heq | hbefore
  · obtain ⟨rfl, hlast⟩ := List.append_inj' heq rfl
    obtain rfl := List.singleton_inj.1 hlast
    exact hop
  · exact h before op' hbefore

/-- **What one operation does to a panel**: it adds a handle on a new signal, adds one on the signal
of another handle, or raises or lowers the signal of a handle. -/
inductive Step (panel : Panel) : Operation → Panel → Prop
  | anew {op : Operation} (isAnew : op = .fresh ∨ op = .default) :
      Step panel op ⟨panel.board.fresh.2, panel.handles ++ [⟨panel.board.families⟩]⟩
  | clone {i : Nat} {signal : Signal} (found : panel.handles[i]? = some signal) :
      Step panel (.clone i) ⟨panel.board, panel.handles ++ [signal]⟩
  | stop {i : Nat} {signal : Signal} (found : panel.handles[i]? = some signal) :
      Step panel (.stop i) ⟨panel.board.put signal true, panel.handles⟩
  | reset {i : Nat} {signal : Signal} (found : panel.handles[i]? = some signal) :
      Step panel (.reset i) ⟨panel.board.put signal false, panel.handles⟩

theorem apply_clone (found : panel.handles[i]? = some signal) :
    panel.apply (.clone i) = ⟨panel.board, panel.handles ++ [signal]⟩ := by
  simp only [apply, found]; rfl

theorem apply_stop (found : panel.handles[i]? = some signal) :
    panel.apply (.stop i) = ⟨panel.board.put signal true, panel.handles⟩ := by
  simp only [apply, found]; rfl

theorem apply_reset (found : panel.handles[i]? = some signal) :
    panel.apply (.reset i) = ⟨panel.board.put signal false, panel.handles⟩ := by
  simp only [apply, found]; rfl

theorem step_apply (h : ∀ i ∈ op.handle?, i < panel.handles.length) :
    Step panel op (panel.apply op) := by
  have hfound : ∀ i ∈ op.handle?, ∃ signal, panel.handles[i]? = some signal := fun i hi =>
    ⟨_, List.getElem?_eq_getElem (h i hi)⟩
  cases op with
  | fresh => exact .anew (.inl rfl)
  | default => exact .anew (.inr rfl)
  | clone i =>
    obtain ⟨signal, hsignal⟩ := hfound i rfl
    rw [apply_clone hsignal]
    exact .clone hsignal
  | stop i =>
    obtain ⟨signal, hsignal⟩ := hfound i rfl
    rw [apply_stop hsignal]
    exact .stop hsignal
  | reset i =>
    obtain ⟨signal, hsignal⟩ := hfound i rfl
    rw [apply_reset hsignal]
    exact .reset hsignal

theorem Step.length {panel' : Panel} (h : Step panel op panel') :
    panel'.handles.length = panel.handles.length + if op.makes then 1 else 0 := by
  cases h with
  | anew isAnew => rcases isAnew with rfl | rfl <;> simp [Operation.makes]
  | clone | stop | reset => simp [Operation.makes]

/-- There are as many handles as were made. -/
theorem length_after (h : Grounded ops) : (after ops).handles.length = made ops := by
  induction ops using List.reverseRecOn with
  | nil => rfl
  | append_singleton ops op ih =>
    have hlength := ih (h.mono (List.prefix_append _ _))
    have hhandle := h ops op (List.prefix_refl _)
    rw [← hlength] at hhandle
    rw [after_concat, (step_apply hhandle).length, made_concat, hlength]

/-- **Every operation of a grounded run is a step.** -/
theorem Grounded.step (h : Grounded (ops ++ [op])) : Step (after ops) op (after (ops ++ [op])) := by
  have hhandle := h ops op (List.prefix_refl _)
  rw [← length_after (h.mono (List.prefix_append _ _))] at hhandle
  rw [after_concat]
  exact step_apply hhandle

theorem Step.handles_prefix {panel' : Panel} (h : Step panel op panel') :
    panel.handles <+: panel'.handles := by
  cases h with
  | anew | clone => exact List.prefix_append _ _
  | stop | reset => exact List.prefix_refl _

theorem handles_prefix (h : Grounded ops) (hbefore : before <+: ops) :
    (after before).handles <+: (after ops).handles := by
  induction ops using List.reverseRecOn with
  | nil =>
    obtain rfl := List.prefix_nil.1 hbefore
    exact List.prefix_refl _
  | append_singleton ops op ih =>
    rcases List.prefix_concat_iff.1 hbefore with rfl | hbefore
    · exact List.prefix_refl _
    · exact (ih (h.mono (List.prefix_append _ _)) hbefore).trans h.step.handles_prefix

/-- **A handle keeps the signal that it was made with.** -/
theorem handle_kept (h : Grounded ops) (hbefore : before <+: ops) (hi : i < made before) :
    (after ops).handles[i]? = (after before).handles[i]? := by
  obtain ⟨more, hmore⟩ := handles_prefix h hbefore
  rw [← length_after (h.mono hbefore)] at hi
  rw [← hmore, List.getElem?_append_left hi]

/-- The handle that an operation adds comes last. -/
theorem handle_added (h : Grounded ops) (hbefore : before ++ [op] <+: ops) (signal : Signal)
    (hadded : (after (before ++ [op])).handles = (after before).handles ++ [signal]) :
    (after ops).handles[made before]? = some signal := by
  have hgrounded := h.mono hbefore
  have hlength := length_after (hgrounded.mono (List.prefix_append before [op]))
  have hlt : made before < made (before ++ [op]) := by
    rw [← length_after hgrounded, hadded, List.length_append, hlength]
    exact Nat.lt_succ_self _
  rw [handle_kept h hbefore hlt, hadded, ← hlength, List.getElem?_concat_length]

/-- A clone is on the signal of the handle it was made from. -/
theorem handle_of_cloned (h : Grounded ops) (hcloned : Cloned ops i j) :
    (after ops).handles[j]? = (after ops).handles[i]? := by
  obtain ⟨before, hbefore, rfl⟩ := hcloned
  have hkept := handle_kept h ((List.prefix_append before _).trans hbefore)
    (h before _ hbefore i rfl)
  have hadded := handle_added h hbefore
  have hstep := (h.mono hbefore).step
  -- the panel after the clone is kept as a variable, so that the step tells which one it is
  generalize after (before ++ [.clone i]) = last at hstep hadded
  cases hstep with
  | anew isAnew => rcases isAnew with h | h <;> cases h
  | clone found => rw [hadded _ rfl, hkept, found]

/-- Every signal of a handle is one of those there are. -/
theorem family_lt (h : Grounded ops) :
    ∀ signal ∈ (after ops).handles, signal.family < (after ops).board.families := by
  induction ops using List.reverseRecOn with
  | nil => intro signal hsignal; cases hsignal
  | append_singleton ops op ih =>
    have hbound := ih (h.mono (List.prefix_append _ _))
    have hstep := h.step
    generalize after (ops ++ [op]) = last at hstep ⊢
    cases hstep with
    | anew =>
      intro signal hsignal
      rcases List.mem_append.1 hsignal with hsignal | hsignal
      · exact Nat.lt_succ_of_lt (hbound signal hsignal)
      · obtain rfl := List.mem_singleton.1 hsignal
        exact Nat.lt_succ_self _
    | clone found =>
      intro signal hsignal
      rcases List.mem_append.1 hsignal with hsignal | hsignal
      · exact hbound signal hsignal
      · obtain rfl := List.mem_singleton.1 hsignal
        exact hbound _ (List.mem_of_getElem? found)
    | stop | reset => exact hbound

/-- A handle made anew is on a signal that no handle before it is on. -/
theorem handle_ne_of_madeAnew (h : Grounded ops) (hanew : MadeAnew ops j) (hi : i < j) :
    (after ops).handles[i]? ≠ (after ops).handles[j]? := by
  obtain ⟨before, op, hbefore, hop, rfl⟩ := hanew
  have hprefix := (List.prefix_append before [op]).trans hbefore
  have hkept := handle_kept h hprefix hi
  have hbound := family_lt (h.mono hprefix)
  have hadded := handle_added h hbefore
  have hstep := (h.mono hbefore).step
  generalize after (before ++ [op]) = last at hstep hadded
  cases hstep with
  | anew =>
    rw [hadded _ rfl, hkept]
    intro heq
    exact Nat.lt_irrefl _ (hbound _ (List.mem_of_getElem? heq))
  | clone | stop | reset => rcases hop with h | h <;> cases h

/-- Every handle was made by some operation. -/
theorem exists_made (hi : i < made ops) :
    ∃ before op, before ++ [op] <+: ops ∧ op.makes = true ∧ made before = i := by
  induction ops using List.reverseRecOn with
  | nil => cases hi
  | append_singleton ops op ih =>
    rcases Nat.lt_or_ge i (made ops) with hlt | hge
    · obtain ⟨before, op', hbefore, hmakes⟩ := ih hlt
      exact ⟨before, op', hbefore.trans (List.prefix_append _ _), hmakes⟩
    · rw [made_concat] at hi
      by_cases hmakes : op.makes = true
      · rw [if_pos hmakes] at hi
        exact ⟨ops, op, List.prefix_refl _, hmakes, by omega⟩
      · rw [if_neg hmakes] at hi
        omega

theorem Family.handle_eq (h : Grounded ops) (hi : Family ops root i) :
    (after ops).handles[i]? = (after ops).handles[root]? := by
  induction hi with
  | root => rfl
  | clone _ hcloned ih => rw [handle_of_cloned h hcloned, ih]

theorem Family.madeAnew (hi : Family ops root i) : MadeAnew ops root := by
  induction hi with
  | root hanew => exact hanew
  | clone _ _ ih => exact ih

theorem Family.lt_made (hi : Family ops root i) : i < made ops := by
  cases hi with
  | root hanew =>
    obtain ⟨before, op, hbefore, hop, rfl⟩ := hanew
    exact made_lt hbefore (by rcases hop with rfl | rfl <;> rfl)
  | clone _ hcloned =>
    obtain ⟨before, hbefore, rfl⟩ := hcloned
    exact made_lt hbefore rfl

/-- **Every handle descends from one made anew.** -/
theorem exists_root (h : Grounded ops) (hi : i < made ops) : ∃ root, Family ops root i := by
  -- a clone was made from an earlier handle, so the way back to the root ends
  induction i using Nat.strongRecOn with
  | ind i ih =>
    obtain ⟨before, op, hbefore, hmakes, rfl⟩ := exists_made hi
    cases op with
    | fresh => exact ⟨_, .root ⟨before, .fresh, hbefore, .inl rfl, rfl⟩⟩
    | default => exact ⟨_, .root ⟨before, .default, hbefore, .inr rfl, rfl⟩⟩
    | clone j =>
      have hj : j < made before := h before _ hbefore j rfl
      obtain ⟨root, hroot⟩ := ih j hj (Nat.lt_trans hj hi)
      exact ⟨root, .clone hroot ⟨before, hbefore, rfl⟩⟩
    | stop | reset => cases hmakes

theorem madeAnew_unique (h : Grounded ops) (hroot : MadeAnew ops root)
    (hroot' : MadeAnew ops root')
    (heq : (after ops).handles[root]? = (after ops).handles[root']?) : root = root' := by
  rcases Nat.lt_trichotomy root root' with hlt | rfl | hlt
  · exact absurd heq (handle_ne_of_madeAnew h hroot' hlt)
  · rfl
  · exact absurd heq.symm (handle_ne_of_madeAnew h hroot hlt)

/-- **A family is all the handles on one signal.** -/
theorem family_iff (h : Grounded ops) (hi : Family ops root i)
    (hsignal : (after ops).handles[i]? = some signal) :
    Family ops root j ↔ (after ops).handles[j]? = some signal := by
  rw [hi.handle_eq h] at hsignal
  constructor
  · intro hj
    rw [hj.handle_eq h, hsignal]
  · intro hj
    have hlt : j < made ops := length_after h ▸ (List.getElem?_eq_some_iff.1 hj).1
    obtain ⟨root', hroot'⟩ := exists_root h hlt
    have hroots : root' = root := by
      apply madeAnew_unique h hroot'.madeAnew hi.madeAnew
      rw [← hroot'.handle_eq h, hj, hsignal]
    exact hroots ▸ hroot'

theorem Family.root_unique (h : Grounded ops) (hi : Family ops root i)
    (hi' : Family ops root' i) : root = root' := by
  apply madeAnew_unique h hi.madeAnew hi'.madeAnew
  rw [← hi.handle_eq h, hi'.handle_eq h]

theorem Cloned.mono (h : Cloned before i j) (hbefore : before <+: ops) : Cloned ops i j :=
  let ⟨earlier, hearlier, hmade⟩ := h
  ⟨earlier, hearlier.trans hbefore, hmade⟩

theorem Family.mono (h : Family before root i) (hbefore : before <+: ops) : Family ops root i := by
  induction h with
  | root hanew =>
    obtain ⟨earlier, op, hearlier, hop⟩ := hanew
    exact .root ⟨earlier, op, hearlier.trans hbefore, hop⟩
  | clone _ hcloned ih => exact .clone ih (hcloned.mono hbefore)

section

variable {handles handles' : List Signal}

/-- The operation stops or resets a handle on the signal. -/
def Switches (handles : List Signal) (signal : Signal) (op : Operation) : Prop :=
  ∃ i, (op = .stop i ∨ op = .reset i) ∧ handles[i]? = some signal

/-- The last operation that stopped or reset a handle on the signal stopped it. -/
def RaisedLast (handles : List Signal) (signal : Signal) (ops : List Operation) : Prop :=
  ∃ before i later, ops = before ++ .stop i :: later ∧ handles[i]? = some signal ∧
    ∀ op ∈ later, ¬ Switches handles signal op

theorem raisedLast_concat :
    RaisedLast handles signal (ops ++ [op]) ↔
      (∃ i, op = .stop i ∧ handles[i]? = some signal) ∨
        RaisedLast handles signal ops ∧ ¬ Switches handles signal op := by
  constructor
  · rintro ⟨before, i, later, hops, hfound, hlater⟩
    rcases List.eq_nil_or_concat later with rfl | ⟨later, last, rfl⟩
    · have hlast := List.append_inj_right' hops rfl
      exact .inl ⟨i, List.singleton_inj.1 hlast, hfound⟩
    · rw [List.concat_eq_append] at hops hlater
      rw [← List.cons_append, ← List.append_assoc] at hops
      obtain ⟨rfl, hlast⟩ := List.append_inj' hops rfl
      obtain rfl := List.singleton_inj.1 hlast
      refine .inr ⟨⟨before, i, later, rfl, hfound, fun op hop => ?_⟩, ?_⟩
      · exact hlater op (List.mem_append_left _ hop)
      · exact hlater _ (List.mem_append_right _ (List.mem_singleton_self _))
  · rintro (⟨i, rfl, hfound⟩ | ⟨⟨before, i, later, rfl, hfound, hlater⟩, hlast⟩)
    · exact ⟨ops, i, [], rfl, hfound, by simp⟩
    · refine ⟨before, i, later ++ [op], by simp, hfound, fun op' hop' => ?_⟩
      rcases List.mem_append.1 hop' with hop' | hop'
      · exact hlater op' hop'
      · exact List.mem_singleton.1 hop' ▸ hlast

theorem RaisedLast.mem (h : RaisedLast handles signal ops) : signal ∈ handles :=
  let ⟨_, _, _, _, hfound, _⟩ := h
  List.mem_of_getElem? hfound

/-- Only the handles that operations are applied to matter. -/
theorem RaisedLast.congr (hsame : ∀ op ∈ ops, ∀ i ∈ op.handle?, handles[i]? = handles'[i]?)
    (h : RaisedLast handles signal ops) : RaisedLast handles' signal ops := by
  obtain ⟨before, i, later, rfl, hfound, hlater⟩ := h
  refine ⟨before, i, later, rfl, ?_, ?_⟩
  · rw [← hsame (.stop i) (by simp) i rfl, hfound]
  · rintro op hop ⟨j, hop', hfound'⟩
    have hhandle : j ∈ op.handle? := by rcases hop' with rfl | rfl <;> rfl
    rw [← hsame op (by simp [hop]) j hhandle] at hfound'
    exact hlater op hop ⟨j, hop', hfound'⟩

end

/-- **What one step does to the signals**: it raises the one that it stops, lowers the one that it
resets and leaves the others as they were. -/
theorem Step.isStopped_iff {panel' : Panel} (h : Step panel op panel')
    (hnew : panel.board.isStopped ⟨panel.board.families⟩ = false) (signal : Signal) :
    panel'.board.isStopped signal = true ↔
      (∃ i, op = .stop i ∧ panel.handles[i]? = some signal) ∨
        panel.board.isStopped signal = true ∧ ¬ Switches panel.handles signal op := by
  cases h with
  | anew isAnew =>
    have hsame : panel.board.fresh.2.isStopped signal = panel.board.isStopped signal := by
      by_cases hsignal : signal = ⟨panel.board.families⟩
      · subst hsignal
        rw [hnew]
        exact Switchboard.isStopped_put _ _ _
      · exact Switchboard.isStopped_put_of_ne _ _ hsignal _
    rcases isAnew with rfl | rfl <;> simp [Switches, hsame]
  | clone => simp [Switches]
  | @stop i stopped found =>
    by_cases hsignal : signal = stopped
    · subst hsignal
      simp [Switchboard.isStopped_put, found]
    · simp [Switches, Switchboard.isStopped_put_of_ne _ _ hsignal, found, Ne.symm hsignal]
  | @reset i lowered found =>
    by_cases hsignal : signal = lowered
    · subst hsignal
      simp [Switches, Switchboard.isStopped_put, found]
    · simp [Switches, Switchboard.isStopped_put_of_ne _ _ hsignal, found, Ne.symm hsignal]

/-- The signal that would be made next is not raised if only signals of handles are. -/
theorem not_raised_next (h : Grounded ops)
    (hraised : ∀ signal, (after ops).board.isStopped signal = true →
      signal ∈ (after ops).handles) :
    (after ops).board.isStopped ⟨(after ops).board.families⟩ = false := by
  rw [Bool.eq_false_iff]
  intro hstopped
  exact Nat.lt_irrefl _ (family_lt h _ (hraised _ hstopped))

theorem Grounded.lt_made (h : Grounded (ops ++ [op])) {op' : Operation} (hop : op' ∈ ops ++ [op])
    (hi : i ∈ op'.handle?) : i < made ops := by
  obtain ⟨before, later, hsplit⟩ := List.append_of_mem hop
  have hbefore : before ++ [op'] <+: ops ++ [op] := ⟨later, by rw [hsplit]; simp⟩
  have hlength : before.length ≤ ops.length := by
    have hle := hbefore.length_le
    simpa using hle
  have hshort : before <+: ops :=
    List.prefix_of_prefix_length_le ((List.prefix_append before [op']).trans hbefore)
      (List.prefix_append ops [op]) hlength
  exact Nat.lt_of_lt_of_le (h before op' hbefore i hi) (made_mono hshort)

/-- **A signal is raised if the last operation that stopped or reset a handle on it stopped it**,
and otherwise not. -/
theorem raised_iff (h : Grounded ops) (signal : Signal) :
    (after ops).board.isStopped signal = true ↔ RaisedLast (after ops).handles signal ops := by
  induction ops using List.reverseRecOn generalizing signal with
  | nil =>
    constructor
    · intro hraised; cases hraised
    · rintro ⟨before, i, later, hops, -⟩; simp at hops
  | append_singleton ops op ih =>
    have hbefore := h.mono (List.prefix_append ops [op])
    have hnew := not_raised_next hbefore fun signal hraised => ((ih hbefore signal).1 hraised).mem
    -- handles of the operations so far are older than one that `op` may add
    have hkept : ∀ op' ∈ ops ++ [op], ∀ i ∈ op'.handle?,
        (after (ops ++ [op])).handles[i]? = (after ops).handles[i]? := fun op' hop i hi =>
      handle_kept h (List.prefix_append ops [op]) (h.lt_made hop hi)
    rw [h.step.isStopped_iff hnew, ih hbefore, ← raisedLast_concat]
    exact ⟨.congr fun op' hop i hi => (hkept op' hop i hi).symm, .congr hkept⟩

theorem lastStopped_iff (h : Grounded ops) (hi : Family ops root i)
    (hsignal : (after ops).handles[i]? = some signal) :
    LastStopped ops root ↔ RaisedLast (after ops).handles signal ops := by
  have hon := fun j => family_iff (j := j) h hi hsignal
  constructor
  · rintro ⟨before, j, later, hops, hj, hlater⟩
    refine ⟨before, j, later, hops, (hon j).1 hj, ?_⟩
    rintro op hop ⟨k, hk, hfound⟩
    obtain ⟨hstop, hreset⟩ := hlater k ((hon k).2 hfound)
    rcases hk with rfl | rfl
    · exact hstop hop
    · exact hreset hop
  · rintro ⟨before, j, later, hops, hj, hlater⟩
    refine ⟨before, j, later, hops, (hon j).2 hj, fun k hk => ⟨fun hstop => ?_, fun hreset => ?_⟩⟩
    · exact hlater _ hstop ⟨k, .inl rfl, (hon k).1 hk⟩
    · exact hlater _ hreset ⟨k, .inr rfl, (hon k).1 hk⟩

theorem states_getElem? (hsignal : panel.handles[i]? = some signal) :
    panel.states[i]? = some (panel.board.isStopped signal) := by
  unfold states
  rw [List.getElem?_map, hsignal]
  rfl

theorem exists_signal (h : Grounded ops) (hi : i < made ops) :
    ∃ signal, (after ops).handles[i]? = some signal :=
  ⟨_, List.getElem?_eq_getElem (length_after h ▸ hi)⟩

/-- **A handle is stopped if the last operation on its family stopped it**, and otherwise not. -/
theorem state_iff (h : Grounded ops) (hi : Family ops root i) :
    ∃ stopped, (after ops).states[i]? = some stopped ∧
      (stopped = true ↔ LastStopped ops root) := by
  obtain ⟨signal, hsignal⟩ := exists_signal h hi.lt_made
  refine ⟨_, states_getElem? hsignal, ?_⟩
  rw [raised_iff h, lastStopped_iff h hi hsignal]

/-- **An operation that stops or resets no handle of a family changes no handle of it.** -/
theorem states_concat (h : Grounded (ops ++ [op])) (hi : Family ops root i)
    (hop : ∀ j, op = .stop j ∨ op = .reset j → ¬ Family ops root j) :
    (after (ops ++ [op])).states[i]? = (after ops).states[i]? := by
  have hbefore := h.mono (List.prefix_append ops [op])
  obtain ⟨signal, hsignal⟩ := exists_signal hbefore hi.lt_made
  have hsignal' : (after (ops ++ [op])).handles[i]? = some signal := by
    rw [handle_kept h (List.prefix_append _ _) hi.lt_made, hsignal]
  have hnot : ¬ Switches (after ops).handles signal op := by
    rintro ⟨j, hj, hfound⟩
    exact hop j hj ((family_iff hbefore hi hsignal).2 hfound)
  have hnew := not_raised_next hbefore fun signal hraised =>
    ((raised_iff hbefore signal).1 hraised).mem
  rw [states_getElem? hsignal', states_getElem? hsignal, Option.some_inj, Bool.eq_iff_iff,
    h.step.isStopped_iff hnew]
  constructor
  · rintro (⟨j, hj, hfound⟩ | ⟨hraised, -⟩)
    · exact absurd ⟨j, .inl hj, hfound⟩ hnot
    · exact hraised
  · intro hraised
    exact .inr ⟨hraised, hnot⟩

/-- **An evaluator stays in the family of the handle `i`.** -/
structure StaysWith (ops : List Operation) (root i : Nat) (evaluator : Evaluator) : Prop where
  /-- A handle that the evaluator gives is made as a clone of the handle `i`. -/
  isClone : (⟨(after ops).board, (after ops).handles ++ [evaluator.stopSignal]⟩ : Panel) =
    after (ops ++ [.clone i])
  /-- So it is of the same family. -/
  isFamily : Family (ops ++ [.clone i]) root (made ops)
  /-- What a run sees of its signal is the state of the handle `i`. -/
  seen {ρ : Type} (robot : ρ) :
    (after ops).states[i]? = some (Stage.mk evaluator (after ops).board robot).toRun.scene.raised
  /-- After a run the evaluator still gives the same handle. -/
  kept {ρ α : Type} (robot : ρ) (body : Eval ρ α) :
    ((Stage.mk evaluator (after ops).board robot).run body).2.2.evaluator.stopSignal =
      evaluator.stopSignal

theorem staysWith_withSignal (hi : Family ops root i)
    (hsignal : (after ops).handles[i]? = some signal) (evaluator : Evaluator) :
    StaysWith ops root i (evaluator.withSignal signal) where
  isClone := by
    rw [after_concat, apply_clone hsignal]
    rfl
  isFamily := .clone (hi.mono (List.prefix_append _ _)) ⟨ops, List.prefix_refl _, rfl⟩
  seen _ := states_getElem? hsignal
  kept robot body := by
    unfold Stage.run
    split <;> rfl

end Panel

/-- **Stop signals are shared exactly along clones.** After any operations on handles made before,
every handle belongs to the family of one that was made anew; it is stopped if the last operation
that stopped or reset a handle of the family stopped it, and otherwise not. An operation on one
family changes no handle of another. An evaluator has a signal made anew until it is given one, and
then stays in the family of that one. -/
theorem signals_are_shared_along_clones (ops : List Panel.Operation) (h : Panel.Grounded ops) :
    (Panel.after ops).states.length = Panel.made ops ∧
    (∀ i < Panel.made ops, ∃! root, Panel.Family ops root i) ∧
    (∀ root i, Panel.Family ops root i →
      ∃ stopped, (Panel.after ops).states[i]? = some stopped ∧
        (stopped = true ↔ Panel.LastStopped ops root)) ∧
    (∀ op, Panel.Grounded (ops ++ [op]) → ∀ root i, Panel.Family ops root i →
      (∀ j, op = .stop j ∨ op = .reset j → ¬ Panel.Family ops root j) →
      (Panel.after (ops ++ [op])).states[i]? = (Panel.after ops).states[i]?) ∧
    (∀ limits, (⟨(Evaluator.fresh limits (Panel.after ops).board).2, (Panel.after ops).handles ++
        [(Evaluator.fresh limits (Panel.after ops).board).1.stopSignal]⟩ : Panel) =
      Panel.after (ops ++ [.fresh])) ∧
    ∀ (evaluator : Evaluator) root i signal, Panel.Family ops root i →
      (Panel.after ops).handles[i]? = some signal →
      Panel.StaysWith ops root i (evaluator.withSignal signal) := by
  refine ⟨?_, fun i hi => ?_, fun root i hi => Panel.state_iff h hi,
    fun op hgrounded root i hi hop => Panel.states_concat hgrounded hi hop, fun limits => ?_,
    fun evaluator root i signal hi hsignal => Panel.staysWith_withSignal hi hsignal evaluator⟩
  · unfold Panel.states
    rw [List.length_map, Panel.length_after h]
  · obtain ⟨root, hroot⟩ := Panel.exists_root h hi
    exact ⟨root, hroot, fun root' hroot' => hroot'.root_unique h hroot⟩
  · rw [Panel.after_concat]
    rfl

/-- Two families with their clones; the second was stopped, and then reset through a clone. -/
def twoFamilies : List Panel.Operation :=
  [.fresh, .clone 0, .default, .clone 1, .clone 2, .stop 2, .stop 3, .reset 4]

theorem two_families_apart :
    Panel.Grounded twoFamilies ∧
      (Panel.after twoFamilies).states = [true, true, false, true, false] ∧
      Panel.LastStopped twoFamilies 0 ∧ ¬ Panel.LastStopped twoFamilies 2 := by
  have hnil : Panel.Grounded [] := fun before op hbefore => by simp at hbefore
  have hgrounded : Panel.Grounded twoFamilies :=
    (((((((hnil.concat .fresh (by decide)).concat (.clone 0) (by decide)).concat .default
      (by decide)).concat (.clone 1) (by decide)).concat (.clone 2) (by decide)).concat (.stop 2)
      (by decide)).concat (.stop 3) (by decide)).concat (.reset 4) (by decide)
  have hstates : (Panel.after twoFamilies).states = [true, true, false, true, false] := rfl
  -- the fourth handle is a clone of a clone of the first, the fifth a clone of the third
  have hfirst : Panel.Family twoFamilies 0 3 :=
    .clone (.clone (.root ⟨[], .fresh, ⟨_, rfl⟩, .inl rfl, rfl⟩) ⟨[.fresh], ⟨_, rfl⟩, rfl⟩)
      ⟨[.fresh, .clone 0, .default], ⟨_, rfl⟩, rfl⟩
  have hsecond : Panel.Family twoFamilies 2 4 :=
    .clone (.root ⟨[.fresh, .clone 0], .default, ⟨_, rfl⟩, .inr rfl, rfl⟩)
      ⟨[.fresh, .clone 0, .default, .clone 1], ⟨_, rfl⟩, rfl⟩
  obtain ⟨-, -, hstate, -⟩ := signals_are_shared_along_clones twoFamilies hgrounded
  refine ⟨hgrounded, hstates, ?_, ?_⟩
  · obtain ⟨stopped, hget, hlast⟩ := hstate 0 3 hfirst
    rw [hstates] at hget
    exact hlast.1 (Option.some_inj.1 hget).symm
  · obtain ⟨stopped, hget, hlast⟩ := hstate 2 4 hsecond
    rw [hstates] at hget
    obtain rfl : false = stopped := Option.some_inj.1 hget
    exact fun hstopped => Bool.noConfusion (hlast.2 hstopped)

end RobotScript
