import RobotScript.Parser
import RobotScript.Proofs.Completeness
import RobotScript.Proofs.Lookahead

/-!
# Entry points

The three things a parser is asked for, a program, an expression and a condition, each up
to the end of the tokens. `Decides` collects what is known of the reader behind such a
request, for every number of levels it is allowed.

* `Decides.unique`: no token list derives two trees.
* `Decides.tooDeep`: with too few levels for the tree that is derived, the reader says so.
* `Decides.longest`: any other fault stands where no longer part of the tokens is viable.
-/

namespace RobotScript.Grammar

open Reader Lang

variable {α : Type}

/-- **A reader decides a language** of trees with a depth: with `room` levels it gives the
tree that all tokens derive, if that is at most `room` deep. -/
structure Decides (D : Lang α) (depth : α → Nat) (read : Nat → Reader α) : Prop where
  sound : ∀ {room ts a rest}, read room ts = .ok a rest → D ts a ∧ depth a ≤ room
  viable : ∀ {room ts fault rest}, read room ts = .error fault rest →
    ∃ us, ts = us ++ rest ∧ D.Viable us
  complete : ∀ {room ts a}, D ts a → depth a ≤ room → read room ts = .ok a []
  within : ∀ {room room'}, room ≤ room' → Within (read room) (read room')

section

variable {D : Lang α} {depth : α → Nat} {read : Nat → Reader α} (h : Decides D depth read)

include h

/-- **No token list derives two trees.** -/
theorem Decides.unique {ts : List Token} {a b : α} (ha : D ts a) (hb : D ts b) : a = b := by
  have hra := h.complete ha (Nat.le_max_left (depth a) (depth b))
  have hrb := h.complete hb (Nat.le_max_right (depth a) (depth b))
  rw [hra] at hrb
  cases hrb; rfl

/-- **A tree that is too deep is refused as such.** -/
theorem Decides.tooDeep {room : Nat} {ts : List Token} {a : α} (ha : D ts a)
    (hd : room < depth a) : ∃ rest, read room ts = .error .tooDeep rest := by
  cases hr : read room ts with
  | ok b rest =>
    obtain ⟨hb, hdb⟩ := h.sound hr
    rw [h.unique ha hb] at hd; omega
  | error fault rest =>
    by_cases hf : fault = .tooDeep
    · exact ⟨rest, by rw [hf]⟩
    -- any other fault would also be met with room for the whole tree
    · obtain ⟨us, hts, hsame⟩ := (h.within (Nat.le_of_lt hd) ts).error fault rest hr hf
      have hdeep := hsame rest rfl
      rw [← hts, h.complete ha (Nat.le_refl _)] at hdeep
      cases hdeep

/-- **A fault stands behind the longest viable part of the tokens**, unless it is that the
nesting is too deep. -/
theorem Decides.longest {room : Nat} {us rest : List Token} {fault : Fault}
    (hr : read room (us ++ rest) = .error fault rest) (hf : fault ≠ .tooDeep) {j : Nat}
    (hj : j ≤ (us ++ rest).length) (hv : D.Viable ((us ++ rest).take j)) : j ≤ us.length := by
  refine Nat.not_lt.1 fun hlt => ?_
  obtain ⟨t, rest, rfl⟩ : ∃ t rest', rest = t :: rest' := by
    cases rest with
    | nil => rw [List.append_nil] at hj; omega
    | cons t rest => exact ⟨t, rest, rfl⟩
  -- one token more would be viable, so it would begin a list that derives a tree
  have htake : (us ++ t :: rest).take j = us ++ [t] ++ rest.take (j - us.length - 1) := by
    obtain ⟨n, hn⟩ : ∃ n, j - us.length = n + 1 := ⟨j - us.length - 1, by omega⟩
    rw [List.take_append, List.take_of_length_le (by omega), hn, List.take_succ_cons,
      List.append_assoc]
    rfl
  rw [htake] at hv
  obtain ⟨vs, a, hD⟩ := hv.of_append
  rw [List.append_assoc] at hD
  have hok := h.complete hD (Nat.le_max_right room (depth a))
  -- but the reader stops at that token whatever comes after it
  obtain ⟨us', hus, hsame⟩ := (h.within (Nat.le_max_left room (depth a)) _).error fault _ hr hf
  obtain rfl : us' = us := List.append_cancel_right hus.symm
  rw [List.singleton_append] at hok
  rw [hsame (t :: vs) rfl] at hok
  cases hok

end

theorem whole_eq (fault : Fault) {x : Reader α} {ts rest : List Token} {a : α}
    (h : x ts = .ok a rest) :
    whole fault x ts = if rest.isEmpty then .ok a rest else .error fault rest := by
  rw [whole, bind_eq_of_ok h, bind_eq_of_ok (isDone_apply rest)]
  split <;> rfl

theorem decides_whole {D : Lang α} {depth : α → Nat} {read : Nat → Reader α} (fault : Fault)
    (hreads : ∀ room, Reads D (read room))
    (hdepth : ∀ room, Yields (fun a => depth a ≤ room) (read room))
    (hcomplete : ∀ {room ts a}, D ts a → depth a ≤ room → read room ts = .ok a [])
    (hwithin : ∀ {room room'}, room ≤ room' → Within (read room) (read room')) :
    Decides D depth fun room => whole fault (read room) where
  sound := by
    intro room ts a rest h
    obtain ⟨b, us, hb, -⟩ := bind_ok h
    rw [whole_eq fault hb] at h
    split at h
    · rename_i hempty
      cases h
      obtain ⟨vs, hts, hD⟩ := (hreads room ts).ok _ _ hb
      rw [List.isEmpty_iff.1 hempty, List.append_nil] at hts
      exact ⟨hts ▸ hD, hdepth room ts _ _ hb⟩
    · cases h
  viable := by
    intro room ts fault' rest h
    cases hr : read room ts with
    | ok b us =>
      rw [whole_eq fault hr] at h
      obtain ⟨vs, hts, hD⟩ := (hreads room ts).ok _ _ hr
      split at h <;> cases h
      exact ⟨vs, hts, .of_mem hD⟩
    | error fault us =>
      rw [whole, bind_eq_of_error hr] at h
      cases h
      exact (hreads room ts).error _ _ hr
  complete := by
    intro room ts a hD hd
    rw [whole_eq fault (hcomplete hD hd)]; rfl
  within := by
    intro room room' hle
    refine (hwithin hle).bind fun a => within_isDone.bind fun b => ?_
    cases b with
    | true => exact within_pure _
    | false => exact within_throw _

theorem decides_expression :
    Decides DerivesExpr Expr.depth fun room => whole .afterExpression (expression room) :=
  decides_whole _ reads_expression expression_depth
    (fun hD hd => by simpa using expression_complete hD hd [] (by simp [NotNext])) within_expression

theorem decides_condition :
    Decides DerivesCondition Condition.depth fun room => whole .afterCondition (condition room) :=
  decides_whole _ reads_condition condition_depth
    (fun hD hd => by simpa using condition_complete hD hd []) within_condition

theorem peeks_isDone : Peeks isDone := fun _ => ⟨_, rfl⟩

theorem decides_program : Decides DerivesProgram Program.depth programWith where
  sound := by
    intro room ts p rest h
    obtain ⟨body, us, hbody, h⟩ := bind_ok h
    cases h
    obtain ⟨vs, hts, hD⟩ := (reads_statements peeks_isDone (reads_statement room) ts).ok _ _ hbody
    have hd := statements_depth (statement_depth room) ts _ _ hbody
    -- the statements end only where no token is left
    obtain ⟨first, ws, -, hrest⟩ := bind_ok hbody
    obtain ⟨more, xs, hmore, hrest⟩ := bind_ok hrest
    cases hrest
    have hdone := sequence_ok peeks_isDone (shortens_statement room) hmore
    obtain rfl : rest = [] := by
      cases rest with
      | nil => rfl
      | cons t rest => cases hdone
    rw [List.append_nil] at hts
    exact ⟨hts ▸ hD, hd⟩
  viable := by
    intro room ts fault rest h
    have hreads : Reads DerivesProgram (programWith room) := by
      refine ((reads_statements peeks_isDone (reads_statement room)).bind fun _ body _ =>
        reads_pure (Program.mk body)).mono ?_
      rintro _ _ ⟨us, body, _, rfl, hbody, rfl, rfl⟩
      rw [List.append_nil]; exact hbody
    exact (hreads ts).error _ _ h
  complete := by
    intro room ts p hD hd
    have hbody : (statements isDone (statement room) : Reader Block) (ts ++ []) =
        .ok p.statements [] :=
      statements_complete peeks_isDone (shortens_statement room)
        (fun us s rest h hd hrest => statement_complete h hd hrest)
        (fun us s rest h => by obtain ⟨t, us, rfl, -⟩ := h.head; rfl)
        hD.1 hD.2 hd ⟨by simp [NotNext], by simp [NotNext]⟩ rfl
    rw [List.append_nil] at hbody
    exact bind_eq_of_ok hbody
  within := by
    intro room room' hle
    exact (within_statements peeks_isDone within_isDone (shortens_statement room)
      (shortens_statement room') (within_statement hle)).bind fun _ => within_pure _

end RobotScript.Grammar
