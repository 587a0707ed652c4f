import RobotScript.Error
import RobotScript.Proofs.Kind

/-!
# Every lexeme has one kind

Since no lexeme looks like two kinds, nothing depends on how the tests for them are arranged.

* `Kind.find?_test`: the kinds may be tested in any order.
* `Word.read_eq_ok_iff`: a word of a family is read from its spelling and from nothing else.
* `kinds_partition_lexemes`: what the lexemes of each kind are, with these two facts.
-/

namespace RobotScript

namespace Kind

variable {s : String} {kind : Kind}

/-- The kinds that a lexeme is tested for, in the order of the tests. -/
def tested : List Kind := reserved.map Prod.snd ++ [.var, .number]

/-- The test for a kind. There is none for plain words. -/
def test (s : String) : Kind → Bool
  | .var => isVariable s.toList
  | .number => isNumber s.toList
  | kind => kind.spelling? == some s

theorem fits_of_test (h : kind.test s = true) : kind.Fits s := by
  cases kind with
  | var => exact .var ((isVariable_iff s).1 h)
  | number => exact .number ((isNumber_iff s).1 h)
  | _ => exact .reserved (beq_iff_eq.1 h)

theorem test_of_fits (h : kind.Fits s) (hword : kind ≠ .word) : kind.test s = true := by
  cases h with
  | reserved spelled =>
    cases kind with
    | var | number | word => cases spelled
    | _ => exact beq_iff_eq.2 spelled
  | var name => exact (isVariable_iff s).2 name
  | number text => exact (isNumber_iff s).2 text
  | word => exact absurd rfl hword

theorem mem_tested (h : kind.Fits s) (hword : kind ≠ .word) : kind ∈ tested := by
  unfold tested
  cases h with
  | reserved spelled =>
    obtain ⟨l₁, l₂, heq, -⟩ := List.lookup_eq_some_iff.1 (lookup_reserved_iff.2 spelled)
    rw [heq]
    simp
  | var => simp
  | number => simp
  | word => exact absurd rfl hword

/-- **The kinds may be tested in any order**: the first whose test succeeds is the kind of the
lexeme, and if none does it is a plain word. -/
theorem find?_test {order : List Kind} (h : order.Perm tested) (s : String) :
    (order.find? (test s)).getD .word = classify s := by
  have hfits := fits_classify s
  cases hfind : order.find? (test s) with
  | some kind => exact (fits_of_test (List.find?_some hfind)).unique hfits
  | none =>
    refine Classical.not_not.1 fun hne => ?_
    have hword : classify s ≠ .word := Ne.symm hne
    have hmem : classify s ∈ order := h.mem_iff.2 (mem_tested hfits hword)
    exact List.find?_eq_none.1 hfind _ hmem (test_of_fits hfits hword)

end Kind

/-- **A word is read from its spelling** and from nothing else. -/
theorem Word.read_eq_ok_iff {α : Type} [Word α]
    (h : ∀ w : α, ofSpelling? (spelling w) = some w) (s : String) (w : α) :
    read s = .ok w ↔ s = spelling w := by
  unfold read
  constructor
  · intro hread
    cases hfind : (ofSpelling? s : Option α) with
    | none => rw [hfind] at hread; cases hread
    | some w' =>
      rw [hfind] at hread
      cases hread
      have hspelled := List.find?_some (p := fun w : α => spelling w == s) hfind
      exact (beq_iff_eq.1 hspelled).symm
  · rintro rfl
    rw [h w]

/-- **The kinds partition the lexemes.** A lexeme is of a kind exactly if it looks like that kind: a
reserved word or sign if it is spelled so, a variable, a number, or a word if it is nothing else. No
lexeme looks like two kinds, so it does not matter in which order they are tested for; and in each
family reading a word and spelling it undo each other. -/
theorem kinds_partition_lexemes (s : String) :
    (∀ kind, Kind.classify s = kind ↔ kind.Fits s) ∧
    (∀ kind kind' : Kind, kind.Fits s → kind'.Fits s → kind = kind') ∧
    (∀ order : List Kind, order.Perm Kind.tested →
      (order.find? (Kind.test s)).getD .word = Kind.classify s) ∧
    (∀ w : Action, Word.read s = .ok w ↔ s = Word.spelling w) ∧
    (∀ w : Sensor, Word.read s = .ok w ↔ s = Word.spelling w) ∧
    (∀ w : ArithOp, Word.read s = .ok w ↔ s = Word.spelling w) ∧
    (∀ w : Relop, Word.read s = .ok w ↔ s = Word.spelling w) ∧
    (∀ w : Combinator, Word.read s = .ok w ↔ s = Word.spelling w) := by
  refine ⟨Kind.classify_eq_iff s, fun _ _ h h' => h.unique h', fun _ h => Kind.find?_test h s,
    Word.read_eq_ok_iff ?_ s, Word.read_eq_ok_iff ?_ s, Word.read_eq_ok_iff ?_ s,
    Word.read_eq_ok_iff ?_ s, Word.read_eq_ok_iff ?_ s⟩
  all_goals
    intro w
    cases w <;> decide

end RobotScript
