import RobotScript.Decimal

/-!
# Decimal numbers are read as written

* `toList_ofInt`: the text of an integer is an optional minus sign and one or more digits.
* `int32?_ofInt`: the text of a 32-bit integer is read as that integer.
-/

namespace RobotScript.Decimal

theorem isDigit_of_mem_toDigits {n : Nat} {c : Char} (h : c ∈ Nat.toDigits 10 n) :
    c.isDigit = true :=
  Nat.isDigit_of_mem_toDigits (by decide) (by decide) h

/-- A list that begins with a digit does not begin with a sign. -/
theorem int?_of_digits {cs : List Char} (h : ∀ c ∈ cs, c.isDigit = true) :
    int? cs = (digits? cs).map Int.ofNat := by
  unfold int?
  split
  · exact absurd (h _ List.mem_cons_self) (by decide)
  · exact absurd (h _ List.mem_cons_self) (by decide)
  · rfl

theorem head?_toDigits (n : Nat) : 0 < n → (Nat.toDigits 10 n).head? ≠ some '0' := by
  induction n using Nat.strongRecOn with
  | ind n ih =>
    intro hn
    rcases Nat.lt_or_ge n 10 with hlt | hge
    · have hall : ∀ m < 10, 0 < m → [Nat.digitChar m].head? ≠ some '0' := by decide
      rw [Nat.toDigits_of_lt_base hlt]
      exact hall n hlt hn
    · have hfirst := ih (n / 10) (by omega) (by omega)
      rw [Nat.toDigits_of_base_le (by decide) hge, List.head?_append]
      rw [List.head?_eq_some_head Nat.toDigits_ne_nil] at hfirst ⊢
      exact hfirst

/-- No digit follows a zero in front. -/
theorem toDigits_ne_zero_cons (n : Nat) (d : Char) (ds : List Char) :
    Nat.toDigits 10 n ≠ '0' :: d :: ds := by
  intro h
  rcases Nat.eq_zero_or_pos n with rfl | hn
  · rw [Nat.toDigits_zero] at h
    cases h
  · exact head?_toDigits n hn (by rw [h]; rfl)

theorem digits?_of_digits {cs : List Char} (hne : cs ≠ []) (h : ∀ c ∈ cs, c.isDigit = true) :
    digits? cs = some (Nat.ofDigitChars 10 cs 0) := by
  have hfilled : cs.isEmpty = false := List.isEmpty_eq_false_iff.2 hne
  unfold digits?
  rw [hfilled, List.all_eq_true.2 h]; rfl

theorem digits?_toDigits (n : Nat) : digits? (Nat.toDigits 10 n) = some n := by
  rw [digits?_of_digits Nat.toDigits_ne_nil fun c hc => isDigit_of_mem_toDigits hc,
    Nat.ofDigitChars_ten_toDigits]

/-- The text of an integer: a minus sign if it is negative, then digits. -/
theorem toList_ofInt (i : Int) : (ofInt i).toList =
    if i < 0 then '-' :: Nat.toDigits 10 i.natAbs else Nat.toDigits 10 i.natAbs := by
  unfold ofInt ofNat
  split
  · simp
  · simp

theorem toDigits_eq_cons (n : Nat) : ∃ d ds, Nat.toDigits 10 n = d :: ds ∧ d.isDigit = true := by
  have hne : Nat.toDigits 10 n ≠ [] := Nat.toDigits_ne_nil
  obtain ⟨d, ds, hcons⟩ := List.exists_cons_of_ne_nil hne
  exact ⟨d, ds, hcons, isDigit_of_mem_toDigits (n := n) (by rw [hcons]; exact List.mem_cons_self)⟩

/-- The text of an integer begins with a minus sign or a digit. -/
theorem toList_ofInt_eq_cons (i : Int) :
    ∃ c cs, (ofInt i).toList = c :: cs ∧ (c = '-' ∨ c.isDigit = true) := by
  rw [toList_ofInt]
  by_cases hi : i < 0
  · exact ⟨'-', _, if_pos hi, .inl rfl⟩
  · obtain ⟨d, ds, hcons, hd⟩ := toDigits_eq_cons i.natAbs
    exact ⟨d, ds, by rw [if_neg hi, hcons], .inr hd⟩

theorem int?_ofInt (i : Int) : int? (ofInt i).toList = some i := by
  rw [toList_ofInt]
  split
  · simp only [int?, digits?_toDigits]
    show some (-(i.natAbs : Int)) = some i
    rw [Option.some.injEq]; omega
  · rw [int?_of_digits fun c hc => isDigit_of_mem_toDigits hc, digits?_toDigits]
    rw [Option.map_some, Option.some.injEq, Int.ofNat_eq_natCast]
    omega

/-- **A 32-bit integer is read as it was written.** -/
theorem int32?_ofInt (value : Int32) : int32? (ofInt value.toInt) = some value := by
  unfold int32?
  rw [int?_ofInt, Option.bind_some, toInt32?, if_pos ⟨value.minValue_le_toInt, value.toInt_le⟩,
    Int32.ofInt_toInt]

end RobotScript.Decimal
