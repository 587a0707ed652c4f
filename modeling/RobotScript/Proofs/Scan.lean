import RobotScript.Token.Scan

/-!
# How a text is cut

* `lexemesFrom_run`: a run of plain characters is one lexeme if it is as long as it can be.
* `lexemesFrom_delimiter`: a delimiter is a lexeme.
* `Cut`: a text that is cut into given lexemes wherever it stands in front of a delimiter
  or the end; `cut_word`, `cut_call` and `cut_call₂` are how such texts are put together.
-/

namespace RobotScript.Scan

/-- A character that neither separates nor delimits. -/
def isPlain (c : Char) : Bool := !isSeparator c && !isDelimiter c

/-- The text is at its end or goes on with a delimiter. -/
def AtBoundary (cs : List Char) : Prop := ∀ c ∈ cs.head?, isDelimiter c = true

theorem lexemesFrom_plain {w : List Char} (hw : w.all isPlain = true) (acc cs : List Char) :
    lexemesFrom acc (w ++ cs) = lexemesFrom (w.reverse ++ acc) cs := by
  induction w generalizing acc with
  | nil => rfl
  | cons c w ih =>
    rw [List.all_cons, Bool.and_eq_true, isPlain, Bool.and_eq_true, Bool.not_eq_true',
      Bool.not_eq_true'] at hw
    obtain ⟨⟨hsep, hdelim⟩, hw⟩ := hw
    rw [List.cons_append, lexemesFrom, hsep, hdelim, List.reverse_cons, List.append_assoc]
    exact ih hw (c :: acc)

theorem not_isSeparator {c : Char} (h : isDelimiter c = true) : isSeparator c = false := by
  simp only [isDelimiter, Bool.or_eq_true, beq_iff_eq] at h
  rcases h with ((((rfl | rfl) | rfl) | rfl) | rfl) | rfl <;> decide

theorem lexemesFrom_delimiter {c : Char} (h : isDelimiter c = true) (cs : List Char) :
    lexemesFrom [] (c :: cs) = String.singleton c :: lexemesFrom [] cs := by
  rw [lexemesFrom, not_isSeparator h, h]; rfl

theorem lexemesFrom_separator {c : Char} (h : isSeparator c = true) (cs : List Char) :
    lexemesFrom [] (c :: cs) = lexemesFrom [] cs := by
  rw [lexemesFrom, h]; rfl

/-- A character that is not plain ends the pending word. -/
theorem lexemesFrom_break {c : Char} (h : isPlain c = false) (word cs : List Char) :
    lexemesFrom word (c :: cs) = flush word (lexemesFrom [] (c :: cs)) := by
  unfold lexemesFrom
  cases hsep : isSeparator c with
  | true => rfl
  | false =>
    have hdelim : isDelimiter c = true := by simpa [isPlain, hsep] using h
    rw [hdelim]; rfl

/-- **A run of plain characters is one lexeme** if it is as long as it can be. -/
theorem lexemesFrom_run {w cs : List Char} (hne : w ≠ []) (hw : w.all isPlain = true)
    (hcs : ∀ c ∈ cs.head?, isPlain c = false) :
    lexemesFrom [] (w ++ cs) = String.ofList w :: lexemesFrom [] cs := by
  have hflush : ∀ rest, flush w.reverse rest = String.ofList w :: rest := by
    intro rest
    have hrev : w.reverse ≠ [] := by simpa using hne
    unfold flush
    split
    · rename_i h; exact absurd h hrev
    · rw [List.reverse_reverse]
  rw [lexemesFrom_plain hw, List.append_nil]
  cases cs with
  | nil => rw [lexemesFrom, hflush]; rfl
  | cons c cs => rw [lexemesFrom_break (hcs c rfl), hflush]

/-- A run of plain characters is one lexeme in front of a delimiter or the end. -/
theorem lexemesFrom_word {w cs : List Char} (hne : w ≠ []) (hw : w.all isPlain = true)
    (hcs : AtBoundary cs) : lexemesFrom [] (w ++ cs) = String.ofList w :: lexemesFrom [] cs := by
  refine lexemesFrom_run hne hw fun c hc => ?_
  have hdelim := hcs c hc
  simp [isPlain, hdelim]

/-- **The text is cut into the lexemes** in front of a delimiter or the end. -/
def Cut (text : String) (lexemes : List String) : Prop :=
  ∀ cs, AtBoundary cs → lexemesFrom [] (text.toList ++ cs) = lexemes ++ lexemesFrom [] cs

theorem Cut.lexemes_eq {text : String} {ls : List String} (h : Cut text ls) : lexemes text = ls := by
  have h := h [] (by intro c hc; cases hc)
  rw [List.append_nil] at h
  unfold lexemes
  rw [h, lexemesFrom, flush, List.append_nil]

/-- A non-empty text without separators and delimiters. -/
def IsWord (text : String) : Prop := text.toList ≠ [] ∧ text.toList.all isPlain = true

instance (text : String) : Decidable (IsWord text) :=
  inferInstanceAs (Decidable (text.toList ≠ [] ∧ text.toList.all isPlain = true))

theorem cut_word {w : String} (hw : IsWord w) : Cut w [w] := by
  intro cs hcs
  rw [lexemesFrom_word hw.1 hw.2 hcs, String.ofList_toList]; rfl

theorem atBoundary_cons {c : Char} (h : isDelimiter c = true) (cs : List Char) :
    AtBoundary (c :: cs) := by
  intro d hd; cases hd; exact h

theorem cut_call {w text : String} {ls : List String} (hw : IsWord w) (h : Cut text ls) :
    Cut (w ++ "(" ++ text ++ ")") (w :: "(" :: (ls ++ [")"])) := by
  intro cs hcs
  have hchars : (w ++ "(" ++ text ++ ")").toList ++ cs =
      w.toList ++ '(' :: (text.toList ++ ')' :: cs) := by simp
  rw [hchars, cut_word hw _ (atBoundary_cons (by decide) _), lexemesFrom_delimiter (by decide),
    h _ (atBoundary_cons (by decide) _), lexemesFrom_delimiter (by decide)]
  simp

theorem cut_call₂ {w text₁ text₂ : String} {ls₁ ls₂ : List String} (hw : IsWord w)
    (h₁ : Cut text₁ ls₁) (h₂ : Cut text₂ ls₂) :
    Cut (w ++ "(" ++ text₁ ++ "," ++ text₂ ++ ")")
      (w :: "(" :: (ls₁ ++ "," :: (ls₂ ++ [")"]))) := by
  intro cs hcs
  have hchars : (w ++ "(" ++ text₁ ++ "," ++ text₂ ++ ")").toList ++ cs =
      w.toList ++ '(' :: (text₁.toList ++ ',' :: (text₂.toList ++ ')' :: cs)) := by simp
  rw [hchars, cut_word hw _ (atBoundary_cons (by decide) _), lexemesFrom_delimiter (by decide),
    h₁ _ (atBoundary_cons (by decide) _), lexemesFrom_delimiter (by decide),
    h₂ _ (atBoundary_cons (by decide) _), lexemesFrom_delimiter (by decide)]
  simp

end RobotScript.Scan
