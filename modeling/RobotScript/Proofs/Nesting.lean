import RobotScript.Proofs.Json

/-!
# How deep a JSON text nests

* `Json.nestingFrom`: the most arrays and objects that are open at once in a text, found by going
  through its characters. Brackets and braces in strings do not count.
* `nestingOf_write`: for the text of a value this is the nesting of the value.
-/

namespace RobotScript.Json

/-- Where in a text a character stands. -/
inductive Place
  | outside
  | inString
  | escaped

/-- **The most arrays and objects open at once** in a text, if there are `depth` in front of it. -/
def nestingFrom : Place → (depth : Nat) → List Char → Nat
  | _, depth, [] => depth
  | .escaped, depth, _ :: cs => nestingFrom .inString depth cs
  | .inString, depth, c :: cs =>
    if c = '\\' then nestingFrom .escaped depth cs
    else if c = '"' then nestingFrom .outside depth cs
    else nestingFrom .inString depth cs
  | .outside, depth, c :: cs =>
    if c = '"' then nestingFrom .inString depth cs
    else if c = '[' ∨ c = '\x7b' then nestingFrom .outside (depth + 1) cs
    else if c = ']' ∨ c = '\x7d' then max depth (nestingFrom .outside (depth - 1) cs)
    else nestingFrom .outside depth cs

/-- The most arrays and objects that are open at once in a text. -/
def nestingOf (text : String) : Nat := nestingFrom .outside 0 text.toList

theorem le_nestingFrom (place : Place) (depth : Nat) (cs : List Char) :
    depth ≤ nestingFrom place depth cs := by
  fun_induction nestingFrom place depth cs <;> omega

theorem nestingFrom_escape (depth : Nat) (c : Char) (cs : List Char) :
    nestingFrom .inString depth (escape c ++ cs) = nestingFrom .inString depth cs := by
  rcases escape_cases c with ⟨d, hescape, -⟩ | ⟨hescape, hcontrol⟩ | ⟨hescape, hquote, hslash, -⟩
  · rw [hescape]; rfl
  · have hhex : ∀ n < 16, hexDigit n ≠ '\\' ∧ hexDigit n ≠ '"' := by decide
    have hhigh := hhex (c.toNat / 16) (by omega)
    have hlow := hhex (c.toNat % 16) (by omega)
    rw [hescape]
    simp [nestingFrom, hhigh, hlow]
  · rw [hescape]
    simp [nestingFrom, hquote, hslash]

theorem nestingFrom_quote (depth : Nat) (s : String) (rest : List Char) :
    nestingFrom .outside depth (quote s rest) = nestingFrom .outside depth rest := by
  have hstring : ∀ cs : List Char, nestingFrom .inString depth (cs.flatMap escape ++ '"' :: rest) =
      nestingFrom .outside depth rest := by
    intro cs
    induction cs with
    | nil => simp [nestingFrom]
    | cons c cs ih => rw [List.flatMap_cons, List.append_assoc, nestingFrom_escape, ih]
  unfold quote
  rw [nestingFrom, if_pos rfl, hstring]

/-- A character that neither opens nor closes anything. -/
def isQuiet (c : Char) : Bool :=
  c != '"' && c != '[' && c != '\x7b' && c != ']' && c != '\x7d'

theorem nestingFrom_quiet (text : List Char) (h : text.all isQuiet = true) (depth : Nat)
    (rest : List Char) :
    nestingFrom .outside depth (text ++ rest) = nestingFrom .outside depth rest := by
  induction text with
  | nil => rfl
  | cons c text ih =>
    simp only [List.all_cons, Bool.and_eq_true, isQuiet, bne_iff_ne] at h
    obtain ⟨⟨⟨⟨⟨hquote, hbracket⟩, hbrace⟩, hbracket'⟩, hbrace'⟩, htext⟩ := h
    rw [List.cons_append, nestingFrom, if_neg hquote, if_neg (by simp [hbracket, hbrace]),
      if_neg (by simp [hbracket', hbrace'])]
    exact ih (by simpa [isQuiet] using htext)

theorem isQuiet_of_isDigit {c : Char} (h : c.isDigit = true) : isQuiet c = true := by
  simp only [isQuiet, Bool.and_eq_true, bne_iff_ne]
  refine ⟨⟨⟨⟨?_, ?_⟩, ?_⟩, ?_⟩, ?_⟩ <;> (rintro rfl; exact absurd h (by decide))

theorem isQuiet_ofInt (i : Int) : (Decimal.ofInt i).toList.all isQuiet = true := by
  have hdigits : (Nat.toDigits 10 i.natAbs).all isQuiet = true :=
    List.all_eq_true.2 fun c hc => isQuiet_of_isDigit (Decimal.isDigit_of_mem_toDigits hc)
  rw [Decimal.toList_ofInt]
  split
  · rw [List.all_cons, hdigits]; rfl
  · exact hdigits

/-- The text of the value nests as deep as the value. -/
def Nests (j : Json) : Prop := ∀ depth rest, nestingFrom .outside depth (j.writeTo rest) =
  max (depth + j.nesting) (nestingFrom .outside depth rest)

theorem nests_quiet {j : Json} (text : List Char) (hwrite : ∀ rest, j.writeTo rest = text ++ rest)
    (hquiet : text.all isQuiet = true) (hflat : j.nesting = 0) : Nests j := by
  intro depth rest
  have hle := le_nestingFrom .outside depth rest
  rw [hwrite, nestingFrom_quiet text hquiet, hflat]
  omega

theorem nestingFrom_items {items : List Json} (h : ∀ j ∈ items, Nests j) : ∀ depth rest,
    nestingFrom .outside depth (writeItems items rest) =
      max (depth + nestingItems items) (nestingFrom .outside depth rest) := by
  induction items with
  | nil =>
    intro depth rest
    have hle := le_nestingFrom .outside depth rest
    rw [writeItems, nestingItems]
    omega
  | cons j more ih =>
    intro depth rest
    obtain ⟨hj, hmore⟩ := List.forall_mem_cons.1 h
    have hrest := ih hmore depth rest
    rw [nestingItems]
    cases more with
    | nil => rw [writeItems, hj, nestingItems]; omega
    | cons next more =>
      have hcomma : nestingFrom .outside depth (',' :: writeItems (next :: more) rest) =
          nestingFrom .outside depth (writeItems (next :: more) rest) :=
        nestingFrom_quiet [','] (by decide) depth _
      rw [writeItems_cons, hj, hcomma, hrest]
      omega

theorem nestingFrom_fields {fields : List (String × Json)} (h : ∀ f ∈ fields, Nests f.2) :
    ∀ depth rest, nestingFrom .outside depth (writeFields fields rest) =
      max (depth + nestingFields fields) (nestingFrom .outside depth rest) := by
  induction fields with
  | nil =>
    intro depth rest
    have hle := le_nestingFrom .outside depth rest
    rw [writeFields, nestingFields]
    omega
  | cons field more ih =>
    intro depth rest
    obtain ⟨key, j⟩ := field
    obtain ⟨hfield, hmore⟩ := List.forall_mem_cons.1 h
    have hj : Nests j := hfield
    have hrest := ih hmore depth rest
    have hcolon : ∀ cs, nestingFrom .outside depth (':' :: cs) = nestingFrom .outside depth cs :=
      fun cs => nestingFrom_quiet [':'] (by decide) depth cs
    rw [nestingFields]
    cases more with
    | nil => rw [writeFields, nestingFrom_quote, hcolon, hj, nestingFields]; omega
    | cons next more =>
      have hcomma : nestingFrom .outside depth (',' :: writeFields (next :: more) rest) =
          nestingFrom .outside depth (writeFields (next :: more) rest) :=
        nestingFrom_quiet [','] (by decide) depth _
      rw [writeFields_cons, nestingFrom_quote, hcolon, hj, hcomma, hrest]
      omega

/-- What is opened in front of a text and closed after it is one level more. -/
theorem nestingFrom_closing {c : Char} (h : c = ']' ∨ c = '\x7d') (depth : Nat) (rest : List Char) :
    nestingFrom .outside (depth + 1) (c :: rest) =
      max (depth + 1) (nestingFrom .outside depth rest) := by
  rcases h with rfl | rfl <;> simp [nestingFrom]

theorem Proper.nests {j : Json} (h : j.Proper) : Nests j := by
  induction h with
  | @intro j here inner ih =>
    cases j with
    | null => exact nests_quiet "null".toList (fun _ => rfl) (by decide) rfl
    | bool value =>
      cases value with
      | true => exact nests_quiet "true".toList (fun _ => rfl) (by decide) rfl
      | false => exact nests_quiet "false".toList (fun _ => rfl) (by decide) rfl
    | int value => exact nests_quiet _ (fun _ => rfl) (isQuiet_ofInt value) rfl
    | string value =>
      intro depth rest
      have hle := le_nestingFrom .outside depth rest
      rw [writeTo, nestingFrom_quote, nesting]
      · omega
      · simp
      · simp
    | verbatim text => exact absurd rfl (here text)
    | array items =>
      intro depth rest
      have hitems : ∀ item ∈ items, Nests item := ih
      have hopen : nestingFrom .outside depth ('[' :: writeItems items (']' :: rest)) =
          nestingFrom .outside (depth + 1) (writeItems items (']' :: rest)) := by
        simp [nestingFrom]
      rw [writeTo, hopen, nestingFrom_items hitems, nestingFrom_closing (.inl rfl), nesting]
      omega
    | object fields =>
      intro depth rest
      have hfields : ∀ f ∈ fields, Nests f.2 := fun f hf => ih f.2 (List.mem_map_of_mem hf)
      have hopen : nestingFrom .outside depth ('\x7b' :: writeFields fields ('\x7d' :: rest)) =
          nestingFrom .outside (depth + 1) (writeFields fields ('\x7d' :: rest)) := by
        simp [nestingFrom]
      rw [writeTo, hopen, nestingFrom_fields hfields, nestingFrom_closing (.inr rfl), nesting]
      omega

/-- **The text of a value nests as deep as the value.** -/
theorem nestingOf_write {j : Json} (h : j.Proper) : nestingOf j.write = j.nesting := by
  have hnests := h.nests 0 []
  unfold nestingOf write
  rw [String.toList_ofList, hnests, nestingFrom]
  omega

end RobotScript.Json
