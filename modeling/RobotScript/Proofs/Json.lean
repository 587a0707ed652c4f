import Mathlib.Data.List.TakeDrop
import RobotScript.Json.Read
import RobotScript.Json.Write
import RobotScript.Proofs.Decimal

/-!
# JSON is read as written

* `escape_cases`: the three ways in which a character stands in a string.
* `Json.Proper`: nothing in the value is kept as it was written.
* `string?_quote`, `number?_ofInt`: a string and an integer are read as written.
* `read?_write`: so is every proper value.
-/

namespace RobotScript.Json

/-- **How a character stands in a string**: behind a backslash, as a 16-bit unit, or as it is. -/
theorem escape_cases (c : Char) :
    (∃ d, escape c = ['\\', d] ∧ d ≠ 'u' ∧ unescape? d = some c) ∨
    (escape c = ['\\', 'u', '0', '0', hexDigit (c.toNat / 16), hexDigit (c.toNat % 16)] ∧
      c.toNat < 0x20) ∨
    (escape c = [c] ∧ c ≠ '"' ∧ c ≠ '\\' ∧ 0x20 ≤ c.toNat) := by
  by_cases hshort : c ∈ ['"', '\\', '\x08', '\x0c', '\n', '\r', '\t']
  · left
    simp only [List.mem_cons, List.not_mem_nil, or_false] at hshort
    rcases hshort with rfl | rfl | rfl | rfl | rfl | rfl | rfl
    · exact ⟨'"', rfl, by decide, rfl⟩
    · exact ⟨'\\', rfl, by decide, rfl⟩
    · exact ⟨'b', rfl, by decide, rfl⟩
    · exact ⟨'f', rfl, by decide, rfl⟩
    · exact ⟨'n', rfl, by decide, rfl⟩
    · exact ⟨'r', rfl, by decide, rfl⟩
    · exact ⟨'t', rfl, by decide, rfl⟩
  · right
    simp only [List.mem_cons, List.not_mem_nil, or_false, not_or] at hshort
    obtain ⟨hquote, hslash, hb, hf, hn, hr, ht⟩ := hshort
    unfold escape
    rw [if_neg hquote, if_neg hslash, if_neg hb, if_neg hf, if_neg hn, if_neg hr, if_neg ht]
    by_cases hcontrol : c.toNat < 0x20
    · exact .inl ⟨if_pos hcontrol, hcontrol⟩
    · exact .inr ⟨if_neg hcontrol, hquote, hslash, by omega⟩

/-- The character that a piece stands for by itself. -/
inductive Spells : Piece → Char → Prop
  | char (c : Char) : Spells (.char c) c
  | unit {c : Char} (control : c.toNat < 0x20) : Spells (.unit c.toNat) c

theorem hexValue?_hexDigit {d : Nat} (h : d < 16) : hexValue? (hexDigit d) = some d := by
  have hall : ∀ d < 16, hexValue? (hexDigit d) = some d := by decide
  exact hall d h

theorem hexUnit?_control {n : Nat} (h : n < 0x20) :
    hexUnit? '0' '0' (hexDigit (n / 16)) (hexDigit (n % 16)) = some n := by
  have hzero : hexValue? '0' = some 0 := by decide
  have hhigh : hexValue? (hexDigit (n / 16)) = some (n / 16) := hexValue?_hexDigit (by omega)
  have hlow : hexValue? (hexDigit (n % 16)) = some (n % 16) := hexValue?_hexDigit (by omega)
  unfold hexUnit?
  simp only [hzero, hhigh, hlow, Option.bind_eq_bind, Option.bind_some, Option.pure_def,
    Option.some.injEq]
  omega

theorem pieces?_escape (c : Char) (cs : List Char) : ∃ p, Spells p c ∧
    pieces? (escape c ++ cs) = (pieces? cs).map fun found => (p :: found.1, found.2) := by
  rcases escape_cases c with ⟨d, hescape, hd, hc⟩ | ⟨hescape, hcontrol⟩ | ⟨hescape, hquote, hslash, hc⟩
  · refine ⟨.char c, .char c, ?_⟩
    rw [hescape, List.cons_append, List.cons_append, List.nil_append]
    rw [pieces?]
    · rw [hc, Option.map_eq_bind]
      rfl
    · simp [hd]
  · refine ⟨.unit c.toNat, .unit hcontrol, ?_⟩
    rw [hescape]
    simp only [List.cons_append, List.nil_append]
    rw [pieces?, hexUnit?_control hcontrol, Option.map_eq_bind]
    rfl
  · refine ⟨.char c, .char c, ?_⟩
    have hplain : (decide (c.toNat < 0x20) || c == '\\') = false := by simp [hslash]; omega
    rw [hescape, List.cons_append, List.nil_append, pieces?]
    · rw [hplain, Option.map_eq_bind]
      rfl
    · simp [hquote]
    · simp [hslash]
    · simp [hslash]

theorem text?_unit {n : Nat} (h : n < 0x20) (ps : List Piece) :
    text? (.unit n :: ps) = (text? ps).map (Char.ofNat n :: ·) := by
  have hhigh : isHighUnit n = false := by simp [isHighUnit]; omega
  have hlow : isLowUnit n = false := by simp [isLowUnit]; omega
  cases ps with
  | nil => simp [text?, hhigh, hlow]
  | cons p ps =>
    cases p with
    | char c => simp [text?, hhigh, hlow]
    | unit low => simp [text?, hhigh, hlow]

theorem text?_of_spells {ps : List Piece} {cs : List Char} (h : List.Forall₂ Spells ps cs) :
    text? ps = some cs := by
  induction h with
  | nil => rfl
  | @cons p c ps cs hp _ ih =>
    cases hp with
    | char c => rw [text?, ih]; rfl
    | unit control => rw [text?_unit control, ih, Char.ofNat_toNat]; rfl

theorem pieces?_escaped (cs rest : List Char) : ∃ ps, List.Forall₂ Spells ps cs ∧
    pieces? (cs.flatMap escape ++ '"' :: rest) = some (ps, rest) := by
  induction cs with
  | nil => exact ⟨[], .nil, by rw [List.flatMap_nil, List.nil_append, pieces?]⟩
  | cons c cs ih =>
    obtain ⟨ps, hps, hread⟩ := ih
    obtain ⟨p, hp, hfirst⟩ := pieces?_escape c (cs.flatMap escape ++ '"' :: rest)
    refine ⟨p :: ps, .cons hp hps, ?_⟩
    rw [List.flatMap_cons, List.append_assoc, hfirst, hread]; rfl

/-- **A string is read as written.** -/
theorem string?_quote (s : String) (rest : List Char) :
    string? (s.toList.flatMap escape ++ '"' :: rest) = some (some s, rest) := by
  obtain ⟨ps, hps, hread⟩ := pieces?_escaped s.toList rest
  unfold string?
  rw [hread]
  simp [text?_of_spells hps]

/-- A number ends in front of this. -/
def EndsNumber (rest : List Char) : Prop :=
  ∀ c ∈ rest.head?, c.isDigit = false ∧ c ≠ '.' ∧ c ≠ 'e' ∧ c ≠ 'E'

theorem digits?_append {ds rest : List Char} (hne : ds ≠ []) (hds : ∀ c ∈ ds, c.isDigit = true)
    (hrest : EndsNumber rest) : digits? (ds ++ rest) = some (ds, rest) := by
  have hstop : rest.takeWhile Char.isDigit = [] ∧ rest.dropWhile Char.isDigit = rest := by
    cases rest with
    | nil => exact ⟨rfl, rfl⟩
    | cons c rest =>
      have hc := (hrest c rfl).1
      simp [hc]
  have hspan : (ds ++ rest).span Char.isDigit = (ds, rest) := by
    rw [List.span_eq_takeWhile_dropWhile, List.takeWhile_append_of_pos hds,
      List.dropWhile_append_of_pos hds, hstop.1, hstop.2, List.append_nil]
  obtain ⟨d, ds, rfl⟩ := List.exists_cons_of_ne_nil hne
  unfold digits?
  rw [hspan]

/-- No number is written with a zero in front. -/
theorem whole?_toDigits (n : Nat) {rest : List Char} (hrest : EndsNumber rest) :
    whole? (Nat.toDigits 10 n ++ rest) = some (Nat.toDigits 10 n, rest) := by
  have hdigits := digits?_append Nat.toDigits_ne_nil
    (fun c hc => Decimal.isDigit_of_mem_toDigits (n := n) hc) hrest
  unfold whole?
  rw [hdigits]
  simp only [Option.bind_eq_bind, Option.bind_some]
  split
  · rename_i heq
    exact absurd (Prod.mk.inj heq).1 (Decimal.toDigits_ne_zero_cons n _ _)
  · rfl

theorem afterNumber?_eq {rest : List Char} (hrest : EndsNumber rest) :
    afterNumber? rest = some rest := by
  cases rest with
  | nil => rfl
  | cons c rest =>
    obtain ⟨-, hdot, he, hE⟩ := hrest c rfl
    have hfraction : afterFraction? (c :: rest) = some (c :: rest) := by
      rw [afterFraction?]
      simp [hdot]
    unfold afterNumber?
    rw [hfraction]
    simp only [Option.bind_eq_bind, Option.bind_some]
    split
    · simp_all
    · simp_all
    · rfl

theorem unsigned?_toDigits (negative : Bool) {n : Nat} (hzero : negative = true → n ≠ 0)
    {rest : List Char} (hrest : EndsNumber rest) :
    unsigned? negative (Nat.toDigits 10 n ++ rest) =
      some (.int (if negative then -(n : Int) else n), rest) := by
  have hvalue : Nat.ofDigitChars 10 (Nat.toDigits 10 n) 0 = n := Nat.ofDigitChars_ten_toDigits
  have hsign : (negative && n == 0) = false := by
    cases negative with
    | true => simpa using hzero rfl
    | false => rfl
  unfold unsigned?
  rw [whole?_toDigits n hrest]
  simp only [Option.bind_eq_bind, Option.bind_some, afterNumber?_eq hrest, hvalue, hsign]
  simp

/-- **An integer is read as written.** -/
theorem number?_ofInt (i : Int) {rest : List Char} (hrest : EndsNumber rest) :
    number? ((Decimal.ofInt i).toList ++ rest) = some (.int i, rest) := by
  rw [Decimal.toList_ofInt]
  by_cases hi : i < 0
  · have hread := unsigned?_toDigits true (n := i.natAbs) (fun _ => by omega) hrest
    have habs : -(i.natAbs : Int) = i := by omega
    rw [if_pos hi, List.cons_append, number?, hread, if_pos rfl, habs]
  · have hread := unsigned?_toDigits false (n := i.natAbs) (fun h => by cases h) hrest
    have habs : (i.natAbs : Int) = i := by omega
    have hminus : ∀ cs, Nat.toDigits 10 i.natAbs ++ rest ≠ '-' :: cs := by
      intro cs h
      obtain ⟨d, ds, hcons, hdigit⟩ := Decimal.toDigits_eq_cons i.natAbs
      rw [hcons] at h
      rw [(List.cons.inj h).1] at hdigit
      exact absurd hdigit (by decide)
    rw [if_neg hi, number?, hread, if_neg (by decide), habs]
    exact hminus

/-- The values that an array or an object is made of. -/
def parts : Json → List Json
  | .array items => items
  | .object fields => fields.map Prod.snd
  | _ => []

/-- **Nothing in the value is kept as it was written.** -/
inductive Proper : Json → Prop
  | intro {j : Json} (here : ∀ text, j ≠ .verbatim text) (inner : ∀ part ∈ j.parts, part.Proper) :
      j.Proper

theorem writeItems_cons (j next : Json) (more : List Json) (rest : List Char) :
    writeItems (j :: next :: more) rest = j.writeTo (',' :: writeItems (next :: more) rest) := by
  rw [writeItems]
  simp

theorem writeFields_cons (key : String) (j : Json) (next : String × Json)
    (more : List (String × Json)) (rest : List Char) :
    writeFields ((key, j) :: next :: more) rest =
      quote key (':' :: j.writeTo (',' :: writeFields (next :: more) rest)) := by
  rw [writeFields]
  simp

/-- The writer puts the same text in front of everything. -/
def Fronts (write : List Char → List Char) : Prop := ∃ text, ∀ rest, write rest = text ++ rest

theorem fronts_id : Fronts fun rest => rest := ⟨[], fun _ => rfl⟩

theorem fronts_append (text : List Char) : Fronts (text ++ ·) := ⟨text, fun _ => rfl⟩

theorem Fronts.after {write write' : List Char → List Char} (h : Fronts write)
    (h' : Fronts write') : Fronts fun rest => write (write' rest) := by
  obtain ⟨text, htext⟩ := h
  obtain ⟨text', htext'⟩ := h'
  refine ⟨text ++ text', fun rest => ?_⟩
  dsimp only
  rw [htext, htext', List.append_assoc]

theorem Fronts.cons {write : List Char → List Char} (c : Char) (h : Fronts write) :
    Fronts fun rest => c :: write rest :=
  (fronts_append [c]).after h

theorem Fronts.length_le {write : List Char → List Char} (h : Fronts write) (rest : List Char) :
    rest.length ≤ (write rest).length := by
  obtain ⟨text, htext⟩ := h
  rw [htext, List.length_append]
  omega

theorem fronts_quote (s : String) : Fronts (quote s) :=
  ((fronts_append (s.toList.flatMap escape)).after (fronts_append ['"'])).cons '"'

theorem fronts_items {items : List Json} (h : ∀ j ∈ items, Fronts j.writeTo) :
    Fronts (writeItems items) := by
  induction items with
  | nil => exact fronts_id
  | cons j more ih =>
    obtain ⟨hj, hmore⟩ := List.forall_mem_cons.1 h
    cases more with
    | nil => exact hj
    | cons next more =>
      have hwrite : writeItems (j :: next :: more) = _ := funext (writeItems_cons j next more)
      rw [hwrite]
      exact hj.after ((ih hmore).cons ',')

theorem fronts_fields {fields : List (String × Json)} (h : ∀ f ∈ fields, Fronts f.2.writeTo) :
    Fronts (writeFields fields) := by
  induction fields with
  | nil => exact fronts_id
  | cons field more ih =>
    obtain ⟨key, j⟩ := field
    obtain ⟨hj, hmore⟩ := List.forall_mem_cons.1 h
    cases more with
    | nil => exact (fronts_quote key).after (hj.cons ':')
    | cons next more =>
      have hwrite : writeFields ((key, j) :: next :: more) = _ :=
        funext (writeFields_cons key j next more)
      rw [hwrite]
      exact (fronts_quote key).after ((hj.after ((ih hmore).cons ',')).cons ':')

theorem Proper.fronts {j : Json} (h : j.Proper) : Fronts j.writeTo := by
  induction h with
  | @intro j here inner ih =>
    cases j with
    | null => exact fronts_append _
    | bool value => cases value <;> exact fronts_append _
    | int value => exact fronts_append _
    | string value => exact fronts_quote value
    | verbatim text => exact fronts_append _
    | array items => exact ((fronts_items ih).after (fronts_append [']'])).cons '['
    | object fields =>
      have hfields : ∀ f ∈ fields, Fronts f.2.writeTo := fun f hf => ih f.2 (List.mem_map_of_mem hf)
      exact ((fronts_fields hfields).after (fronts_append ['\x7d'])).cons '\x7b'

theorem isBlank_number {c : Char} (h : c = '-' ∨ c.isDigit = true) : isBlank c = false := by
  rw [Bool.eq_false_iff]
  intro hblank
  simp only [isBlank, Bool.or_eq_true, beq_iff_eq] at hblank
  rcases hblank with ((rfl | rfl) | rfl) | rfl <;> exact absurd h (by decide)

/-- What a value begins with: no blank, and not what closes an array. -/
theorem Proper.opens {j : Json} (h : j.Proper) (rest : List Char) :
    ∃ c cs, j.writeTo rest = c :: cs ∧ isBlank c = false ∧ c ≠ ']' := by
  cases h with
  | intro here inner =>
    cases j with
    | null => exact ⟨_, _, rfl, by decide, by decide⟩
    | bool value => cases value <;> exact ⟨_, _, rfl, by decide, by decide⟩
    | string value => exact ⟨_, _, rfl, by decide, by decide⟩
    | array items => exact ⟨_, _, rfl, by decide, by decide⟩
    | object fields => exact ⟨_, _, rfl, by decide, by decide⟩
    | verbatim text => exact absurd rfl (here text)
    | int value =>
      obtain ⟨c, cs, hcons, hc⟩ := Decimal.toList_ofInt_eq_cons value
      refine ⟨c, cs ++ rest, by rw [writeTo, hcons]; rfl, isBlank_number hc, ?_⟩
      rintro rfl
      exact absurd hc (by decide)

theorem opens_items {j : Json} (h : j.Proper) (more : List Json) (rest : List Char) :
    ∃ c cs, writeItems (j :: more) rest = c :: cs ∧ isBlank c = false ∧ c ≠ ']' := by
  cases more with
  | nil => exact h.opens rest
  | cons next more => rw [writeItems_cons]; exact h.opens _

theorem opens_fields (field : String × Json) (more : List (String × Json)) (rest : List Char) :
    ∃ cs, writeFields (field :: more) rest = '"' :: cs := by
  cases more with
  | nil => exact ⟨_, rfl⟩
  | cons next more => exact ⟨_, writeFields_cons ..⟩

/-- A value is read as written, if as many nested calls are allowed as its text may need. -/
def ReadBack (j : Json) : Prop :=
  ∀ n rest, EndsNumber rest → 2 * (j.writeTo rest).length ≤ n + 2 * rest.length →
    value? n (j.writeTo rest) = some (j, rest)

theorem skipBlanks_cons {c : Char} (h : isBlank c = false) (cs : List Char) :
    skipBlanks (c :: cs) = c :: cs := by
  simp [skipBlanks, h]

theorem endsNumber_cons {c : Char} (h : c = ',' ∨ c = ']' ∨ c = '\x7d') (cs : List Char) :
    EndsNumber (c :: cs) := by
  intro d hd
  cases hd
  rcases h with rfl | rfl | rfl <;> decide

theorem items?_writeItems {items : List Json} (hne : items ≠ [])
    (hitems : ∀ j ∈ items, j.Proper ∧ ReadBack j) : ∀ n rest,
      2 * (writeItems items (']' :: rest)).length ≤ n + 2 * rest.length + 1 →
      items? n (writeItems items (']' :: rest)) = some (items, rest) := by
  induction items with
  | nil => exact absurd rfl hne
  | cons j more ih =>
    intro n rest hn
    obtain ⟨⟨hproper, hback⟩, hmore⟩ := List.forall_mem_cons.1 hitems
    cases more with
    | nil =>
      have hlength := hproper.fronts.length_le (']' :: rest)
      rw [writeItems] at hn ⊢
      rw [List.length_cons] at hlength
      obtain ⟨n, rfl⟩ : ∃ m, n = m + 1 := ⟨n - 1, by omega⟩
      have hvalue := hback n (']' :: rest) (endsNumber_cons (by simp) _)
        (by rw [List.length_cons]; omega)
      rw [items?, hvalue]
      rfl
    | cons next more =>
      have hlength := hproper.fronts.length_le (',' :: writeItems (next :: more) (']' :: rest))
      have hlength' := (fronts_items fun j hj => (hmore j hj).1.fronts).length_le (']' :: rest)
      rw [writeItems_cons] at hn ⊢
      rw [List.length_cons] at hlength hlength'
      obtain ⟨n, rfl⟩ : ∃ m, n = m + 1 := ⟨n - 1, by omega⟩
      have hvalue := hback n (',' :: writeItems (next :: more) (']' :: rest))
        (endsNumber_cons (by simp) _) (by rw [List.length_cons]; omega)
      have hrest := ih (List.cons_ne_nil _ _) hmore n rest (by omega)
      rw [items?, hvalue]
      simp only [Option.bind_eq_bind, Option.bind_some, skipBlanks_cons (c := ',') (by decide), hrest]
      rfl

/-- The fields of an object, as they are read. -/
def members (fields : List (String × Json)) : List (Option String × Json) :=
  fields.map fun field => (some field.1, field.2)

theorem ofMembers_members (start after : List Char) (fields : List (String × Json)) :
    ofMembers start after (members fields) = .object fields := by
  have hkeys : (members fields).mapM (fun member => member.1.map fun key => (key, member.2)) =
      some fields := by
    unfold members
    induction fields with
    | nil => rfl
    | cons field more ih => simp [List.mapM_cons, ih]
  unfold ofMembers
  split
  · rename_i found hfound
    have heq : some fields = some found := hkeys.symm.trans hfound
    rw [Option.some.inj heq]
  · rename_i hnone
    have heq : some fields = none := hkeys.symm.trans hnone
    cases heq

theorem members?_writeFields {fields : List (String × Json)} (hne : fields ≠ [])
    (hfields : ∀ f ∈ fields, f.2.Proper ∧ ReadBack f.2) : ∀ n rest,
      2 * (writeFields fields ('\x7d' :: rest)).length ≤ n + 2 * rest.length + 1 →
      members? n (writeFields fields ('\x7d' :: rest)) = some (members fields, rest) := by
  induction fields with
  | nil => exact absurd rfl hne
  | cons field more ih =>
    intro n rest hn
    obtain ⟨key, j⟩ := field
    obtain ⟨hfield, hmore⟩ := List.forall_mem_cons.1 hfields
    obtain ⟨hproper, hback⟩ : j.Proper ∧ ReadBack j := hfield
    cases more with
    | nil =>
      have hlength := hproper.fronts.length_le ('\x7d' :: rest)
      have hquote := (fronts_quote key).length_le (':' :: j.writeTo ('\x7d' :: rest))
      rw [writeFields] at hn ⊢
      rw [List.length_cons] at hlength hquote
      obtain ⟨n, rfl⟩ : ∃ m, n = m + 1 := ⟨n - 1, by omega⟩
      have hvalue := hback n ('\x7d' :: rest) (endsNumber_cons (by simp) _)
        (by rw [List.length_cons]; omega)
      unfold quote
      rw [members?, skipBlanks_cons (by decide)]
      simp only [Option.bind_eq_bind, Option.bind_some, string?_quote,
        skipBlanks_cons (c := ':') (by decide), hvalue]
      rfl
    | cons next more =>
      have hlength := hproper.fronts.length_le (',' :: writeFields (next :: more) ('\x7d' :: rest))
      have hlength' := (fronts_fields fun f hf => (hmore f hf).1.fronts).length_le ('\x7d' :: rest)
      have hquote := (fronts_quote key).length_le
        (':' :: j.writeTo (',' :: writeFields (next :: more) ('\x7d' :: rest)))
      rw [writeFields_cons] at hn ⊢
      rw [List.length_cons] at hlength hlength' hquote
      obtain ⟨n, rfl⟩ : ∃ m, n = m + 1 := ⟨n - 1, by omega⟩
      have hvalue := hback n (',' :: writeFields (next :: more) ('\x7d' :: rest))
        (endsNumber_cons (by simp) _) (by rw [List.length_cons]; omega)
      have hrest := ih (List.cons_ne_nil _ _) hmore n rest (by omega)
      unfold quote
      rw [members?, skipBlanks_cons (by decide)]
      simp only [Option.bind_eq_bind, Option.bind_some, string?_quote,
        skipBlanks_cons (c := ':') (by decide), hvalue, skipBlanks_cons (c := ',') (by decide), hrest]
      rfl

theorem value?_number {c : Char} (h : c = '-' ∨ c.isDigit = true) (n : Nat) (cs : List Char) :
    value? (n + 1) (c :: cs) = number? (c :: cs) := by
  rw [value?, skipBlanks_cons (isBlank_number h)]
  split
  case h_7 => rfl
  all_goals
    -- every other kind of value begins with a character of its own
    rename_i heq
    cases heq
    exact absurd h (by decide)

/-- A call is left for the value itself. -/
theorem exists_call {j : Json} (h : j.Proper) {n : Nat} {rest : List Char}
    (hn : 2 * (j.writeTo rest).length ≤ n + 2 * rest.length) : ∃ m, n = m + 1 := by
  obtain ⟨text, htext⟩ := h.fronts
  obtain ⟨c, cs, hcons, -⟩ := h.opens []
  have hpos : 0 < text.length := by
    rw [htext, List.append_nil] at hcons
    rw [hcons]
    exact Nat.succ_pos _
  rw [htext, List.length_append] at hn
  exact ⟨n - 1, by omega⟩

/-- **A proper value is read as written.** -/
theorem Proper.readBack {j : Json} (h : j.Proper) : ReadBack j := by
  induction h with
  | @intro j here inner ih =>
    intro n rest hrest hn
    obtain ⟨n, rfl⟩ := exists_call (.intro here inner) hn
    cases j with
    | null => rfl
    | bool value => cases value <;> rfl
    | verbatim text => exact absurd rfl (here text)
    | int value =>
      obtain ⟨c, cs, hcons, hc⟩ := Decimal.toList_ofInt_eq_cons value
      have hnumber := number?_ofInt value hrest
      rw [writeTo]
      rw [hcons, List.cons_append] at hnumber ⊢
      rw [value?_number hc, hnumber]
    | string value =>
      rw [writeTo]
      unfold quote
      rw [value?, skipBlanks_cons (by decide)]
      simp only [string?_quote]
      rfl
    | array items =>
      rw [writeTo] at hn ⊢
      rw [value?, skipBlanks_cons (by decide)]
      cases items with
      | nil => rfl
      | cons first more =>
        have hitems := items?_writeItems (List.cons_ne_nil first more)
          (fun part hpart => ⟨inner part hpart, ih part hpart⟩) n rest
          (by rw [List.length_cons] at hn; omega)
        obtain ⟨c, cs, hopens, hblank, hc⟩ :=
          opens_items (inner first List.mem_cons_self) more (']' :: rest)
        rw [hopens] at hitems ⊢
        simp only [skipBlanks_cons hblank]
        split
        · rename_i heq
          exact absurd (List.cons.inj heq).1 hc
        · rw [hitems]; rfl
    | object fields =>
      have hparts : ∀ f ∈ fields, f.2.Proper ∧ ReadBack f.2 := fun f hf =>
        ⟨inner f.2 (List.mem_map_of_mem hf), ih f.2 (List.mem_map_of_mem hf)⟩
      rw [writeTo] at hn ⊢
      rw [value?, skipBlanks_cons (by decide)]
      cases fields with
      | nil => rfl
      | cons first more =>
        have hmembers := members?_writeFields (List.cons_ne_nil first more) hparts n rest
          (by rw [List.length_cons] at hn; omega)
        obtain ⟨cs, hopens⟩ := opens_fields first more ('\x7d' :: rest)
        have hobject := ofMembers_members ('"' :: cs) rest (first :: more)
        rw [hopens] at hmembers ⊢
        simp only [skipBlanks_cons (c := '"') (by decide)]
        split
        · rename_i heq
          exact absurd (List.cons.inj heq).1 (by decide)
        · rw [hmembers, Option.map_some, hobject]

/-- **What is written is read.** -/
theorem read?_write {j : Json} (h : j.Proper) : read? j.write = some j := by
  have hvalue := h.readBack (2 * (j.writeTo []).length + 2) [] (by intro c hc; cases hc) (by omega)
  unfold read? write
  rw [String.toList_ofList]
  simp only [hvalue]
  rfl

end RobotScript.Json
