import RobotScript.Proofs.Scan

/-!
# What a scanner finds

* `scan_ofText`: going through a text with a cursor finds the lexemes that the text is cut into.
* `Laid`: how lexemes stand in a text, with separators between them.
* `lexemes_of_laid`, `laid_lexemes`: a text is cut into the lexemes that are laid out in it, and
  into no others.
* `scanner_follows_delimiting_rule`: so a scanner finds the lexemes laid out in its text, each
  with its kind, and finds nothing when it is used again.
-/

namespace RobotScript

open Scan

namespace Scanner

variable {scanner : Scanner} {c : Char}

/-- The characters from the cursor on. -/
def rest (scanner : Scanner) : List Char := scanner.source.toList.drop scanner.current

theorem rest_of_peek (h : scanner.peek? = some c) : scanner.rest = c :: scanner.advance.rest := by
  have hget : scanner.source.toList[scanner.current]? = some c := by
    rw [Array.getElem?_toList]; exact h
  obtain ⟨hlt, rfl⟩ := List.getElem?_eq_some_iff.1 hget
  exact List.drop_eq_getElem_cons hlt

theorem peek?_eq_none : scanner.peek? = none ↔ scanner.rest = [] := by
  unfold peek? rest
  rw [Array.getElem?_eq_none_iff, List.drop_eq_nil_iff, Array.length_toList]

/-- The cursor moves over all plain characters. -/
theorem skipWord_eq (scanner : Scanner) : scanner.skipWord =
    { scanner with current := scanner.current + (scanner.rest.takeWhile isPlain).length } := by
  fun_induction skipWord scanner with
  | case1 scanner c hpeek hends =>
    have hplain : isPlain c = false := by
      unfold isPlain
      cases hsep : isSeparator c <;> simp_all
    rw [rest_of_peek hpeek, List.takeWhile_cons, hplain]; rfl
  | case2 scanner c hpeek hplain ih =>
    have hplain : isPlain c = true := by simpa [isPlain] using hplain
    rw [ih, rest_of_peek hpeek, List.takeWhile_cons, hplain]
    simp only [if_true, List.length_cons, advance]
    congr 1
    omega
  | case3 scanner hpeek => rw [peek?_eq_none.1 hpeek]; rfl

/-- The lexeme that is added lies between the start and the cursor. -/
theorem tokens_addToken (scanner : Scanner) : scanner.addToken.tokens.toList =
    scanner.tokens.toList ++ [Token.ofLexeme (String.ofList
      ((scanner.source.toList.drop scanner.start).take (scanner.current - scanner.start)))] := by
  simp [addToken, List.extract_eq_take_drop]

/-- **The lexemes are found on the way** from one scanner to another: they are at the front of
what was left. -/
def Finds (scanner after : Scanner) (found : List String) : Prop :=
  after.tokens.toList = scanner.tokens.toList ++ found.map Token.ofLexeme ∧
    lexemesFrom [] scanner.rest = found ++ lexemesFrom [] after.rest

theorem Finds.trans {mid after : Scanner} {found more : List String}
    (h : scanner.Finds mid found) (h' : mid.Finds after more) :
    scanner.Finds after (found ++ more) := by
  refine ⟨?_, ?_⟩
  · rw [h'.1, h.1, List.map_append, List.append_assoc]
  · rw [h.2, h'.2, List.append_assoc]

theorem finds_separator (hpeek : scanner.peek? = some c) (hsep : isSeparator c = true) :
    scanner.Finds (scanner.scanToken c) [] := by
  have hstep : scanner.scanToken c = { scanner with start := scanner.current }.advance := by
    simp [scanToken, hsep]
  rw [hstep]
  refine ⟨by simp [advance], ?_⟩
  rw [rest_of_peek hpeek, lexemesFrom_separator hsep]; rfl

theorem finds_delimiter (hpeek : scanner.peek? = some c) (hdelim : isDelimiter c = true) :
    scanner.Finds (scanner.scanToken c) [String.singleton c] := by
  have hstep : scanner.scanToken c = { scanner with start := scanner.current }.advance.addToken := by
    simp [scanToken, not_isSeparator hdelim, hdelim]
  have hfrom : scanner.source.toList.drop scanner.current = c :: scanner.advance.rest :=
    rest_of_peek hpeek
  rw [hstep]
  refine ⟨?_, ?_⟩
  · rw [tokens_addToken]
    simp only [advance]
    rw [hfrom, Nat.add_sub_cancel_left]; rfl
  · rw [rest_of_peek hpeek, lexemesFrom_delimiter hdelim]; rfl

/-- Plain characters are followed by one that is not plain, or by none. -/
theorem split_plain (cs : List Char) : ∃ more after, cs = more ++ after ∧
    more = cs.takeWhile isPlain ∧ more.all isPlain = true ∧
      ∀ d ∈ after.head?, isPlain d = false := by
  refine ⟨_, cs.dropWhile isPlain, List.takeWhile_append_dropWhile.symm, rfl,
    List.all_takeWhile, fun d hd => ?_⟩
  have hnot := List.head?_dropWhile_not isPlain cs
  rw [Option.mem_def.1 hd] at hnot
  simpa using hnot

/-- A word is what the cursor moves over: a character and the plain ones after it. -/
theorem finds_word (hpeek : scanner.peek? = some c) (hplain : isPlain c = true) :
    ∃ word, scanner.Finds (scanner.scanToken c) [word] := by
  have hsep : isSeparator c = false := by simp_all [isPlain]
  have hdelim : isDelimiter c = false := by simp_all [isPlain]
  have hfrom : scanner.source.toList.drop scanner.current = c :: scanner.advance.rest :=
    rest_of_peek hpeek
  obtain ⟨more, after, hsplit, hmore, hall, hend⟩ := split_plain scanner.advance.rest
  have hstep : scanner.scanToken c = ({ scanner with
      start := scanner.current, current := scanner.current + 1 + more.length } : Scanner).addToken := by
    simp only [scanToken, hsep, hdelim, Bool.false_eq_true, if_false, skipWord_eq]
    rw [hmore]; rfl
  have hafter : (scanner.scanToken c).rest = after := by
    have hdrop : (scanner.scanToken c).rest = scanner.advance.rest.drop more.length := by
      rw [hstep]
      exact List.drop_drop.symm
    rw [hdrop, hsplit, List.drop_left]
  refine ⟨String.ofList (c :: more), ?_, ?_⟩
  · have hlength : scanner.current + 1 + more.length - scanner.current = more.length + 1 := by
      omega
    rw [hstep, tokens_addToken]
    dsimp only
    rw [hfrom, hlength, hsplit, List.take_succ_cons, List.take_left]; rfl
  · have hword : (c :: more).all isPlain = true := by rw [List.all_cons, hplain, hall]; rfl
    rw [hafter, rest_of_peek hpeek, hsplit]
    exact lexemesFrom_run (List.cons_ne_nil _ _) hword hend

/-- **A scanner finds the lexemes of what is left**, and then nothing is left. -/
theorem finds_scanAll (scanner : Scanner) :
    scanner.Finds scanner.scanAll (lexemesFrom [] scanner.rest) ∧ scanner.scanAll.rest = [] := by
  fun_induction scanAll scanner with
  | case1 scanner c hpeek ih =>
    obtain ⟨found, hfound⟩ : ∃ found, scanner.Finds (scanner.scanToken c) found := by
      by_cases hsep : isSeparator c = true
      · exact ⟨_, finds_separator hpeek hsep⟩
      · by_cases hdelim : isDelimiter c = true
        · exact ⟨_, finds_delimiter hpeek hdelim⟩
        · obtain ⟨word, hword⟩ := finds_word hpeek (by simp [isPlain, hsep, hdelim])
          exact ⟨_, hword⟩
    refine ⟨?_, ih.2⟩
    rw [hfound.2]
    exact hfound.trans ih.1
  | case2 scanner hpeek =>
    have hrest := peek?_eq_none.1 hpeek
    refine ⟨⟨?_, ?_⟩, hrest⟩
    · rw [hrest, lexemesFrom, flush]; simp
    · rw [hrest, lexemesFrom, flush]; rfl

/-- **Going through a text with a cursor** gives the tokens that the text is cut into. -/
theorem scan_ofText (text : String) : (ofText text).scan.1 = Token.scan text := by
  have hrest : (ofText text).rest = text.toList := by simp [rest, ofText]
  have htokens := (finds_scanAll (ofText text)).1.1
  rw [hrest] at htokens
  unfold scan
  dsimp only
  rw [htokens]
  rfl

/-- A scanner that was used finds nothing more. -/
theorem scan_scan (scanner : Scanner) : scanner.scan.2.scan.1 = [] := by
  have hrest : scanner.scan.2.rest = [] := (finds_scanAll scanner).2
  have htokens := (finds_scanAll scanner.scan.2).1.1
  rw [hrest] at htokens
  unfold scan at htokens ⊢
  dsimp only at htokens ⊢
  rw [htokens]
  rfl

end Scanner

namespace Scan

/-- What stands between lexemes. -/
def separators : List Char := [' ', '\t', '\n', '\x0b', '\x0c', '\r']

/-- What is a lexeme by itself. -/
def delimiters : List Char := ['\x7b', '\x7d', '(', ')', ',', ';']

/-- The lexeme is a delimiter. -/
def Delimits (l : String) : Prop := ∃ c ∈ delimiters, l = String.singleton c

/-- **What can be a lexeme**: a delimiter, or one or more characters none of which delimits or
separates. -/
def Legal (l : String) : Prop :=
  Delimits l ∨ (l ≠ "" ∧ ∀ c ∈ l.toList, c ∉ delimiters ∧ c ∉ separators)

/-- A gap: separators only, or nothing. -/
def Gap (g : String) : Prop := ∀ c ∈ g.toList, c ∈ separators

/-- A gap, a lexeme, a gap, and so on to the last gap. -/
def weave : (gaps lexemes : List String) → String
  | g :: gaps, l :: lexemes => g ++ l ++ weave gaps lexemes
  | g :: _, [] => g
  | [], _ => ""

/-- **The lexemes are laid out in the text** with gaps before, between and after them. The gap
between two lexemes may be empty only if one of them is a delimiter. -/
structure Laid (text : String) (gaps lexemes : List String) : Prop where
  count : gaps.length = lexemes.length + 1
  gap : ∀ g ∈ gaps, Gap g
  apart : ∀ i l l', lexemes[i]? = some l → lexemes[i + 1]? = some l' →
    ¬ Delimits l → ¬ Delimits l' → gaps[i + 1]? ≠ some ""
  text_eq : text = weave gaps lexemes

theorem isSeparator_iff (c : Char) : isSeparator c = true ↔ c ∈ separators := by
  simp [isSeparator, separators, or_assoc]

theorem isDelimiter_iff (c : Char) : isDelimiter c = true ↔ c ∈ delimiters := by
  simp [isDelimiter, delimiters, or_assoc]

theorem isPlain_iff (c : Char) : isPlain c = true ↔ c ∉ delimiters ∧ c ∉ separators := by
  rw [← isSeparator_iff, ← isDelimiter_iff]
  simp [isPlain, and_comm]

theorem isWord_iff (l : String) :
    IsWord l ↔ l ≠ "" ∧ ∀ c ∈ l.toList, c ∉ delimiters ∧ c ∉ separators := by
  unfold IsWord
  simp [List.all_eq_true, isPlain_iff]

theorem legal_iff (l : String) : Legal l ↔ Delimits l ∨ IsWord l := by
  unfold Legal
  rw [isWord_iff]

theorem lexemesFrom_gap {g : String} (hg : Gap g) (cs : List Char) :
    lexemesFrom [] (g.toList ++ cs) = lexemesFrom [] cs := by
  unfold Gap at hg
  generalize g.toList = gap at hg
  induction gap with
  | nil => rfl
  | cons c gap ih =>
    obtain ⟨hc, hg⟩ := List.forall_mem_cons.1 hg
    rw [List.cons_append, lexemesFrom_separator ((isSeparator_iff c).2 hc), ih hg]

variable {text g g' l : String} {gaps ls : List String}

theorem laid_nil (hg : Gap g) : Laid g [g] [] where
  count := rfl
  gap := by simpa using hg
  apart := by simp
  text_eq := rfl

/-- A lexeme in front of others, with the gap before it. -/
theorem Laid.cons (h : Laid text (g' :: gaps) ls) (hg : Gap g)
    (hapart : ∀ l' ∈ ls.head?, ¬ Delimits l → ¬ Delimits l' → g' ≠ "") :
    Laid (g ++ l ++ text) (g :: g' :: gaps) (l :: ls) where
  count := by simpa using h.count
  gap := List.forall_mem_cons.2 ⟨hg, h.gap⟩
  apart := by
    intro i l₁ l₂ h₁ h₂ hl₁ hl₂
    cases i with
    | zero =>
      have h₁ : l = l₁ := by simpa using h₁
      have h₂ : ls.head? = some l₂ := by simpa [List.head?_eq_getElem?] using h₂
      subst h₁
      simpa using hapart l₂ h₂ hl₁ hl₂
    | succ i => exact h.apart i l₁ l₂ h₁ h₂ hl₁ hl₂
  text_eq := by rw [h.text_eq, weave]

theorem Laid.tail (h : Laid text (g :: gaps) (l :: ls)) :
    ∃ rest, text = g ++ l ++ rest ∧ Laid rest gaps ls := by
  refine ⟨weave gaps ls, h.text_eq, ?_⟩
  exact {
    count := by simpa using h.count
    gap := (List.forall_mem_cons.1 h.gap).2
    apart := fun i l₁ l₂ h₁ h₂ => h.apart (i + 1) l₁ l₂ h₁ h₂
    text_eq := rfl }

/-- More separators in front. -/
theorem Laid.widen (h : Laid text (g' :: gaps) ls) (hg : Gap g) :
    Laid (g ++ text) ((g ++ g') :: gaps) ls where
  count := h.count
  gap := by
    obtain ⟨hg', hgaps⟩ := List.forall_mem_cons.1 h.gap
    refine List.forall_mem_cons.2 ⟨fun c hc => ?_, hgaps⟩
    rw [String.toList_append, List.mem_append] at hc
    exact hc.elim (hg c) (hg' c)
  apart := h.apart
  text_eq := by
    rw [h.text_eq]
    cases ls with
    | nil => rfl
    | cons l ls => simp [weave, String.append_assoc]

theorem Laid.exists_gap (h : Laid text gaps ls) : ∃ g more, gaps = g :: more := by
  have := h.count
  cases gaps with
  | nil => simp at this
  | cons g more => exact ⟨g, more, rfl⟩

/-- What follows a word is not plain: a gap, a delimiter or the end. -/
theorem Laid.head_not_plain (h : Laid text (g :: gaps) ls)
    (hfirst : ∀ l ∈ ls.head?, g = "" → Delimits l) :
    ∀ c ∈ text.toList.head?, isPlain c = false := by
  intro c hc
  have hgap : Gap g := (List.forall_mem_cons.1 h.gap).1
  by_cases hg : g = ""
  · cases ls with
    | nil =>
      rw [h.text_eq, weave, hg] at hc
      cases hc
    | cons l ls =>
      obtain ⟨d, hd, rfl⟩ := hfirst l rfl hg
      obtain ⟨rest, rfl, -⟩ := h.tail
      have hcd : d = c := by simpa [hg] using hc
      have hdelim := (isDelimiter_iff d).2 hd
      rw [← hcd]
      simp [isPlain, hdelim]
  · have hmem : c ∈ g.toList := by
      have hne : g.toList ≠ [] := by simpa using hg
      have htext : ∃ rest, text.toList = g.toList ++ rest := by
        cases ls with
        | nil => exact ⟨[], by rw [h.text_eq, weave, List.append_nil]⟩
        | cons l ls =>
          obtain ⟨rest, rfl, -⟩ := h.tail
          exact ⟨l.toList ++ rest.toList, by simp⟩
      obtain ⟨rest, htext⟩ := htext
      rw [htext, List.head?_append] at hc
      obtain ⟨d, more, hcons⟩ := List.exists_cons_of_ne_nil hne
      rw [hcons] at hc ⊢
      cases hc
      exact List.mem_cons_self
    have hsep := (isSeparator_iff c).2 (hgap c hmem)
    simp [isPlain, hsep]

/-- **A text is cut into the lexemes laid out in it.** -/
theorem lexemes_of_laid (h : Laid text gaps ls) (hlegal : ∀ l ∈ ls, Legal l) : lexemes text = ls := by
  unfold lexemes
  induction ls generalizing text gaps with
  | nil =>
    obtain ⟨g, more, rfl⟩ := h.exists_gap
    have hgap : Gap g := (List.forall_mem_cons.1 h.gap).1
    have hcut := lexemesFrom_gap hgap []
    rw [List.append_nil] at hcut
    rw [h.text_eq, weave, hcut]; rfl
  | cons l ls ih =>
    obtain ⟨g, more, rfl⟩ := h.exists_gap
    obtain ⟨hl, hls⟩ := List.forall_mem_cons.1 hlegal
    have hgap : Gap g := (List.forall_mem_cons.1 h.gap).1
    have hapart := h.apart 0 l
    obtain ⟨rest, rfl, hrest⟩ := h.tail
    have hcut := ih hrest hls
    rw [String.toList_append, String.toList_append, List.append_assoc, lexemesFrom_gap hgap]
    by_cases hdelim : Delimits l
    · obtain ⟨c, hc, rfl⟩ := hdelim
      rw [String.toList_singleton, List.singleton_append,
        lexemesFrom_delimiter ((isDelimiter_iff c).2 hc), hcut]
    · have hword : IsWord l := ((legal_iff l).1 hl).resolve_left hdelim
      obtain ⟨g', more, rfl⟩ := hrest.exists_gap
      -- the next lexeme is not part of the word: there is a gap, or it is a delimiter
      have hend := hrest.head_not_plain fun l' hl' hg' => by
        refine Classical.not_not.1 fun hdelim' => ?_
        have hnext : (l :: ls)[1]? = some l' := by simpa [List.head?_eq_getElem?] using hl'
        exact hapart l' rfl hnext hdelim hdelim' (by simpa using hg')
      rw [lexemesFrom_run hword.1 hword.2 hend, hcut, String.ofList_toList]

theorem gap_nil : Gap "" := by
  intro c hc
  cases hc

theorem gap_singleton {c : Char} (h : isSeparator c = true) : Gap (String.singleton c) := by
  intro d hd
  have hdc : d = c := by simpa using hd
  rw [hdc]
  exact (isSeparator_iff c).1 h

/-- A pending word in front of lexemes, if what follows it ends it. -/
theorem Laid.flush (h : Laid text (g :: gaps) ls) (hfirst : ∀ l ∈ ls.head?, g = "" → Delimits l)
    (word : List Char) : ∃ gaps,
      Laid (String.ofList word.reverse ++ text) gaps (Scan.flush word ls) := by
  cases word with
  | nil => exact ⟨g :: gaps, by simpa [Scan.flush] using h⟩
  | cons c word =>
    have hcons : Laid ("" ++ String.ofList (c :: word).reverse ++ text) ("" :: g :: gaps)
        (String.ofList (c :: word).reverse :: ls) :=
      h.cons gap_nil fun l hl _ hl' hg => hl' (hfirst l hl hg)
    exact ⟨_, by simpa [Scan.flush] using hcons⟩

theorem delimits_singleton {c : Char} (h : isDelimiter c = true) : Delimits (String.singleton c) :=
  ⟨c, (isDelimiter_iff c).1 h, rfl⟩

/-- **The lexemes of a text are laid out in it**, after a pending word. -/
theorem laid_lexemesFrom (cs : List Char) : ∀ word, ∃ gaps,
    Laid (String.ofList (word.reverse ++ cs)) gaps (lexemesFrom word cs) := by
  induction cs with
  | nil =>
    intro word
    have hflush := (laid_nil gap_nil).flush (fun l hl => by cases hl) word
    simpa [lexemesFrom] using hflush
  | cons c cs ih =>
    intro word
    obtain ⟨gaps, hrest⟩ := ih []
    obtain ⟨g, gaps, rfl⟩ := hrest.exists_gap
    have htext : String.ofList (word.reverse ++ c :: cs) =
        String.ofList word.reverse ++ (String.singleton c ++ String.ofList cs) := by
      rw [← String.toList_inj]; simp
    unfold lexemesFrom
    by_cases hsep : isSeparator c = true
    · have hne : String.singleton c ++ g ≠ "" := by simp
      have hwide : Laid (String.singleton c ++ String.ofList cs) _ _ :=
        hrest.widen (gap_singleton hsep)
      rw [if_pos hsep, htext]
      exact hwide.flush (fun _ _ hg => absurd hg hne) word
    · rw [if_neg hsep]
      by_cases hdelim : isDelimiter c = true
      · have hdelimits := delimits_singleton hdelim
        have hcons : Laid ("" ++ String.singleton c ++ String.ofList cs) ("" :: g :: gaps)
            (String.singleton c :: lexemesFrom [] cs) :=
          hrest.cons gap_nil fun _ _ hc => absurd hdelimits hc
        rw [String.empty_append] at hcons
        rw [if_pos hdelim, htext]
        refine hcons.flush (fun l hl _ => ?_) word
        cases hl
        exact hdelimits
      · -- the word goes on
        have hmore := ih (c :: word)
        rw [if_neg hdelim]
        simpa using hmore

theorem legal_flush {word : List Char} (hword : word.all isPlain = true)
    (hls : ∀ l ∈ ls, Legal l) : ∀ l ∈ flush word ls, Legal l := by
  cases word with
  | nil => exact hls
  | cons c word =>
    refine List.forall_mem_cons.2 ⟨(legal_iff _).2 (.inr ?_), hls⟩
    unfold IsWord
    rw [String.toList_ofList, List.all_reverse]
    exact ⟨by simp, hword⟩

theorem legal_lexemesFrom (cs : List Char) : ∀ word, word.all isPlain = true →
    ∀ l ∈ lexemesFrom word cs, Legal l := by
  induction cs with
  | nil =>
    intro word hword
    exact legal_flush hword (by simp)
  | cons c cs ih =>
    intro word hword
    have hrest := ih [] rfl
    unfold lexemesFrom
    by_cases hsep : isSeparator c = true
    · rw [if_pos hsep]
      exact legal_flush hword hrest
    · rw [if_neg hsep]
      by_cases hdelim : isDelimiter c = true
      · rw [if_pos hdelim]
        refine legal_flush hword (List.forall_mem_cons.2 ⟨.inl ?_, hrest⟩)
        exact delimits_singleton hdelim
      · have hplain : isPlain c = true := by simp [isPlain, hsep, hdelim]
        rw [if_neg hdelim]
        exact ih (c :: word) (by rw [List.all_cons, hplain, hword]; rfl)

/-- **The lexemes of a text** are those that are laid out in it. -/
theorem lexemes_eq_iff (text : String) (ls : List String) :
    lexemes text = ls ↔ (∀ l ∈ ls, Legal l) ∧ ∃ gaps, Laid text gaps ls := by
  constructor
  · rintro rfl
    refine ⟨legal_lexemesFrom text.toList [] rfl, ?_⟩
    have hlaid := laid_lexemesFrom text.toList []
    rwa [List.reverse_nil, List.nil_append, String.ofList_toList] at hlaid
  · rintro ⟨hlegal, gaps, hlaid⟩
    exact lexemes_of_laid hlaid hlegal

end Scan

theorem Token.lexeme_scan (text : String) : (Token.scan text).map Token.lexeme = lexemes text := by
  unfold Token.scan
  rw [List.map_map]
  exact List.map_id _

/-- **A scanner follows the delimiting rule**: its tokens have certain lexemes exactly if these are
legal and are laid out in the text; each token has the kind of its lexeme; and the scanner finds
nothing when it is used again. -/
theorem scanner_follows_delimiting_rule (text : String) :
    (∀ ls, (Scanner.ofText text).scan.1.map Token.lexeme = ls ↔
      (∀ l ∈ ls, Legal l) ∧ ∃ gaps, Laid text gaps ls) ∧
    (∀ t ∈ (Scanner.ofText text).scan.1, t.kind = Kind.classify t.lexeme) ∧
    (Scanner.ofText text).scan.2.scan.1 = [] := by
  rw [Scanner.scan_ofText]
  refine ⟨fun ls => ?_, fun t ht => ?_, Scanner.scan_scan _⟩
  · rw [Token.lexeme_scan]
    exact lexemes_eq_iff text ls
  · obtain ⟨l, -, rfl⟩ := List.mem_map.1 ht
    rfl

/-- An equals sign does not delimit, and a no-break space does not separate. -/
example : lexemes "$x=3;\x0bmove\xa0turnL" = ["$x=3", ";", "move\xa0turnL"] := by decide

end RobotScript
