import RobotScript.Proofs.RoundTrip
import RobotScript.Proofs.Sequence
import RobotScript.Robot.Scripted

/-!
# Programs one after the other

The text of a program ends in a semicolon or a brace, so whatever follows it, no lexeme lies across
the seam: the tokens of two texts are those of the first and those of the second. Statements then
follow each other, in the grammar and when they are carried out.

* `lexemesFrom_append`: a text is cut at its seam unless the first part ends in a word.
* `DerivesStatement.last`: the tokens a statement can end with.
* `Program.parse_append`: two texts, each of a program, are together the text of one.
* `programs_concatenate`: and it does what they do one after the other.
-/

namespace RobotScript

open Grammar Scan Lang

namespace Scan

theorem isPlain_nil : ([] : List Char).all isPlain = true := rfl

theorem flush_append (word : List Char) (ls ls' : List String) :
    flush word (ls ++ ls') = flush word ls ++ ls' := by
  unfold flush
  split <;> rfl

theorem flush_last {word : List Char} {ls : List String} {l : String}
    (h : ls.getLast? = some l) : (flush word ls).getLast? = some l := by
  unfold flush
  split
  · exact h
  · rw [List.getLast?_cons, h]; rfl

/-- **A text is cut at its seam**, unless the first part ends in a word. -/
theorem lexemesFrom_append (cs ds : List Char) {word : List Char} (hword : word.all isPlain = true) :
    lexemesFrom word (cs ++ ds) = lexemesFrom word cs ++ lexemesFrom [] ds ∨
      ∃ w, IsWord w ∧ (lexemesFrom word cs).getLast? = some w := by
  induction cs generalizing word with
  | nil =>
    cases word with
    | nil => exact .inl rfl
    | cons c word =>
      refine .inr ⟨String.ofList (c :: word).reverse, ?_, rfl⟩
      unfold IsWord
      rw [String.toList_ofList, List.all_reverse]
      exact ⟨by simp, hword⟩
  | cons c cs ih =>
    rw [List.cons_append, lexemesFrom, lexemesFrom]
    by_cases hsep : isSeparator c = true
    · rw [if_pos hsep, if_pos hsep]
      rcases ih isPlain_nil with heq | ⟨w, hw, hlast⟩
      · rw [heq, flush_append]; exact .inl rfl
      · exact .inr ⟨w, hw, flush_last hlast⟩
    · rw [if_neg hsep, if_neg hsep]
      by_cases hdelim : isDelimiter c = true
      · rw [if_pos hdelim, if_pos hdelim]
        rcases ih isPlain_nil with heq | ⟨w, hw, hlast⟩
        · rw [heq, ← List.cons_append, flush_append]; exact .inl rfl
        · refine .inr ⟨w, hw, flush_last ?_⟩
          rw [List.getLast?_cons, hlast]; rfl
      · rw [if_neg hdelim, if_neg hdelim]
        -- the word goes on, and may reach the seam
        have hplain : isPlain c = true := by simp [isPlain, hsep, hdelim]
        exact ih (by rw [List.all_cons, hplain, hword]; rfl)

end Scan

/-- The kinds of token a statement can end with. -/
def Grammar.closesStatement : Kind → Bool
  | .semicolon | .rightBrace => true
  | _ => false

/-- What ends a statement is no word. -/
theorem Kind.not_isWord {s : String} (h : closesStatement (classify s) = true) : ¬ IsWord s := by
  have hfits := fits_classify s
  generalize classify s = kind at h hfits
  cases kind with
  | semicolon | rightBrace =>
    cases hfits with
    | reserved spelled =>
      cases spelled
      decide
  | _ => cases h

/-- The tokens end with one that can end a statement. -/
def Grammar.Closed (ts : List Token) : Prop :=
  ∃ us t, ts = us ++ [t] ∧ closesStatement t.kind = true

/-- **Two texts are scanned one after the other** if the first ends like a statement. -/
theorem Token.scan_append {text : String} (h : Closed (Token.scan text)) (text' : String) :
    Token.scan (text ++ text') = Token.scan text ++ Token.scan text' := by
  obtain ⟨us, t, hscan, hcloses⟩ := h
  unfold Token.scan Scan.lexemes at hscan ⊢
  rcases lexemesFrom_append text.toList text'.toList isPlain_nil with heq | ⟨w, hw, hlast⟩
  · rw [String.toList_append, heq, List.map_append]
  · have hmap := congrArg List.getLast? hscan
    rw [List.getLast?_map, hlast, List.getLast?_concat] at hmap
    have hkind : Token.ofLexeme w = t := Option.some.inj hmap
    rw [← hkind] at hcloses
    exact absurd hw (Kind.not_isWord hcloses)

namespace Grammar

theorem Closed.append {ts : List Token} (us : List Token) (h : Closed ts) : Closed (us ++ ts) := by
  obtain ⟨vs, t, rfl, ht⟩ := h
  exact ⟨us ++ vs, t, (List.append_assoc us vs [t]).symm, ht⟩

theorem Closed.cons {ts : List Token} (t : Token) (h : Closed ts) : Closed (t :: ts) :=
  h.append [t]

theorem closed_singleton {t : Token} {kind : Kind} (h : t.kind = kind)
    (hkind : closesStatement kind = true) : Closed [t] :=
  ⟨[], t, rfl, by rw [h]; exact hkind⟩

theorem many_closed {α : Type} {D : Lang α} (hD : ∀ {ts a}, D ts a → Closed ts) {ts : List Token}
    {as : List α} (h : Many D ts as) : ts = [] ∨ Closed ts := by
  induction h with
  | nil => exact .inl rfl
  | @cons us vs a as head _ ih =>
    right
    rcases ih with rfl | hclosed
    · rw [List.append_nil]; exact hD head
    · exact hclosed.append us

theorem DerivesBlock.last {ts : List Token} {body : Block} (h : DerivesBlock ts body) :
    Closed ts := by
  cases h with
  | braces _ _ _ right => exact ((closed_singleton right rfl).append _).cons _

theorem DerivesGuarded.last {ts : List Token} {e : Elif} (h : DerivesGuarded ts e) : Closed ts := by
  cases h with
  | guard _ _ _ block => exact ((block.last.cons _).append _).cons _

theorem DerivesElif.last {ts : List Token} {e : Elif} (h : DerivesElif ts e) : Closed ts := by
  cases h with
  | elif _ guarded => exact guarded.last.cons _

theorem DerivesElse.last {ts : List Token} {otherwise : Option Block}
    (h : DerivesElse ts otherwise) : ts = [] ∨ Closed ts := by
  cases h with
  | none => exact .inl rfl
  | some _ block => exact .inr (block.last.cons _)

/-- **A statement ends with a semicolon or a brace.** -/
theorem DerivesStatement.last {ts : List Token} {s : Statement} (h : DerivesStatement ts s) :
    Closed ts := by
  cases h with
  | action _ semicolon => exact (closed_singleton semicolon rfl).cons _
  | counted _ _ _ _ _ semicolon =>
    exact ((((closed_singleton semicolon rfl).cons _).append _).cons _).cons _
  | assign _ _ _ semicolon => exact (((closed_singleton semicolon rfl).append _).cons _).cons _
  | loop _ block => exact block.last.cons _
  | whileLoop _ guarded => exact guarded.last.cons _
  | @branch t ts us vs test body elifs otherwise _ guarded more last =>
    apply Closed.cons
    -- the last part that is not missing has the last token
    rcases last.last with rfl | hlast
    · rw [List.append_nil]
      rcases many_closed DerivesElif.last more with rfl | hmore
      · rw [List.append_nil]; exact guarded.last
      · exact hmore.append ts
    · exact (hlast.append us).append ts

theorem DerivesProgram.last {ts : List Token} {p : Program} (h : DerivesProgram ts p) :
    Closed ts := by
  rcases many_closed DerivesStatement.last h.1 with rfl | hclosed
  · exact absurd h (not_derivesProgram_nil p)
  · exact hclosed

theorem DerivesProgram.append {ts us : List Token} {p q : Program} (hp : DerivesProgram ts p)
    (hq : DerivesProgram us q) : DerivesProgram (ts ++ us) ⟨p.statements ++ q.statements⟩ :=
  ⟨hp.1.append hq.1, by simp [hp.2]⟩

end Grammar

theorem Program.depth_append {p q : Program} {n : Nat} (hp : p.depth ≤ n) (hq : q.depth ≤ n) :
    Program.depth ⟨p.statements ++ q.statements⟩ ≤ n := by
  unfold Program.depth at hp hq ⊢
  rw [Statement.depthAll_le_iff] at hp hq ⊢
  intro s hs
  rcases List.mem_append.1 hs with hs | hs
  · exact hp s hs
  · exact hq s hs

/-- **The texts of two programs are together the text of one.** -/
theorem Program.parse_append {source₁ source₂ : String} {p₁ p₂ : Program}
    (h₁ : Program.parse source₁ = .ok p₁) (h₂ : Program.parse source₂ = .ok p₂) :
    Program.parse (source₁ ++ source₂) = .ok ⟨p₁.statements ++ p₂.statements⟩ := by
  rw [Program.parse_eq_ok_iff] at h₁ h₂ ⊢
  rw [Token.scan_append h₁.1.last]
  exact ⟨h₁.1.append h₂.1, Program.depth_append h₁.2 h₂.2⟩

/-- **Programs concatenate.** The texts of two programs, with nothing in between, are the text of
the program with the statements of both, which does what they do one after the other. -/
theorem programs_concatenate {source₁ source₂ : String} {p₁ p₂ : Program}
    (h₁ : Program.parse source₁ = .ok p₁) (h₂ : Program.parse source₂ = .ok p₂) :
    Program.parse (source₁ ++ source₂) = .ok ⟨p₁.statements ++ p₂.statements⟩ ∧
    ∀ {ρ : Type} (robot : Robot ρ) (stage : Stage ρ),
      RunsInTurn robot stage (.program ⟨p₁.statements ++ p₂.statements⟩) (.program p₁)
        (.program p₂) := by
  refine ⟨Program.parse_append h₁ h₂, ?_⟩
  intro ρ robot stage
  exact runsInTurn_programs robot stage p₁ p₂

/-- The first program ends in an `if` without an `else`, and the second begins with a turn. -/
theorem if_and_turn_concatenate :
    let p₁ : Program := ⟨[.branch (.compare .lt (.number 1) (.number 0)) [.action .move none] [] none]⟩
    let p₂ : Program := ⟨[.action .turnL none]⟩
    let stage : Stage Scripted := Stage.fresh {} {}
    Program.parse "if(lt(1,0))\x7bmove;\x7d" = .ok p₁ ∧ Program.parse "turnL;" = .ok p₂ ∧
    Program.parse ("if(lt(1,0))\x7bmove;\x7d" ++ "turnL;") =
      .ok ⟨p₁.statements ++ p₂.statements⟩ ∧
    ∃ mid after, stage.Does Scripted.robot (.program p₁) (.ok ()) [] mid ∧
      mid.Does Scripted.robot (.program p₂) (.ok ()) [.deed .turnLeft] after ∧
      stage.Does Scripted.robot (.program ⟨p₁.statements ++ p₂.statements⟩) (.ok ())
        [.deed .turnLeft] after := by
  intro p₁ p₂ stage
  have h₁ : Program.parse "if(lt(1,0))\x7bmove;\x7d" = .ok p₁ := by
    have hscan : Token.scan "if(lt(1,0))\x7bmove;\x7d" =
        [⟨.ifWord, "if"⟩, ⟨.leftParen, "("⟩, ⟨.relop .lt, "lt"⟩, ⟨.leftParen, "("⟩, ⟨.number, "1"⟩,
          ⟨.comma, ","⟩, ⟨.number, "0"⟩, ⟨.rightParen, ")"⟩, ⟨.rightParen, ")"⟩,
          ⟨.leftBrace, "\x7b"⟩, ⟨.action .move, "move"⟩, ⟨.semicolon, ";"⟩,
          ⟨.rightBrace, "\x7d"⟩] := by decide
    unfold Program.parse Parser.ofText
    rw [hscan]; rfl
  have h₂ : Program.parse "turnL;" = .ok p₂ := by
    have hscan : Token.scan "turnL;" = [⟨.action .turnL, "turnL"⟩, ⟨.semicolon, ";"⟩] := by decide
    unfold Program.parse Parser.ofText
    rw [hscan]; rfl
  obtain ⟨hparse, hturn⟩ := programs_concatenate h₁ h₂
  let mid := stage.ofRun (Stage.final (Task.exec Scripted.robot ⟨none⟩ 0 (.program p₁) stage.toRun))
  have hfirst : Task.exec Scripted.robot ⟨none⟩ 0 (.program p₁) stage.toRun = _ := rfl
  have hsecond : Task.exec Scripted.robot ⟨none⟩ 0 (.program p₂) mid.toRun = _ := rfl
  have hdoes : stage.Does Scripted.robot (.program p₁) (.ok ()) [] mid :=
    ⟨_, Stage.returns_of_run hfirst rfl rfl rfl, rfl⟩
  obtain ⟨after, hdoes'⟩ : ∃ after,
      mid.Does Scripted.robot (.program p₂) (.ok ()) [.deed .turnLeft] after :=
    ⟨_, _, Stage.returns_of_run hsecond rfl rfl rfl, rfl⟩
  have hjoined := ((hturn Scripted.robot stage).passed hdoes (.ok ()) [.deed .turnLeft] after).2
    ⟨[.deed .turnLeft], rfl, hdoes'⟩
  exact ⟨h₁, h₂, hparse, mid, after, hdoes, hdoes', hjoined⟩

end RobotScript
