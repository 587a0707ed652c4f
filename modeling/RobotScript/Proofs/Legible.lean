import RobotScript.Tree.Render
import RobotScript.Proofs.RoundTrip
import RobotScript.Proofs.Tree

/-!
# Programs from their text

The text of a program has no sign that ends a statement, and the alternatives of an `if` trail it.
Still no two programs have the same text: a tree can be told from the beginning of a text, if what
follows it there is what may follow such a tree.

* `Legible`: a tree can be told from its text.
* `Heads`: every text begins with a word, whose kind says which tree it is of.
* `Expr.legible`, `Condition.legible`, `Statement.legible`: so all trees can be told from their
  texts.
* `rendering_is_unambiguous`: programs with the same text are equal.
-/

namespace RobotScript

open Scan

/-- **A tree can be told from its text**, wherever that stands in front of what may follow it: no
other tree with the property has a text that begins the same. -/
def Legible {α : Type} (Ends : List Char → Prop) (P : α → Prop) (text : α → String) (x : α) : Prop :=
  ∀ ⦃y : α⦄ ⦃rest rest' : List Char⦄, P y → Ends rest → Ends rest' →
    (text x).toList ++ rest = (text y).toList ++ rest' → x = y ∧ rest = rest'

/-- **The characters begin with a word** of the given kind, which is as long as it can be. -/
structure Heads (p : Char → Bool) (cs : List Char) (word : String) (kind : Kind)
    (rest : List Char) : Prop where
  eq : cs = word.toList ++ rest
  all : word.toList.all p = true
  kind : Kind.classify word = kind
  stops : ∀ c ∈ rest.head?, p c = false

theorem Heads.takeWhile {p : Char → Bool} {cs rest : List Char} {word : String} {kind : Kind}
    (h : Heads p cs word kind rest) : cs.takeWhile p = word.toList := by
  rw [h.eq, List.takeWhile_append_of_pos (List.all_eq_true.1 h.all)]
  cases hrest : rest with
  | nil => simp
  | cons c cs => simp [h.stops c (by rw [hrest]; rfl)]

theorem Heads.unique {p : Char → Bool} {cs rest rest' : List Char} {word word' : String}
    {kind kind' : Kind} (h : Heads p cs word kind rest) (h' : Heads p cs word' kind' rest') :
    word = word' ∧ kind = kind' ∧ rest = rest' := by
  have hword : word = word' := String.toList_inj.1 (h.takeWhile.symm.trans h'.takeWhile)
  subst hword
  exact ⟨rfl, h.kind.symm.trans h'.kind, List.append_cancel_left (h.eq.symm.trans h'.eq)⟩

theorem Legible.of_heads {α : Type} {p : Char → Bool} {Ends : List Char → Prop} {P : α → Prop}
    {text word : α → String} {kind : α → Kind} {args : α → List Char}
    (heads : ∀ ⦃x⦄, P x → ∀ ⦃rest⦄, Ends rest →
      Heads p ((text x).toList ++ rest) (word x) (kind x) (args x ++ rest))
    {x : α} (hx : P x)
    (h : ∀ ⦃y : α⦄ ⦃rest rest' : List Char⦄, P y → Ends rest → Ends rest' → word x = word y →
      kind x = kind y → args x ++ rest = args y ++ rest' → x = y ∧ rest = rest') :
    Legible Ends P text x := by
  intro y rest rest' hy hends hends' heq
  have hheads := heads hx hends
  rw [heq] at hheads
  obtain ⟨hword, hkind, hargs⟩ := hheads.unique (heads hy hends')
  exact h hy hends hends' hword hkind hargs

/-- What may follow an expression or a condition. -/
def EndsWord (cs : List Char) : Prop := ∀ c ∈ cs.head?, isPlain c = false ∧ c ≠ '('

theorem not_endsWord {cs : List Char} : ¬ EndsWord ('(' :: cs) :=
  fun h => (h '(' rfl).2 rfl

theorem endsWord_cons {c : Char} (h : isPlain c = false) (hne : c ≠ '(') (cs : List Char) :
    EndsWord (c :: cs) := by
  intro d hd; cases hd; exact ⟨h, hne⟩

section

variable {α : Type} {P : α → Prop} {text : α → String} {x x' y y' : α} {cs cs' : List Char}

theorem Legible.call (hx : Legible EndsWord P text x) (hx' : P x')
    (h : '(' :: ((text x).toList ++ [')']) ++ cs = '(' :: ((text x').toList ++ [')']) ++ cs') :
    x = x' ∧ cs = cs' := by
  simp only [List.cons_append, List.append_assoc, List.nil_append, List.cons.injEq, true_and] at h
  have hends := endsWord_cons (c := ')') (by decide) (by decide)
  obtain ⟨hxx', h⟩ := hx hx' (hends cs) (hends cs') h
  exact ⟨hxx', (List.cons.inj h).2⟩

theorem Legible.call₂ (hx : Legible EndsWord P text x) (hy : Legible EndsWord P text y) (hx' : P x')
    (hy' : P y')
    (h : '(' :: ((text x).toList ++ ',' :: ((text y).toList ++ [')'])) ++ cs =
      '(' :: ((text x').toList ++ ',' :: ((text y').toList ++ [')'])) ++ cs') :
    x = x' ∧ y = y' ∧ cs = cs' := by
  simp only [List.cons_append, List.append_assoc, List.nil_append, List.cons.injEq, true_and] at h
  have hcomma := endsWord_cons (c := ',') (by decide) (by decide)
  have hparen := endsWord_cons (c := ')') (by decide) (by decide)
  obtain ⟨hxx', h⟩ := hx hx' (hcomma _) (hcomma _) h
  obtain ⟨hyy', h⟩ := hy hy' (hparen cs) (hparen cs') (List.cons.inj h).2
  exact ⟨hxx', hyy', (List.cons.inj h).2⟩

end

namespace Expr

/-- All variables in the expression have variable names. -/
def Named (e : Expr) : Prop := e.Each fun part => ∀ name, part = .var name → VariableName name

/-- The word that the text of an expression begins with. -/
def word : Expr → String
  | .number value => Decimal.ofInt value.toInt
  | .sensor word | .ranked word _ => Word.spelling word
  | .var name => name
  | .binary op _ _ => Word.spelling op

/-- The kind of that word. -/
def kind : Expr → Kind
  | .number _ => .number
  | .sensor word | .ranked word _ => .sensor word
  | .var _ => .var
  | .binary op _ _ => .operator op

/-- What follows the word. -/
def args : Expr → List Char
  | .number _ | .sensor _ | .var _ => []
  | .ranked _ rank => '(' :: (rank.render.toList ++ [')'])
  | .binary _ left right => '(' :: (left.render.toList ++ ',' :: (right.render.toList ++ [')']))

theorem isWord_word {e : Expr} (h : e.Named) : IsWord e.word := by
  cases e with
  | number value => exact isWord_ofInt _
  | sensor word | ranked word => exact isWord_sensor word
  | var name => exact isWord_of_variableName (h _ .here name rfl)
  | binary op => exact isWord_operator op

theorem classify_word {e : Expr} (h : e.Named) : Kind.classify e.word = e.kind := by
  cases e with
  | number value => exact Kind.classify_ofInt _
  | sensor word | ranked word => exact Kind.classify_sensor word
  | var name => exact (Kind.classify_eq_var_iff name).2 (h _ .here name rfl)
  | binary op => exact Kind.classify_operator op

theorem heads {e : Expr} (he : e.Named) {rest : List Char} (hends : EndsWord rest) :
    Heads isPlain (e.render.toList ++ rest) e.word e.kind (e.args ++ rest) where
  eq := by cases e <;> simp [render, word, args]
  all := (isWord_word he).2
  kind := classify_word he
  stops := by
    cases e with
    | number | sensor | var => exact fun c hc => (hends c hc).1
    | ranked | binary => intro c hc; cases hc; decide

/-- **An expression can be told from its text.** -/
theorem legible {e : Expr} (he : e.Named) : Legible EndsWord Named render e := by
  induction e with
  | number value =>
    refine .of_heads (fun _ => heads) he fun e' rest rest' _ _ _ hword hkind hrest => ?_
    cases e' with
    | number value' =>
      have hvalue : Decimal.int32? (Decimal.ofInt value.toInt) = some value' :=
        (congrArg Decimal.int32? hword).trans (Decimal.int32?_ofInt value')
      rw [Decimal.int32?_ofInt] at hvalue
      exact ⟨congrArg number (Option.some.inj hvalue), hrest⟩
    | sensor | ranked | var | binary => cases hkind
  | var name =>
    refine .of_heads (fun _ => heads) he fun e' rest rest' _ _ _ hword hkind hrest => ?_
    cases e' with
    | var name' => exact ⟨congrArg var hword, hrest⟩
    | number | sensor | ranked | binary => cases hkind
  | sensor word =>
    refine .of_heads (fun _ => heads) he fun e' rest rest' _ hends _ _ hkind hargs => ?_
    cases e' with
    | sensor word' => cases hkind; exact ⟨rfl, hargs⟩
    | ranked word' rank' =>
      rw [show rest = '(' :: _ from hargs] at hends
      exact absurd hends not_endsWord
    | number | var | binary => cases hkind
  | ranked word rank ih =>
    refine .of_heads (fun _ => heads) he fun e' rest rest' he' _ hends' _ hkind hargs => ?_
    cases e' with
    | ranked word' rank' =>
      cases hkind
      obtain ⟨rfl, hrest⟩ := (ih (Each.rank he)).call (Each.rank he') hargs
      exact ⟨rfl, hrest⟩
    | sensor word' =>
      rw [show rest' = '(' :: _ from hargs.symm] at hends'
      exact absurd hends' not_endsWord
    | number | var | binary => cases hkind
  | binary op left right ihl ihr =>
    refine .of_heads (fun _ => heads) he fun e' rest rest' he' _ _ _ hkind hargs => ?_
    cases e' with
    | binary op' left' right' =>
      cases hkind
      obtain ⟨rfl, rfl, hrest⟩ := (ihl (Each.left he)).call₂ (ihr (Each.right he)) (Each.left he')
        (Each.right he') hargs
      exact ⟨rfl, hrest⟩
    | number | sensor | ranked | var => cases hkind

end Expr

namespace Condition

/-- All variables in the condition have variable names. -/
def Named (c : Condition) : Prop := ∀ e ∈ c.operands, e.Named

def word : Condition → String
  | .compare op _ _ => Word.spelling op
  | .and _ _ => Word.spelling Combinator.and
  | .or _ _ => Word.spelling Combinator.or
  | .not _ => Word.spelling Combinator.not

def kind : Condition → Kind
  | .compare op _ _ => .relop op
  | .and _ _ => .combinator .and
  | .or _ _ => .combinator .or
  | .not _ => .combinator .not

def args : Condition → List Char
  | .compare _ left right => '(' :: (left.render.toList ++ ',' :: (right.render.toList ++ [')']))
  | .and left right | .or left right =>
    '(' :: (left.render.toList ++ ',' :: (right.render.toList ++ [')']))
  | .not inner => '(' :: (inner.render.toList ++ [')'])

theorem heads (c : Condition) (rest : List Char) :
    Heads isPlain (c.render.toList ++ rest) c.word c.kind (c.args ++ rest) where
  eq := by cases c <;> simp [render, word, args, Word.spelling]
  all := by
    cases c with
    | compare op => exact (isWord_relop op).2
    | and | or | not => exact (isWord_combinator _).2
  kind := by
    cases c with
    | compare op => exact Kind.classify_relop op
    | and | or | not => exact Kind.classify_combinator _
  stops := by cases c <;> (intro c hc; cases hc; decide)

/-- **A condition can be told from its text.** -/
theorem legible {c : Condition} (hc : c.Named) : Legible EndsWord Named render c := by
  have hleft : ∀ {l r : List Expr}, (∀ e ∈ l ++ r, e.Named) → ∀ e ∈ l, e.Named :=
    fun h e he => h e (List.mem_append_left _ he)
  have hright : ∀ {l r : List Expr}, (∀ e ∈ l ++ r, e.Named) → ∀ e ∈ r, e.Named :=
    fun h e he => h e (List.mem_append_right _ he)
  induction c with
  | compare op left right =>
    refine .of_heads (fun c _ rest _ => c.heads rest) hc fun c' _ _ hc' _ _ _ hkind hargs => ?_
    cases c' with
    | compare op' left' right' =>
      cases hkind
      have hnamed : left.Named ∧ right.Named := by simpa [Named, operands] using hc
      have hnamed' : left'.Named ∧ right'.Named := by simpa [Named, operands] using hc'
      obtain ⟨rfl, rfl, hrest⟩ := (Expr.legible hnamed.1).call₂ (Expr.legible hnamed.2) hnamed'.1
        hnamed'.2 hargs
      exact ⟨rfl, hrest⟩
    | and | or | not => cases hkind
  | and left right ihl ihr =>
    refine .of_heads (fun c _ rest _ => c.heads rest) hc fun c' _ _ hc' _ _ _ hkind hargs => ?_
    cases c' with
    | and left' right' =>
      obtain ⟨rfl, rfl, hrest⟩ := (ihl (hleft hc)).call₂ (ihr (hright hc)) (hleft hc') (hright hc')
        hargs
      exact ⟨rfl, hrest⟩
    | compare | or | not => cases hkind
  | or left right ihl ihr =>
    refine .of_heads (fun c _ rest _ => c.heads rest) hc fun c' _ _ hc' _ _ _ hkind hargs => ?_
    cases c' with
    | or left' right' =>
      obtain ⟨rfl, rfl, hrest⟩ := (ihl (hleft hc)).call₂ (ihr (hright hc)) (hleft hc') (hright hc')
        hargs
      exact ⟨rfl, hrest⟩
    | compare | and | not => cases hkind
  | not inner ih =>
    refine .of_heads (fun c _ rest _ => c.heads rest) hc fun c' _ _ hc' _ _ _ hkind hargs => ?_
    cases c' with
    | not inner' =>
      have hinner' : inner'.Named := hc'
      obtain ⟨rfl, hrest⟩ := (ih hc).call hinner' hargs
      exact ⟨rfl, hrest⟩
    | compare | and | or => cases hkind

end Condition

/-- The characters begin with one of the texts. -/
def Begins (texts : List String) (cs : List Char) : Prop := ∃ text ∈ texts, text.toList <+: cs

/-- What may follow the statements of a block or a program. -/
def EndsBlock : List Char → Prop := Begins ["\n", ")"]

/-- What may follow a statement. -/
def EndsStatement : List Char → Prop := Begins ["\n", ")", " + "]

/-- What may follow the alternatives of an `if`. -/
def EndsElifs : List Char → Prop := Begins ["\n", ")", " + ", " else "]

theorem EndsStatement.endsWord {cs : List Char} (h : EndsStatement cs) : EndsWord cs := by
  obtain ⟨text, htext, rest, rfl⟩ := h
  simp only [List.mem_cons, List.not_mem_nil, or_false] at htext
  rcases htext with rfl | rfl | rfl
  · exact endsWord_cons (c := '\n') (by decide) (by decide) _
  · exact endsWord_cons (c := ')') (by decide) (by decide) _
  · exact endsWord_cons (c := ' ') (by decide) (by decide) _

theorem Begins.mono {texts texts' : List String} (hsub : texts ⊆ texts') {cs : List Char}
    (h : Begins texts cs) : Begins texts' cs := by
  obtain ⟨text, htext, hprefix⟩ := h
  exact ⟨text, hsub htext, hprefix⟩

/-- All names in the statement are variable names. -/
def Statement.Named (s : Statement) : Prop :=
  s.Each fun t => (∀ e ∈ t.operands, e.Named) ∧ ∀ name ∈ t.target?, VariableName name

/-- All names in the block are variable names. -/
def Block.Named (body : Block) : Prop := ∀ s ∈ body, s.Named

/-- The block can be told from its text, whatever follows the brace that closes it. -/
def Block.Closes (body : Block) : Prop := Legible (fun _ => True) Block.Named Block.render body

namespace Statement

theorem Named.tests {s : Statement} (h : s.Named) : ∀ c ∈ s.tests, c.Named := by
  intro c hc e he
  cases h with
  | intro here _ => exact here.1 e (mem_operands hc he)

theorem Named.operands {s : Statement} (h : s.Named) : ∀ e ∈ s.operands, e.Named := by
  cases h with
  | intro here _ => exact here.1

theorem Named.target {s : Statement} (h : s.Named) : ∀ name ∈ s.target?, VariableName name := by
  cases h with
  | intro here _ => exact here.2

theorem Named.inner {s : Statement} (h : s.Named) : ∀ block ∈ s.blocks, ∀ t ∈ block, t.Named := by
  cases h with
  | intro _ inner => exact inner

/-- The word that the text of a statement begins with. -/
def word : Statement → String
  | .action word _ => Word.spelling word
  | .loop _ => "loop"
  | .branch .. => "if"
  | .whileLoop _ _ => "while"
  | .assign name _ => name

def kind : Statement → Kind
  | .action word _ => .action word
  | .loop _ => .loop
  | .branch .. => .ifWord
  | .whileLoop _ _ => .whileWord
  | .assign _ _ => .var

/-- What follows the word. -/
def args : Statement → List Char
  | .action _ none => []
  | .action _ (some count) => '(' :: (count.render.toList ++ [')'])
  | .loop body => (Block.render body).toList
  | .branch test body elifs otherwise =>
    '(' :: (test.render.toList ++ ')' :: ((Block.render body).toList ++
      ((renderElifs elifs).toList ++ (renderElse otherwise).toList)))
  | .whileLoop test body => '(' :: (test.render.toList ++ ')' :: (Block.render body).toList)
  | .assign _ value => '=' :: value.render.toList

/-- Characters of words; the sign of an assignment, which follows its name directly, is not one. -/
def inName (c : Char) : Bool := isPlain c && c != '='

theorem all_inName {name : String} (h : VariableName name) : name.toList.all inName = true := by
  have hplain := List.all_eq_true.1 (isWord_of_variableName h).2
  have hletter : ¬ IsLetter '=' := fun h => absurd ((Kind.isAlpha_iff _).2 h) (by decide)
  refine List.all_eq_true.2 fun c hc => ?_
  rw [inName, hplain c hc, Bool.true_and, bne_iff_ne]
  rintro rfl
  obtain ⟨d, ds, heq, hd, hds⟩ := h
  rw [heq] at hc
  rcases List.mem_cons.1 hc with hc | hc
  · exact absurd hc (by decide)
  · rcases List.mem_cons.1 hc with rfl | hc
    · exact hletter hd
    · rcases hds _ hc with h | h
      · exact hletter h
      · exact absurd h.2 (by decide)

theorem all_inName_action (word : Action) : (Word.spelling word).toList.all inName = true := by
  cases word <;> decide

theorem toList_block (body : Block) :
    body.render.toList = '\x7b' :: '\n' :: ((renderAll body).toList ++ ['\n', '\x7d']) := by
  simp [Block.render]

theorem heads {s : Statement} (hs : s.Named) {rest : List Char} (hends : EndsStatement rest) :
    Heads inName (s.render.toList ++ rest) s.word s.kind (s.args ++ rest) where
  eq := by
    cases s with
    | action _ count => cases count <;> simp [render, word, args]
    | loop | branch | whileLoop | assign => simp [render, word, args, Block.render]
  all := by
    cases s with
    | action word => exact all_inName_action word
    | loop => exact (by decide : "loop".toList.all inName = true)
    | branch => exact (by decide : "if".toList.all inName = true)
    | whileLoop => exact (by decide : "while".toList.all inName = true)
    | assign name => exact all_inName (hs.target name rfl)
  kind := by
    cases s with
    | action word => exact Kind.classify_action word
    | loop | branch | whileLoop => rfl
    | assign name => exact (Kind.classify_eq_var_iff name).2 (hs.target name rfl)
  stops := by
    intro c hc
    cases s with
    | action word count =>
      cases count with
      | none => rw [inName, (hends.endsWord c hc).1]; rfl
      | some count => cases hc; decide
    | loop body =>
      rw [args, toList_block] at hc
      cases hc; decide
    | branch | whileLoop | assign => cases hc; decide

theorem toList_all (s : Statement) (body : Block) (cs : List Char) :
    (renderAll (s :: body)).toList ++ cs =
      ' ' :: '+' :: ' ' :: (s.render.toList ++ ((renderAll body).toList ++ cs)) := by
  simp [renderAll]

theorem toList_elifs (test : Condition) (body : Block) (elifs : List Elif) (cs : List Char) :
    (renderElifs ((test, body) :: elifs)).toList ++ cs = ' ' :: 'e' :: 'l' :: 'i' :: 'f' :: '(' ::
      (test.render.toList ++ ')' :: (body.render.toList ++ ((renderElifs elifs).toList ++ cs))) := by
  simp [renderElifs, Block.render]

theorem toList_else (body : Block) (cs : List Char) :
    (renderElse (some body)).toList ++ cs =
      ' ' :: 'e' :: 'l' :: 's' :: 'e' :: ' ' :: (body.render.toList ++ cs) := by
  simp [renderElse, Block.render]

theorem not_endsBlock {s : Statement} {body : Block} {cs : List Char} :
    ¬ EndsBlock ((renderAll (s :: body)).toList ++ cs) := by
  rw [toList_all]
  simp [EndsBlock, Begins]

theorem not_endsElifs {e : Elif} {elifs : List Elif} {cs : List Char} :
    ¬ EndsElifs ((renderElifs (e :: elifs)).toList ++ cs) := by
  rw [toList_elifs]
  simp [EndsElifs, Begins]

theorem not_endsStatement {body : Block} {cs : List Char} :
    ¬ EndsStatement ((renderElse (some body)).toList ++ cs) := by
  rw [toList_else]
  simp [EndsStatement, Begins]

theorem endsStatement_all (body : Block) {rest : List Char} (h : EndsBlock rest) :
    EndsStatement ((renderAll body).toList ++ rest) := by
  cases body with
  | nil => exact h.mono (by decide)
  | cons s body =>
    refine ⟨" + ", by decide, s.render.toList ++ ((renderAll body).toList ++ rest), ?_⟩
    rw [toList_all]
    simp

/-- Statements that can be told from their texts can be so one after the other. -/
theorem legible_all {body : Block} (h : ∀ s ∈ body, Legible EndsStatement Named render s) :
    Legible EndsBlock Block.Named renderAll body := by
  induction body with
  | nil =>
    intro body' rest rest' _ hrest _ heq
    cases body' with
    | nil => exact ⟨rfl, heq⟩
    | cons s' body' =>
      rw [show rest = _ from heq] at hrest
      exact absurd hrest not_endsBlock
  | cons s body ih =>
    intro body' rest rest' hnamed' hrest hrest' heq
    cases body' with
    | nil =>
      rw [show rest' = _ from heq.symm] at hrest'
      exact absurd hrest' not_endsBlock
    | cons s' body' =>
      obtain ⟨hs, hbody⟩ := List.forall_mem_cons.1 h
      obtain ⟨hs', hbody'⟩ := List.forall_mem_cons.1 hnamed'
      simp only [toList_all, List.cons.injEq, true_and] at heq
      obtain ⟨rfl, htail⟩ := hs hs' (endsStatement_all body hrest) (endsStatement_all body' hrest') heq
      obtain ⟨rfl, hsame⟩ := ih hbody hbody' hrest hrest' htail
      exact ⟨rfl, hsame⟩

/-- **A block can be told from its text.** -/
theorem legible_block {body : Block} (h : ∀ s ∈ body, Legible EndsStatement Named render s) :
    Block.Closes body := by
  intro body' rest rest' hbody' _ _ heq
  simp only [toList_block, List.cons_append, List.append_assoc, List.nil_append, List.cons.injEq,
    true_and] at heq
  have hends : ∀ cs, EndsBlock ('\n' :: cs) := fun cs => ⟨"\n", by decide, cs, rfl⟩
  obtain ⟨rfl, htail⟩ := legible_all h hbody' (hends _) (hends _) heq
  simp only [List.cons.injEq, true_and] at htail
  exact ⟨rfl, htail⟩

theorem legible_guarded {test test' : Condition} {body body' : Block} {cs cs' : List Char}
    (htest : test.Named) (htest' : test'.Named) (hbody : Block.Closes body)
    (hbody' : Block.Named body')
    (h : test.render.toList ++ ')' :: (body.render.toList ++ cs) =
      test'.render.toList ++ ')' :: (body'.render.toList ++ cs')) :
    test = test' ∧ body = body' ∧ cs = cs' := by
  have hends := endsWord_cons (c := ')') (by decide) (by decide)
  obtain ⟨htests, hblocks⟩ := Condition.legible htest htest' (hends _) (hends _) h
  obtain ⟨hbodies, htail⟩ := hbody hbody' trivial trivial (List.cons.inj hblocks).2
  exact ⟨htests, hbodies, htail⟩

theorem legible_elifs {elifs : List Elif} (h : ∀ e ∈ elifs, e.1.Named ∧ Block.Closes e.2) :
    Legible EndsElifs (fun elifs => ∀ e ∈ elifs, e.1.Named ∧ Block.Named e.2) renderElifs
      elifs := by
  induction elifs with
  | nil =>
    intro elifs' rest rest' _ hrest _ heq
    cases elifs' with
    | nil => exact ⟨rfl, heq⟩
    | cons e' elifs' =>
      rw [show rest = _ from heq] at hrest
      exact absurd hrest not_endsElifs
  | cons e elifs ih =>
    intro elifs' rest rest' hnamed' hrest hrest' heq
    cases elifs' with
    | nil =>
      rw [show rest' = _ from heq.symm] at hrest'
      exact absurd hrest' not_endsElifs
    | cons e' elifs' =>
      obtain ⟨test, body⟩ := e
      obtain ⟨test', body'⟩ := e'
      obtain ⟨⟨htest, hbody⟩, helifs⟩ := List.forall_mem_cons.1 h
      obtain ⟨⟨htest', hbody'⟩, helifs'⟩ := List.forall_mem_cons.1 hnamed'
      simp only [toList_elifs, List.cons.injEq, true_and] at heq
      obtain ⟨rfl, rfl, htail⟩ := legible_guarded htest htest' hbody hbody' heq
      obtain ⟨rfl, hsame⟩ := ih helifs helifs' hrest hrest' htail
      exact ⟨rfl, hsame⟩

theorem legible_else {otherwise : Option Block} (h : ∀ body ∈ otherwise, Block.Closes body) :
    Legible EndsStatement (fun otherwise => ∀ body ∈ otherwise, Block.Named body) renderElse
      otherwise := by
  intro otherwise' rest rest' hnamed' hrest hrest' heq
  cases otherwise with
  | none =>
    cases otherwise' with
    | none => exact ⟨rfl, heq⟩
    | some body' =>
      rw [show rest = _ from heq] at hrest
      exact absurd hrest not_endsStatement
  | some body =>
    cases otherwise' with
    | none =>
      rw [show rest' = _ from heq.symm] at hrest'
      exact absurd hrest' not_endsStatement
    | some body' =>
      simp only [toList_else, List.cons.injEq, true_and] at heq
      obtain ⟨rfl, hsame⟩ := h body rfl (hnamed' body' rfl) trivial trivial heq
      exact ⟨rfl, hsame⟩

theorem endsElifs_else (otherwise : Option Block) {rest : List Char} (h : EndsStatement rest) :
    EndsElifs ((renderElse otherwise).toList ++ rest) := by
  cases otherwise with
  | none => exact h.mono (by decide)
  | some body =>
    refine ⟨" else ", by decide, body.render.toList ++ rest, ?_⟩
    rw [toList_else]
    simp

theorem legible_count {word word' : Action} {count count' : Option Expr} {cs cs' : List Char}
    (hcount : ∀ e ∈ (action word count).operands, e.Named)
    (hcount' : ∀ e ∈ (action word' count').operands, e.Named)
    (hends : EndsStatement cs) (hends' : EndsStatement cs')
    (h : (action word count).args ++ cs = (action word' count').args ++ cs') :
    count = count' ∧ cs = cs' := by
  cases count with
  | none =>
    cases count' with
    | none => exact ⟨rfl, h⟩
    | some e' =>
      have hends := hends.endsWord
      rw [show cs = '(' :: _ from h] at hends
      exact absurd hends not_endsWord
  | some e =>
    cases count' with
    | none =>
      have hends' := hends'.endsWord
      rw [show cs' = '(' :: _ from h.symm] at hends'
      exact absurd hends' not_endsWord
    | some e' =>
      obtain ⟨rfl, hsame⟩ := (Expr.legible (hcount e List.mem_cons_self)).call
        (hcount' e' List.mem_cons_self) h
      exact ⟨rfl, hsame⟩

/-- **A statement can be told from its text.** -/
theorem legible {s : Statement} (hs : s.Named) : Legible EndsStatement Named render s := by
  induction s using Statement.induction with
  | step s ih =>
    have hblocks : ∀ block ∈ s.blocks, Block.Closes block := fun block hblock =>
      legible_block fun t ht => ih block hblock t ht (hs.inner block hblock t ht)
    -- the first word says what kind of statement it is, so both are of the same kind
    refine .of_heads (fun _ => heads) hs fun s' rest rest' hs' hends hends' hword hkind hargs => ?_
    cases s with
    | action word count =>
      cases s' with
      | action word' count' =>
        cases hkind
        obtain ⟨rfl, hsame⟩ := legible_count hs.operands hs'.operands hends hends' hargs
        exact ⟨rfl, hsame⟩
      | loop | branch | whileLoop | assign => cases hkind
    | loop body =>
      cases s' with
      | loop body' =>
        obtain ⟨rfl, hsame⟩ := hblocks body List.mem_cons_self
          (hs'.inner body' List.mem_cons_self) trivial trivial hargs
        exact ⟨rfl, hsame⟩
      | action | branch | whileLoop | assign => cases hkind
    | branch test body elifs otherwise =>
      cases s' with
      | branch test' body' elifs' otherwise' =>
        simp only [args, List.cons_append, List.append_assoc, List.cons.injEq, true_and] at hargs
        obtain ⟨rfl, rfl, htail⟩ := legible_guarded (hs.tests _ List.mem_cons_self)
          (hs'.tests _ List.mem_cons_self) (hblocks _ List.mem_cons_self)
          (hs'.inner _ List.mem_cons_self) hargs
        have helifs : ∀ e ∈ elifs, e.1.Named ∧ Block.Closes e.2 := fun e he =>
          ⟨hs.tests _ (mem_tests_elif he), hblocks _ (mem_blocks_elif he)⟩
        have helifs' : ∀ e ∈ elifs', e.1.Named ∧ Block.Named e.2 := fun e he =>
          ⟨hs'.tests _ (mem_tests_elif he), hs'.inner _ (mem_blocks_elif he)⟩
        obtain ⟨rfl, hlast⟩ := legible_elifs helifs helifs' (endsElifs_else _ hends)
          (endsElifs_else _ hends') htail
        have helse : ∀ body ∈ otherwise, Block.Closes body := fun body hbody =>
          hblocks _ (mem_blocks_else hbody)
        have helse' : ∀ body ∈ otherwise', Block.Named body := fun body hbody =>
          hs'.inner _ (mem_blocks_else hbody)
        obtain ⟨rfl, hsame⟩ := legible_else helse helse' hends hends' hlast
        exact ⟨rfl, hsame⟩
      | action | loop | whileLoop | assign => cases hkind
    | whileLoop test body =>
      cases s' with
      | whileLoop test' body' =>
        simp only [args, List.cons_append, List.append_assoc, List.cons.injEq, true_and] at hargs
        obtain ⟨rfl, rfl, hsame⟩ := legible_guarded (hs.tests _ List.mem_cons_self)
          (hs'.tests _ List.mem_cons_self) (hblocks _ List.mem_cons_self)
          (hs'.inner _ List.mem_cons_self) hargs
        exact ⟨rfl, hsame⟩
      | action | loop | branch | assign => cases hkind
    | assign name value =>
      cases s' with
      | assign name' value' =>
        have hvalue := hs.operands value List.mem_cons_self
        have hvalue' := hs'.operands value' List.mem_cons_self
        obtain ⟨rfl, hsame⟩ := Expr.legible hvalue hvalue' hends.endsWord hends'.endsWord
          (List.cons.inj hargs).2
        cases (hword : name = name')
        exact ⟨rfl, hsame⟩
      | action | loop | branch | whileLoop => cases hkind

end Statement

theorem Program.named {p : Program} (h : ∀ name, p.Uses name → VariableName name) :
    Block.Named p.statements := by
  intro s hs
  have hvars : s.Each fun t => ∀ e ∈ t.operands, e.Named := by
    refine Statement.each_operands fun e he name hname => ?_
    subst hname
    exact h name (.inl ⟨s, hs, he⟩)
  have htargets := Statement.each_target fun name hname => h name (.inr ⟨s, hs, hname⟩)
  exact hvars.and htargets

/-- **No two programs have the same text**, if all names in them are variable names. -/
theorem rendering_is_unambiguous {p q : Program} (hp : ∀ name, p.Uses name → VariableName name)
    (hq : ∀ name, q.Uses name → VariableName name) : p.render = q.render ↔ p = q := by
  constructor
  · intro h
    have htext : (Statement.renderAll p.statements).toList ++ [')'] =
        (Statement.renderAll q.statements).toList ++ [')'] := by
      have hchars := congrArg String.toList h
      simpa [Program.render] using hchars
    have hends : EndsBlock [')'] := ⟨")", by decide, [], rfl⟩
    have hlegible := Statement.legible_all fun s hs => Statement.legible (Program.named hp s hs)
    obtain ⟨hsame, -⟩ := hlegible (Program.named hq) hends hends htext
    cases p; cases q
    exact congrArg Program.mk hsame
  · rintro rfl
    rfl

/-- An `else` can belong to the outer or to the inner `if`, and the text shows which. -/
theorem else_shows_its_if :
    let test : Condition := .compare .lt (.var "$a") (.ranked .fuelLeft (.number 1))
    let nested (inner outer : Option Block) : Program :=
      ⟨[.branch test [.branch test [] [] inner] [] outer]⟩
    (nested none (some [])).Uses "$a" ∧ (nested (some []) none).Uses "$a" ∧
      (∀ name, (nested none (some [])).Uses name → VariableName name) ∧
      (∀ name, (nested (some []) none).Uses name → VariableName name) ∧
      (nested none (some [])).render ≠ (nested (some []) none).render := by
  intro test nested
  have huses : ∀ inner outer, (nested inner outer).Uses "$a" := fun inner outer =>
    .inl ⟨_, List.mem_cons_self, .here List.mem_cons_self .here⟩
  have htest : ∀ root ∈ test.operands, ∀ name, Expr.Occurs (.var name) root → name = "$a" := by
    intro root hroot name hoccurs
    rcases List.mem_cons.1 hroot with rfl | hroot
    · cases hoccurs; rfl
    · obtain rfl := List.mem_singleton.1 hroot
      cases hoccurs with
      | rank inside => cases inside
  -- a name in an `if` of this kind is that of its test or stands in its first block
  have hbranch : ∀ (body : Block) (last : Option Block), (∀ block ∈ last, block = []) → ∀ name,
      (Statement.branch test body [] last).Mentions (.var name) ∨
        (Statement.branch test body [] last).Assigns name →
      name = "$a" ∨ ∃ s ∈ body, s.Mentions (.var name) ∨ s.Assigns name := by
    intro body last hlast name h
    have hinner : ∀ block ∈ (Statement.branch test body [] last).blocks, ∀ s ∈ block, s ∈ body := by
      intro block hblock s hs
      rcases List.mem_cons.1 hblock with rfl | hblock
      · exact hs
      · rw [hlast block (Option.mem_toList.1 hblock)] at hs
        cases hs
    rcases h with h | h
    · cases h with
      | here operand occurs => exact .inl (htest _ operand name occurs)
      | inside mem mem' h => exact .inr ⟨_, hinner _ mem _ mem', .inl h⟩
    · cases h with
      | here target => cases target
      | inside mem mem' h => exact .inr ⟨_, hinner _ mem _ mem', .inr h⟩
  have hnames : ∀ inner outer : Option Block, (∀ block ∈ inner, block = []) →
      (∀ block ∈ outer, block = []) → ∀ name, (nested inner outer).Uses name → VariableName name := by
    intro inner outer hinner houter name huse
    suffices hname : name = "$a" by
      rw [hname]
      exact (Kind.classify_eq_var_iff _).1 (by decide)
    have hfirst : name = "$a" ∨ ∃ s ∈ [Statement.branch test [] [] inner],
        s.Mentions (.var name) ∨ s.Assigns name := by
      refine hbranch _ outer houter name ?_
      rcases huse with ⟨s, hs, h⟩ | ⟨s, hs, h⟩
      · exact .inl (List.mem_singleton.1 hs ▸ h)
      · exact .inr (List.mem_singleton.1 hs ▸ h)
    rcases hfirst with hname | ⟨s, hs, h⟩
    · exact hname
    · obtain rfl := List.mem_singleton.1 hs
      rcases hbranch [] inner hinner name h with hname | ⟨s, hs, -⟩
      · exact hname
      · cases hs
  have houter := hnames none (some []) (by simp) (by simp)
  have hinner := hnames (some []) none (by simp) (by simp)
  refine ⟨huses _ _, huses _ _, houter, hinner, fun h => ?_⟩
  have hsame := (rendering_is_unambiguous houter hinner).1 h
  simp [nested] at hsame

end RobotScript
