import RobotScript.Proofs.Derivation

/-!
# Parts of trees

* `Statement.blocks`, `Statement.tests`, `Statement.operands`: the blocks, conditions and
  expressions that a statement is made of.
* `Statement.induction`: a property holds of all statements if it holds of each one whose
  blocks consist of statements that have it.
* `Statement.Each`: a property holds of a statement and all statements in it.
* `Statement.Filled`: no block in the statement is empty, at any depth.
* `DerivesStatement.filled`: the grammar derives no other statements.
* `Program.Mentions`: an expression occurs in a program, at any place and depth; then it is
  no deeper than the program and is derived from some of its tokens.
* `Program.Assigns`: a program has an assignment to a name. `Program.Uses`: a name occurs in a
  program at all.
-/

namespace RobotScript

/-- The blocks that a statement is made of. -/
def Statement.blocks : Statement → List Block
  | .action .. | .assign .. => []
  | .loop body | .whileLoop _ body => [body]
  | .branch _ body elifs otherwise => body :: (elifs.map Prod.snd ++ otherwise.toList)

/-- The conditions of a statement, those in its blocks apart. -/
def Statement.tests : Statement → List Condition
  | .action .. | .assign .. | .loop _ => []
  | .branch test _ elifs _ => test :: elifs.map Prod.fst
  | .whileLoop test _ => [test]

/-- The expressions that a condition compares. -/
def Condition.operands : Condition → List Expr
  | .compare _ left right => [left, right]
  | .and left right | .or left right => left.operands ++ right.operands
  | .not inner => inner.operands

/-- The expressions that a statement evaluates, those in its blocks apart. -/
def Statement.operands : Statement → List Expr
  | .action _ count => count.toList
  | .assign _ value => [value]
  | s => s.tests.flatMap Condition.operands

namespace Statement

variable {test : Condition} {body block : Block} {elifs : List Elif} {otherwise : Option Block}
  {e : Elif}

theorem mem_tests_elif (h : e ∈ elifs) : e.1 ∈ (branch test body elifs otherwise).tests :=
  List.mem_cons_of_mem _ (List.mem_map_of_mem h)

theorem mem_blocks_elif (h : e ∈ elifs) : e.2 ∈ (branch test body elifs otherwise).blocks :=
  List.mem_cons_of_mem _ (List.mem_append_left _ (List.mem_map_of_mem h))

theorem mem_blocks_else (h : block ∈ otherwise) : block ∈ (branch test body elifs otherwise).blocks :=
  List.mem_cons_of_mem _ (List.mem_append_right _ (Option.mem_toList.2 h))

end Statement

/-- The name that a statement assigns to, if it is an assignment. -/
def Statement.target? : Statement → Option String
  | .assign name _ => some name
  | _ => none

/-- **Induction on statements.** -/
@[elab_as_elim]
theorem Statement.induction {P : Statement → Prop}
    (step : ∀ s : Statement, (∀ block ∈ s.blocks, ∀ t ∈ block, P t) → P s) (s : Statement) :
    P s := by
  have hbody : ∀ body : Block, (∀ t ∈ body, P t) → ∀ block ∈ [body], ∀ t ∈ block, P t := by
    intro body h block hblock
    rw [List.mem_singleton] at hblock; rw [hblock]
    exact h
  -- the recursor asks for a property of each kind of list that holds statements
  refine @Statement.rec P (fun body => ∀ t ∈ body, P t) (fun elifs => ∀ e ∈ elifs, ∀ t ∈ e.2, P t)
    (fun otherwise => ∀ block ∈ otherwise, ∀ t ∈ block, P t) (fun e => ∀ t ∈ e.2, P t)
    ?_ ?_ ?_ ?_ ?_ ?_ ?_ ?_ ?_ ?_ ?_ ?_ s
  case refine_1 => intro word count; exact step _ fun block hblock => by cases hblock
  case refine_2 => intro body h; exact step _ (hbody body h)
  case refine_3 =>
    intro test body elifs otherwise h helifs helse
    refine step _ fun block hblock => ?_
    rcases List.mem_cons.1 hblock with rfl | hblock
    · exact h
    · rcases List.mem_append.1 hblock with hblock | hblock
      · obtain ⟨e, he, rfl⟩ := List.mem_map.1 hblock
        exact helifs e he
      · exact helse block (Option.mem_toList.1 hblock)
  case refine_4 => intro test body h; exact step _ (hbody body h)
  case refine_5 => intro name value; exact step _ fun block hblock => by cases hblock
  case refine_6 => intro t ht; cases ht
  case refine_7 => intro t rest ht hrest; exact List.forall_mem_cons.2 ⟨ht, hrest⟩
  case refine_8 => intro e he; cases he
  case refine_9 => intro e rest he hrest; exact List.forall_mem_cons.2 ⟨he, hrest⟩
  case refine_10 => intro block hblock; cases hblock
  case refine_11 => intro body h block hblock; cases hblock; exact h
  case refine_12 => intro test body h; exact h

/-- **The statement and all statements in its blocks have the property.** -/
inductive Statement.Each (P : Statement → Prop) : Statement → Prop
  | intro {s : Statement} (here : P s) (inner : ∀ block ∈ s.blocks, ∀ t ∈ block, t.Each P) :
      s.Each P

theorem Statement.each_of_forall {P : Statement → Prop} (h : ∀ s, P s) (s : Statement) :
    s.Each P := by
  induction s using Statement.induction with
  | step s ih => exact .intro (h s) ih

theorem Statement.Each.and {P Q : Statement → Prop} {s : Statement} (h : s.Each P) (h' : s.Each Q) :
    s.Each fun t => P t ∧ Q t := by
  induction h with
  | intro here _ ih =>
    cases h' with
    | intro here' inner' =>
      exact .intro ⟨here, here'⟩ fun block hblock t ht => ih block hblock t ht (inner' block hblock t ht)

/-- **No block in the statement is empty.** -/
inductive Statement.Filled : Statement → Prop
  | intro {s : Statement} (ne_nil : ∀ block ∈ s.blocks, block ≠ [])
      (inner : ∀ block ∈ s.blocks, ∀ t ∈ block, t.Filled) : s.Filled

/-- **The expression occurs in another one**, which is it or has it as a part. -/
inductive Expr.Occurs (e : Expr) : Expr → Prop
  | here : e.Occurs e
  | rank {word : Sensor} {rank : Expr} (inside : e.Occurs rank) : e.Occurs (.ranked word rank)
  | left {op : ArithOp} {left right : Expr} (inside : e.Occurs left) :
      e.Occurs (.binary op left right)
  | right {op : ArithOp} {left right : Expr} (inside : e.Occurs right) :
      e.Occurs (.binary op left right)

/-- **The expression occurs in the statement**, in what it evaluates itself or in a block. -/
inductive Statement.Mentions (e : Expr) : Statement → Prop
  | here {s : Statement} {root : Expr} (operand : root ∈ s.operands) (occurs : e.Occurs root) :
      s.Mentions e
  | inside {s t : Statement} {block : Block} (mem : block ∈ s.blocks) (mem' : t ∈ block)
      (mentions : t.Mentions e) : s.Mentions e

/-- **The expression occurs in the program.** -/
def Program.Mentions (program : Program) (e : Expr) : Prop :=
  ∃ s ∈ program.statements, s.Mentions e

/-- **The statement assigns to the name**, itself or in a block. -/
inductive Statement.Assigns (name : String) : Statement → Prop
  | here {s : Statement} (target : name ∈ s.target?) : s.Assigns name
  | inside {s t : Statement} {block : Block} (mem : block ∈ s.blocks) (mem' : t ∈ block)
      (assigns : t.Assigns name) : s.Assigns name

/-- **The program has an assignment to the name.** -/
def Program.Assigns (program : Program) (name : String) : Prop :=
  ∃ s ∈ program.statements, s.Assigns name

/-- **The name occurs in the program**, as a variable or as what is assigned to. -/
def Program.Uses (program : Program) (name : String) : Prop :=
  program.Mentions (.var name) ∨ program.Assigns name

/-- **The expression and all its parts have the property.** -/
def Expr.Each (P : Expr → Prop) (e : Expr) : Prop := ∀ part, Expr.Occurs part e → P part

namespace Expr.Each

variable {P : Expr → Prop} {word : Sensor} {op : ArithOp} {l r : Expr}

theorem rank (h : (Expr.ranked word r).Each P) : r.Each P := fun part hpart => h part (.rank hpart)

theorem left (h : (Expr.binary op l r).Each P) : l.Each P := fun part hpart => h part (.left hpart)

theorem right (h : (Expr.binary op l r).Each P) : r.Each P := fun part hpart => h part (.right hpart)

end Expr.Each

theorem Statement.mem_operands {s : Statement} {c : Condition} {e : Expr} (hc : c ∈ s.tests)
    (he : e ∈ c.operands) : e ∈ s.operands := by
  have hmem : e ∈ s.tests.flatMap Condition.operands := List.mem_flatMap.2 ⟨c, hc, he⟩
  cases s with
  | action | assign => cases hc
  | loop | whileLoop | branch => exact hmem

/-- What holds of all expressions in a statement holds of those of each statement in it. -/
theorem Statement.each_operands {P : Expr → Prop} {s : Statement} (h : ∀ e, s.Mentions e → P e) :
    s.Each fun t => ∀ e ∈ t.operands, e.Each P := by
  induction s using Statement.induction with
  | step s ih =>
    constructor
    · intro e he part hpart
      exact h part (.here he hpart)
    · intro block hblock t ht
      exact ih block hblock t ht fun e he => h e (.inside hblock ht he)

/-- What holds of all names that a statement assigns to holds of those of each statement in it. -/
theorem Statement.each_target {A : String → Prop} {s : Statement} (h : ∀ name, s.Assigns name → A name) :
    s.Each fun t => ∀ name ∈ t.target?, A name := by
  induction s using Statement.induction with
  | step s ih =>
    constructor
    · intro name hname
      exact h name (.here hname)
    · intro block hblock t ht
      exact ih block hblock t ht fun name hname => h name (.inside hblock ht hname)

theorem Expr.Occurs.depth_le {e root : Expr} (h : e.Occurs root) : e.depth ≤ root.depth := by
  induction h with
  | here => exact Nat.le_refl _
  | rank _ ih | left _ ih | right _ ih => rw [Expr.depth]; omega

theorem Condition.operand_depth_le {c : Condition} : ∀ e ∈ c.operands, e.depth ≤ c.depth := by
  induction c with
  | compare op left right =>
    intro e he
    rw [Condition.depth]
    rcases List.mem_cons.1 he with rfl | he
    · omega
    · rw [List.mem_singleton.1 he]; omega
  | and left right ihl ihr | or left right ihl ihr =>
    intro e he
    rw [Condition.depth]
    rcases List.mem_append.1 he with he | he
    · have hleft := ihl e he; omega
    · have hright := ihr e he; omega
  | not inner ih =>
    intro e he
    have hinner := ih e he
    rw [Condition.depth]; omega

theorem Statement.test_depth_le {s : Statement} : ∀ c ∈ s.tests, c.depth ≤ s.depth := by
  intro c hc
  cases s with
  | action | assign | loop => cases hc
  | whileLoop test body => rw [List.mem_singleton.1 hc, Statement.depth]; omega
  | branch test body elifs otherwise =>
    rw [Statement.depth]
    rcases List.mem_cons.1 hc with rfl | hc
    · omega
    · obtain ⟨e, he, rfl⟩ := List.mem_map.1 hc
      have helif := (Statement.depthElifs_le_iff.1 (Nat.le_refl _) e he).1
      omega

theorem Statement.operand_depth_le {s : Statement} : ∀ e ∈ s.operands, e.depth ≤ s.depth := by
  have htests : ∀ e ∈ s.tests.flatMap Condition.operands, e.depth ≤ s.depth := by
    intro e he
    obtain ⟨c, hc, hec⟩ := List.mem_flatMap.1 he
    exact Nat.le_trans (c.operand_depth_le e hec) (s.test_depth_le c hc)
  cases s with
  | action word count =>
    intro e he
    cases Option.mem_toList.1 he
    exact Nat.le_refl _
  | assign name value =>
    intro e he
    rw [List.mem_singleton.1 he]
    exact Nat.le_refl _
  | loop | whileLoop | branch => exact htests

theorem Statement.block_depth_le {s : Statement} :
    ∀ block ∈ s.blocks, Statement.depthAll block ≤ s.depth := by
  intro block hblock
  cases s with
  | action | assign => cases hblock
  | loop body | whileLoop test body => rw [List.mem_singleton.1 hblock, Statement.depth]; omega
  | branch test body elifs otherwise =>
    rw [Statement.depth]
    rcases List.mem_cons.1 hblock with rfl | hblock
    · omega
    · rcases List.mem_append.1 hblock with hblock | hblock
      · obtain ⟨e, he, rfl⟩ := List.mem_map.1 hblock
        have helif := (Statement.depthElifs_le_iff.1 (Nat.le_refl _) e he).2
        omega
      · cases Option.mem_toList.1 hblock
        rw [Statement.depthElse]; omega

theorem Statement.Mentions.depth_le {s : Statement} {e : Expr} (h : s.Mentions e) :
    e.depth ≤ s.depth := by
  induction h with
  | @here s root operand occurs => exact Nat.le_trans occurs.depth_le (s.operand_depth_le root operand)
  | @inside s t block mem mem' _ ih =>
    have hblock := s.block_depth_le block mem
    exact Nat.le_trans ih (Statement.depthAll_le_iff.1 hblock t mem')

/-- **What occurs in a program is no deeper than it.** -/
theorem Program.Mentions.depth_le {p : Program} {e : Expr} (h : p.Mentions e) :
    e.depth ≤ p.depth := by
  obtain ⟨s, hs, hse⟩ := h
  exact Nat.le_trans hse.depth_le (Statement.depthAll_le_iff.1 (Nat.le_refl _) s hs)

namespace Grammar

open Lang

theorem DerivesGuarded.parts {ts : List Token} {e : Elif} (h : DerivesGuarded ts e) :
    Among DerivesCondition ts e.1 ∧ Among DerivesBlock ts e.2 := by
  cases h with
  | guard _ condition _ block =>
    exact ⟨(Among.of_mem condition).mono fun t ht => by simp [ht],
      (Among.of_mem block).mono fun t ht => by simp [ht]⟩

theorem DerivesElif.parts {ts : List Token} {e : Elif} (h : DerivesElif ts e) :
    Among DerivesCondition ts e.1 ∧ Among DerivesBlock ts e.2 := by
  cases h with
  | elif _ guarded =>
    obtain ⟨hcondition, hblock⟩ := guarded.parts
    exact ⟨hcondition.mono fun t ht => by simp [ht], hblock.mono fun t ht => by simp [ht]⟩

theorem DerivesElse.block {ts : List Token} {otherwise : Option Block}
    (h : DerivesElse ts otherwise) : ∀ block ∈ otherwise, Among DerivesBlock ts block := by
  intro block hblock
  cases h with
  | none => cases hblock
  | some _ hbody => cases hblock; exact (Among.of_mem hbody).mono fun t ht => by simp [ht]

theorem many_elif_parts {ts : List Token} {elifs : List Elif} (h : Many DerivesElif ts elifs) :
    ∀ e ∈ elifs, Among DerivesCondition ts e.1 ∧ Among DerivesBlock ts e.2 := by
  intro e he
  obtain ⟨us, hsub, hus⟩ := h.of_mem e he
  exact ⟨hus.parts.1.mono hsub, hus.parts.2.mono hsub⟩

/-- The blocks of a derived statement are derived from its tokens. -/
theorem DerivesStatement.blocks {ts : List Token} {s : Statement} (h : DerivesStatement ts s) :
    ∀ block ∈ s.blocks, Among DerivesBlock ts block := by
  intro block hblock
  cases h with
  | action | counted | assign => cases hblock
  | loop _ hbody =>
    rw [List.mem_singleton.1 hblock]
    exact (Among.of_mem hbody).mono fun t ht => by simp [ht]
  | whileLoop _ guarded =>
    rw [List.mem_singleton.1 hblock]
    exact guarded.parts.2.mono fun t ht => by simp [ht]
  | branch _ guarded more last =>
    rcases List.mem_cons.1 hblock with rfl | hblock
    · exact guarded.parts.2.mono fun t ht => by simp [ht]
    · rcases List.mem_append.1 hblock with hblock | hblock
      · obtain ⟨e, he, rfl⟩ := List.mem_map.1 hblock
        exact (many_elif_parts more e he).2.mono fun t ht => by simp [ht]
      · exact (last.block block (Option.mem_toList.1 hblock)).mono fun t ht => by simp [ht]

/-- The statements in the blocks of a derived statement are derived from its tokens. -/
theorem DerivesStatement.inner {ts : List Token} {s : Statement} (h : DerivesStatement ts s) :
    ∀ block ∈ s.blocks, ∀ t ∈ block, Among DerivesStatement ts t := by
  intro block hblock t ht
  obtain ⟨us, hsub, hus⟩ := h.blocks block hblock
  cases hus with
  | braces _ statements _ _ =>
    have hinner := statements.of_mem t ht
    exact hinner.mono fun u hu => hsub (by simp [hu])

/-- The conditions of a derived statement are derived from its tokens. -/
theorem DerivesStatement.tests {ts : List Token} {s : Statement} (h : DerivesStatement ts s) :
    ∀ c ∈ s.tests, Among DerivesCondition ts c := by
  intro c hc
  cases h with
  | action | counted | assign | loop => cases hc
  | whileLoop _ guarded =>
    rw [List.mem_singleton.1 hc]
    exact guarded.parts.1.mono fun t ht => by simp [ht]
  | branch _ guarded more _ =>
    rcases List.mem_cons.1 hc with rfl | hc
    · exact guarded.parts.1.mono fun t ht => by simp [ht]
    · obtain ⟨e, he, rfl⟩ := List.mem_map.1 hc
      exact (many_elif_parts more e he).1.mono fun t ht => by simp [ht]

theorem DerivesCondition.operands {ts : List Token} {c : Condition} (h : DerivesCondition ts c) :
    ∀ e ∈ c.operands, Among DerivesExpr ts e := by
  induction h with
  | compare _ _ first _ second _ =>
    intro e he
    rcases List.mem_cons.1 he with rfl | he
    · exact (Among.of_mem first).mono fun t ht => by simp [ht]
    · rw [List.mem_singleton.1 he]
      exact (Among.of_mem second).mono fun t ht => by simp [ht]
  | and _ _ _ _ _ _ ih₁ ih₂ | or _ _ _ _ _ _ ih₁ ih₂ =>
    intro e he
    rcases List.mem_append.1 he with he | he
    · exact (ih₁ e he).mono fun t ht => by simp [ht]
    · exact (ih₂ e he).mono fun t ht => by simp [ht]
  | not _ _ _ _ ih => intro e he; exact (ih e he).mono fun t ht => by simp [ht]

/-- The expressions of a derived statement are derived from its tokens. -/
theorem DerivesStatement.operands {ts : List Token} {s : Statement} (h : DerivesStatement ts s) :
    ∀ e ∈ s.operands, Among DerivesExpr ts e := by
  have htests : ∀ e ∈ s.tests.flatMap Condition.operands, Among DerivesExpr ts e := by
    intro e he
    obtain ⟨c, hc, hec⟩ := List.mem_flatMap.1 he
    obtain ⟨us, hsub, hus⟩ := h.tests c hc
    exact (hus.operands e hec).mono hsub
  cases h with
  | action => intro e he; cases he
  | counted _ _ _ arg _ _ | assign _ _ arg _ =>
    intro e he
    rw [List.mem_singleton.1 he]
    exact (Among.of_mem arg).mono fun t ht => by simp [ht]
  | loop | whileLoop | branch => exact htests

theorem DerivesExpr.occurs {ts : List Token} {e root : Expr} (h : DerivesExpr ts root)
    (hoccurs : e.Occurs root) : Among DerivesExpr ts e := by
  induction hoccurs generalizing ts with
  | here => exact .of_mem h
  | rank _ ih =>
    cases h with
    | ranked _ _ _ arg _ => exact (ih arg).mono fun t ht => by simp [ht]
  | left _ ih =>
    cases h with
    | binary _ _ first _ _ _ => exact (ih first).mono fun t ht => by simp [ht]
  | right _ ih =>
    cases h with
    | binary _ _ _ _ second _ => exact (ih second).mono fun t ht => by simp [ht]

theorem DerivesStatement.mentions {ts : List Token} {s : Statement} {e : Expr}
    (h : DerivesStatement ts s) (hmentions : s.Mentions e) : Among DerivesExpr ts e := by
  induction hmentions generalizing ts with
  | here operand occurs =>
    obtain ⟨us, hsub, hus⟩ := h.operands _ operand
    exact (hus.occurs occurs).mono hsub
  | inside mem mem' _ ih =>
    obtain ⟨us, hsub, hus⟩ := h.inner _ mem _ mem'
    exact (ih hus).mono hsub

/-- **What occurs in a derived program is derived** from some of its tokens. -/
theorem DerivesProgram.mentions {ts : List Token} {p : Program} {e : Expr}
    (h : DerivesProgram ts p) (hmentions : p.Mentions e) : Among DerivesExpr ts e := by
  obtain ⟨s, hs, hse⟩ := hmentions
  obtain ⟨us, hsub, hus⟩ := h.1.of_mem s hs
  exact (hus.mentions hse).mono hsub

/-- What holds of derived statements holds of all statements in them. -/
theorem DerivesStatement.each {P : Statement → Prop}
    (hP : ∀ {ts : List Token} {s : Statement}, DerivesStatement ts s → P s) {s : Statement} :
    ∀ {ts : List Token}, DerivesStatement ts s → s.Each P := by
  induction s using Statement.induction with
  | step s ih =>
    intro ts h
    refine .intro (hP h) fun block hblock t ht => ?_
    obtain ⟨us, -, hus⟩ := h.inner block hblock t ht
    exact ih block hblock t ht hus

/-- **Derived statements have no empty block.** -/
theorem DerivesStatement.filled {s : Statement} :
    ∀ {ts : List Token}, DerivesStatement ts s → s.Filled := by
  induction s using Statement.induction with
  | step s ih =>
    intro ts h
    constructor
    · intro block hblock
      obtain ⟨us, -, hus⟩ := h.blocks block hblock
      cases hus with
      | braces _ _ filled _ => exact filled
    · intro block hblock t ht
      obtain ⟨us, -, hus⟩ := h.inner block hblock t ht
      exact ih block hblock t ht hus

theorem DerivesProgram.filled {ts : List Token} {p : Program} (h : DerivesProgram ts p) :
    ∀ s ∈ p.statements, s.Filled := by
  intro s hs
  obtain ⟨us, -, hus⟩ := h.1.of_mem s hs
  exact hus.filled

end Grammar

end RobotScript
