import Mathlib.Order.Lattice
import RobotScript.Answer
import RobotScript.Form.Store
import RobotScript.Form.Token
import RobotScript.Form.Tree
import RobotScript.Proofs.Nesting
import RobotScript.Proofs.Store
import RobotScript.Proofs.Tree

/-!
# Values are read from their JSON forms

* `Form.Reads`: a form is read with as many levels as it nests, and with no fewer.
* `Statement.reads`, `Expr.reads`, `Condition.reads`, `Token.reads`, `Store.reads`: each value
  is read from its form.
* `Form.faithful_of_reads`: then the texts of forms nest at most as deeply as the limit
  allows exactly if they are read, and tell the values apart.
* `forms_are_faithful`: so it is for all values that have a form.
-/

namespace RobotScript

/-- Words of the family are told apart by their tags. -/
class LawfulWord (α : Type) [Word α] : Prop where
  ofTag?_tag (w : α) : Word.ofTag? (Word.tag w) = some w

instance : LawfulWord Action := ⟨fun w => by cases w <;> rfl⟩

instance : LawfulWord Sensor := ⟨fun w => by cases w <;> rfl⟩

instance : LawfulWord ArithOp := ⟨fun w => by cases w <;> rfl⟩

instance : LawfulWord Relop := ⟨fun w => by cases w <;> rfl⟩

instance : LawfulWord Combinator := ⟨fun w => by cases w <;> rfl⟩

namespace Json

theorem proper_leaf {j : Json} (h : ∀ text, j ≠ .verbatim text) (hparts : j.parts = []) :
    j.Proper :=
  .intro h (by simp [hparts])

@[simp] theorem proper_null : null.Proper := proper_leaf nofun rfl

@[simp] theorem proper_int (value : Int) : (int value).Proper := proper_leaf nofun rfl

@[simp] theorem proper_string (value : String) : (string value).Proper := proper_leaf nofun rfl

@[simp] theorem proper_array {items : List Json} :
    (array items).Proper ↔ ∀ j ∈ items, j.Proper := by
  constructor
  · rintro ⟨-, inner⟩
    exact inner
  · intro h
    exact .intro nofun h

@[simp] theorem proper_object {fields : List (String × Json)} :
    (object fields).Proper ↔ ∀ f ∈ fields, f.2.Proper := by
  constructor
  · rintro ⟨-, inner⟩ f hf
    exact inner f.2 (List.mem_map_of_mem hf)
  · intro h
    refine .intro nofun fun part hpart => ?_
    obtain ⟨f, hf, rfl⟩ := List.mem_map.1 hpart
    exact h f hf

@[simp] theorem nesting_null : null.nesting = 0 := rfl

@[simp] theorem nesting_int (value : Int) : (int value).nesting = 0 := rfl

@[simp] theorem nesting_string (value : String) : (string value).nesting = 0 := rfl

@[simp] theorem nesting_array (items : List Json) :
    (array items).nesting = nestingItems items + 1 := by
  rw [nesting]; omega

@[simp] theorem nesting_object (fields : List (String × Json)) :
    (object fields).nesting = nestingFields fields + 1 := by
  rw [nesting]; omega

attribute [simp] nestingItems nestingFields

end Json

namespace Form

variable {α : Type}

@[simp] theorem word_ofWord [Word α] [LawfulWord α] (levels : Nat) (w : α) :
    word levels (ofWord w) = some w :=
  LawfulWord.ofTag?_tag w

theorem int32?_ofInt32 (value : Int32) : int32? (ofInt32 value) = some value := by
  show Decimal.toInt32? value.toInt = some value
  unfold Decimal.toInt32?
  rw [if_pos ⟨value.minValue_le_toInt, value.toInt_le⟩, Int32.ofInt_toInt]

/-- **The value is read from the form** with as many levels as the form nests, and with no fewer. -/
structure Reads (read : Nat → Json → Option α) (j : Json) (x : α) : Prop where
  proper : j.Proper
  read_eq (levels : Nat) : read levels j = if j.nesting ≤ levels then some x else none

@[simp] theorem bind_within {β : Type} {n levels : Nat} (a : α) (f : α → Option β) :
    (if n ≤ levels then some a else none).bind f = if n ≤ levels then f a else none := by
  split <;> rfl

theorem optional_some {read : Json → Option α} {j : Json} (h : j ≠ .null) :
    optional read (some j) = (read j).map some := by
  rw [optional]
  exact h

/-- A form that takes one level, and what is inside of it. -/
theorem reads_of_succ {read : Nat → Json → Option α} {j : Json} {x : α} {n : Nat}
    (hproper : j.Proper) (hnesting : j.nesting = n + 1) (hzero : read 0 j = none)
    (hread : ∀ levels, read (levels + 1) j = if n ≤ levels then some x else none) :
    Reads read j x := by
  refine ⟨hproper, fun levels => ?_⟩
  rw [hnesting]
  cases levels with
  | zero => exact hzero
  | succ levels =>
    rw [hread]
    exact if_congr (by omega) rfl rfl

/-- A form that takes two levels, and what is inside of it. -/
theorem reads_of_two {read : Nat → Json → Option α} {j : Json} {x : α} {n : Nat}
    (hproper : j.Proper) (hnesting : j.nesting = n + 2) (hzero : read 0 j = none)
    (hone : read 1 j = none)
    (hread : ∀ levels, read (levels + 2) j = if n ≤ levels then some x else none) :
    Reads read j x := by
  refine reads_of_succ hproper hnesting hzero fun levels => ?_
  cases levels with
  | zero => exact hone
  | succ levels =>
    rw [hread]
    exact if_congr (by omega) rfl rfl

/-- A form that takes two levels, and two parts inside of it. -/
theorem reads_of_pair {β γ : Type} {readL : Nat → Json → Option β} {readR : Nat → Json → Option γ}
    {read : Nat → Json → Option α} {j jl jr : Json} {l : β} {r : γ} {f : β → γ → α}
    (hl : Reads readL jl l) (hr : Reads readR jr r) (hproper : jl.Proper ∧ jr.Proper → j.Proper)
    (hnesting : j.nesting = max jl.nesting jr.nesting + 2) (hzero : read 0 j = none)
    (hone : read 1 j = none) (hread : ∀ levels, read (levels + 2) j =
      (readL levels jl).bind fun l => (readR levels jr).bind fun r => some (f l r)) :
    Reads read j (f l r) := by
  refine reads_of_two (hproper ⟨hl.proper, hr.proper⟩) hnesting hzero hone fun levels => ?_
  rw [hread, hl.read_eq, bind_within, hr.read_eq, bind_within, ← ite_and]
  exact if_congr Nat.max_le.symm rfl rfl

end Form

open Form

theorem Expr.toJson_ne_null (e : Expr) : e.toJson ≠ .null := by
  cases e <;> nofun

/-- **An expression is read from its form.** -/
theorem Expr.reads (e : Expr) : Reads Expr.ofJson? e.toJson e := by
  induction e with
  | number value =>
    refine reads_of_succ (n := 0) ?_ ?_ rfl fun levels => ?_
    · simp [Expr.toJson, tagged, ofInt32]
    · simp [Expr.toJson, tagged, ofInt32]
    · rw [Expr.toJson, tagged, Expr.ofJson?, int32?_ofInt32]; rfl
  | sensor word =>
    refine reads_of_two (n := 0) ?_ ?_ rfl rfl fun levels => ?_
    · simp [Expr.toJson, tagged, ofWord]
    · simp [Expr.toJson, tagged, ofWord]
    · show (do return Expr.reading (← Form.word levels (ofWord word)) none) = _
      simp [Expr.reading]
  | ranked word rank ih =>
    refine reads_of_two (n := rank.toJson.nesting) ?_ ?_ rfl rfl fun levels => ?_
    · simpa [Expr.toJson, tagged, ofWord] using ih.proper
    · simp [Expr.toJson, tagged, ofWord]
    · show (do
        let word ← Form.word levels (ofWord word)
        let rank ← optional (Expr.ofJson? levels) (some rank.toJson)
        return Expr.reading word rank) = _
      simp [optional_some rank.toJson_ne_null, ih.read_eq, Expr.reading]
  | var name =>
    refine reads_of_succ (n := 0) ?_ ?_ rfl fun levels => rfl
    · simp [Expr.toJson, tagged]
    · simp [Expr.toJson, tagged]
  | binary op left right ihl ihr =>
    refine reads_of_pair ihl ihr ?_ ?_ rfl rfl fun levels => ?_
    · simp [Expr.toJson, tagged, ofWord]
    · simp [Expr.toJson, tagged, ofWord]
    · show (do
        let op ← Form.word levels (ofWord op)
        let left ← Expr.ofJson? levels left.toJson
        let right ← Expr.ofJson? levels right.toJson
        return Expr.binary op left right) = _
      rw [word_ofWord]; rfl

/-- **A condition is read from its form.** -/
theorem Condition.reads (c : Condition) : Reads Condition.ofJson? c.toJson c := by
  induction c with
  | compare op left right =>
    refine reads_of_pair left.reads right.reads ?_ ?_ rfl rfl fun levels => ?_
    · simp [Condition.toJson, tagged, ofWord]
    · simp [Condition.toJson, tagged, ofWord]
    · show (do
        let op ← Form.word levels (ofWord op)
        let left ← Expr.ofJson? levels left.toJson
        let right ← Expr.ofJson? levels right.toJson
        return Condition.compare op left right) = _
      rw [word_ofWord]; rfl
  | and left right ihl ihr | or left right ihl ihr =>
    refine reads_of_pair ihl ihr ?_ ?_ rfl rfl fun levels => rfl
    · simp [Condition.toJson, tagged]
    · simp [Condition.toJson, tagged]
  | not inner ih =>
    refine reads_of_succ (n := inner.toJson.nesting) ?_ ?_ rfl fun levels => ?_
    · simpa [Condition.toJson, tagged] using ih.proper
    · simp [Condition.toJson, tagged]
    · have hread : Condition.ofJson? (levels + 1) inner.not.toJson =
          (Condition.ofJson? levels inner.toJson).bind fun c => some (Condition.not c) := by
        cases levels <;> rfl
      rw [hread, ih.read_eq, bind_within]

theorem Statement.allToJson_eq (body : Block) :
    Statement.allToJson body = body.map Statement.toJson := by
  induction body with
  | nil => rfl
  | cons s rest ih => rw [Statement.allToJson, ih]; rfl

/-- The form of an `elif` branch. -/
def Elif.toJson (e : Elif) : Json :=
  .object [("condition", e.1.toJson), ("block", Block.toJson e.2)]

theorem Statement.elifsToJson_eq (elifs : List Elif) :
    Statement.elifsToJson elifs = elifs.map Elif.toJson := by
  induction elifs with
  | nil => rfl
  | cons e rest ih =>
    obtain ⟨test, body⟩ := e
    rw [Statement.elifsToJson, ih]; rfl

theorem mapM_reads {α : Type} {read : Nat → Json → Option α} {toJson : α → Json} {xs : List α}
    (h : ∀ x ∈ xs, Reads read (toJson x) x) (levels : Nat) : (xs.map toJson).mapM (read levels) =
      if Json.nestingItems (xs.map toJson) ≤ levels then some xs else none := by
  induction xs with
  | nil => simp
  | cons x xs ih =>
    obtain ⟨hx, hxs⟩ := List.forall_mem_cons.1 h
    simp [List.mapM_cons, hx.read_eq, ih hxs, ite_and]

theorem Block.toJson_ne_null (body : Block) : Block.toJson body ≠ .null := nofun

theorem Block.reads {body : Block} (h : ∀ s ∈ body, Reads Statement.ofJson? s.toJson s) :
    Reads Block.ofJson? (Block.toJson body) body := by
  have hproper : ∀ s ∈ body, s.toJson.Proper := fun s hs => (h s hs).proper
  refine reads_of_two (n := Json.nestingItems (body.map Statement.toJson)) ?_ ?_ rfl rfl
    fun levels => ?_
  · simpa [Block.toJson, Form.statements, Statement.allToJson_eq] using hproper
  · simp [Block.toJson, Form.statements, Statement.allToJson_eq]
  · show (Statement.allToJson body).mapM (Statement.ofJson? levels) = _
    rw [Statement.allToJson_eq, mapM_reads h]

theorem Elif.reads {e : Elif} (h : ∀ s ∈ e.2, Reads Statement.ofJson? s.toJson s) :
    Reads Elif.ofJson? e.toJson e := by
  have htest := e.1.reads
  have hbody := Block.reads h
  refine reads_of_succ (n := max e.1.toJson.nesting (Block.toJson e.2).nesting) ?_ ?_ rfl
    fun levels => ?_
  · simp [Elif.toJson, htest.proper, hbody.proper]
  · simp [Elif.toJson]
  · show (do
      let test ← Condition.ofJson? levels e.1.toJson
      let body ← Block.ofJson? levels (Block.toJson e.2)
      return ((test, body) : Elif)) = _
    simp [htest.read_eq, hbody.read_eq, ite_and]

theorem Elif.allReads {elifs : List Elif}
    (h : ∀ e ∈ elifs, ∀ s ∈ e.2, Reads Statement.ofJson? s.toJson s) :
    Reads Elif.allOfJson? (.array (elifs.map Elif.toJson)) elifs := by
  have helifs : ∀ e ∈ elifs, Reads Elif.ofJson? e.toJson e := fun e he => Elif.reads (h e he)
  refine reads_of_succ ?_ (Json.nesting_array _) rfl fun levels => ?_
  · rw [Json.proper_array, List.forall_mem_map]
    exact fun e he => (helifs e he).proper
  · show (elifs.map Elif.toJson).mapM (Elif.ofJson? levels) = _
    exact mapM_reads helifs levels

/-- The form of what may be missing. -/
def Form.orNull {α : Type} (toJson : α → Json) (x : Option α) : Json := x.elim .null toJson

theorem optional_orNull {α : Type} {read : Nat → Json → Option α} {toJson : α → Json}
    {x : Option α} (hne : ∀ a, toJson a ≠ .null) (h : ∀ a ∈ x, Reads read (toJson a) a)
    (levels : Nat) : optional (read levels) (some (orNull toJson x)) =
      if (orNull toJson x).nesting ≤ levels then some x else none := by
  cases x with
  | none => rfl
  | some a =>
    show optional (read levels) (some (toJson a)) =
      if (toJson a).nesting ≤ levels then some (some a) else none
    rw [optional_some (hne a), (h a rfl).read_eq]
    split <;> rfl

theorem proper_orNull {α : Type} {toJson : α → Json} {x : Option α}
    (h : ∀ a ∈ x, (toJson a).Proper) : (orNull toJson x).Proper := by
  cases x with
  | none => exact Json.proper_null
  | some a => exact h a rfl

theorem Statement.toJson_action (word : Action) (count : Option Expr) :
    (Statement.action word count).toJson =
      tagged "Action" (.object [("action", ofWord word), ("count", orNull Expr.toJson count)]) := by
  cases count <;> rfl

theorem Statement.toJson_loop (body : Block) :
    (Statement.loop body).toJson = tagged "Loop" (.object [("body", Block.toJson body)]) := rfl

theorem Statement.toJson_whileLoop (test : Condition) (body : Block) :
    (Statement.whileLoop test body).toJson =
      tagged "While" (.object [("condition", test.toJson), ("body", Block.toJson body)]) := rfl

theorem Statement.toJson_branch (test : Condition) (body : Block) (elifs : List Elif)
    (otherwise : Option Block) : (Statement.branch test body elifs otherwise).toJson =
      tagged "If" (.object [("condition", test.toJson), ("then_block", Block.toJson body),
        ("elifs", .array (elifs.map Elif.toJson)),
        ("else_block", orNull Block.toJson otherwise)]) := by
  rw [← Statement.elifsToJson_eq]
  cases otherwise <;> rfl

/-- **A statement is read from its form.** -/
theorem Statement.reads (s : Statement) : Reads Statement.ofJson? s.toJson s := by
  induction s using Statement.induction with
  | step s ih =>
    have hblocks : ∀ block ∈ s.blocks, Reads Block.ofJson? (Block.toJson block) block :=
      fun block hblock => Block.reads (ih block hblock)
    cases s with
    | action word count =>
      have hcount : ∀ e ∈ count, Reads Expr.ofJson? e.toJson e := fun e _ => e.reads
      have hproper := proper_orNull fun e he => (hcount e he).proper
      rw [Statement.toJson_action]
      refine reads_of_two (n := (orNull Expr.toJson count).nesting) ?_ ?_ rfl rfl fun levels => ?_
      · simp [tagged, ofWord, hproper]
      · simp [tagged, ofWord]
      · show (do
          let word ← Form.word levels (ofWord word)
          let count ← optional (Expr.ofJson? levels) (some (orNull Expr.toJson count))
          return Statement.action word count) = _
        simp [optional_orNull Expr.toJson_ne_null hcount]
    | loop body =>
      have hbody := hblocks body (.head _)
      rw [Statement.toJson_loop]
      refine reads_of_two (n := (Block.toJson body).nesting) ?_ ?_ rfl rfl fun levels => ?_
      · simpa [tagged] using hbody.proper
      · simp [tagged]
      · show (do
          let body ← Block.ofJson? levels (Block.toJson body)
          return Statement.loop body) = _
        simp [hbody.read_eq]
    | branch test body elifs otherwise =>
      have htest := test.reads
      have hbody := hblocks body (.head _)
      have helifs : Reads Elif.allOfJson? (.array (elifs.map Elif.toJson)) elifs :=
        Elif.allReads fun e he =>
          ih e.2 (.tail _ (List.mem_append_left _ (List.mem_map_of_mem he)))
      have helse : ∀ block ∈ otherwise, Reads Block.ofJson? (Block.toJson block) block :=
        fun block hblock =>
          hblocks block (.tail _ (List.mem_append_right _ (Option.mem_toList.2 hblock)))
      have hproper := proper_orNull fun block hblock => (helse block hblock).proper
      rw [Statement.toJson_branch]
      -- the array of the `elif` branches is opened as one form, like the other three parts
      generalize hall : Json.array (elifs.map Elif.toJson) = all at helifs ⊢
      refine reads_of_two (n := max test.toJson.nesting (max (Block.toJson body).nesting
        (max all.nesting (orNull Block.toJson otherwise).nesting))) ?_ ?_ rfl rfl fun levels => ?_
      · simp [tagged, htest.proper, hbody.proper, helifs.proper, hproper]
      · simp [tagged]
      · show (do
          let test ← Condition.ofJson? levels test.toJson
          let body ← Block.ofJson? levels (Block.toJson body)
          let elifs ← Elif.allOfJson? levels all
          let otherwise ← optional (Block.ofJson? levels) (some (orNull Block.toJson otherwise))
          return Statement.branch test body elifs otherwise) = _
        simp [htest.read_eq, hbody.read_eq, helifs.read_eq,
          optional_orNull Block.toJson_ne_null helse, ite_and]
    | whileLoop test body =>
      have hbody := hblocks body (.head _)
      rw [Statement.toJson_whileLoop]
      refine reads_of_pair test.reads hbody ?_ ?_ rfl rfl fun levels => rfl
      · simp [tagged]
      · simp [tagged]
    | assign name value =>
      have hvalue := value.reads
      refine reads_of_two (n := value.toJson.nesting) ?_ ?_ rfl rfl fun levels => ?_
      · simpa [Statement.toJson, tagged] using hvalue.proper
      · simp [Statement.toJson, tagged]
      · show (do
          let value ← Expr.ofJson? levels value.toJson
          return Statement.assign name value) = _
        simp [hvalue.read_eq]

/-- **A program is read from its form.** -/
theorem Program.reads (p : Program) : Reads Program.ofJson? p.toJson p := by
  have hbody := Block.reads fun s (_ : s ∈ p.statements) => s.reads
  refine ⟨hbody.proper, fun levels => ?_⟩
  show (Block.ofJson? levels (Block.toJson p.statements)).map Program.mk =
    if (Block.toJson p.statements).nesting ≤ levels then some p else none
  rw [hbody.read_eq]
  split <;> rfl

theorem Kind.reads (kind : Kind) : Reads Kind.ofJson? kind.toJson kind := by
  have htagged {α : Type} [Word α] [LawfulWord α] {tag : String} {w : α}
      (hread : ∀ levels, Kind.ofJson? (levels + 1) (tagged tag (ofWord w)) = some kind)
      (hzero : Kind.ofJson? 0 (tagged tag (ofWord w)) = none) :
      Reads Kind.ofJson? (tagged tag (ofWord w)) kind := by
    refine reads_of_succ (n := 0) ?_ ?_ hzero fun levels => ?_
    · simp [tagged, ofWord]
    · simp [tagged, ofWord]
    · simp [hread]
  have hplain {tag : String} (hread : ∀ levels, Kind.ofJson? levels (.string tag) = some kind) :
      Reads Kind.ofJson? (.string tag) kind := by
    refine ⟨Json.proper_string _, fun levels => ?_⟩
    simp [hread]
  cases kind with
  | action w | sensor w | operator w | relop w | combinator w =>
    exact htagged (fun levels => by simp [tagged, Kind.ofJson?]) rfl
  | _ => exact hplain fun levels => by cases levels <;> rfl

/-- **A token is read from its form.** -/
theorem Token.reads (token : Token) : Reads Token.ofJson? token.toJson token := by
  have hkind := token.kind.reads
  refine reads_of_succ (n := token.kind.toJson.nesting) ?_ ?_ rfl fun levels => ?_
  · simp [Token.toJson, hkind.proper]
  · simp [Token.toJson]
  · show (do
      let kind ← Kind.ofJson? levels token.kind.toJson
      return Token.mk kind token.lexeme) = _
    simp [hkind.read_eq]

namespace Store

theorem insertEntry_perm {name : String} {value : Int32} {l : List (String × Int32)}
    (h : name ∉ l.map Prod.fst) : (insertEntry name value l).Perm ((name, value) :: l) := by
  induction l with
  | nil => exact .refl _
  | cons head rest ih =>
    obtain ⟨key, old⟩ := head
    rw [List.map_cons, List.mem_cons, not_or] at h
    unfold insertEntry
    by_cases hlt : name < key
    · rw [if_pos hlt]
    · rw [if_neg hlt, if_neg h.1]
      exact ((ih h.2).cons _).trans (.swap _ _ _)

/-- Setting names that are new adds just their entries. -/
theorem foldl_set_perm {entries : List (String × Int32)} {store : Store}
    (h : ((store.entries ++ entries).map Prod.fst).Nodup) :
    (entries.foldl (fun store (name, value) => store.set name value) store).entries.Perm
      (store.entries ++ entries) := by
  induction entries generalizing store with
  | nil => rw [List.append_nil]; exact .refl _
  | cons entry rest ih =>
    obtain ⟨name, value⟩ := entry
    have hnew : name ∉ store.entries.map Prod.fst := by
      rw [List.map_append, List.nodup_append] at h
      intro hmem
      exact h.2.2 name hmem name (.head _) rfl
    -- the entry that is set stands in the middle of the list, but the list is the same
    have hperm : (store.set name value).entries.Perm (store.entries ++ [(name, value)]) :=
      (insertEntry_perm hnew).trans (List.perm_append_singleton _ _).symm
    have hall := hperm.append_right rest
    rw [List.append_assoc] at hall
    exact (ih ((hall.map Prod.fst).nodup_iff.2 h)).trans hall

/-- **The entries of a store, in any order, make the same store.** -/
theorem ofList_perm {store : Store} {entries : List (String × Int32)}
    (h : entries.Perm store.entries) : ofList entries = store := by
  have hperm : (ofList entries).entries.Perm (empty.entries ++ entries) :=
    foldl_set_perm ((h.map Prod.fst).nodup_iff.2 store.nodup_names)
  exact eq_of_perm (hperm.trans h)

/-- The form of a variable with its value. -/
def entryForm (entry : String × Int32) : String × Json := (entry.1, ofInt32 entry.2)

/-- **A form of the store**: its variables may be written in any order. -/
def IsForm (store : Store) (j : Json) : Prop :=
  ∃ entries : List (String × Int32), entries.Perm store.entries ∧
    j = .object [("variables", .object (entries.map entryForm))]

theorem isForm_toJson (store : Store) : store.IsForm store.toJson :=
  ⟨store.entries, .refl _, rfl⟩

theorem mapM_entryForm (entries : List (String × Int32)) : (entries.map entryForm).mapM
    (fun field => (int32? field.2).map fun value => (field.1, value)) = some entries := by
  induction entries with
  | nil => rfl
  | cons entry rest ih => simp [List.mapM_cons, entryForm, int32?_ofInt32, ih]

theorem nestingFields_entryForm (entries : List (String × Int32)) :
    Json.nestingFields (entries.map entryForm) = 0 := by
  induction entries with
  | nil => rfl
  | cons entry rest ih => simp [entryForm, ofInt32, ih]

/-- **A store is read from each of its forms.** -/
theorem reads {store : Store} {j : Json} (h : store.IsForm j) : Reads ofJson? j store := by
  obtain ⟨entries, hperm, rfl⟩ := h
  have hproper : ∀ field ∈ entries.map entryForm, field.2.Proper :=
    List.forall_mem_map.2 fun _ _ => Json.proper_int _
  refine reads_of_two (n := 0) ?_ ?_ rfl rfl fun levels => ?_
  · simpa using hproper
  · simp [nestingFields_entryForm]
  · show (do
      let entries ← (entries.map entryForm).mapM
        fun (field : String × Json) => (int32? field.2).map fun value => (field.1, value)
      return ofList entries) = _
    rw [mapM_entryForm, if_pos (Nat.zero_le _), ← ofList_perm hperm]
    rfl

end Store

/-- **Values and their texts determine each other**: a value is read from each of its texts, unless
that text nests too deeply, and no two values have a text in common. -/
structure Form.Faithful {α : Type} (IsForm : α → Json → Prop) (read : Nat → Json → Option α) :
    Prop where
  round_trip {x : α} {j : Json} (form : IsForm x j) :
    Failure.ofForm (Form.ofText read j.write) =
      if Json.nestingOf j.write ≤ 127 then .ok x else .error .undecodable
  injective {x y : α} {j j' : Json} (form : IsForm x j) (form' : IsForm y j')
    (same : j.write = j'.write) : x = y

theorem Form.faithful_of_reads {α : Type} {IsForm : α → Json → Prop}
    {read : Nat → Json → Option α} (h : ∀ {x j}, IsForm x j → Reads read j x) :
    Faithful IsForm read where
  round_trip {x j} form := by
    have hreads := h form
    have htext : Form.ofText read j.write = read 127 j := by
      rw [Form.ofText, Json.read?_write hreads.proper]; rfl
    rw [htext, hreads.read_eq, Json.nestingOf_write hreads.proper]
    split <;> rfl
  injective {x y j j'} form form' same := by
    have hx := h form
    have hy := h form'
    -- the texts are read as JSON without a limit, and a form is read at the level where it nests
    have hsome : some j = some j' := by
      rw [← Json.read?_write hx.proper, ← Json.read?_write hy.proper, same]
    cases hsome
    have hvalue : some x = some y := by
      have hread := hx.read_eq j.nesting
      rwa [hy.read_eq, if_pos (Nat.le_refl _), if_pos (Nat.le_refl _), eq_comm] at hread
    exact Option.some.inj hvalue

/-- **The forms are faithful**: programs, blocks, statements, expressions, conditions, tokens and
stores are read from their texts exactly if those nest at most 127 arrays and objects, and different
ones have different texts. The variables of a store may stand in any order. -/
theorem forms_are_faithful :
    Form.Faithful (fun p j => j = Program.toJson p) Program.ofJson? ∧
    Form.Faithful (fun body j => j = Block.toJson body) Block.ofJson? ∧
    Form.Faithful (fun s j => j = Statement.toJson s) Statement.ofJson? ∧
    Form.Faithful (fun e j => j = Expr.toJson e) Expr.ofJson? ∧
    Form.Faithful (fun c j => j = Condition.toJson c) Condition.ofJson? ∧
    Form.Faithful (fun token j => j = Token.toJson token) Token.ofJson? ∧
    Form.Faithful Store.IsForm Store.ofJson? ∧ ∀ store : Store, store.IsForm store.toJson := by
  refine ⟨faithful_of_reads ?_, faithful_of_reads ?_, faithful_of_reads ?_, faithful_of_reads ?_,
    faithful_of_reads ?_, faithful_of_reads ?_, faithful_of_reads Store.reads, Store.isForm_toJson⟩
  · rintro p _ rfl; exact p.reads
  · rintro body _ rfl; exact Block.reads fun s _ => s.reads
  · rintro s _ rfl; exact s.reads
  · rintro e _ rfl; exact e.reads
  · rintro c _ rfl; exact c.reads
  · rintro token _ rfl; exact token.reads

end RobotScript
