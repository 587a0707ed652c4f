import Mathlib.Data.Finset.Card
import Mathlib.Data.List.Induction
import RobotScript.Store.Request
import RobotScript.Proofs.Store

/-!
# A store is determined by its history

What a store gives after any requests can be told from the requests alone: from those since it was
last cleared, the names that they read or set and the values that they set last.

* `Store.sinceClear`, `Store.used`, `Store.lastValue`: what counts in a history.
* `Store.get?_answer`: what one request does to the values.
* `Store.get?_after`: so every value after a history is the one that the history tells.
* `Store.Local`: a request about a name looks at no other name and changes no other name.
* `store_is_determined_by_history`: everything that a store gives, told from its history.
-/

namespace RobotScript

namespace Store

namespace Request

def isClear : Request → Bool
  | .clear => true
  | _ => false

def isLoad : Request → Bool
  | .load _ => true
  | _ => false

/-- The name that a request is about. -/
def name? : Request → Option String
  | .read name | .set name _ | .get name | .contains name => some name
  | _ => none

/-- The name that a request reads or sets. -/
def used? : Request → Option String
  | .read name | .set name _ => some name
  | _ => none

/-- The value that a request sets the name to. -/
def setTo? (name : String) : Request → Option Int32
  | .set other value => if name = other then some value else none
  | _ => none

end Request

/-- The store after requests, made one after the other. -/
def after (store : Store) (history : List Request) : Store :=
  history.foldl (fun store r => (store.answer r).2) store

/-- The requests since the store was last cleared, the latest one first. -/
def sinceClear (history : List Request) : List Request :=
  history.reverse.takeWhile fun r => !r.isClear

/-- The names that were read or set since the store was last cleared. -/
def used (history : List Request) : List String := (sinceClear history).filterMap Request.used?

/-- The value that a name was last set to since the store was last cleared, zero if it was not. -/
def lastValue (history : List Request) (name : String) : Int32 :=
  ((sinceClear history).findSome? (Request.setTo? name)).getD 0

/-- What a history tells of a name: the last value if the name was used. -/
def told (history : List Request) (name : String) : Option Int32 :=
  if name ∈ used history then some (lastValue history name) else none

variable {history : List Request} {name : String} {r : Request}

theorem after_concat (store : Store) (history : List Request) (r : Request) :
    store.after (history ++ [r]) = ((store.after history).answer r).2 := by
  unfold after
  rw [List.foldl_append]; rfl

theorem sinceClear_concat (history : List Request) (r : Request) :
    sinceClear (history ++ [r]) = if r.isClear then [] else r :: sinceClear history := by
  unfold sinceClear
  rw [List.reverse_append, List.reverse_singleton, List.singleton_append, List.takeWhile_cons]
  cases r.isClear <;> rfl

theorem used?_of_setTo? {value : Int32} (h : r.setTo? name = some value) :
    r.used? = some name := by
  cases r with
  | set other v =>
    have heq : name = other := by
      by_contra hne
      simp [Request.setTo?, hne] at h
    rw [heq]; rfl
  | _ => cases h

/-- A name that was not used was not set either. -/
theorem lastValue_of_not_used (h : name ∉ used history) : lastValue history name = 0 := by
  have hnone : (sinceClear history).findSome? (Request.setTo? name) = none := by
    rw [List.findSome?_eq_none_iff]
    intro r hr
    cases hset : r.setTo? name with
    | none => rfl
    | some value => exact absurd (List.mem_filterMap.2 ⟨r, hr, used?_of_setTo? hset⟩) h
  unfold lastValue
  rw [hnone]; rfl

theorem getD_told (history : List Request) (name : String) :
    (told history name).getD 0 = lastValue history name := by
  unfold told
  by_cases h : name ∈ used history
  · rw [if_pos h]; rfl
  · rw [if_neg h, lastValue_of_not_used h]; rfl

/-- What becomes of the value of a name, if it has one, by a request. -/
def step (name : String) (r : Request) (value : Option Int32) : Option Int32 :=
  if r.isClear then none
  else if r.used? = some name then some ((r.setTo? name).getD (value.getD 0))
  else value

/-- **What one request does to the values.** -/
theorem get?_answer (store : Store) (hload : r.isLoad = false) (name : String) :
    (store.answer r).2.get? name = step name r (store.get? name) := by
  cases r with
  | read other =>
    show (store.read other).2.get? name = _
    rw [get?_read]
    by_cases h : name = other
    · subst h
      simp [step, Request.isClear, Request.used?, Request.setTo?, value]
    · simp [step, Request.isClear, Request.used?, h, Ne.symm h]
  | set other v =>
    show (store.set other v).get? name = _
    rw [get?_set]
    by_cases h : name = other
    · subst h
      simp [step, Request.isClear, Request.used?, Request.setTo?]
    · simp [step, Request.isClear, Request.used?, h, Ne.symm h]
  | load text => cases hload
  | _ => rfl

/-- **What one request adds to what a history tells.** -/
theorem told_concat (history : List Request) (r : Request) (name : String) :
    told (history ++ [r]) name = step name r (told history name) := by
  unfold step
  cases hclear : r.isClear with
  | true => simp [told, used, sinceClear_concat, hclear]
  | false =>
    have hsince : sinceClear (history ++ [r]) = r :: sinceClear history := by
      rw [sinceClear_concat, hclear]; rfl
    have hmem : name ∈ used (history ++ [r]) ↔ r.used? = some name ∨ name ∈ used history := by
      unfold used
      rw [hsince]
      cases hused : r.used? with
      | none => simp [hused]
      | some other => simp [hused, eq_comm]
    have hlast : lastValue (history ++ [r]) name =
        (r.setTo? name).getD (lastValue history name) := by
      unfold lastValue
      rw [hsince, List.findSome?_cons]
      cases r.setTo? name <;> rfl
    rw [getD_told]
    by_cases hused : r.used? = some name
    · unfold told
      rw [if_pos (hmem.2 (.inl hused)), hlast]
      simp [hused]
    · -- a request that does not use the name does not set it either
      have hset : r.setTo? name = none := by
        cases hset : r.setTo? name with
        | none => rfl
        | some value => exact absurd (used?_of_setTo? hset) hused
      rw [hset] at hlast
      unfold told
      simp only [hmem, hused, false_or, hlast, Option.getD_none]
      simp

/-- **Every value after a history is the one that the history tells.** -/
theorem get?_after (h : ∀ r ∈ history, r.isLoad = false) (name : String) :
    (empty.after history).get? name = told history name := by
  induction history using List.reverseRecOn with
  | nil => rfl
  | append_singleton history r ih =>
    obtain ⟨hhistory, hr⟩ := List.forall_mem_append.1 h
    rw [after_concat, get?_answer _ (hr r List.mem_cons_self), told_concat, ih hhistory]

/-- **A request about a name looks at no other name and changes no other name.** -/
structure Local (r : Request) (name : String) : Prop where
  looks {store store' : Store} (same : store.get? name = store'.get? name) :
    (store.answer r).1 = (store'.answer r).1
  puts {store store' : Store} (same : store.get? name = store'.get? name) :
    (store.answer r).2.get? name = (store'.answer r).2.get? name
  keeps {store : Store} {other : String} (apart : other ≠ name) :
    (store.answer r).2.get? other = store.get? other

theorem local_of_name? (h : r.name? = some name) : Local r name := by
  have hload : r.isLoad = false := by
    cases r with
    | load => cases h
    | _ => rfl
  have hclear : r.isClear = false := by
    cases r with
    | clear => cases h
    | _ => rfl
  have hused : ∀ other, r.used? = some other → other = name := by
    intro other hother
    cases r with
    | read | set => cases h; cases hother; rfl
    | _ => cases hother
  refine ⟨fun {store store'} same => ?_, fun {store store'} same => ?_,
    fun {store other} apart => ?_⟩
  · cases r with
    | read =>
      cases h
      show Except.ok (Answer.number (store.read name).1) = .ok (.number (store'.read name).1)
      rw [read_value, read_value, value, value, same]
    | set => rfl
    | get =>
      cases h
      show Except.ok (Answer.maybe (store.get? name)) = .ok (.maybe (store'.get? name))
      rw [same]
    | contains =>
      cases h
      show Except.ok (Answer.truth (store.contains name)) = .ok (.truth (store'.contains name))
      rw [contains, contains, same]
    | _ => cases h
  · rw [get?_answer _ hload, get?_answer _ hload, same]
  · rw [get?_answer _ hload]
    unfold step
    rw [hclear, if_neg (fun hother => apart (hused other hother))]; rfl

/-- **Requests about different names commute.** -/
theorem answer_comm (store : Store) {r r' : Request} {name name' : String} (h : Local r name)
    (h' : Local r' name') (hne : name ≠ name') :
    ((store.answer r').2.answer r).1 = (store.answer r).1 ∧
      ((store.answer r).2.answer r').1 = (store.answer r').1 ∧
      ((store.answer r).2.answer r').2 = ((store.answer r').2.answer r).2 := by
  refine ⟨h.looks (h'.keeps hne), h'.looks (h.keeps hne.symm), ext_get? fun other => ?_⟩
  -- each name is changed by at most one of the two requests
  by_cases hname : other = name
  · rw [hname, h'.keeps hne]
    exact h.puts (h'.keeps hne).symm
  · rw [h.keeps hname]
    by_cases hname' : other = name'
    · rw [hname']
      exact h'.puts (h.keeps hne.symm)
    · rw [h'.keeps hname', h'.keeps hname', h.keeps hname]

/-- **The store keeps to the history**: all that it gives can be told from the names that were used
and the values they were last set to. -/
structure KeepsTo (store : Store) (history : List Request) : Prop where
  contains_iff (name : String) : store.contains name = true ↔ name ∈ used history
  get?_eq (name : String) :
    store.get? name = if name ∈ used history then some (lastValue history name) else none
  read_eq (name : String) :
    (store.read name).1 = if name ∈ used history then lastValue history name else 0
  size_eq : store.size = (used history).toFinset.card
  isEmpty_iff : store.isEmpty = true ↔ store.size = 0
  ascending : store.snapshot.Pairwise fun a b => a.1 < b.1
  mem_snapshot (name : String) (value : Int32) :
    (name, value) ∈ store.snapshot ↔ name ∈ used history ∧ value = lastValue history name

theorem keepsTo_of_told {store : Store} (h : ∀ name, store.get? name = told history name) :
    store.KeepsTo history := by
  have hcontains : ∀ name, store.contains name = true ↔ name ∈ used history := by
    intro name
    unfold contains
    rw [h name, told]
    by_cases hused : name ∈ used history
    · simp [hused]
    · simp [hused]
  have hmem : ∀ name value, (name, value) ∈ store.entries ↔
      name ∈ used history ∧ value = lastValue history name := by
    intro name value
    rw [mem_entries_iff, h name, told]
    by_cases hused : name ∈ used history
    · simp [hused, eq_comm]
    · simp [hused]
  refine ⟨hcontains, h, fun name => ?_, ?_, ?_, store.sorted, hmem⟩
  · rw [read_value, value, h name, told]
    by_cases hused : name ∈ used history
    · rw [if_pos hused, if_pos hused]; rfl
    · rw [if_neg hused, if_neg hused]; rfl
  · -- the names of the entries are those that were used, each once
    have hnames : (store.entries.map Prod.fst).toFinset = (used history).toFinset := by
      ext name
      simp [hmem]
    rw [← hnames, List.toFinset_card_of_nodup store.nodup_names, List.length_map]; rfl
  · unfold isEmpty size
    rw [List.isEmpty_iff, List.length_eq_zero_iff]

end Store

open Store

/-- **A store is determined by its history.** After any requests but loading, all that it gives can
be told from the names that were read or set since it was last cleared and from the values they were
last set to; histories that leave the same values leave the same snapshot; and requests about
different names may change places. -/
theorem store_is_determined_by_history (history : List Store.Request)
    (h : ∀ r ∈ history, r.isLoad = false) :
    (empty.after history).KeepsTo history ∧
    (∀ history' : List Store.Request,
      (∀ name, (empty.after history).get? name = (empty.after history').get? name) →
      (empty.after history).snapshot = (empty.after history').snapshot) ∧
    (∀ r r' : Store.Request, ∀ name name' : String, r.name? = some name → r'.name? = some name' →
      name ≠ name' →
      ((empty.after (history ++ [r'])).answer r).1 = ((empty.after history).answer r).1 ∧
      ((empty.after (history ++ [r])).answer r').1 = ((empty.after history).answer r').1 ∧
      empty.after (history ++ [r, r']) = empty.after (history ++ [r', r])) := by
  refine ⟨keepsTo_of_told (get?_after h), fun history' hsame => ?_,
    fun r r' name name' hr hr' hne => ?_⟩
  · rw [ext_get? hsame]
  · obtain ⟨hfirst, hsecond, hboth⟩ :=
      answer_comm (empty.after history) (local_of_name? hr) (local_of_name? hr') hne
    have hpair : ∀ r r' : Store.Request, history ++ [r, r'] = history ++ [r] ++ [r'] := by
      intro r r'
      rw [List.append_assoc]; rfl
    rw [hpair, hpair]
    simp only [after_concat]
    exact ⟨hfirst, hsecond, hboth⟩

/-- What was set before the store was cleared does not count, and reading does not overwrite. -/
theorem history_around_clear :
    let history : List Store.Request := [.set "$b" 2, .clear, .set "$é" 3, .read "$b", .get "$z",
      .set "$é" (-4), .read "$é", .snapshot]
    (∀ r ∈ history, r.isLoad = false) ∧ (empty.after history).KeepsTo history ∧
      (empty.after history).snapshot = [("$b", 0), ("$é", -4)] := by
  intro history
  have hplain : ∀ r ∈ history, r.isLoad = false := by simp [history, Request.isLoad]
  exact ⟨hplain, (store_is_determined_by_history history hplain).1, by decide⟩

end RobotScript
