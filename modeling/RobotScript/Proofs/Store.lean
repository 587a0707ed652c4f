import RobotScript.Store

/-!
# What a store gives

* `Store.get?_set`: what setting a name does to the values of all names.
* `Store.value`: the value of a name, zero if it has none. Reading changes no value.
* `Store.contains_set`, `Store.contains_read`: which names a store has after it was used.
* `Store.ext_get?`: a store is determined by the values it gives.
* `Store.replay`: a store after assignments, made one after the other.
-/

namespace RobotScript.Store

theorem lookup_insertEntry (name other : String) (value : Int32) (l : List (String × Int32)) :
    (insertEntry name value l).lookup other =
      if other = name then some value else l.lookup other := by
  have hcons : ∀ (key : String) (v : Int32) (rest : List (String × Int32)),
      ((key, v) :: rest).lookup other = if other = key then some v else rest.lookup other := by
    intro key v rest
    rw [List.lookup_cons]
    by_cases h : other = key
    · rw [if_pos h, h, beq_self_eq_true]
    · rw [if_neg h, beq_eq_false_iff_ne.2 h]
  induction l with
  | nil => exact hcons name value []
  | cons head rest ih =>
    obtain ⟨key, old⟩ := head
    unfold insertEntry
    split
    · exact hcons name value _
    · split
      · next heq =>
        rw [hcons, hcons, heq]
        by_cases h : other = key
        · rw [if_pos h, if_pos h]
        · rw [if_neg h, if_neg h, if_neg h]
      · next hne =>
        rw [hcons, hcons, ih]
        by_cases h : other = key
        · rw [if_pos h, if_pos h, if_neg (fun hname => hne (hname.symm.trans h))]
        · rw [if_neg h, if_neg h]

/-- **Setting a name** gives it the value and leaves all other names alone. -/
theorem get?_set (store : Store) (name other : String) (value : Int32) :
    (store.set name value).get? other = if other = name then some value else store.get? other :=
  lookup_insertEntry name other value store.entries

/-- The value of a name, zero if it has none. -/
def value (store : Store) (name : String) : Int32 := (store.get? name).getD 0

theorem value_set (store : Store) (name other : String) (v : Int32) :
    (store.set name v).value other = if other = name then v else store.value other := by
  unfold value
  rw [get?_set]
  by_cases h : other = name
  · rw [if_pos h, if_pos h]; rfl
  · rw [if_neg h, if_neg h]

/-- Reading gives the value. -/
theorem read_value (store : Store) (name : String) : (store.read name).1 = store.value name := by
  unfold read value
  cases store.get? name <;> rfl

/-- **Reading changes no value.** -/
theorem value_read (store : Store) (name other : String) :
    (store.read name).2.value other = store.value other := by
  unfold read
  cases hname : store.get? name with
  | some v => rfl
  | none =>
    rw [value_set]
    by_cases h : other = name
    · rw [if_pos h, h]; unfold value; rw [hname]; rfl
    · rw [if_neg h]

theorem get?_read (store : Store) (name other : String) : (store.read name).2.get? other =
    if other = name then some (store.value name) else store.get? other := by
  unfold read value
  cases hname : store.get? name with
  | some v =>
    by_cases h : other = name
    · rw [if_pos h, h]; exact hname
    · rw [if_neg h]
  | none => exact get?_set store name other 0

theorem contains_set (store : Store) (name other : String) (v : Int32) :
    (store.set name v).contains other = true ↔ other = name ∨ store.contains other = true := by
  unfold contains
  rw [get?_set]
  by_cases h : other = name
  · rw [if_pos h]; simp [h]
  · rw [if_neg h]; simp [h]

/-- **Reading adds the name that is read**, and no other one. -/
theorem contains_read (store : Store) (name other : String) :
    (store.read name).2.contains other = true ↔ other = name ∨ store.contains other = true := by
  unfold read
  cases hname : store.get? name with
  | none => exact contains_set store name other 0
  | some v =>
    constructor
    · exact .inr
    · rintro (rfl | h)
      · show (store.get? other).isSome = true
        rw [hname]; rfl
      · exact h

theorem get?_of_contains {store : Store} {name : String} (h : store.contains name = true) :
    store.get? name = some (store.value name) := by
  obtain ⟨v, hv⟩ := Option.isSome_iff_exists.1 h
  unfold value
  rw [hv]; rfl

theorem value_of_not_contains {store : Store} {name : String} (h : store.contains name = false) :
    store.value name = 0 := by
  have hnone : store.get? name = none := by simpa [contains] using h
  unfold value
  rw [hnone]; rfl

theorem nodup_names (store : Store) : (store.entries.map Prod.fst).Nodup := by
  refine List.Pairwise.map Prod.fst (fun a b hlt heq => ?_) store.sorted
  rw [heq] at hlt
  exact String.lt_irrefl _ hlt

theorem eq_of_perm {store other : Store} (h : store.entries.Perm other.entries) :
    store = other := by
  obtain ⟨entries, hsorted⟩ := store
  obtain ⟨entries', hsorted'⟩ := other
  have heq : entries = entries' := by
    refine h.eq_of_pairwise (fun a b _ _ hab hba => ?_) hsorted hsorted'
    exact absurd (String.lt_trans hab hba) (String.lt_irrefl _)
  subst heq
  rfl

/-- The entries are the names with the values they have. -/
theorem mem_entries_iff (store : Store) (name : String) (v : Int32) :
    (name, v) ∈ store.entries ↔ store.get? name = some v := by
  unfold get?
  rw [List.lookup_eq_some_iff]
  constructor
  · intro h
    obtain ⟨before, after, heq⟩ := List.append_of_mem h
    refine ⟨before, after, heq, fun p hp => ?_⟩
    -- the names before are smaller
    have hsorted := store.sorted
    rw [heq, List.pairwise_append] at hsorted
    have hlt : p.1 < name := hsorted.2.2 p hp _ List.mem_cons_self
    rw [bne_iff_ne]
    rintro rfl
    exact String.lt_irrefl _ hlt
  · rintro ⟨before, after, heq, -⟩
    rw [heq]; simp

/-- **A store is determined by the values it gives.** -/
theorem ext_get? {store other : Store} (h : ∀ name, store.get? name = other.get? name) :
    store = other := by
  have hnodup : ∀ store : Store, store.entries.Nodup := fun store =>
    List.Pairwise.of_map Prod.fst (fun _ _ hne heq => hne (congrArg Prod.fst heq)) store.nodup_names
  refine eq_of_perm ((List.perm_ext_iff_of_nodup (hnodup store) (hnodup other)).2 ?_)
  rintro ⟨name, v⟩
  rw [mem_entries_iff, mem_entries_iff, h name]

/-- **The store after assignments**, made one after the other. -/
def replay (store : Store) (assignments : List (String × Int32)) : Store :=
  assignments.foldl (fun store a => store.set a.1 a.2) store

theorem replay_append (store : Store) (earlier later : List (String × Int32)) :
    store.replay (earlier ++ later) = (store.replay earlier).replay later :=
  List.foldl_append

end RobotScript.Store
