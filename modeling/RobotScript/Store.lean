/-!
# Variable stores

A store gives 32-bit integers to names. Its entries are kept in ascending order of
their names, each name once, so a store is determined by the values it gives.

* `Store.get?` is the value of a name, if it has one.
* `Store.read` gives an unknown name the value zero; that is the only way in which
  reading changes a store.
-/

namespace RobotScript

/-- Variables with their values, in ascending order of their names. -/
structure Store where
  entries : List (String × Int32)
  sorted : entries.Pairwise fun a b => a.1 < b.1

namespace Store

/-- Puts an entry in its place, over one of the same name. -/
def insertEntry (name : String) (value : Int32) : List (String × Int32) → List (String × Int32)
  | [] => [(name, value)]
  | (key, old) :: rest =>
    if name < key then (name, value) :: (key, old) :: rest
    else if name = key then (name, value) :: rest
    else (key, old) :: insertEntry name value rest

theorem mem_insertEntry {name : String} {value : Int32} {l : List (String × Int32)}
    {e : String × Int32} (h : e ∈ insertEntry name value l) : e = (name, value) ∨ e ∈ l := by
  induction l with
  | nil => simpa [insertEntry] using h
  | cons head rest ih =>
    obtain ⟨key, old⟩ := head
    simp only [insertEntry] at h
    split at h
    · simpa using h
    · split at h
      · simp only [List.mem_cons] at h ⊢
        exact h.imp_right .inr
      · simp only [List.mem_cons] at h ⊢
        rcases h with h | h
        · exact .inr (.inl h)
        · rcases ih h with h | h
          · exact .inl h
          · exact .inr (.inr h)

theorem insertEntry_sorted (name : String) (value : Int32) {l : List (String × Int32)}
    (h : l.Pairwise fun a b => a.1 < b.1) :
    (insertEntry name value l).Pairwise fun a b => a.1 < b.1 := by
  induction l with
  | nil => simp [insertEntry]
  | cons head rest ih =>
    obtain ⟨key, old⟩ := head
    obtain ⟨hkey, hrest⟩ := List.pairwise_cons.mp h
    simp only [insertEntry]
    split
    · next hlt =>
      refine List.pairwise_cons.mpr ⟨fun e he => ?_, h⟩
      rcases List.mem_cons.mp he with rfl | he
      · exact hlt
      · exact String.lt_trans hlt (hkey e he)
    · next hnlt =>
      split
      · next heq => subst heq; exact List.pairwise_cons.mpr ⟨hkey, hrest⟩
      · next hne =>
        refine List.pairwise_cons.mpr ⟨fun e he => ?_, ih hrest⟩
        rcases mem_insertEntry he with rfl | he
        · exact Std.lt_of_le_of_ne (String.not_lt.mp hnlt) (Ne.symm hne)
        · exact hkey e he

def empty : Store := ⟨[], .nil⟩

def get? (store : Store) (name : String) : Option Int32 := store.entries.lookup name

def set (store : Store) (name : String) (value : Int32) : Store :=
  ⟨insertEntry name value store.entries, insertEntry_sorted name value store.sorted⟩

/-- **The value of a name**, which becomes zero if it had none. -/
def read (store : Store) (name : String) : Int32 × Store :=
  match store.get? name with
  | some value => (value, store)
  | none => (0, store.set name 0)

def contains (store : Store) (name : String) : Bool := (store.get? name).isSome

def size (store : Store) : Nat := store.entries.length

def isEmpty (store : Store) : Bool := store.entries.isEmpty

/-- The variables with their values, in ascending order of their names. -/
def snapshot (store : Store) : List (String × Int32) := store.entries

end Store

end RobotScript
