import RobotScript.Grammar.Reader
import RobotScript.Proofs.Bind

/-!
# What readers do

A language relates token lists to what they stand for. Two properties of readers pass
through `>>=`, so a production has them if its parts do.

* `Reads`: what a reader takes before it succeeds is in its language, and what it takes
  before it fails begins a list of the language.
* `Within`: what a reader does is settled by the tokens it takes and the next one, and
  a second reader does the same unless the first finds the nesting too deep.
* `sequence_item`: the bound in `sequence` is never met by items that take tokens.
-/

namespace RobotScript

/-- Which token lists stand for which values. -/
abbrev Lang (α : Type) := List Token → α → Prop

namespace Lang

variable {α β : Type}

/-- One token of the given kind. -/
def sign (kind : Kind) : Lang Token := fun ts t => ts = [t] ∧ t.kind = kind

/-- No token at all. -/
def unit (a : α) : Lang α := fun ts b => ts = [] ∧ b = a

/-- A list of the first language, then one of the second, which may depend on the first. -/
def seq (D : Lang α) (E : α → Lang β) : Lang β :=
  fun ts b => ∃ us a vs, ts = us ++ vs ∧ D us a ∧ E a vs b

/-- Any number of lists of a language, one after the other. -/
inductive Many (D : Lang α) : Lang (List α)
  | nil : Many D [] []
  | cons {us vs : List Token} {a : α} {as : List α} (head : D us a) (tail : Many D vs as) :
      Many D (us ++ vs) (a :: as)

/-- **A token list is viable** if it begins a list of the language. -/
def Viable (D : Lang α) (ts : List Token) : Prop := ∃ us a, D (ts ++ us) a

theorem seq_sign {kind : Kind} {E : Token → Lang β} {ts : List Token} {b : β} :
    seq (sign kind) E ts b ↔ ∃ t us, ts = t :: us ∧ t.kind = kind ∧ E t us b := by
  constructor
  · rintro ⟨_, t, us, rfl, ⟨rfl, hk⟩, hE⟩
    exact ⟨t, us, rfl, hk, hE⟩
  · rintro ⟨t, us, rfl, hk, hE⟩
    exact ⟨[t], t, us, rfl, ⟨rfl, hk⟩, hE⟩

theorem Viable.of_append {D : Lang α} {us vs : List Token} (h : Viable D (us ++ vs)) :
    Viable D us := by
  obtain ⟨ws, a, h⟩ := h
  exact ⟨vs ++ ws, a, by rwa [← List.append_assoc]⟩

theorem Viable.of_mem {D : Lang α} {ts : List Token} {a : α} (h : D ts a) : Viable D ts :=
  ⟨[], a, by rwa [List.append_nil]⟩

theorem Viable.mono {D E : Lang α} (hDE : ∀ ts a, D ts a → E ts a) {ts : List Token}
    (h : Viable D ts) : Viable E ts := by
  obtain ⟨us, a, h⟩ := h
  exact ⟨us, a, hDE _ _ h⟩

/-- A viable list of the second language may follow any list of the first. -/
theorem Viable.seq_right {D : Lang α} {E : α → Lang β} {us vs : List Token} {a : α}
    (hD : D us a) (hE : Viable (E a) vs) : Viable (seq D E) (us ++ vs) := by
  obtain ⟨ws, b, hE⟩ := hE
  exact ⟨ws, b, us, a, vs ++ ws, by rw [List.append_assoc], hD, hE⟩

/-- A viable list of the first language stays viable if something can always follow. -/
theorem Viable.seq_left {D : Lang α} {E : α → Lang β} {us : List Token} (hD : Viable D us)
    (hE : ∀ ts a, D ts a → Viable (E a) []) : Viable (seq D E) us := by
  obtain ⟨vs, a, hD⟩ := hD
  obtain ⟨ws, b, hE⟩ := hE _ _ hD
  exact ⟨vs ++ ws, b, us ++ vs, a, ws, by rw [List.append_assoc], hD, by simpa using hE⟩

theorem Many.append {D : Lang α} {ts us : List Token} {as bs : List α} (h : Many D ts as)
    (h' : Many D us bs) : Many D (ts ++ us) (as ++ bs) := by
  induction h with
  | nil => exact h'
  | cons head _ ih => rw [List.append_assoc]; exact .cons head ih

/-- Some of the tokens are a list of the language. -/
def Among (D : Lang α) : Lang α := fun ts a => ∃ us, us ⊆ ts ∧ D us a

theorem Among.of_mem {D : Lang α} {ts : List Token} {a : α} (h : D ts a) : Among D ts a :=
  ⟨ts, List.Subset.refl ts, h⟩

theorem Among.mono {D : Lang α} {ts us : List Token} {a : α} (h : Among D ts a) (hsub : ts ⊆ us) :
    Among D us a := by
  obtain ⟨vs, hvs, hD⟩ := h
  exact ⟨vs, List.Subset.trans hvs hsub, hD⟩

theorem Many.of_mem {D : Lang α} {ts : List Token} {as : List α} (h : Many D ts as) :
    ∀ a ∈ as, Among D ts a := by
  induction h with
  | nil => intro a ha; cases ha
  | @cons us vs a as head _ ih =>
    refine List.forall_mem_cons.2 ⟨?_, fun b hb => ?_⟩
    · exact (Among.of_mem head).mono (List.subset_append_left us vs)
    · exact (ih b hb).mono (List.subset_append_right us vs)

end Lang

namespace Reader

variable {α β : Type}

theorem require_cons {kind : Kind} {fault : Fault} {t : Token} {ts : List Token}
    (h : t.kind = kind) : (require kind fault : Reader Token) (t :: ts) = .ok t ts := by
  show (if t.kind = kind then _ else _ : Reader Token) (t :: ts) = _
  rw [if_pos h]; rfl

theorem require_cons_ne {kind : Kind} {fault : Fault} {t : Token} {ts : List Token}
    (h : t.kind ≠ kind) :
    (require kind fault : Reader Token) (t :: ts) = .error fault (t :: ts) := by
  show (if t.kind = kind then _ else _ : Reader Token) (t :: ts) = _
  rw [if_neg h]; rfl

theorem peek_apply (ts : List Token) : (peek : Reader (Option Token)) ts = .ok ts.head? ts := rfl

theorem peekKind_apply (ts : List Token) :
    (peekKind : Reader (Option Kind)) ts = .ok (ts.head?.map Token.kind) ts := rfl

theorem isDone_apply (ts : List Token) : (isDone : Reader Bool) ts = .ok ts.isEmpty ts := by
  cases ts <;> rfl

/-- A list does not keep count of the open levels. -/
theorem nested_eq (x : Reader α) : nested x = x := rfl

theorem peekKind_cons {kind : Kind} {t : Token} (h : t.kind = kind) (f : Option Kind → Reader β)
    (ts : List Token) : (peekKind >>= f) (t :: ts) = f (some kind) (t :: ts) := by
  rw [← h]; rfl

/-- The next token, if there is one, is not of the given kind. -/
def NotNext (kind : Kind) (ts : List Token) : Prop := ts.head?.map Token.kind ≠ some kind

theorem notNext_cons {kind : Kind} {t : Token} {ts : List Token} (h : t.kind ≠ kind) :
    NotNext kind (t :: ts) := by
  simpa [NotNext] using h

theorem isNext_cons {kind : Kind} {t : Token} {ts : List Token} (h : t.kind = kind) :
    (isNext kind : Reader Bool) (t :: ts) = .ok true (t :: ts) := by
  show EStateM.Result.ok (some t.kind == some kind) (t :: ts) = _
  simp [h]

theorem isNext_of_notNext {kind : Kind} {ts : List Token} (h : NotNext kind ts) :
    (isNext kind : Reader Bool) ts = .ok false ts := by
  show EStateM.Result.ok (ts.head?.map Token.kind == some kind) ts = _
  unfold NotNext at h
  simpa using h

theorem skip_bind (f : Unit → Reader β) (t : Token) (ts : List Token) :
    (skip >>= f) (t :: ts) = f () ts := rfl

/-- What `x` takes from `ts` is in the language, or begins a list of it if `x` fails. -/
structure ReadsAt (D : Lang α) (x : Reader α) (ts : List Token) : Prop where
  ok : ∀ a rest, x ts = .ok a rest → ∃ us, ts = us ++ rest ∧ D us a
  error : ∀ fault rest, x ts = .error fault rest → ∃ us, ts = us ++ rest ∧ D.Viable us

/-- **A reader reads a language** if it does so from every token list. -/
def Reads (D : Lang α) (x : Reader α) : Prop := ∀ ts, ReadsAt D x ts

theorem ReadsAt.mono {D E : Lang α} (hDE : ∀ us a, D us a → E us a) {x : Reader α}
    {ts : List Token} (h : ReadsAt D x ts) : ReadsAt E x ts where
  ok a rest hx := by
    obtain ⟨us, hts, hD⟩ := h.ok a rest hx
    exact ⟨us, hts, hDE us a hD⟩
  error fault rest hx := by
    obtain ⟨us, hts, hD⟩ := h.error fault rest hx
    exact ⟨us, hts, hD.mono hDE⟩

theorem Reads.mono {D E : Lang α} (hDE : ∀ us a, D us a → E us a) {x : Reader α}
    (h : Reads D x) : Reads E x := fun ts => (h ts).mono hDE

/-- The empty list is viable: it is what a reader takes from no tokens. -/
theorem Reads.viable_nil {D : Lang α} {x : Reader α} (h : Reads D x) : D.Viable [] := by
  cases hx : x [] with
  | ok a rest =>
    obtain ⟨us, hts, hD⟩ := (h []).ok a rest hx
    obtain ⟨rfl, -⟩ := List.append_eq_nil_iff.1 hts.symm
    exact .of_mem hD
  | error fault rest =>
    obtain ⟨us, hts, hD⟩ := (h []).error fault rest hx
    obtain ⟨rfl, -⟩ := List.append_eq_nil_iff.1 hts.symm
    exact hD

theorem ReadsAt.bind {D : Lang α} {E : α → Lang β} {x : Reader α} {f : α → Reader β}
    {ts : List Token} (hx : ReadsAt D x ts) (hf : ∀ us a, D us a → Reads (E a) (f a)) :
    ReadsAt (D.seq E) (x >>= f) ts := by
  cases h : x ts with
  | ok a rest =>
    obtain ⟨us, rfl, hD⟩ := hx.ok a rest h
    have hfa := hf us a hD rest
    constructor
    · intro b rest' hb
      rw [bind_eq_of_ok h] at hb
      obtain ⟨vs, rfl, hE⟩ := hfa.ok b rest' hb
      exact ⟨us ++ vs, by rw [List.append_assoc], us, a, vs, rfl, hD, hE⟩
    · intro fault rest' hb
      rw [bind_eq_of_ok h] at hb
      obtain ⟨vs, rfl, hE⟩ := hfa.error fault rest' hb
      exact ⟨us ++ vs, by rw [List.append_assoc], hE.seq_right hD⟩
  | error fault rest =>
    obtain ⟨us, hts, hD⟩ := hx.error fault rest h
    constructor
    · intro b rest' hb
      rw [bind_eq_of_error h] at hb; cases hb
    · intro fault' rest' hb
      rw [bind_eq_of_error h] at hb; cases hb
      -- a list of the first language could be completed, and a second one begun after it
      exact ⟨us, hts, hD.seq_left fun us a hD => (hf us a hD).viable_nil⟩

theorem Reads.bind {D : Lang α} {E : α → Lang β} {x : Reader α} {f : α → Reader β}
    (hx : Reads D x) (hf : ∀ us a, D us a → Reads (E a) (f a)) : Reads (D.seq E) (x >>= f) :=
  fun ts => (hx ts).bind hf

theorem reads_pure (a : α) : Reads (.unit a) (pure a) := by
  intro ts
  constructor
  · intro b rest h; cases h; exact ⟨[], rfl, rfl, rfl⟩
  · intro fault rest h; cases h

theorem readsAt_throw {D : Lang α} (hD : D.Viable []) (fault : Fault) (ts : List Token) :
    ReadsAt D (throw fault) ts := by
  constructor
  · intro a rest h; cases h
  · intro fault rest h; cases h; exact ⟨[], rfl, hD⟩

theorem reads_require (kind : Kind) (fault : Fault) : Reads (.sign kind) (require kind fault) := by
  -- before the token is there, any token of the kind would have been right
  have hstop : (Lang.sign kind).Viable [] := ⟨[⟨kind, ""⟩], ⟨kind, ""⟩, rfl, rfl⟩
  intro ts
  cases ts with
  | nil =>
    constructor
    · intro a rest h; cases h
    · intro fault rest h; cases h; exact ⟨[], rfl, hstop⟩
  | cons t ts =>
    by_cases hk : t.kind = kind
    · constructor <;> intro _ _ h <;> rw [require_cons hk] at h <;> cases h
      exact ⟨[t], rfl, rfl, hk⟩
    · constructor <;> intro _ _ h <;> rw [require_cons_ne hk] at h <;> cases h
      exact ⟨[], rfl, hstop⟩

theorem ReadsAt.peek {D : Lang α} {f : Option Kind → Reader α} {ts : List Token}
    (h : ReadsAt D (f (ts.head?.map Token.kind)) ts) : ReadsAt D (peekKind >>= f) ts :=
  ⟨h.ok, h.error⟩

theorem ReadsAt.next {D : Lang α} {kind : Kind} {f : Bool → Reader α} {ts : List Token}
    (h : ReadsAt D (f (ts.head?.map Token.kind == some kind)) ts) :
    ReadsAt D (isNext kind >>= f) ts :=
  ⟨h.ok, h.error⟩

/-- Taking the next token without a look at it leaves the rest to be read. -/
theorem ReadsAt.skip {D E : Lang α} {x : Reader α} {t : Token} {ts : List Token}
    (hED : ∀ us a, E us a → D (t :: us) a) (h : ReadsAt E x ts) :
    ReadsAt D (do Reader.skip; x) (t :: ts) := by
  constructor
  · intro a rest hx
    obtain ⟨us, rfl, hE⟩ := h.ok a rest hx
    exact ⟨t :: us, rfl, hED us a hE⟩
  · intro fault rest hx
    obtain ⟨us, rfl, vs, a, hE⟩ := h.error fault rest hx
    exact ⟨t :: us, rfl, vs, a, hED _ a hE⟩

/-- Whatever is read has the property. -/
def Yields (P : α → Prop) (x : Reader α) : Prop := ∀ ts a rest, x ts = .ok a rest → P a

theorem Yields.any (x : Reader α) : Yields (fun _ => True) x := fun _ _ _ _ => trivial

theorem Yields.pure {P : α → Prop} {a : α} (h : P a) : Yields P (pure a) := by
  intro ts b rest hb; cases hb; exact h

theorem Yields.throw {P : α → Prop} (fault : Fault) : Yields P (throw fault) := by
  intro ts b rest hb; cases hb

theorem Yields.bind {P : α → Prop} {Q : β → Prop} {x : Reader α} {f : α → Reader β}
    (hx : Yields P x) (hf : ∀ a, P a → Yields Q (f a)) : Yields Q (x >>= f) := by
  intro ts b rest h
  obtain ⟨a, us, ha, hb⟩ := bind_ok h
  exact hf a (hx ts a us ha) us b rest hb

theorem Yields.upTo {P : α → Prop} {done : Reader Bool} {item : Reader α} (h : Yields P item) :
    ∀ n, Yields (fun as => ∀ a ∈ as, P a) (upTo done item n) := by
  intro n
  induction n with
  | zero => exact .pure fun a ha => absurd ha List.not_mem_nil
  | succ n ih =>
    refine .bind (.any _) fun b _ => ?_
    cases b with
    | true => exact .pure fun a ha => absurd ha List.not_mem_nil
    | false => exact .bind h fun a ha => .bind ih fun as has => .pure (List.forall_mem_cons.2 ⟨ha, has⟩)

theorem Yields.sequence {P : α → Prop} {done : Reader Bool} {item : Reader α} (h : Yields P item) :
    Yields (fun as => ∀ a ∈ as, P a) (sequence done item) :=
  fun ts => Yields.upTo h (ts.length + 1) ts

/-- What `x` does on `ts` is settled by the tokens it takes and the one after them, and
`y` does the same; nothing is said if `x` finds the nesting too deep. -/
structure WithinAt (x y : Reader α) (ts : List Token) : Prop where
  ok : ∀ a rest, x ts = .ok a rest →
    ∃ us, ts = us ++ rest ∧ ∀ vs, vs.head? = rest.head? → y (us ++ vs) = .ok a vs
  error : ∀ fault rest, x ts = .error fault rest → fault ≠ .tooDeep →
    ∃ us, ts = us ++ rest ∧ ∀ vs, vs.head? = rest.head? → y (us ++ vs) = .error fault vs

/-- **A reader stays within another** if it does so on every token list. -/
def Within (x y : Reader α) : Prop := ∀ ts, WithinAt x y ts

theorem head?_append_congr {us vs ws : List Token} (h : vs.head? = ws.head?) :
    (us ++ vs).head? = (us ++ ws).head? := by
  cases us with
  | nil => exact h
  | cons u us => rfl

theorem WithinAt.bind {x y : Reader α} {f g : α → Reader β} {ts : List Token}
    (hx : WithinAt x y ts) (hf : ∀ a rest, x ts = .ok a rest → WithinAt (f a) (g a) rest) :
    WithinAt (x >>= f) (y >>= g) ts := by
  cases h : x ts with
  | ok a rest =>
    obtain ⟨us, rfl, hy⟩ := hx.ok a rest h
    have hfa := hf a rest h
    constructor
    · intro b rest' hb
      rw [bind_eq_of_ok h] at hb
      obtain ⟨vs, rfl, hg⟩ := hfa.ok b rest' hb
      refine ⟨us ++ vs, by rw [List.append_assoc], fun ws hws => ?_⟩
      rw [List.append_assoc, bind_eq_of_ok (hy _ (head?_append_congr hws))]
      exact hg ws hws
    · intro fault rest' hb hdeep
      rw [bind_eq_of_ok h] at hb
      obtain ⟨vs, rfl, hg⟩ := hfa.error fault rest' hb hdeep
      refine ⟨us ++ vs, by rw [List.append_assoc], fun ws hws => ?_⟩
      rw [List.append_assoc, bind_eq_of_ok (hy _ (head?_append_congr hws))]
      exact hg ws hws
  | error fault rest =>
    constructor
    · intro b rest' hb
      rw [bind_eq_of_error h] at hb; cases hb
    · intro fault' rest' hb hdeep
      rw [bind_eq_of_error h] at hb; cases hb
      obtain ⟨us, hts, hy⟩ := hx.error fault rest h hdeep
      exact ⟨us, hts, fun vs hvs => bind_eq_of_error (hy vs hvs)⟩

theorem Within.bind {x y : Reader α} {f g : α → Reader β} (hx : Within x y)
    (hf : ∀ a, Within (f a) (g a)) : Within (x >>= f) (y >>= g) :=
  fun ts => (hx ts).bind fun a rest _ => hf a rest

theorem within_pure (a : α) : Within (pure a : Reader α) (pure a) := by
  intro ts
  constructor
  · intro b rest h; cases h; exact ⟨[], rfl, fun vs _ => rfl⟩
  · intro fault rest h; cases h

theorem within_throw (fault : Fault) : Within (throw fault : Reader α) (throw fault) := by
  intro ts
  constructor
  · intro b rest h; cases h
  · intro fault rest h _; cases h; exact ⟨[], rfl, fun vs _ => rfl⟩

theorem within_tooDeep (y : Reader α) : Within (throw .tooDeep) y := by
  intro ts
  constructor
  · intro b rest h; cases h
  · intro fault rest h hdeep; cases h; exact absurd rfl hdeep

theorem within_peekKind : Within peekKind peekKind := by
  intro ts
  constructor
  · intro b rest h; cases h
    refine ⟨[], rfl, fun vs hvs => ?_⟩
    rw [List.nil_append, peekKind_apply, hvs]
  · intro fault rest h; cases h

theorem within_isNext (kind : Kind) : Within (isNext kind) (isNext kind) :=
  within_peekKind.bind fun _ => within_pure _

theorem within_isDone : Within isDone isDone := by
  intro ts
  constructor
  · intro b rest h; cases h
    refine ⟨[], rfl, fun vs hvs => ?_⟩
    rw [List.nil_append, isDone_apply]
    cases vs <;> cases ts <;> simp_all
  · intro fault rest h; cases h

theorem within_skip : Within skip skip := by
  intro ts
  constructor
  · intro b rest h; cases h
    cases ts with
    | nil =>
      refine ⟨[], rfl, fun vs hvs => ?_⟩
      cases vs with
      | nil => rfl
      | cons v vs => cases hvs
    | cons t ts => exact ⟨[t], rfl, fun vs _ => rfl⟩
  · intro fault rest h; cases h

theorem within_require (kind : Kind) (fault : Fault) :
    Within (require kind fault) (require kind fault) := by
  intro ts
  cases ts with
  | nil =>
    constructor
    · intro b rest h; cases h
    · intro fault rest h _; cases h
      refine ⟨[], rfl, fun vs hvs => ?_⟩
      cases vs with
      | nil => rfl
      | cons v vs => cases hvs
  | cons t ts =>
    by_cases hk : t.kind = kind
    · constructor <;> intro _ _ h <;> rw [require_cons hk] at h <;> cases h
      exact ⟨[t], rfl, fun vs _ => require_cons hk⟩
    · constructor <;> intro _ _ h <;> rw [require_cons_ne hk] at h <;> cases h
      refine fun _ => ⟨[], rfl, fun vs hvs => ?_⟩
      cases vs with
      | nil => cases hvs
      | cons v vs => cases hvs; exact require_cons_ne hk

/-- A test that takes nothing. -/
def Peeks (done : Reader Bool) : Prop := ∀ ts, ∃ b, done ts = .ok b ts

/-- Success takes at least one token. -/
def Shortens (x : Reader α) : Prop := ∀ ts a rest, x ts = .ok a rest → rest.length < ts.length

theorem Reads.shortens {D : Lang α} (hD : ∀ a, ¬ D [] a) {x : Reader α} (h : Reads D x) :
    Shortens x := by
  intro ts a rest hx
  obtain ⟨us, rfl, hus⟩ := (h ts).ok a rest hx
  cases us with
  | nil => exact absurd hus (hD a)
  | cons u us => simp only [List.cons_append, List.length_cons, List.length_append]; omega

section

variable {done : Reader Bool} {item : Reader α} {ts : List Token}

theorem upTo_done {n : Nat} (h : done ts = .ok true ts) : upTo done item (n + 1) ts = .ok [] ts := by
  unfold upTo
  rw [bind_eq_of_ok h]; rfl

theorem upTo_item {n : Nat} (h : done ts = .ok false ts) :
    upTo done item (n + 1) ts =
      (do let first ← item; let rest ← upTo done item n; return first :: rest) ts := by
  rw [upTo, bind_eq_of_ok h]; rfl

/-- More tries than there are tokens are as good as any number of them. -/
theorem upTo_bound (hdone : Peeks done) (hitem : Shortens item) : ∀ n m ts, ts.length < n →
    ts.length < m → upTo done item n ts = upTo done item m ts := by
  intro n
  induction n with
  | zero => intro m ts hn; omega
  | succ n ih =>
    intro m ts hn hm
    obtain ⟨m, rfl⟩ : ∃ m', m = m' + 1 := ⟨m - 1, by omega⟩
    obtain ⟨b, hb⟩ := hdone ts
    cases b with
    | true => rw [upTo_done hb, upTo_done hb]
    | false =>
      rw [upTo_item hb, upTo_item hb]
      cases hx : item ts with
      | ok a rest =>
        -- the item has taken a token, so one try fewer is enough for the rest
        have hlt := hitem ts a rest hx
        have heq := ih m rest (by omega) (by omega)
        rw [bind_eq_of_ok hx, bind_eq_of_ok hx]
        cases hr : upTo done item n rest with
        | ok as rest' => rw [bind_eq_of_ok hr, bind_eq_of_ok (heq ▸ hr)]
        | error fault rest' => rw [bind_eq_of_error hr, bind_eq_of_error (heq ▸ hr)]
      | error fault rest => rw [bind_eq_of_error hx, bind_eq_of_error hx]

theorem sequence_done (h : done ts = .ok true ts) : sequence done item ts = .ok [] ts :=
  upTo_done h

/-- **A sequence is an item and the sequence after it**, if items take tokens. -/
theorem sequence_item (hdone : Peeks done) (hitem : Shortens item) (h : done ts = .ok false ts) :
    sequence done item ts =
      (do let first ← item; let rest ← sequence done item; return first :: rest) ts := by
  show upTo done item (ts.length + 1) ts = _
  rw [upTo_item h]
  cases hx : item ts with
  | ok a rest =>
    have hlt := hitem ts a rest hx
    have heq : upTo done item ts.length rest = sequence done item rest :=
      upTo_bound hdone hitem ts.length (rest.length + 1) rest hlt (by omega)
    rw [bind_eq_of_ok hx, bind_eq_of_ok hx]
    cases hr : upTo done item ts.length rest with
    | ok as rest' => rw [bind_eq_of_ok hr, bind_eq_of_ok (heq ▸ hr)]
    | error fault rest' => rw [bind_eq_of_error hr, bind_eq_of_error (heq ▸ hr)]
  | error fault rest => rw [bind_eq_of_error hx, bind_eq_of_error hx]

/-- A sequence ends only where its test holds. -/
theorem sequence_ok (hdone : Peeks done) (hitem : Shortens item) {as : List α} {rest : List Token}
    (h : sequence done item ts = .ok as rest) : done rest = .ok true rest := by
  induction as generalizing ts with
  | nil =>
    obtain ⟨b, hb⟩ := hdone ts
    cases b with
    | true => rw [sequence_done hb] at h; cases h; exact hb
    | false =>
      rw [sequence_item hdone hitem hb] at h
      obtain ⟨a, us, -, h⟩ := bind_ok h
      obtain ⟨as', vs, -, h⟩ := bind_ok h
      cases h
  | cons a as ih =>
    obtain ⟨b, hb⟩ := hdone ts
    cases b with
    | true => rw [sequence_done hb] at h; cases h
    | false =>
      rw [sequence_item hdone hitem hb] at h
      obtain ⟨a, us, -, h⟩ := bind_ok h
      obtain ⟨as', vs, has, h⟩ := bind_ok h
      cases h
      exact ih has

theorem reads_upTo {D : Lang α} (hdone : Peeks done) (hitem : Reads D item) :
    ∀ n, Reads (Lang.Many D) (upTo done item n) := by
  intro n
  induction n with
  | zero =>
    refine (reads_pure []).mono ?_
    rintro _ _ ⟨rfl, rfl⟩; exact .nil
  | succ n ih =>
    intro ts
    obtain ⟨b, hb⟩ := hdone ts
    cases b with
    | true =>
      constructor <;> intro _ _ h <;> rw [upTo_done hb] at h <;> cases h
      exact ⟨[], rfl, .nil⟩
    | false =>
      have h : ReadsAt (Lang.Many D)
          (do let first ← item; let rest ← upTo done item n; return first :: rest) ts := by
        refine (hitem.bind fun _ a _ => ih.bind fun _ as _ => reads_pure (a :: as)) ts |>.mono ?_
        rintro _ _ ⟨us, a, _, rfl, ha, vs, as, _, rfl, has, rfl, rfl⟩
        rw [List.append_nil]; exact .cons ha has
      constructor <;> intro _ _ hx <;> rw [upTo_item hb] at hx
      · exact h.ok _ _ hx
      · exact h.error _ _ hx

theorem reads_sequence {D : Lang α} (hdone : Peeks done) (hitem : Reads D item) :
    Reads (Lang.Many D) (sequence done item) := fun ts => by
  have h := reads_upTo hdone hitem (ts.length + 1) ts
  exact ⟨h.ok, h.error⟩

/-- **A sequence takes all items of a list**, if each item is taken whole in front of
anything that may follow it (`F`), and items follow each other. -/
theorem sequence_complete {D : Lang α} {P : α → Prop} {F : List Token → Prop}
    (hdone : Peeks done) (hshort : Shortens item)
    (hitem : ∀ us a rest, D us a → P a → F rest → item (us ++ rest) = .ok a rest)
    (hnext : ∀ us a rest, D us a → F (us ++ rest) ∧ done (us ++ rest) = .ok false (us ++ rest))
    {as : List α} (h : Lang.Many D ts as) (hP : ∀ a ∈ as, P a) {rest : List Token} (hF : F rest)
    (hend : done rest = .ok true rest) : sequence done item (ts ++ rest) = .ok as rest := by
  induction h with
  | nil => exact sequence_done hend
  | @cons us vs a as head tail ih =>
    have hP := List.forall_mem_cons.1 hP
    have hfollow : F (vs ++ rest) := by
      cases tail with
      | nil => exact hF
      | cons head' _ => rw [List.append_assoc]; exact (hnext _ _ _ head').1
    rw [List.append_assoc, sequence_item hdone hshort (hnext us a _ head).2,
      bind_eq_of_ok (hitem us a _ head hP.1 hfollow), bind_eq_of_ok (ih hP.2)]
    rfl

theorem within_sequence {item' : Reader α} (hdone : Peeks done) (hd : Within done done)
    (hitem : Shortens item) (hitem' : Shortens item') (h : Within item item') :
    Within (sequence done item) (sequence done item') := by
  -- induction on the number of tokens left: each item leaves fewer
  have key : ∀ n ts, ts.length < n → WithinAt (sequence done item) (sequence done item') ts := by
    intro n
    induction n with
    | zero => intro ts hn; omega
    | succ n ih =>
      intro ts hn
      obtain ⟨b, hb⟩ := hdone ts
      -- the test looks at the next token only, which the change of the rest leaves alone
      have hlook : ∀ us rest vs, ts = us ++ rest → vs.head? = rest.head? →
          done (us ++ vs) = .ok b (us ++ vs) := by
        intro us rest vs hts hvs
        obtain ⟨us', hts', hdv⟩ := (hd ts).ok b ts hb
        obtain rfl : us' = [] := by
          have := congrArg List.length hts'; rw [List.length_append] at this
          exact List.length_eq_zero_iff.1 (by omega)
        exact hdv (us ++ vs) (by rw [hts]; exact head?_append_congr hvs)
      cases b with
      | true =>
        constructor <;> intro _ _ hx <;> rw [sequence_done hb] at hx <;> cases hx
        exact ⟨[], rfl, fun vs hvs => sequence_done (hlook [] ts vs rfl hvs)⟩
      | false =>
        have hstep : WithinAt
            (do let first ← item; let rest ← sequence done item; return first :: rest)
            (do let first ← item'; let rest ← sequence done item'; return first :: rest) ts := by
          refine (h ts).bind fun a rest ha => ?_
          have hlt := hitem ts a rest ha
          exact (ih rest (by omega)).bind fun as rest' _ => within_pure _ rest'
        constructor
        · intro as rest hx
          rw [sequence_item hdone hitem hb] at hx
          obtain ⟨us, hts, hy⟩ := hstep.ok as rest hx
          refine ⟨us, hts, fun vs hvs => ?_⟩
          rw [sequence_item hdone hitem' (hlook us rest vs hts hvs)]
          exact hy vs hvs
        · intro fault rest hx hdeep
          rw [sequence_item hdone hitem hb] at hx
          obtain ⟨us, hts, hy⟩ := hstep.error fault rest hx hdeep
          refine ⟨us, hts, fun vs hvs => ?_⟩
          rw [sequence_item hdone hitem' (hlook us rest vs hts hvs)]
          exact hy vs hvs
  exact fun ts => key (ts.length + 1) ts (by omega)

end

section

variable {D : Lang α} {x y : Reader α} {noOpen noComma noClose : Fault} (g : α → α → β)

/-- Two arguments in parentheses, put together by `g`. -/
def pair {m : Type → Type} [Monad m] [MonadExceptOf Fault m] [TokenSource m] (x : m α)
    (noOpen noComma noClose : Fault) (g : α → α → β) : m β := do
  let _ ← require .leftParen noOpen
  let first ← x
  let _ ← require .comma noComma
  let second ← x
  let _ ← require .rightParen noClose
  return g first second

theorem reads_pair (hx : Reads D x) :
    Reads (fun ts b => ∃ l c r us vs a₁ a₂, ts = l :: (us ++ c :: (vs ++ [r])) ∧
      l.kind = .leftParen ∧ c.kind = .comma ∧ r.kind = .rightParen ∧ D us a₁ ∧ D vs a₂ ∧
      b = g a₁ a₂) (pair x noOpen noComma noClose g) := by
  refine ((reads_require _ _).bind fun _ _ _ => hx.bind fun _ a₁ _ =>
    (reads_require _ _).bind fun _ _ _ => hx.bind fun _ a₂ _ =>
    (reads_require _ _).bind fun _ _ _ => reads_pure (g a₁ a₂)).mono ?_
  intro ts b hts
  obtain ⟨l, us, rfl, hl, us, a₁, vs, rfl, h₁, hts⟩ := Lang.seq_sign.1 hts
  obtain ⟨c, vs, rfl, hc, vs, a₂, ws, rfl, h₂, hts⟩ := Lang.seq_sign.1 hts
  obtain ⟨r, ws, rfl, hr, rfl, rfl⟩ := Lang.seq_sign.1 hts
  exact ⟨l, c, r, us, vs, a₁, a₂, rfl, hl, hc, hr, h₁, h₂, rfl⟩

theorem within_pair (hx : Within x y) :
    Within (pair x noOpen noComma noClose g) (pair y noOpen noComma noClose g) :=
  (within_require _ _).bind fun _ => hx.bind fun _ => (within_require _ _).bind fun _ =>
    hx.bind fun _ => (within_require _ _).bind fun _ => within_pure _

theorem pair_eq_ok {l c r : Token} {us vs rest : List Token} {a₁ a₂ : α}
    (hl : l.kind = .leftParen) (hc : c.kind = .comma) (hr : r.kind = .rightParen)
    (h₁ : x (us ++ c :: (vs ++ r :: rest)) = .ok a₁ (c :: (vs ++ r :: rest)))
    (h₂ : x (vs ++ r :: rest) = .ok a₂ (r :: rest)) :
    pair x noOpen noComma noClose g (l :: (us ++ c :: (vs ++ r :: rest))) = .ok (g a₁ a₂) rest := by
  unfold pair
  rw [bind_eq_of_ok (require_cons hl), bind_eq_of_ok h₁, bind_eq_of_ok (require_cons hc),
    bind_eq_of_ok h₂, bind_eq_of_ok (require_cons hr)]
  rfl

theorem yields_pair {P : α → Prop} {Q : β → Prop} (hx : Yields P x)
    (hg : ∀ a₁ a₂, P a₁ → P a₂ → Q (g a₁ a₂)) : Yields Q (pair x noOpen noComma noClose g) :=
  .bind (.any _) fun _ _ => .bind hx fun a₁ h₁ => .bind (.any _) fun _ _ => .bind hx fun a₂ h₂ =>
    .bind (.any _) fun _ _ => .pure (hg a₁ a₂ h₁ h₂)

end

end Reader

end RobotScript
