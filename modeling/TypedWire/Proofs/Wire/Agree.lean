import TypedWire.Proofs.Wire.Reads

/-!
# Two reads of the same bytes

Two reads that see the same bytes and take the same decisions, though they give values of their own.
What the values have in common is told of a third read, which only looks for the parts: what it
finds is what both values are made of. There is a rule for each way in which reads are put together.

- `Aligned`: three lists whose elements are related, position by position.
- `Agreed same bad`: two outcomes with the same unread bytes and results that are related over the
  parts, or with related failures.
- `Read.Agree parts p q same bad`: `p` and `q` have such outcomes for all bytes.
- `Read.AgreeOn p q same`: the same of two reads whose results are related over the bytes.
- `Read.somes`: what a row of reads finds.
-/

namespace TypedWire

variable {ε δ γ α β : Type}

/-! ## Three lists -/

/-- Three lists of one length whose elements are related, position by position. -/
inductive Aligned (same : γ → α → β → Prop) : List γ → List α → List β → Prop
  | nil : Aligned same [] [] []
  | cons {c : γ} {a : α} {b : β} {cs : List γ} {as : List α} {bs : List β} (h : same c a b)
      (rest : Aligned same cs as bs) : Aligned same (c :: cs) (a :: as) (b :: bs)

namespace Aligned

variable {same : γ → α → β → Prop} {cs cs' : List γ} {as as' : List α} {bs bs' : List β}

theorem append (h : Aligned same cs as bs) (h' : Aligned same cs' as' bs') :
    Aligned same (cs ++ cs') (as ++ as') (bs ++ bs') := by
  induction h with
  | nil => exact h'
  | cons h _ ih => exact .cons h ih

theorem of_getElem? (length : as.length = cs.length) (length' : bs.length = cs.length)
    (h : ∀ (i : Nat) c a b, cs[i]? = some c → as[i]? = some a → bs[i]? = some b → same c a b) :
    Aligned same cs as bs := by
  induction cs generalizing as bs with
  | nil =>
    obtain rfl := List.eq_nil_of_length_eq_zero length
    obtain rfl := List.eq_nil_of_length_eq_zero length'
    exact .nil
  | cons c cs ih =>
    obtain ⟨a, as, rfl⟩ := List.exists_cons_of_length_eq_add_one length
    obtain ⟨b, bs, rfl⟩ := List.exists_cons_of_length_eq_add_one length'
    exact .cons (h 0 c a b rfl rfl rfl)
      (ih (Nat.succ.inj length) (Nat.succ.inj length') fun i => h (i + 1))

theorem replicate {c : γ} {a : α} {b : β} (h : same c a b) (n : Nat) :
    Aligned same (List.replicate n c) (List.replicate n a) (List.replicate n b) := by
  induction n with
  | zero => exact .nil
  | succ n ih => exact .cons h ih

theorem length (h : Aligned same cs as bs) : as.length = cs.length ∧ bs.length = cs.length := by
  induction h with
  | nil => exact ⟨rfl, rfl⟩
  | cons _ _ ih => exact ⟨congrArg (· + 1) ih.1, congrArg (· + 1) ih.2⟩

theorem getElem? (h : Aligned same cs as bs) {i : Nat} {c : γ} {a : α} {b : β}
    (hc : cs[i]? = some c) (ha : as[i]? = some a) (hb : bs[i]? = some b) : same c a b := by
  induction h generalizing i with
  | nil => cases hc
  | cons h _ ih =>
    cases i with
    | zero =>
      obtain rfl := Option.some.inj hc
      obtain rfl := Option.some.inj ha
      obtain rfl := Option.some.inj hb
      exact h
    | succ i => exact ih hc ha hb

theorem at_first (h : Aligned same cs as bs) {i : Nat} {c : γ} (hc : cs[i]? = some c) :
    ∃ a b, as[i]? = some a ∧ bs[i]? = some b ∧ same c a b := by
  obtain ⟨hlt, -⟩ := List.getElem?_eq_some_iff.mp hc
  have ha := List.getElem?_eq_getElem (h.length.1 ▸ hlt)
  have hb := List.getElem?_eq_getElem (h.length.2 ▸ hlt)
  exact ⟨_, _, ha, hb, h.getElem? hc ha hb⟩

theorem at_second (h : Aligned same cs as bs) {i : Nat} {a : α} (ha : as[i]? = some a) :
    ∃ c b, cs[i]? = some c ∧ bs[i]? = some b ∧ same c a b := by
  obtain ⟨hlt, -⟩ := List.getElem?_eq_some_iff.mp ha
  have hc := List.getElem?_eq_getElem (h.length.1 ▸ hlt)
  obtain ⟨_, b, ha', hb, hsame⟩ := h.at_first hc
  obtain rfl := Option.some.inj (ha.symm.trans ha')
  exact ⟨_, b, hc, hb, hsame⟩

end Aligned

/-- Two results over a part, or none of them. -/
inductive Found (same : γ → α → β → Prop) : Option γ → Option α → Option β → Prop
  | absent : Found same none none none
  | present {c : γ} {a : α} {b : β} (h : same c a b) : Found same (some c) (some a) (some b)

/-- What is found is a list of at most one. -/
theorem Found.aligned {same : γ → α → β → Prop} {c : Option γ} {a : Option α} {b : Option β}
    (h : Found same c a b) : Aligned same c.toList a.toList b.toList := by
  cases h with
  | absent => exact .nil
  | present h => exact .cons h .nil

/-! ## Outcomes that agree -/

/-- Two outcomes with the same unread bytes and results that are related over the parts, or with
related failures. -/
inductive Agreed (same : γ → α → β → Prop) (bad : ε → ε → Prop) :
    Except ε (γ × Bytes) → Except ε (α × Bytes) → Except ε (β × Bytes) → Prop
  | ok {c : γ} {a : α} {b : β} {left : Bytes} (h : same c a b) :
      Agreed same bad (.ok (c, left)) (.ok (a, left)) (.ok (b, left))
  | error {parts : Except ε (γ × Bytes)} {e e' : ε} (h : bad e e') :
      Agreed same bad parts (.error e) (.error e')

theorem Agreed.cases {same : γ → α → β → Prop} {bad : ε → ε → Prop} {z : Except ε (γ × Bytes)}
    {x : Except ε (α × Bytes)} {y : Except ε (β × Bytes)} (h : Agreed same bad z x y) :
    (∃ c a b left, z = .ok (c, left) ∧ x = .ok (a, left) ∧ y = .ok (b, left) ∧ same c a b) ∨
      ∃ e e', x = .error e ∧ y = .error e' ∧ bad e e' := by
  cases h with
  | ok h => exact .inl ⟨_, _, _, _, rfl, rfl, rfl, h⟩
  | error h => exact .inr ⟨_, _, rfl, rfl, h⟩

namespace Read

/-- The two reads have outcomes that agree over the parts, whatever the bytes. -/
def Agree (parts : Read ε γ) (p : Read ε α) (q : Read ε β) (same : γ → α → β → Prop)
    (bad : ε → ε → Prop) : Prop :=
  ∀ bs, Agreed same bad (parts bs) (p bs) (q bs)

/-- The two reads leave the same bytes and have results that are related over the bytes read from,
or fail with the same failure. -/
def AgreeOn (p : Read ε α) (q : Read ε β) (same : Bytes → α → β → Prop) : Prop :=
  ∀ bs, (∃ a b left, p bs = .ok (a, left) ∧ q bs = .ok (b, left) ∧ same bs a b) ∨
    ∃ e, p bs = .error e ∧ q bs = .error e

/-- What a row of reads finds. -/
def somes : List (Read ε (Option α)) → Read ε (List α)
  | [] => pure []
  | p :: ps => do
    let found ← p
    let others ← somes ps
    return found.toList ++ others

namespace Agree

variable {γ' α' β' : Type} {same : γ → α → β → Prop} {bad : ε → ε → Prop} {r : Read ε γ}
  {p : Read ε α} {q : Read ε β}

/-- A read agrees with itself. -/
theorem refl (p : Read ε α) : Agree p p p (fun c a b => a = c ∧ b = c) Eq := by
  intro bs
  cases p bs with
  | ok found => exact .ok ⟨rfl, rfl⟩
  | error e => exact .error rfl

theorem mono {same' : γ → α → β → Prop} {bad' : ε → ε → Prop} (h : Agree r p q same bad)
    (hsame : ∀ c a b, same c a b → same' c a b) (hbad : ∀ e e', bad e e' → bad' e e') :
    Agree r p q same' bad' := by
  intro bs
  rcases (h bs).cases with ⟨c, a, b, left, hc, ha, hb, habc⟩ | ⟨e, e', he, he', hee⟩
  · rw [hc, ha, hb]
    exact .ok (hsame c a b habc)
  · rw [he, he']
    exact .error (hbad e e' hee)

theorem pure {c : γ} {a : α} {b : β} (h : same c a b) :
    Agree (pure c : Read ε γ) (pure a : Read ε α) (pure b : Read ε β) same bad :=
  fun _ => .ok h

theorem throw {e e' : ε} (h : bad e e') (r : Read ε γ) :
    Agree r (throw e : Read ε α) (throw e' : Read ε β) same bad :=
  fun _ => .error h

theorem bind {k : γ → Read ε γ'} {f : α → Read ε α'} {g : β → Read ε β'}
    {same' : γ' → α' → β' → Prop} (h : Agree r p q same bad)
    (hf : ∀ c a b, same c a b → Agree (k c) (f a) (g b) same' bad) :
    Agree (r >>= k) (p >>= f) (q >>= g) same' bad := by
  intro bs
  rcases (h bs).cases with ⟨c, a, b, left, hc, ha, hb, habc⟩ | ⟨e, e', he, he', hee⟩
  · rw [bind_of_ok hc, bind_of_ok ha, bind_of_ok hb]
    exact hf c a b habc left
  · rw [bind_of_error he, bind_of_error he']
    exact .error hee

/-- All reads go on after the same read. -/
theorem bind_same {α₀ : Type} {s : Read ε α₀} {k : α₀ → Read ε γ} {f : α₀ → Read ε α}
    {g : α₀ → Read ε β} (hrefl : ∀ e, bad e e) (h : ∀ c, Agree (k c) (f c) (g c) same bad) :
    Agree (s >>= k) (s >>= f) (s >>= g) same bad := by
  refine ((refl s).mono (fun _ _ _ h => h) fun e e' he => he ▸ hrefl e).bind ?_
  rintro c _ _ ⟨rfl, rfl⟩
  exact h _

/-- What would follow a failure does not count. -/
theorem throw_bind {α₀ : Type} {f : α₀ → Read ε α} {g : α₀ → Read ε β} {e e' : ε} (h : bad e e')
    (r : Read ε γ) :
    Agree r (MonadExcept.throw e >>= f) (MonadExcept.throw e' >>= g) same bad :=
  fun _ => .error h

theorem map {k : γ → γ'} {f : α → α'} {g : β → β'} {same' : γ' → α' → β' → Prop}
    (h : Agree r p q same bad) (hf : ∀ c a b, same c a b → same' (k c) (f a) (g b)) :
    Agree (k <$> r) (f <$> p) (g <$> q) same' bad :=
  h.bind fun c a b habc => pure (hf c a b habc)

theorem inside (h : Agree r p q same bad) (bytes : Bytes) :
    Agree (inside bytes r) (inside bytes p) (inside bytes q) same bad := by
  intro bs
  unfold Read.inside
  rcases (h bytes).cases with ⟨c, a, b, left, hc, ha, hb, habc⟩ | ⟨e, e', he, he', hee⟩
  · rw [hc, ha, hb]
    exact .ok habc
  · rw [he, he']
    exact .error hee

theorem times (h : Agree r p q same bad) (n : Nat) :
    Agree (times n r) (times n p) (times n q) (Aligned same) bad := by
  induction n with
  | zero => exact pure .nil
  | succ n ih =>
    exact h.bind fun c a b habc => ih.bind fun cs as bs hrest => pure (.cons habc hrest)

/-- Rows of reads that agree find lists that are related. -/
theorem somes {rs : List (Read ε (Option γ))} {ps : List (Read ε (Option α))}
    {qs : List (Read ε (Option β))}
    (h : Aligned (fun r p q => Agree r p q (Found same) bad) rs ps qs) :
    Agree (somes rs) (somes ps) (somes qs) (Aligned same) bad := by
  induction h with
  | nil => exact pure .nil
  | cons h _ ih =>
    exact h.bind fun c a b hfound => ih.bind fun cs as bs hrest =>
      pure (hfound.aligned.append hrest)

/-- Reads that agree over their parts agree over the bytes. -/
theorem on {same' : Bytes → α → β → Prop} (h : Agree r p q same Eq)
    (hsame : ∀ bs c a b left, r bs = .ok (c, left) → same c a b → same' bs a b) :
    AgreeOn p q same' := by
  intro bs
  rcases (h bs).cases with ⟨c, a, b, left, hc, ha, hb, habc⟩ | ⟨e, _, he, he', rfl⟩
  · exact .inl ⟨a, b, left, ha, hb, hsame bs c a b left hc habc⟩
  · exact .inr ⟨e, he, he'⟩

end Agree

theorem AgreeOn.map {α' β' : Type} {p : Read ε α} {q : Read ε β} {same : Bytes → α → β → Prop}
    {same' : Bytes → α' → β' → Prop} {f : α → α'} {g : β → β'} (h : AgreeOn p q same)
    (hf : ∀ bs a b, same bs a b → same' bs (f a) (g b)) : AgreeOn (f <$> p) (g <$> q) same' := by
  intro bs
  rcases h bs with ⟨a, b, left, ha, hb, hab⟩ | ⟨e, he, he'⟩
  · exact .inl ⟨_, _, left, map_of_ok f ha, map_of_ok g hb, hf bs a b hab⟩
  · exact .inr ⟨e, map_of_error f he, map_of_error g he'⟩

/-- Reads that agree over the bytes use them up alike. -/
theorem AgreeOn.toEnd {p : Read DecodeError α} {q : Read DecodeError β}
    {same : Bytes → α → β → Prop} (h : AgreeOn p q same) :
    Agree Read.rest.toEnd p.toEnd q.toEnd same Eq := by
  intro bs
  have hrest : Read.rest.toEnd bs = (.ok (bs, []) : Except DecodeError (Bytes × Bytes)) := rfl
  unfold Read.toEnd at hrest ⊢
  rcases h bs with ⟨a, b, left, ha, hb, hab⟩ | ⟨e, he, he'⟩
  · rw [hrest, bind_of_ok ha, bind_of_ok hb]
    cases left with
    | nil => exact .ok hab
    | cons byte left => exact .error rfl
  · rw [bind_of_error he, bind_of_error he']
    exact .error rfl

end Read

end TypedWire
