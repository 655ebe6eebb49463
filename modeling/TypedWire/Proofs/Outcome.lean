/-!
# Outcomes of steps

A step that may fail gives a result or a failure; in a sequence of steps the first failure counts.

- `outcome_bind_eq_ok`, `outcome_map_eq_ok`: a sequence has a result through results of its steps.
- `outcome_bind_eq_error`: it fails through the failure of one of them.
- `outcome_mapError_bind`, `outcome_mapError_map`: a sequence of steps with other failures.
- `run_bind`: a sequence of steps on a state, which a failure leaves as far as it was changed.
- `steps_eq_error_iff`: steps over a list fail at the first element whose step fails.
-/

namespace TypedWire

variable {ε α β : Type}

@[simp] theorem outcome_bind_ok (a : α) (f : α → Except ε β) : (Except.ok a >>= f) = f a := rfl

@[simp] theorem outcome_bind_error (e : ε) (f : α → Except ε β) :
    (Except.error e >>= f) = .error e := rfl

theorem outcome_bind_eq_ok {x : Except ε α} {f : α → Except ε β} {b : β} :
    (x >>= f) = .ok b ↔ ∃ a, x = .ok a ∧ f a = .ok b := by
  constructor
  · intro h
    cases x with
    | ok a => exact ⟨a, rfl, h⟩
    | error e => cases h
  · rintro ⟨a, rfl, h⟩
    exact h

theorem outcome_map_eq_ok {x : Except ε α} {f : α → β} {b : β} :
    (f <$> x) = .ok b ↔ ∃ a, x = .ok a ∧ f a = b := by
  constructor
  · intro h
    cases x with
    | ok a => exact ⟨a, rfl, Except.ok.inj h⟩
    | error e => cases h
  · rintro ⟨a, rfl, rfl⟩
    rfl

theorem outcome_bind_eq_error {x : Except ε α} {f : α → Except ε β} {e : ε} :
    (x >>= f) = .error e ↔ x = .error e ∨ ∃ a, x = .ok a ∧ f a = .error e := by
  constructor
  · intro h
    cases x with
    | ok a => exact .inr ⟨a, rfl, h⟩
    | error e' => exact .inl (congrArg Except.error (Except.error.inj h))
  · rintro (rfl | ⟨a, rfl, h⟩)
    · rfl
    · exact h

theorem outcome_map_eq_error {x : Except ε α} {f : α → β} {e : ε} :
    (f <$> x) = .error e ↔ x = .error e := by
  cases x with
  | ok a => exact ⟨nofun, nofun⟩
  | error e' => exact ⟨fun h => congrArg Except.error (Except.error.inj h), fun h => h ▸ rfl⟩

theorem outcome_mapError_bind {δ : Type} (g : ε → δ) (x : Except ε α) (f : α → Except ε β) :
    (x >>= f).mapError g = x.mapError g >>= fun a => (f a).mapError g := by
  cases x <;> rfl

theorem outcome_mapError_map {δ : Type} (g : ε → δ) (x : Except ε α) (f : α → β) :
    (f <$> x).mapError g = f <$> x.mapError g := by
  cases x <;> rfl

theorem outcome_mapError_eq_ok {δ : Type} {g : ε → δ} {x : Except ε α} {a : α} :
    x.mapError g = .ok a ↔ x = .ok a := by
  cases x with
  | ok a' =>
    constructor <;> intro h <;> exact congrArg Except.ok (Except.ok.inj h)
  | error e => exact ⟨nofun, nofun⟩

theorem outcome_mapError_eq_error {δ : Type} {g : ε → δ} {x : Except ε α} {d : δ} :
    x.mapError g = .error d ↔ ∃ e, x = .error e ∧ g e = d := by
  cases x with
  | ok a => exact ⟨nofun, nofun⟩
  | error e =>
    constructor
    · intro h
      exact ⟨e, rfl, Except.error.inj h⟩
    · rintro ⟨e', he, rfl⟩
      obtain rfl := Except.error.inj he
      rfl

/-- A failure leaves the state that was reached by then. -/
theorem run_bind {σ : Type} (p : ExceptT ε (StateM σ) α)
    (f : α → ExceptT ε (StateM σ) β) (s : σ) :
    (p >>= f).run s = match p.run s with
      | (.ok a, s') => (f a).run s'
      | (.error e, s') => (.error e, s') := by
  show (StateT.bind p (ExceptT.bindCont f) s : Except ε β × σ) = _
  unfold StateT.bind
  show (match p.run s with
    | (r, s') => ExceptT.bindCont f r s' : Except ε β × σ) = _
  rcases p.run s with ⟨_ | _, _⟩ <;> rfl

/-- Steps over a list, which know their positions, fail at the first element whose step fails. -/
theorem steps_eq_error_iff {step : Nat → α → Except ε β} {run : Nat → List α → Except ε (List β)}
    (nil : ∀ k, run k [] = .ok [])
    (cons : ∀ k a l, run k (a :: l) = do
      let b ← step k a
      let bs ← run (k + 1) l
      return b :: bs)
    {l : List α} {k : Nat} {e : ε} :
    run k l = .error e ↔ ∃ i a, l[i]? = some a ∧ step (k + i) a = .error e ∧
      ∀ j < i, ∀ c, l[j]? = some c → ∃ b, step (k + j) c = .ok b := by
  have hsucc (k i : Nat) : k + 1 + i = k + (i + 1) := by omega
  induction l generalizing k with
  | nil =>
    rw [nil]
    exact ⟨nofun, fun ⟨_, _, ha, _⟩ => nomatch ha⟩
  | cons a l ih =>
    rw [cons, outcome_bind_eq_error]
    constructor
    · rintro (ha | ⟨b, hb, h⟩)
      · exact ⟨0, a, rfl, ha, fun _ hj => (Nat.not_lt_zero _ hj).elim⟩
      rcases outcome_bind_eq_error.mp h with hrest | ⟨bs, -, hok⟩
      · obtain ⟨i, c, hc, herror, hbefore⟩ := ih.mp hrest
        refine ⟨i + 1, c, hc, hsucc k i ▸ herror, ?_⟩
        rintro (_ | j) hj c' hc'
        · exact ⟨b, Option.some.inj hc' ▸ hb⟩
        · exact hsucc k j ▸ hbefore j (Nat.lt_of_succ_lt_succ hj) c' hc'
      · cases hok
    · rintro ⟨_ | i, c, hc, herror, hbefore⟩
      · exact .inl (Option.some.inj hc ▸ herror)
      · obtain ⟨b, hb⟩ := hbefore 0 (Nat.succ_pos i) a rfl
        have hrest : run (k + 1) l = .error e := by
          refine ih.mpr ⟨i, c, hc, hsucc k i ▸ herror, fun j hj c' hc' => ?_⟩
          exact hsucc k j ▸ hbefore (j + 1) (Nat.succ_lt_succ hj) c' hc'
        exact .inr ⟨b, hb, by rw [hrest]; rfl⟩

end TypedWire
