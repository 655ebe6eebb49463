import Mathlib.Algebra.GroupWithZero.Nat
import TypedWire.Proofs.Wire.Reads

/-!
# What a read gives for the bytes that it takes

A read that gives a lot has to take a lot. How much something weighs is up to who asks.

- `Read.Weighs p weight rate extra`: what `p` gives weighs at most `rate` for each of the bytes that
  it takes, and `extra` on top.
- `Read.Weighs.bind`, `Read.Weighs.times`: what a read takes is not counted twice.
- `Read.length_times`: a read that is repeated takes what it takes each time.
-/

namespace TypedWire.Read

variable {ε α β : Type}

/-- What `p` gives weighs at most `rate` for each of the bytes that it takes, and `extra` on top. -/
structure Weighs (p : Read ε α) (weight : α → Nat) (rate extra : Nat) : Prop where
  shorter : ∀ {bs : Bytes} {a : α} {left : Bytes}, p bs = .ok (a, left) → left.length ≤ bs.length
  weighs : ∀ {bs : Bytes} {a : α} {left : Bytes}, p bs = .ok (a, left) →
    weight a + rate * left.length ≤ rate * bs.length + extra

namespace Weighs

variable {p : Read ε α} {weight : α → Nat} {weight' : β → Nat} {rate extra : Nat}

theorem pure {a : α} (h : weight a ≤ extra) : Weighs (pure a : Read ε α) weight rate extra := by
  constructor
  · intro bs b left hrun
    obtain ⟨-, rfl⟩ := Prod.mk.inj (Except.ok.inj hrun)
    exact Nat.le_refl _
  · intro bs b left hrun
    obtain ⟨rfl, rfl⟩ := Prod.mk.inj (Except.ok.inj hrun)
    omega

theorem throw (e : ε) : Weighs (throw e : Read ε α) weight rate extra :=
  ⟨fun hrun => (nomatch hrun), fun hrun => (nomatch hrun)⟩

/-- What would follow a failure does not count. -/
theorem throw_bind (e : ε) (f : β → Read ε α) :
    Weighs (MonadExcept.throw e >>= f) weight rate extra :=
  ⟨fun hrun => (nomatch hrun), fun hrun => (nomatch hrun)⟩

/-- What the first read gives may go into what the second one gives, for the bytes that the first
one took. -/
theorem bind {f : α → Read ε β} (hp : Weighs p weight rate 0)
    (hf : ∀ a, Weighs (f a) weight' rate (weight a + extra)) :
    Weighs (p >>= f) weight' rate extra := by
  constructor
  · intro bs b left hrun
    obtain ⟨a, mid, ha, hb⟩ := bind_eq_ok hrun
    exact Nat.le_trans ((hf a).shorter hb) (hp.shorter ha)
  · intro bs b left hrun
    obtain ⟨a, mid, ha, hb⟩ := bind_eq_ok hrun
    have hfirst := hp.weighs ha
    have hsecond := (hf a).weighs hb
    omega

/-- A read behind one whose result has no weight. -/
theorem after {q : Read ε β} {f : β → Read ε α} (hq : TakesFront q)
    (hf : ∀ b, Weighs (f b) weight rate extra) : Weighs (q >>= f) weight rate extra := by
  constructor
  · intro bs a left hrun
    obtain ⟨b, mid, hb, ha⟩ := bind_eq_ok hrun
    exact Nat.le_trans ((hf b).shorter ha) (hq.suffix hb).length_le
  · intro bs a left hrun
    obtain ⟨b, mid, hb, ha⟩ := bind_eq_ok hrun
    have hfront := Nat.mul_le_mul_left rate (hq.suffix hb).length_le
    have hrest := (hf b).weighs ha
    omega

theorem map {f : α → β} (hp : Weighs p weight rate 0) (h : ∀ a, weight' (f a) ≤ weight a + extra) :
    Weighs (f <$> p) weight' rate extra :=
  hp.bind fun a => pure (h a)

/-- What weighs more has more on top. -/
theorem add (hp : Weighs p weight rate extra) (more : Nat) :
    Weighs p (fun a => weight a + more) rate (extra + more) := by
  refine ⟨hp.shorter, ?_⟩
  intro bs a left hrun
  have hweight := hp.weighs hrun
  omega

theorem mono {rate' extra' : Nat} (hp : Weighs p weight rate extra) (hrate : rate ≤ rate')
    (hextra : extra ≤ extra') : Weighs p weight rate' extra' := by
  refine ⟨hp.shorter, ?_⟩
  intro bs a left hrun
  obtain ⟨more, rfl⟩ := Nat.exists_eq_add_of_le hrate
  have hfirst := hp.weighs hrun
  have hsecond := Nat.mul_le_mul_left more (hp.shorter hrun)
  rw [Nat.add_mul, Nat.add_mul]
  omega

theorem times (hp : Weighs p weight rate 0) (n : Nat) :
    Weighs (times n p) (fun as => (as.map weight).sum) rate 0 := by
  induction n with
  | zero => exact pure (Nat.le_refl 0)
  | succ n ih =>
    refine hp.bind fun a => ih.bind fun as => pure ?_
    rw [List.map_cons, List.sum_cons]
    omega

end Weighs

/-- A read that is repeated takes what it takes each time. -/
theorem length_times {p : Read ε α} {width : Nat}
    (h : ∀ {bs a left}, p bs = .ok (a, left) → left.length + width ≤ bs.length) {n : Nat}
    {bs left : Bytes} {as : List α} (hrun : times n p bs = .ok (as, left)) :
    left.length + n * width ≤ bs.length := by
  induction n generalizing bs as with
  | zero =>
    obtain ⟨-, rfl⟩ := Prod.mk.inj (Except.ok.inj hrun)
    omega
  | succ n ih =>
    obtain ⟨a, mid, ha, hrest⟩ := bind_eq_ok hrun
    obtain ⟨as', mid', has, hcons⟩ := bind_eq_ok hrest
    obtain ⟨-, rfl⟩ := Prod.mk.inj (Except.ok.inj hcons)
    have hfirst := h ha
    have hothers := ih has
    rw [Nat.add_mul, Nat.one_mul]
    omega

end TypedWire.Read
