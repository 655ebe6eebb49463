import TypedWire.Proofs.Outcome
import TypedWire.Proofs.Wire.Reads
import TypedWire.Wire.Pull

/-!
# Operations on readers do what the reads do

A read that fails says nothing of what is left unread, an operation on a reader does.

- `Pull.Follows p q`: the operation `p` gives what the read `q` gives.
- `Pull.Keeps p q`: besides, a failure leaves all bytes unread.
- `Follows.probe`: with a copy of the reader the first is made the second.
-/

namespace TypedWire

namespace Pull

variable {α β : Type}

theorem run_probe (p : Pull α) (bs : Bytes) :
    (probe p).run bs = match p.run bs with
      | (.ok a, left) => (.ok a, left)
      | (.error e, _) => (.error e, bs) := by
  have hget : (get : Pull Bytes).run bs = (.ok bs, bs) := rfl
  rw [probe, run_bind, hget]
  dsimp only
  rcases p.run bs with ⟨_ | _, _⟩ <;> rfl

theorem run_ensure (n : Nat) (bs : Bytes) : (ensure n).run bs =
    if n ≤ bs.length then (.ok (), bs) else (.error (.overread n bs.length), bs) := by
  show (if bs.length < n then throw (.overread n bs.length) else pure () : Pull Unit).run bs = _
  by_cases h : n ≤ bs.length
  · rw [if_neg (Nat.not_lt.mpr h), if_pos h]
    rfl
  · rw [if_pos (Nat.not_le.mp h), if_neg h]
    rfl

/-- The operation gives what the read gives. What it leaves unread is the same after a success, and
open after a failure. -/
structure Follows (p : Pull α) (q : Read DecodeError α) : Prop where
  ok : ∀ {bs : Bytes} {a : α} {left : Bytes}, q bs = .ok (a, left) → p.run bs = (.ok a, left)
  error : ∀ {bs : Bytes} {e : DecodeError}, q bs = .error e → ∃ left, p.run bs = (.error e, left)

/-- The operation gives what the read gives, and a failure leaves all bytes unread. -/
def Keeps (p : Pull α) (q : Read DecodeError α) : Prop :=
  ∀ bs, p.run bs = match q bs with
    | .ok (a, left) => (.ok a, left)
    | .error e => (.error e, bs)

namespace Follows

theorem pure (a : α) : Follows (pure a) (pure a) where
  ok h := by
    obtain ⟨rfl, rfl⟩ := Prod.mk.inj (Except.ok.inj h)
    rfl
  error h := nomatch h

theorem throw (e : DecodeError) : Follows (throw e : Pull α) (throw e) where
  ok h := nomatch h
  error h := ⟨_, by
    obtain rfl := Except.error.inj h
    rfl⟩

theorem bind {p : Pull α} {q : Read DecodeError α} {f : α → Pull β} {g : α → Read DecodeError β}
    (hp : Follows p q) (hf : ∀ a, Follows (f a) (g a)) : Follows (p >>= f) (q >>= g) where
  ok h := by
    obtain ⟨a, mid, ha, hb⟩ := Read.bind_eq_ok h
    rw [run_bind, hp.ok ha]
    exact (hf a).ok hb
  error h := by
    rw [run_bind]
    rcases Read.bind_eq_error h with he | ⟨a, mid, ha, he⟩
    · obtain ⟨left, hleft⟩ := hp.error he
      exact ⟨left, by rw [hleft]⟩
    · obtain ⟨left, hleft⟩ := (hf a).error he
      exact ⟨left, by rw [hp.ok ha]; exact hleft⟩

theorem map {p : Pull α} {q : Read DecodeError α} (f : α → β) (h : Follows p q) :
    Follows (f <$> p) (f <$> q) :=
  h.bind fun a => pure (f a)

theorem times {p : Pull α} {q : Read DecodeError α} (h : Follows p q) (n : Nat) :
    Follows (times n p) (Read.times n q) := by
  induction n with
  | zero => exact pure []
  | succ n ih => exact h.bind fun a => ih.bind fun as => pure (a :: as)

theorem remaining : Follows remaining Read.remaining where
  ok h := by
    obtain ⟨rfl, rfl⟩ := Prod.mk.inj (Except.ok.inj h)
    rfl
  error h := nomatch h

theorem rest : Follows rest Read.rest where
  ok h := by
    obtain ⟨rfl, rfl⟩ := Prod.mk.inj (Except.ok.inj h)
    rfl
  error h := nomatch h

theorem inside (bytes : Bytes) (q : Read DecodeError α) :
    Follows (inside bytes q) (Read.inside bytes q) where
  ok h := by
    unfold Read.inside at h
    unfold Pull.inside
    cases hq : q bytes with
    | ok r =>
      rw [hq] at h
      obtain ⟨rfl, rfl⟩ := Prod.mk.inj (Except.ok.inj h)
      rfl
    | error e =>
      rw [hq] at h
      cases h
  error h := by
    unfold Read.inside at h
    unfold Pull.inside
    cases hq : q bytes with
    | ok r =>
      rw [hq] at h
      cases h
    | error e =>
      rw [hq] at h
      obtain rfl := Except.error.inj h
      exact ⟨_, rfl⟩

/-- Carried out on a copy, an operation that fails leaves the reader as it was. -/
theorem probe {p : Pull α} {q : Read DecodeError α} (h : Follows p q) : Keeps (probe p) q := by
  intro bs
  rw [run_probe]
  cases hq : q bs with
  | ok r => rw [h.ok hq]
  | error e =>
    obtain ⟨left, hleft⟩ := h.error hq
    rw [hleft]

end Follows

namespace Keeps

theorem ok {p : Pull α} {q : Read DecodeError α} (h : Keeps p q) {bs left : Bytes} {a : α}
    (hok : q bs = .ok (a, left)) : p.run bs = (.ok a, left) := by
  rw [h, hok]

theorem error {p : Pull α} {q : Read DecodeError α} (h : Keeps p q) {bs : Bytes} {e : DecodeError}
    (herror : q bs = .error e) : p.run bs = (.error e, bs) := by
  rw [h, herror]

theorem follows {p : Pull α} {q : Read DecodeError α} (h : Keeps p q) : Follows p q where
  ok hok := h.ok hok
  error herror := ⟨_, h.error herror⟩

theorem map {p : Pull α} {q : Read DecodeError α} (f : α → β) (h : Keeps p q) :
    Keeps (f <$> p) (f <$> q) := by
  intro bs
  refine (run_bind p (fun a => Pure.pure (f a)) bs).trans ?_
  cases hq : q bs with
  | ok r =>
    rw [h.ok hq, Read.map_of_ok f hq]
    rfl
  | error e => rw [h.error hq, Read.map_of_error f hq]

theorem take (n : Nat) : Keeps (take n) (Read.take n) := by
  intro bs
  rw [Pull.take, run_bind, run_ensure, Read.take]
  by_cases h : n ≤ bs.length
  · rw [if_pos h, if_pos h]
    rfl
  · rw [if_neg h, if_neg h]

theorem skip (n : Nat) : Keeps (skip n) (Read.skip n) := by
  intro bs
  rw [Pull.skip, run_bind, run_ensure]
  by_cases h : n ≤ bs.length
  · have htake : Read.take n bs = .ok (bs.take n, bs.drop n) := if_pos h
    rw [if_pos h, Read.skip, Read.bind_of_ok htake]
    rfl
  · have htake : Read.take n bs = .error (.overread n bs.length) := if_neg h
    rw [if_neg h, Read.skip, Read.bind_of_error htake]

theorem word (width : Nat) : Keeps (word width) (Read.word width) := (take width).map _

theorem uint8 : Keeps uint8 Read.uint8 := (word 1).map _

theorem uint16 : Keeps uint16 Read.uint16 := (word 2).map _

theorem uint32 : Keeps uint32 Read.uint32 := (word 4).map _

theorem uint64 : Keeps uint64 Read.uint64 := (word 8).map _

theorem int16 : Keeps int16 Read.int16 := uint16.map _

theorem int32 : Keeps int32 Read.int32 := uint32.map _

theorem int64 : Keeps int64 Read.int64 := uint64.map _

theorem uuid : Keeps uuid Read.uuid := (take 16).map _

theorem block : Keeps block Read.block :=
  (uint32.follows.bind fun n => (take n.toNat).follows).probe

theorem text : Keeps text Read.text := by
  refine (block.follows.bind fun bytes => ?_).probe
  cases Utf8.decode? bytes with
  | some s => exact .pure s
  | none => exact .throw _

theorem message : Keeps message Read.message := by
  refine (uint8.follows.bind fun tag => uint32.follows.bind fun n => ?_).probe
  by_cases hn : n.toNat < Read.messageHeader
  · rw [if_pos hn, if_pos hn]
    exact (Follows.throw _).bind fun _ => (take _).follows.bind fun body => .pure (tag, body)
  · rw [if_neg hn, if_neg hn]
    exact (take _).follows.bind fun body => .pure (tag, body)

theorem peekUInt32 : Keeps peekUInt32 Read.peekUInt32 := by
  intro bs
  have hget : (get : Pull Bytes).run bs = (.ok bs, bs) := rfl
  rw [Pull.peekUInt32, run_bind, hget]
  dsimp only
  rw [Read.peekUInt32, uint32 bs]
  cases Read.uint32 bs <;> rfl

theorem finish : Keeps finish Read.finish := by
  intro bs
  cases bs <;> rfl

end Keeps

end Pull

end TypedWire
