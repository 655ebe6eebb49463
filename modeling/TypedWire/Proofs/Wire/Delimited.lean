import TypedWire.Proofs.Wire.Reads

/-!
# Reads that know where they end

What such a read takes off the front says itself where it ends: bytes behind it change nothing, and
a front that breaks off is not enough.

- `Read.Exactly p front a short`: `p` takes `front`, whatever follows, and gives `a`; cut anywhere,
  `front` makes it fail with something `short`.
- `Read.Delimited p short`: every success of `p` is over such a front. A failure over a part of a
  front may be set in relation to what the whole of it gives.
- `DecodeError.RunsOut`: the failure of a read that needs more bytes than there are.
-/

namespace TypedWire

/-- A read needs more bytes than there are. -/
def DecodeError.RunsOut (e : DecodeError) : Prop :=
  ∃ needed remaining, e = .overread needed remaining

namespace Read

variable {ε δ α β : Type}

/-- From bytes that start with `front`, `p` takes exactly those and gives `a`; if they break off
within `front`, it fails with something `short`. -/
structure Exactly (p : Read ε α) (front : Bytes) (a : α) (short : ε → Prop) : Prop where
  takes : Takes p front a
  cut : ∀ {head tail : Bytes}, front = head ++ tail → tail ≠ [] → ∃ e, p head = .error e ∧ short e

/-- Whatever `p` succeeds on starts with a front that `p` takes exactly. -/
structure Delimited (p : Read ε α) (short : α → ε → Prop) : Prop where
  exactly : ∀ {bs : Bytes} {a : α} {left : Bytes}, p bs = .ok (a, left) →
    ∃ front, bs = front ++ left ∧ Exactly p front a (short a)

namespace Delimited

variable {short : α → ε → Prop}

/-- More bytes behind those that a read succeeds on are left unread. -/
theorem append {p : Read ε α} (h : Delimited p short) {bs left : Bytes} {a : α}
    (hrun : p bs = .ok (a, left)) (more : Bytes) : p (bs ++ more) = .ok (a, left ++ more) := by
  obtain ⟨front, rfl, hfront⟩ := h.exactly hrun
  rw [List.append_assoc]
  exact hfront.takes (left ++ more)

/-- Bytes that a read uses up are not enough if some are missing at the end. -/
theorem cut {p : Read ε α} (h : Delimited p short) {bs head : Bytes} {a : α}
    (hrun : p bs = .ok (a, [])) (hstarts : head <+: bs) (hne : head ≠ bs) :
    ∃ e, p head = .error e ∧ short a e := by
  obtain ⟨front, rfl, hfront⟩ := h.exactly hrun
  obtain ⟨tail, htail⟩ := hstarts
  rw [List.append_nil] at htail hne
  refine hfront.cut htail.symm ?_
  rintro rfl
  exact hne (by rw [← htail, List.append_nil])

/-- What is left unread is an end piece of the bytes. -/
theorem takesFront {p : Read ε α} (h : Delimited p short) : TakesFront p where
  suffix hrun := by
    obtain ⟨front, rfl, -⟩ := h.exactly hrun
    exact List.suffix_append front _

/-- A read that takes nothing. -/
theorem of_takes_nil {p : Read ε α}
    (h : ∀ {bs a left}, p bs = .ok (a, left) → bs = left ∧ Takes p [] a) :
    Delimited p short where
  exactly hrun := by
    obtain ⟨rfl, htakes⟩ := h hrun
    refine ⟨[], rfl, htakes, fun happend htail => ?_⟩
    exact (htail (List.append_eq_nil_iff.mp happend.symm).2).elim

theorem pure (a : α) : Delimited (pure a : Read ε α) short := by
  refine of_takes_nil fun {bs b left} h => ?_
  obtain ⟨rfl, rfl⟩ := Prod.mk.inj (Except.ok.inj h)
  exact ⟨rfl, .pure a⟩

theorem throw (e : ε) : Delimited (throw e : Read ε α) short where
  exactly h := nomatch h

/-- What would follow a failure does not count. -/
theorem throw_bind (e : ε) {f : β → Read ε α} :
    Delimited (MonadExcept.throw e >>= f) short where
  exactly h := nomatch h

theorem bind {p : Read ε α} {f : α → Read ε β} {short' : β → ε → Prop} (hp : Delimited p short)
    (hf : ∀ a, Delimited (f a) short')
    (hshort : ∀ {a bs b left e}, f a bs = .ok (b, left) → short a e → short' b e) :
    Delimited (p >>= f) short' where
  exactly {bs b left} hrun := by
    obtain ⟨a, mid, ha, hb⟩ := bind_eq_ok hrun
    obtain ⟨first, rfl, hfirst⟩ := hp.exactly ha
    obtain ⟨second, rfl, hsecond⟩ := (hf a).exactly hb
    refine ⟨first ++ second, (List.append_assoc ..).symm, hfirst.takes.bind hsecond.takes, ?_⟩
    intro head tail happend htail
    -- the cut goes through what the second read takes, or through what the first one takes
    have hlater : ∀ {before : Bytes}, second = before ++ tail →
        ∃ e, (p >>= f) (first ++ before) = .error e ∧ short' b e := by
      intro before hbefore
      obtain ⟨e, he, hcut⟩ := hsecond.cut hbefore htail
      exact ⟨e, (bind_of_ok (hfirst.takes before)).trans he, hcut⟩
    rcases List.append_eq_append_iff.mp happend with ⟨before, rfl, hbefore⟩ | ⟨after, rfl, htail'⟩
    · exact hlater hbefore
    · by_cases hafter : after = []
      · subst hafter
        have hsecondAll := @hlater [] htail'.symm
        rwa [List.append_nil, List.append_nil] at hsecondAll
      · obtain ⟨e, he, hcut⟩ := hfirst.cut rfl hafter
        exact ⟨e, bind_of_error he, hshort hb hcut⟩

/-- A sequence, where a break within either read is of one kind. -/
theorem next {p : Read ε α} {f : α → Read ε β} {short : ε → Prop}
    (hp : Delimited p fun _ => short) (hf : ∀ a, Delimited (f a) fun _ => short) :
    Delimited (p >>= f) fun _ => short :=
  hp.bind hf fun _ h => h

theorem map {p : Read ε α} (f : α → β) {short' : β → ε → Prop}
    (hp : Delimited p fun a => short' (f a)) : Delimited (f <$> p) short' := by
  refine hp.bind (fun a => pure (f a)) fun {a bs b left e} h hshort => ?_
  obtain ⟨rfl, -⟩ := Prod.mk.inj (Except.ok.inj h)
  exact hshort

theorem mapError {p : Read ε α} (f : ε → δ) {short' : α → δ → Prop} (hp : Delimited p short)
    (h : ∀ a e, short a e → short' a (f e)) : Delimited (p.mapError f) short' where
  exactly {bs a left} hrun := by
    obtain ⟨front, rfl, hfront⟩ := hp.exactly (mapError_eq_ok hrun)
    refine ⟨front, rfl, hfront.takes.mapError f, fun happend htail => ?_⟩
    obtain ⟨e, he, hcut⟩ := hfront.cut happend htail
    exact ⟨f e, mapError_of_error f he, h a e hcut⟩

/-- A read of other bytes takes nothing. -/
theorem inside (bytes : Bytes) (p : Read ε α) : Delimited (inside bytes p) short := by
  refine of_takes_nil fun {bs a left} h => ?_
  unfold Read.inside at h
  split at h
  · rename_i hrun
    obtain ⟨rfl, rfl⟩ := Prod.mk.inj (Except.ok.inj h)
    exact ⟨rfl, .inside hrun⟩
  · cases h

theorem times {p : Read ε α} {short : ε → Prop} (hp : Delimited p fun _ => short) (n : Nat) :
    Delimited (times n p) fun _ => short := by
  induction n with
  | zero => exact pure []
  | succ n ih =>
    exact hp.next fun a => ih.next fun as => pure (a :: as)

end Delimited

/-! ## Single items -/

theorem delimited_take (n : Nat) : Delimited (take n) fun _ => DecodeError.RunsOut where
  exactly hrun := by
    obtain ⟨front, rfl, rfl, rfl⟩ := (reads_take n _ _ _).mp hrun
    refine ⟨front, rfl, takes_take front, ?_⟩
    rintro head tail rfl htail
    refine ⟨_, if_neg ?_, _, _, rfl⟩
    have hpos := List.length_pos_iff.mpr htail
    rw [List.length_append]
    omega

theorem delimited_skip (n : Nat) : Delimited (skip n) fun _ => DecodeError.RunsOut :=
  (delimited_take n).next fun _ => .pure ()

theorem delimited_word (width : Nat) : Delimited (word width) fun _ => DecodeError.RunsOut :=
  (delimited_take width).map _

theorem delimited_uint8 : Delimited uint8 fun _ => DecodeError.RunsOut := (delimited_word 1).map _

theorem delimited_uint16 : Delimited uint16 fun _ => DecodeError.RunsOut := (delimited_word 2).map _

theorem delimited_uint32 : Delimited uint32 fun _ => DecodeError.RunsOut := (delimited_word 4).map _

theorem delimited_int32 : Delimited int32 fun _ => DecodeError.RunsOut := delimited_uint32.map _

theorem delimited_uuid : Delimited uuid fun _ => DecodeError.RunsOut := (delimited_take 16).map _

theorem delimited_block : Delimited block fun _ => DecodeError.RunsOut :=
  delimited_uint32.next fun length => delimited_take length.toNat

theorem delimited_text : Delimited text fun _ => DecodeError.RunsOut := by
  refine delimited_block.next fun bytes => ?_
  split
  · exact .pure _
  · exact .throw _

end Read

end TypedWire
