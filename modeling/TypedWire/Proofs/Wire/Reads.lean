import TypedWire.Wire.Reader

/-!
# What a read does

Three ways to say what a read does, with a rule for each way to make a read from others.

- `Read.Takes p front a`: from bytes that start with `front`, whatever follows, `p` takes exactly
  those and gives `a`.
- `Read.Reads p spells`: `p` accepts exactly the bytes that start with a spelling, takes the
  spelling and gives what it spells.
- `Read.Meets p good bad`: what `p` gives is good and what it fails with is bad.
-/

namespace TypedWire.Read

variable {ε δ α β : Type}

/-! ## Running a sequence -/

theorem bind_of_ok {p : Read ε α} {f : α → Read ε β} {bs mid : Bytes} {a : α}
    (h : p bs = .ok (a, mid)) : (p >>= f) bs = f a mid := by
  show (p bs).bind (fun r => f r.1 r.2) = f a mid
  rw [h]
  rfl

theorem bind_of_error {p : Read ε α} {f : α → Read ε β} {bs : Bytes} {e : ε}
    (h : p bs = .error e) : (p >>= f) bs = .error e := by
  show (p bs).bind (fun r => f r.1 r.2) = .error e
  rw [h]
  rfl

/-- Sequences are the same if what follows the first read is the same. -/
theorem bind_congr {p : Read ε α} {f g : α → Read ε β} {bs : Bytes}
    (h : ∀ a left, f a left = g a left) : (p >>= f) bs = (p >>= g) bs := by
  rw [funext fun a => funext (h a)]

theorem map_of_ok {p : Read ε α} (f : α → β) {bs left : Bytes} {a : α}
    (h : p bs = .ok (a, left)) : (f <$> p) bs = .ok (f a, left) :=
  bind_of_ok (f := fun a => pure (f a)) h

theorem map_of_error {p : Read ε α} (f : α → β) {bs : Bytes} {e : ε} (h : p bs = .error e) :
    (f <$> p) bs = .error e :=
  bind_of_error (f := fun a => pure (f a)) h

theorem mapError_of_ok {p : Read ε α} {f : ε → δ} {bs : Bytes} {r : α × Bytes}
    (h : p bs = .ok r) : p.mapError f bs = .ok r := by
  rw [Read.mapError, h]

theorem mapError_of_error {p : Read ε α} (f : ε → δ) {bs : Bytes} {e : ε}
    (h : p bs = .error e) : p.mapError f bs = .error (f e) := by
  rw [Read.mapError, h]

theorem mapError_bind (f : ε → δ) (p : Read ε α) (g : α → Read ε β) :
    (p >>= g).mapError f = p.mapError f >>= fun a => (g a).mapError f := by
  funext bs
  cases hp : p bs with
  | error e => rw [mapError_of_error f (bind_of_error hp), bind_of_error (mapError_of_error f hp)]
  | ok r =>
    rw [bind_of_ok (mapError_of_ok hp), Read.mapError, bind_of_ok hp]
    rfl

theorem finish_eq_ok_iff {bs left : Bytes} : finish bs = .ok ((), left) ↔ bs = [] ∧ left = bs := by
  cases bs with
  | nil =>
    constructor
    · intro h
      exact ⟨rfl, (Prod.mk.inj (Except.ok.inj h)).2.symm⟩
    · rintro ⟨-, rfl⟩
      rfl
  | cons b bs => exact ⟨nofun, fun h => nomatch h.1⟩

/-- A read that succeeds to the end of the bytes uses them up. -/
theorem toEnd_eq_ok {p : Read DecodeError α} {bs left : Bytes} {a : α}
    (h : p.toEnd bs = .ok (a, left)) : p bs = .ok (a, []) := by
  obtain ⟨a', mid, ha, h⟩ := bind_eq_ok h
  obtain ⟨⟨⟩, mid', hfinish, h⟩ := bind_eq_ok h
  obtain ⟨rfl, rfl⟩ := Prod.mk.inj (Except.ok.inj h)
  rw [ha, (finish_eq_ok_iff.mp hfinish).1]

/-- A sequence of two reads fails through a failure of the first or of the second. -/
theorem bind_eq_error {p : Read ε α} {f : α → Read ε β} {bs : Bytes} {e : ε}
    (h : (p >>= f) bs = .error e) :
    p bs = .error e ∨ ∃ a mid, p bs = .ok (a, mid) ∧ f a mid = .error e := by
  have hrun : (p >>= f) bs = (p bs).bind fun r => f r.1 r.2 := rfl
  cases hp : p bs with
  | error e' =>
    rw [hrun, hp] at h
    exact .inl (congrArg Except.error (Except.error.inj h))
  | ok r =>
    rw [hrun, hp] at h
    exact .inr ⟨r.1, r.2, rfl, h⟩

/-! ## Reads that take a given front -/

/-- From bytes that start with `front`, `p` takes exactly those and gives `a`. -/
def Takes (p : Read ε α) (front : Bytes) (a : α) : Prop :=
  ∀ rest, p (front ++ rest) = .ok (a, rest)

namespace Takes

/-- A read that takes all of some bytes. -/
theorem run {p : Read ε α} {front : Bytes} {a : α} (h : Takes p front a) :
    p front = .ok (a, []) := by
  have hrun := h []
  rwa [List.append_nil] at hrun

theorem pure (a : α) : Takes (pure a : Read ε α) [] a := fun _ => rfl

theorem bind {p : Read ε α} {f : α → Read ε β} {front front' : Bytes} {a : α} {b : β}
    (hp : Takes p front a) (hf : Takes (f a) front' b) :
    Takes (p >>= f) (front ++ front') b := by
  intro rest
  rw [List.append_assoc, bind_of_ok (hp _), hf]

/-- A read followed by one that takes nothing. -/
theorem bind_nil {p : Read ε α} {f : α → Read ε β} {front : Bytes} {a : α} {b : β}
    (hp : Takes p front a) (hf : Takes (f a) [] b) : Takes (p >>= f) front b := by
  have h : Takes (p >>= f) (front ++ []) b := hp.bind hf
  rwa [List.append_nil] at h

theorem map {p : Read ε α} (f : α → β) {front : Bytes} {a : α} (hp : Takes p front a) :
    Takes (f <$> p) front (f a) :=
  hp.bind_nil (f := fun a => Pure.pure (f a)) (pure (f a))

theorem mapError {p : Read ε α} (f : ε → δ) {front : Bytes} {a : α} (hp : Takes p front a) :
    Takes (p.mapError f) front a :=
  fun rest => mapError_of_ok (hp rest)

/-- A read of other bytes takes nothing. -/
theorem inside {bytes left : Bytes} {p : Read ε α} {a : α} (hp : p bytes = .ok (a, left)) :
    Takes (inside bytes p) [] a := by
  intro rest
  rw [Read.inside, hp]
  rfl

/-- A read that uses up other bytes takes nothing. -/
theorem inside_toEnd {p : Read DecodeError α} {bytes : Bytes} {a : α}
    (h : p bytes = .ok (a, [])) : Takes (Read.inside bytes p.toEnd) [] a := by
  have hend : p.toEnd bytes = .ok (a, []) := by
    refine (bind_of_ok h).trans ?_
    rfl
  exact inside hend

end Takes

/-! ## Reads of exactly some spellings -/

/-- `p` accepts exactly the bytes that start with a spelling of something, and gives that. -/
def Reads (p : Read ε α) (spells : Bytes → α → Prop) : Prop :=
  ∀ bs a left, p bs = .ok (a, left) ↔ ∃ front, bs = front ++ left ∧ spells front a

/-- Spellings of some things, one after the other. -/
inductive Each (spells : Bytes → α → Prop) : Bytes → List α → Prop
  | nil : Each spells [] []
  | cons {front rest : Bytes} {a : α} {as : List α} (head : spells front a)
      (tail : Each spells rest as) : Each spells (front ++ rest) (a :: as)

namespace Reads

variable {spells : Bytes → α → Prop}

theorem takes {p : Read ε α} (h : Reads p spells) {front : Bytes} {a : α}
    (ha : spells front a) : Takes p front a :=
  fun _ => (h _ _ _).mpr ⟨front, rfl, ha⟩

/-- What is taken off the front does not depend on what follows. -/
theorem self {p : Read ε α} (h : Reads p spells) : Reads p (Takes p) := by
  intro bs a left
  constructor
  · intro hrun
    obtain ⟨front, rfl, hfront⟩ := (h _ _ _).mp hrun
    exact ⟨front, rfl, h.takes hfront⟩
  · rintro ⟨front, rfl, hfront⟩
    exact hfront left

/-- The same read, with its spellings described in another way. -/
theorem congr {p : Read ε α} {spells' : Bytes → α → Prop} (h : Reads p spells)
    (hiff : ∀ front a, spells front a ↔ spells' front a) : Reads p spells' := by
  intro bs a left
  rw [h]
  exact exists_congr fun front => and_congr_right fun _ => hiff front a

theorem pure (a : α) : Reads (pure a : Read ε α) (fun front b => front = [] ∧ b = a) := by
  intro bs b left
  constructor
  · intro h
    obtain ⟨rfl, rfl⟩ := Prod.mk.inj (Except.ok.inj h)
    exact ⟨[], rfl, rfl, rfl⟩
  · rintro ⟨front, rfl, rfl, rfl⟩
    rfl

theorem throw (e : ε) : Reads (throw e : Read ε α) (fun _ _ => False) := by
  intro bs b left
  constructor
  · intro h
    cases h
  · rintro ⟨front, -, hfalse⟩
    exact hfalse.elim

/-- What would follow a failure does not count. -/
theorem throw_bind (e : ε) (f : α → Read ε β) :
    Reads (MonadExcept.throw e >>= f) (fun _ _ => False) :=
  Reads.throw e

theorem bind {p : Read ε α} {f : α → Read ε β} {spells' : α → Bytes → β → Prop}
    (hp : Reads p spells) (hf : ∀ a, Reads (f a) (spells' a)) :
    Reads (p >>= f) fun front b =>
      ∃ a head tail, front = head ++ tail ∧ spells head a ∧ spells' a tail b := by
  intro bs b left
  constructor
  · intro h
    obtain ⟨a, mid, ha, hb⟩ := bind_eq_ok h
    obtain ⟨head, rfl, hhead⟩ := (hp _ _ _).mp ha
    obtain ⟨tail, rfl, htail⟩ := (hf a _ _ _).mp hb
    exact ⟨head ++ tail, (List.append_assoc ..).symm, a, head, tail, rfl, hhead, htail⟩
  · rintro ⟨front, rfl, a, head, tail, rfl, hhead, htail⟩
    exact (hp.takes hhead).bind ((hf a).takes htail) left

theorem map {p : Read ε α} (f : α → β) (hp : Reads p spells) :
    Reads (f <$> p) fun front b => ∃ a, f a = b ∧ spells front a := by
  intro bs b left
  constructor
  · intro h
    obtain ⟨a, ha, rfl⟩ := map_eq_ok h
    obtain ⟨front, rfl, hfront⟩ := (hp _ _ _).mp ha
    exact ⟨front, rfl, a, rfl, hfront⟩
  · rintro ⟨front, rfl, a, rfl, hfront⟩
    exact (hp.takes hfront).map f left

theorem mapError {p : Read ε α} (f : ε → δ) (hp : Reads p spells) :
    Reads (p.mapError f) spells := by
  intro bs a left
  constructor
  · intro h
    exact (hp _ _ _).mp (mapError_eq_ok h)
  · rintro ⟨front, rfl, hfront⟩
    exact (hp.takes hfront).mapError f left

theorem times {p : Read ε α} (hp : Reads p spells) (n : Nat) :
    Reads (times n p) fun front as => Each spells front as ∧ as.length = n := by
  induction n with
  | zero =>
    refine (pure []).congr fun front as => ?_
    constructor
    · rintro ⟨rfl, rfl⟩
      exact ⟨.nil, rfl⟩
    · rintro ⟨heach, hlen⟩
      obtain rfl := List.eq_nil_of_length_eq_zero hlen
      cases heach
      exact ⟨rfl, rfl⟩
  | succ n ih =>
    refine (hp.bind fun a => ih.bind fun as => pure (a :: as)).congr fun front as => ?_
    constructor
    · rintro ⟨a, head, _, rfl, hhead, as, tail, _, rfl, ⟨heach, rfl⟩, rfl, rfl⟩
      rw [List.append_nil]
      exact ⟨.cons hhead heach, rfl⟩
    · rintro ⟨heach, hlen⟩
      cases heach with
      | nil => cases hlen
      | @cons head tail a as hhead htail =>
        exact ⟨a, head, tail, rfl, hhead, as, tail, [], (List.append_nil _).symm,
          ⟨htail, Nat.succ.inj hlen⟩, rfl, rfl⟩

end Reads

/-! ### Reads of single items -/

theorem reads_take (n : Nat) :
    Reads (take n) fun front bytes => front = bytes ∧ bytes.length = n := by
  intro bs bytes left
  constructor
  · intro h
    unfold Read.take at h
    split at h
    · rename_i hle
      obtain ⟨rfl, rfl⟩ := Prod.mk.inj (Except.ok.inj h)
      exact ⟨bs.take n, (List.take_append_drop n bs).symm, rfl, List.length_take_of_le hle⟩
    · cases h
  · rintro ⟨front, rfl, rfl, rfl⟩
    rw [Read.take, if_pos (by rw [List.length_append]; omega), List.take_left, List.drop_left]

theorem reads_skip (n : Nat) : Reads (skip n) fun front _ => front.length = n := by
  refine ((reads_take n).map fun _ => ()).congr fun front _ => ?_
  constructor
  · rintro ⟨_, -, rfl, hlen⟩
    exact hlen
  · intro hlen
    exact ⟨front, rfl, rfl, hlen⟩

theorem reads_word (width : Nat) : Reads (word width) fun front n =>
    front = BigEndian.encode width n ∧ n < BigEndian.capacity width := by
  refine ((reads_take width).map _).congr fun front n => ?_
  constructor
  · rintro ⟨bytes, rfl, rfl, rfl⟩
    exact ⟨(BigEndian.encode_decode _).symm, BigEndian.decode_lt _⟩
  · rintro ⟨rfl, hlt⟩
    exact ⟨_, by rw [BigEndian.decode_encode, Nat.mod_eq_of_lt hlt], rfl,
      BigEndian.length_encode width n⟩

theorem reads_uint8 : Reads uint8 fun front n => front = [n] := by
  have hbyte : ∀ k, BigEndian.encode 1 k = [UInt8.ofNat k] := fun k => by
    rw [BigEndian.encode, BigEndian.encode, BigEndian.capacity, Nat.div_one]
  refine ((reads_word 1).map _).congr fun front n => ?_
  constructor
  · rintro ⟨k, rfl, rfl, -⟩
    exact hbyte k
  · rintro rfl
    exact ⟨n.toNat, UInt8.ofNat_toNat, by rw [hbyte, UInt8.ofNat_toNat], n.toNat_lt⟩

theorem reads_uint16 : Reads uint16 fun front n => front = BigEndian.encode 2 n.toNat := by
  refine ((reads_word 2).map _).congr fun front n => ?_
  constructor
  · rintro ⟨k, rfl, rfl, hlt⟩
    rw [UInt16.toNat_ofNat_of_lt' hlt]
  · rintro rfl
    exact ⟨n.toNat, UInt16.ofNat_toNat, rfl, n.toNat_lt⟩

theorem reads_uint32 : Reads uint32 fun front n => front = BigEndian.encode 4 n.toNat := by
  refine ((reads_word 4).map _).congr fun front n => ?_
  constructor
  · rintro ⟨k, rfl, rfl, hlt⟩
    rw [UInt32.toNat_ofNat_of_lt' hlt]
  · rintro rfl
    exact ⟨n.toNat, UInt32.ofNat_toNat, rfl, n.toNat_lt⟩

theorem reads_uint64 : Reads uint64 fun front n => front = BigEndian.encode 8 n.toNat := by
  refine ((reads_word 8).map _).congr fun front n => ?_
  constructor
  · rintro ⟨k, rfl, rfl, hlt⟩
    rw [UInt64.toNat_ofNat_of_lt' hlt]
  · rintro rfl
    exact ⟨n.toNat, UInt64.ofNat_toNat, rfl, n.toNat_lt⟩

theorem reads_int16 : Reads int16 fun front n => front = BigEndian.encode 2 n.toUInt16.toNat := by
  refine (reads_uint16.map UInt16.toInt16).congr fun front n => ?_
  constructor
  · rintro ⟨k, rfl, rfl⟩
    rw [UInt16.toUInt16_toInt16]
  · rintro rfl
    exact ⟨n.toUInt16, rfl, rfl⟩

theorem reads_int32 : Reads int32 fun front n => front = BigEndian.encode 4 n.toUInt32.toNat := by
  refine (reads_uint32.map UInt32.toInt32).congr fun front n => ?_
  constructor
  · rintro ⟨k, rfl, rfl⟩
    rw [UInt32.toUInt32_toInt32]
  · rintro rfl
    exact ⟨n.toUInt32, rfl, rfl⟩

theorem reads_int64 : Reads int64 fun front n => front = BigEndian.encode 8 n.toUInt64.toNat := by
  refine (reads_uint64.map UInt64.toInt64).congr fun front n => ?_
  constructor
  · rintro ⟨k, rfl, rfl⟩
    rw [UInt64.toUInt64_toInt64]
  · rintro rfl
    exact ⟨n.toUInt64, rfl, rfl⟩

theorem reads_uuid : Reads uuid fun front u => front = u.toBytes := by
  refine ((reads_take 16).map _).congr fun front u => ?_
  constructor
  · rintro ⟨bytes, rfl, rfl, hlen⟩
    rw [Uuid.toBytes_ofBytes hlen]
  · rintro rfl
    exact ⟨_, Uuid.ofBytes_toBytes u, rfl, Uuid.length_toBytes u⟩

/-- The bytes of a block: their count in four bytes and the bytes. -/
def spellBlock (bytes : Bytes) : Bytes := BigEndian.encode 4 bytes.length ++ bytes

theorem length_spellBlock (bytes : Bytes) : (spellBlock bytes).length = 4 + bytes.length := by
  rw [spellBlock, List.length_append, BigEndian.length_encode]

theorem reads_block : Reads block fun front bytes =>
    front = spellBlock bytes ∧ bytes.length < UInt32.size := by
  refine (reads_uint32.bind fun n => reads_take n.toNat).congr fun front bytes => ?_
  constructor
  · rintro ⟨n, _, _, rfl, rfl, rfl, hlen⟩
    rw [spellBlock, hlen]
    exact ⟨rfl, n.toNat_lt⟩
  · rintro ⟨rfl, hlt⟩
    have hn : (UInt32.ofNat bytes.length).toNat = bytes.length := UInt32.toNat_ofNat_of_lt' hlt
    exact ⟨UInt32.ofNat bytes.length, _, bytes, by rw [spellBlock, hn], rfl, rfl, hn.symm⟩

theorem reads_text : Reads text fun front s =>
    front = spellBlock (Utf8.encode s) ∧ (Utf8.encode s).length < UInt32.size := by
  refine (reads_block.bind fun bytes =>
    (?_ : Reads _ fun front s => front = [] ∧ bytes = Utf8.encode s)).congr fun front s => ?_
  · -- after the block nothing is taken: its bytes are a text or they are not
    cases hdecode : Utf8.decode? bytes with
    | some t =>
      obtain rfl := Utf8.decode?_eq_some_iff.mp hdecode
      refine (Reads.pure t).congr fun front s => and_congr_right fun _ => ?_
      constructor
      · rintro rfl
        rfl
      · intro heq
        exact Option.some.inj ((Utf8.decode?_eq_some_iff.mpr heq).symm.trans hdecode)
    | none =>
      refine (Reads.throw _).congr fun front s => ⟨False.elim, ?_⟩
      rintro ⟨-, heq⟩
      rw [Utf8.decode?_eq_some_iff.mpr heq] at hdecode
      cases hdecode
  · constructor
    · rintro ⟨_, _, _, rfl, ⟨rfl, hlt⟩, rfl, rfl⟩
      exact ⟨List.append_nil _, hlt⟩
    · rintro ⟨rfl, hlt⟩
      exact ⟨_, _, [], (List.append_nil _).symm, ⟨rfl, hlt⟩, rfl, rfl⟩

/-- The bytes of a message: its tag, the count of the bytes of the count itself and the body, and the
body. -/
def spellMessage (tag : UInt8) (body : Bytes) : Bytes :=
  tag :: (BigEndian.encode 4 (messageHeader + body.length) ++ body)

theorem length_spellMessage (tag : UInt8) (body : Bytes) :
    (spellMessage tag body).length = 1 + (messageHeader + body.length) := by
  rw [spellMessage, List.length_cons, List.length_append, BigEndian.length_encode, messageHeader]
  omega

theorem reads_message : Reads message fun front m =>
    front = spellMessage m.1 m.2 ∧ messageHeader + m.2.length < UInt32.size := by
  refine (reads_uint8.bind fun tag => reads_uint32.bind fun n =>
    (?_ : Reads _ fun front m => front = m.2 ∧ m.1 = tag ∧
      messageHeader + m.2.length = n.toNat)).congr fun front m => ?_
  · -- a length that does not count its own bytes is rejected, and any other leaves a body
    by_cases hn : n.toNat < messageHeader
    · rw [if_pos hn]
      refine (Reads.throw_bind _ _).congr fun front m => ⟨False.elim, ?_⟩
      rintro ⟨-, -, hlen⟩
      omega
    · rw [if_neg hn]
      refine ((reads_take _).bind fun body => Reads.pure (tag, body)).congr fun front m => ?_
      constructor
      · rintro ⟨_, body, _, rfl, ⟨rfl, hlen⟩, rfl, rfl⟩
        refine ⟨List.append_nil _, rfl, ?_⟩
        show messageHeader + body.length = n.toNat
        omega
      · rintro ⟨rfl, rfl, hlen⟩
        exact ⟨m.2, m.2, [], (List.append_nil _).symm, ⟨rfl, by omega⟩, rfl, rfl⟩
  · constructor
    · rintro ⟨tag, _, _, rfl, rfl, n, _, _, rfl, rfl, rfl, rfl, hlen⟩
      rw [spellMessage, hlen]
      exact ⟨rfl, n.toNat_lt⟩
    · rintro ⟨rfl, hlt⟩
      have hn : (UInt32.ofNat (messageHeader + m.2.length)).toNat = messageHeader + m.2.length :=
        UInt32.toNat_ofNat_of_lt' hlt
      refine ⟨m.1, [m.1], _, ?_, rfl, _, _, m.2, rfl, rfl, rfl, rfl, hn.symm⟩
      rw [hn]
      rfl

/-! ### A read that takes nothing -/

theorem peekUInt32_eq_ok_iff {bs left : Bytes} {n : UInt32} :
    peekUInt32 bs = .ok (n, left) ↔ (∃ rest, bs = BigEndian.encode 4 n.toNat ++ rest) ∧ left = bs := by
  rw [peekUInt32]
  constructor
  · intro h
    split at h
    · rename_i n' rest hn
      obtain ⟨rfl, rfl⟩ := Prod.mk.inj (Except.ok.inj h)
      obtain ⟨_, hstarts, rfl⟩ := (reads_uint32 _ _ _).mp hn
      exact ⟨⟨rest, hstarts⟩, rfl⟩
    · cases h
  · rintro ⟨⟨rest, rfl⟩, rfl⟩
    rw [(reads_uint32 _ _ _).mpr ⟨_, rfl, rfl⟩]

/-! ### Single items as fronts -/

theorem takes_uint8 (n : UInt8) : Takes uint8 [n] n :=
  reads_uint8.takes rfl

theorem takes_uint32 (n : UInt32) : Takes uint32 (BigEndian.encode 4 n.toNat) n :=
  reads_uint32.takes rfl

theorem takes_int16 (n : Int16) : Takes int16 (BigEndian.encode 2 n.toUInt16.toNat) n :=
  reads_int16.takes rfl

theorem takes_int64 (n : Int64) : Takes int64 (BigEndian.encode 8 n.toUInt64.toNat) n :=
  reads_int64.takes rfl

theorem takes_int32 (n : Int32) : Takes int32 (BigEndian.encode 4 n.toUInt32.toNat) n :=
  reads_int32.takes rfl

theorem takes_take (bytes : Bytes) : Takes (take bytes.length) bytes bytes :=
  (reads_take _).takes ⟨rfl, rfl⟩

theorem takes_skip (bytes : Bytes) : Takes (skip bytes.length) bytes () :=
  (takes_take bytes).map fun _ => ()

/-! ## What reads give and fail with -/

/-- What `p` gives is good and what it fails with is bad. -/
structure Meets (p : Read ε α) (good : α → Prop) (bad : ε → Prop) : Prop where
  good : ∀ {bs : Bytes} {a : α} {left : Bytes}, p bs = .ok (a, left) → good a
  bad : ∀ {bs : Bytes} {e : ε}, p bs = .error e → bad e

namespace Meets

variable {good : α → Prop} {bad : ε → Prop}

/-- Of a read of which nothing is known. -/
theorem any (p : Read ε α) : Meets p (fun _ => True) fun _ => True where
  good _ := trivial
  bad _ := trivial

theorem mono {p : Read ε α} {good' : α → Prop} (hp : Meets p good bad)
    (h : ∀ a, good a → good' a) : Meets p good' bad where
  good hrun := h _ (hp.good hrun)
  bad hrun := hp.bad hrun

theorem pure {a : α} (h : good a) : Meets (pure a : Read ε α) good bad where
  good hrun := (Prod.mk.inj (Except.ok.inj hrun)).1 ▸ h
  bad hrun := by cases hrun

theorem throw {e : ε} (h : bad e) : Meets (throw e : Read ε α) good bad where
  good hrun := by cases hrun
  bad hrun := Except.error.inj hrun ▸ h

theorem bind {p : Read ε α} {f : α → Read ε β} {good' : β → Prop} (hp : Meets p good bad)
    (hf : ∀ a, good a → Meets (f a) good' bad) : Meets (p >>= f) good' bad where
  good hrun := by
    obtain ⟨a, mid, ha, hb⟩ := bind_eq_ok hrun
    exact (hf a (hp.good ha)).good hb
  bad hrun := by
    rcases bind_eq_error hrun with he | ⟨a, mid, ha, he⟩
    · exact hp.bad he
    · exact (hf a (hp.good ha)).bad he

/-- What would follow a failure does not count. -/
theorem throw_bind {e : ε} {f : α → Read ε β} {good' : β → Prop} (h : bad e) :
    Meets (MonadExcept.throw e >>= f) good' bad :=
  have hthrow : Meets (MonadExcept.throw e : Read ε α) (fun _ => False) bad := throw h
  hthrow.bind fun _ hfalse => hfalse.elim

theorem map {p : Read ε α} (f : α → β) {good' : β → Prop} (hp : Meets p good bad)
    (h : ∀ a, good a → good' (f a)) : Meets (f <$> p) good' bad :=
  hp.bind fun a ha => pure (h a ha)

theorem mapError {p : Read ε α} (f : ε → δ) {bad' : δ → Prop} (hp : Meets p good bad)
    (h : ∀ e, bad e → bad' (f e)) : Meets (p.mapError f) good bad' where
  good hrun := hp.good (mapError_eq_ok hrun)
  bad hrun := by
    unfold Read.mapError at hrun
    split at hrun
    · cases hrun
    · rename_i e he
      exact Except.error.inj hrun ▸ h e (hp.bad he)

theorem inside (bytes : Bytes) {p : Read ε α} (hp : Meets p good bad) :
    Meets (inside bytes p) good bad where
  good hrun := by
    unfold Read.inside at hrun
    split at hrun
    · rename_i a _ ha
      exact (Prod.mk.inj (Except.ok.inj hrun)).1 ▸ hp.good ha
    · cases hrun
  bad hrun := by
    unfold Read.inside at hrun
    split at hrun
    · cases hrun
    · rename_i e he
      exact Except.error.inj hrun ▸ hp.bad he

theorem times {p : Read ε α} (hp : Meets p good bad) (n : Nat) :
    Meets (times n p) (fun as => ∀ a ∈ as, good a) bad := by
  induction n with
  | zero => exact pure (List.forall_mem_nil _)
  | succ n ih =>
    refine hp.bind fun a ha => ih.bind fun as has => pure ?_
    exact List.forall_mem_cons.mpr ⟨ha, has⟩

theorem iterate {p : α → Read ε α} (hp : ∀ a, good a → Meets (p a) good bad) (n : Nat) (a : α)
    (ha : good a) : Meets (iterate n p a) good bad := by
  induction n generalizing a with
  | zero => exact pure ha
  | succ n ih => exact (hp a ha).bind ih

end Meets

end TypedWire.Read
