import TypedWire.Codec.Encode
import TypedWire.Proofs.Codec.Scalar
import TypedWire.Proofs.Outcome

/-!
# Which payloads of scalars are read again

Writing and reading a scalar have limits of their own. A leap second is written as the second after
it, and a duration by its microseconds if 64 bits hold those; reading asks that the second be in the
day or in the calendar, and that 64 bits hold the nanoseconds of the duration.

- `Scalar.ComesBack`: scalars whose payload is read again.
- `Scalar.read_payload_of_comesBack`, `Scalar.read_payload_of_not_comesBack`: what reading their
  payload gives.
- `Codec.scalar_reencode`: the codec of a scalar type reads again what it has written exactly for
  these, and writes it as it was; `Codec.scalar_unread`: three payloads that it does not read.
-/

namespace TypedWire

/-- JSON whose text is the same after it was parsed and printed. -/
def Json.TextSurvives (j : Json) : Prop :=
  ∃ j', Json.parse? j.compact = some j' ∧ j'.compact = j.compact

namespace Scalar

/-- The reader of the type takes what the writer makes of the scalar. -/
def ComesBack : Scalar → Prop
  | .datetime m | .localDatetime m => ¬m.EndsCalendar
  | .localTime t => ¬t.EndsDay
  | .duration d => d.InReach
  | _ => True

/-- What is read from the payload of a scalar that comes back has the same payload. -/
theorem read_payload_of_comesBack {s : Scalar} {bs : Bytes} (hjson : ∀ j, s = .json j → j.TextSurvives)
    (hback : s.ComesBack) (hp : s.payload = .ok bs) :
    ∃ s', s'.type = s.type ∧ s.type.read bs = .ok (s', []) ∧ s'.payload = .ok bs := by
  cases s with
  | datetime m =>
    obtain ⟨n, hn, rfl⟩ := counted_eq_ok hp
    obtain ⟨m', hm'⟩ := (Moment.exists_ofMicros?_iff hn).mpr hback
    have hcount := (Moment.ofMicros?_eq_some_iff.mp hm').2
    refine ⟨.datetime m', rfl, read_count _ (BigEndian.length_encode _ _) (Read.takes_int64 n) hm', ?_⟩
    rw [payload, hcount, counted]
  | localDatetime m =>
    obtain ⟨n, hn, rfl⟩ := counted_eq_ok hp
    obtain ⟨m', hm'⟩ := (Moment.exists_ofMicros?_iff hn).mpr hback
    have hcount := (Moment.ofMicros?_eq_some_iff.mp hm').2
    refine ⟨.localDatetime m', rfl,
      read_count _ (BigEndian.length_encode _ _) (Read.takes_int64 n) hm', ?_⟩
    rw [payload, hcount, counted]
  | localTime t =>
    obtain rfl := Except.ok.inj hp
    obtain ⟨t', ht'⟩ := t.exists_ofMicros?_iff.mpr hback
    have hcount := (TimeOfDay.ofMicros?_eq_some_iff.mp ht').2
    refine ⟨.localTime t', rfl, read_count _ (BigEndian.length_encode _ _) (Read.takes_int64 _) ht', ?_⟩
    rw [payload, hcount]
  | duration d =>
    obtain ⟨n, hn, rfl⟩ := counted_eq_ok hp
    obtain ⟨d', hd'⟩ := (Duration.exists_ofWireMicros?_iff hn).mpr hback
    have hcount := (Duration.ofWireMicros?_eq_some_iff.mp hd').2
    refine ⟨.duration d', rfl, read_count _ (length_duration n) (takes_duration n) hd', ?_⟩
    rw [payload, hcount, counted]
  | json j =>
    obtain rfl := Except.ok.inj hp
    obtain ⟨j', hparse, htext⟩ := hjson j rfl
    refine ⟨.json j', rfl, read_json hparse, ?_⟩
    rw [payload, htext]
  | _ => exact ⟨_, rfl, read_payload ⟨trivial, trivial⟩ hp, hp⟩

/-- The payload of any other scalar is rejected: the count in it is out of range. -/
theorem read_payload_of_not_comesBack {s : Scalar} {bs : Bytes} (hback : ¬s.ComesBack)
    (hp : s.payload = .ok bs) : ∃ what, s.type.read bs = .error (.outOfRange what) := by
  have hnone : ∀ {α : Type} {x : Option α}, ¬(∃ a, x = some a) → x = none := by
    intro α x h
    exact Option.eq_none_iff_forall_ne_some.mpr fun a ha => h ⟨a, ha⟩
  cases s with
  | datetime m | localDatetime m =>
    obtain ⟨n, hn, rfl⟩ := counted_eq_ok hp
    exact ⟨_, read_count_none _ (BigEndian.length_encode _ _) (Read.takes_int64 n)
      (hnone (mt (Moment.exists_ofMicros?_iff hn).mp hback))⟩
  | localTime t =>
    obtain rfl := Except.ok.inj hp
    exact ⟨_, read_count_none _ (BigEndian.length_encode _ _) (Read.takes_int64 _)
      (hnone (mt t.exists_ofMicros?_iff.mp hback))⟩
  | duration d =>
    obtain ⟨n, hn, rfl⟩ := counted_eq_ok hp
    exact ⟨_, read_count_none _ (length_duration n) (takes_duration n)
      (hnone (mt (Duration.exists_ofWireMicros?_iff hn).mp hback))⟩
  | _ => exact (hback trivial).elim

end Scalar

namespace Codec

/-- What the codec of a scalar type writes are the payloads of the scalars of the type. -/
theorem encode_scalar_eq_ok {id : Uuid} {type : ScalarType} {v : Value} {w w' : Writer} :
    (Codec.scalar id type).encode v w = .ok w' ↔
      ∃ s bytes, v = .scalar s ∧ s.type = type ∧ s.payload = .ok bytes ∧ w' = w.raw bytes := by
  constructor
  · intro h
    cases v with
    | scalar s =>
      rw [encode] at h
      split at h
      · rename_i htype
        obtain ⟨bytes, hp, h⟩ := outcome_bind_eq_ok.mp h
        exact ⟨s, bytes, rfl, htype, hp, (Except.ok.inj h).symm⟩
      · cases h
    | _ => cases h
  · rintro ⟨s, bytes, rfl, rfl, hp, rfl⟩
    rw [encode, if_pos rfl, hp]
    rfl

/-- The codec of a scalar type reads what it has written, and uses it up, exactly if the scalar is
one that comes back; what it reads is written by the same bytes again. The payload of any other
scalar it rejects as out of range. The text of JSON is taken to survive being parsed and printed. -/
theorem scalar_reencode {id : Uuid} {type : ScalarType} {v : Value} {w : Writer}
    (h : (Codec.scalar id type).encode v .empty = .ok w)
    (hjson : ∀ j, v = .scalar (.json j) → j.TextSurvives) :
    ∃ s bytes, v = .scalar s ∧ w.intoBytes = .ok bytes ∧
      (s.ComesBack → ∃ v', (Codec.scalar id type).decode bytes = .ok (v', []) ∧
        (Codec.scalar id type).encode v' .empty = .ok w) ∧
      (¬s.ComesBack → ∃ what, (Codec.scalar id type).decode bytes = .error (.outOfRange what)) := by
  obtain ⟨s, bytes, rfl, rfl, hp, rfl⟩ := encode_scalar_eq_ok.mp h
  refine ⟨s, bytes, rfl, rfl, fun hback => ?_, fun hback => ?_⟩
  · have hsurvives : ∀ j, s = .json j → j.TextSurvives := fun j hj => hjson j (by rw [hj])
    obtain ⟨s', htype, hread, hp'⟩ := Scalar.read_payload_of_comesBack hsurvives hback hp
    refine ⟨.scalar s', ?_, encode_scalar_eq_ok.mpr ⟨s', bytes, rfl, htype, hp', rfl⟩⟩
    rw [decode]
    exact Read.map_of_ok _ hread
  · obtain ⟨what, hread⟩ := Scalar.read_payload_of_not_comesBack hback hp
    refine ⟨what, ?_⟩
    rw [decode]
    exact Read.bind_of_error (f := fun s => pure (Value.scalar s)) hread

/-- A leap second in the middle of a minute. -/
theorem scalar_reencode_leap :
    let leap : TimeOfDay := ⟨30, 1500000000, by decide, by decide⟩
    let v := Value.scalar (.datetime ⟨⟨10957, by decide⟩, leap⟩)
    let w : Writer := ⟨[0, 0, 0, 0, 1, 224, 166, 224], []⟩
    let codec := Codec.scalar ScalarType.datetime.id .datetime
    codec.encode v .empty = .ok w ∧ ∃ v', codec.decode w.buffer = .ok (v', []) ∧
      codec.encode v' .empty = .ok w := by
  dsimp only
  have h : (Codec.scalar ScalarType.datetime.id .datetime).encode (.scalar (.datetime
      ⟨⟨10957, by decide⟩, ⟨30, 1500000000, by decide, by decide⟩⟩)) .empty =
      .ok ⟨[0, 0, 0, 0, 1, 224, 166, 224], []⟩ :=
    encode_scalar_eq_ok.mpr ⟨_, _, rfl, rfl, rfl, rfl⟩
  obtain ⟨s, bytes, hv, hbytes, hback, -⟩ := scalar_reencode h fun _ hj => by cases hj
  obtain rfl := Value.scalar.inj hv
  obtain rfl := Except.ok.inj hbytes
  refine ⟨h, hback ?_⟩
  rintro ⟨hlast, -⟩
  revert hlast
  decide

/-- Three payloads that are written and not read: the microseconds of a duration whose nanoseconds
64 bits do not hold, and the leap seconds at the end of a day and of the calendar. -/
theorem scalar_unread :
    let leap : TimeOfDay := ⟨86399, 1000000000, by decide, by decide⟩
    let written (s : Scalar) (bytes : Bytes) (what : String) :=
      let codec := Codec.scalar s.type.id s.type
      codec.encode (.scalar s) .empty = .ok ⟨bytes, []⟩ ∧
        codec.decode bytes = .error (.outOfRange what)
    written (.duration ⟨9223372036854776000⟩)
        [0, 32, 196, 155, 165, 227, 83, 248, 0, 0, 0, 0, 0, 0, 0, 0] "duration" ∧
      written (.localTime leap) [0, 0, 0, 20, 29, 215, 96, 0] "local_time" ∧
      written (.datetime ⟨⟨lastDay, by decide⟩, leap⟩) [113, 237, 93, 56, 67, 154, 0, 0]
        "datetime" := by
  dsimp only
  refine ⟨⟨?_, rfl⟩, ⟨?_, rfl⟩, ?_, rfl⟩
  · exact encode_scalar_eq_ok.mpr ⟨_, _, rfl, rfl, rfl, rfl⟩
  · exact encode_scalar_eq_ok.mpr ⟨_, _, rfl, rfl, rfl, rfl⟩
  · exact encode_scalar_eq_ok.mpr ⟨_, _, rfl, rfl, rfl, rfl⟩

end Codec

end TypedWire
