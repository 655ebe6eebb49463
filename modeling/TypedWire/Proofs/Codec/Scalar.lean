import TypedWire.Codec.Scalar
import TypedWire.Proofs.Calendar.Wire
import TypedWire.Proofs.Codec.Meets

/-!
# Scalars survive the wire

- `Scalar.WholeMicros`: dates, times and durations that a count of microseconds can say.
- `Scalar.Exact`: scalars that survive the wire; JSON has to survive being printed and parsed.
- `Scalar.read_payload`: reading the payload of an exact scalar gives the scalar.
- `ScalarType.meets_read`: reading gives a scalar of the type, of whole microseconds.
- `ScalarType.takesFront_read`: what is left unread is an end piece of the payload.
-/

namespace TypedWire

open Read (Meets Takes TakesFront)

namespace Scalar

/-- Dates and times of whole microseconds and in no leap second, durations of whole microseconds
whose nanoseconds 64 bits hold. -/
def WholeMicros : Scalar → Prop
  | .datetime m | .localDatetime m => m.time.WholeMicros
  | .localTime t => t.WholeMicros
  | .duration d => d.WholeMicros
  | _ => True

/-- JSON that is the same after it was printed and parsed. -/
def JsonSurvives : Scalar → Prop
  | .json j => Json.parse? j.compact = some j
  | _ => True

/-- A scalar that the wire can say without loss. -/
structure Exact (s : Scalar) : Prop where
  wholeMicros : s.WholeMicros
  jsonSurvives : s.JsonSurvives

end Scalar

/-! ## Reading back -/

namespace ScalarType

theorem sized_of_takes (type : ScalarType) {α : Type} {p : Read DecodeError α} {bs : Bytes} {a : α}
    {length : Nat} (hlen : bs.length = length) (hp : Takes p bs a) :
    sized type length p bs = .ok (a, []) := by
  have hremaining : Read.remaining (ε := DecodeError) bs = .ok (length, bs) := by
    rw [Read.remaining, hlen]
  refine (Read.bind_of_ok hremaining).trans ?_
  rw [if_neg (fun h => h rfl)]
  exact hp.run

theorem wholeText_encode (s : String) : wholeText (Utf8.encode s) = .ok (s, []) := by
  have hrest : Read.rest (ε := DecodeError) (Utf8.encode s) = .ok (Utf8.encode s, []) := rfl
  refine (Read.bind_of_ok hrest).trans ?_
  rw [Utf8.decode?_eq_some_iff.mpr rfl]
  rfl

end ScalarType

namespace Scalar

theorem counted_eq_ok {α : Type} {what : String} {spell : α → Bytes} {count : Option α}
    {bs : Bytes} (h : counted what spell count = .ok bs) : ∃ n, count = some n ∧ spell n = bs := by
  cases count with
  | none => cases h
  | some n => exact ⟨n, rfl, Except.ok.inj h⟩

/-- A count that is read back and turned into what was counted. -/
theorem read_count {α β : Type} (type : ScalarType) {length : Nat} {p : Read DecodeError α}
    {of? : α → Option β} {e : DecodeError} {f : β → Scalar} {bs : Bytes} {n : α} {b : β}
    (hlen : bs.length = length) (hp : Takes p bs n) (hof : of? n = some b) :
    (do
      let n ← type.sized length p
      f <$> ScalarType.present e (of? n)) bs = .ok (f b, []) := by
  refine (Read.bind_of_ok (type.sized_of_takes hlen hp)).trans ?_
  rw [hof]
  rfl

/-- A count that is read back and is not that of anything. -/
theorem read_count_none {α β : Type} (type : ScalarType) {length : Nat} {p : Read DecodeError α}
    {of? : α → Option β} {e : DecodeError} {f : β → Scalar} {bs : Bytes} {n : α}
    (hlen : bs.length = length) (hp : Takes p bs n) (hof : of? n = none) :
    (do
      let n ← type.sized length p
      f <$> ScalarType.present e (of? n)) bs = .error e := by
  refine (Read.bind_of_ok (type.sized_of_takes hlen hp)).trans ?_
  rw [hof]
  rfl

theorem length_duration (n : Int64) : (word64 n ++ List.replicate 8 0).length = 16 := by
  rw [List.length_append, word64, BigEndian.length_encode, List.length_replicate]

/-- The eight bytes behind the count of a duration are reserved. -/
theorem takes_duration (n : Int64) : Takes (do
    let micros ← Read.int64
    Read.skip 8
    return micros) (word64 n ++ List.replicate 8 0) n := by
  have hskip : Takes (Read.skip 8) (List.replicate 8 0) () :=
    Read.takes_skip (List.replicate 8 0)
  have hbytes : Takes (do
      let micros ← Read.int64
      Read.skip 8
      return micros) (word64 n ++ (List.replicate 8 0 ++ [])) n :=
    (Read.takes_int64 n).bind (hskip.bind (.pure n))
  rwa [List.append_nil] at hbytes

/-- The text of a JSON value is read as what it is parsed as. -/
theorem read_json {j j' : Json} (h : Json.parse? j.compact = some j') :
    ScalarType.json.read (jsonFormat :: Utf8.encode j.compact) = .ok (.json j', []) := by
  have hformat := Read.takes_uint8 jsonFormat (Utf8.encode j.compact)
  refine (Read.bind_of_ok hformat).trans ?_
  dsimp only
  rw [if_neg (fun hne => hne rfl)]
  refine (Read.bind_of_ok (ScalarType.wholeText_encode j.compact)).trans ?_
  rw [h]
  rfl

/-- Reading the payload of an exact scalar gives the scalar. -/
theorem read_payload {s : Scalar} {bs : Bytes} (h : s.Exact) (hp : s.payload = .ok bs) :
    s.type.read bs = .ok (s, []) := by
  cases s with
  | uuid u =>
    obtain rfl := Except.ok.inj hp
    exact Read.map_of_ok _ (ScalarType.sized_of_takes _ (Uuid.length_toBytes u)
      (Read.reads_uuid.takes rfl))
  | str s =>
    obtain rfl := Except.ok.inj hp
    exact Read.map_of_ok _ (ScalarType.wholeText_encode s)
  | bytes content =>
    obtain rfl := Except.ok.inj hp
    rfl
  | int16 n =>
    obtain rfl := Except.ok.inj hp
    exact Read.map_of_ok _ (ScalarType.sized_of_takes _ (BigEndian.length_encode _ _)
      (Read.takes_int16 n))
  | int32 n =>
    obtain rfl := Except.ok.inj hp
    exact Read.map_of_ok _ (ScalarType.sized_of_takes _ (BigEndian.length_encode _ _)
      (Read.takes_int32 n))
  | int64 n =>
    obtain rfl := Except.ok.inj hp
    exact Read.map_of_ok _ (ScalarType.sized_of_takes _ (BigEndian.length_encode _ _)
      (Read.takes_int64 n))
  | float32 bits =>
    obtain rfl := Except.ok.inj hp
    exact Read.map_of_ok _ (ScalarType.sized_of_takes _ (BigEndian.length_encode _ _)
      (Read.reads_uint32.takes rfl))
  | float64 bits =>
    obtain rfl := Except.ok.inj hp
    exact Read.map_of_ok _ (ScalarType.sized_of_takes _ (BigEndian.length_encode _ _)
      (Read.reads_uint64.takes rfl))
  | bool b =>
    obtain rfl := Except.ok.inj hp
    cases b <;> rfl
  | datetime m | localDatetime m =>
    obtain ⟨n, hn, rfl⟩ := counted_eq_ok hp
    exact read_count _ (BigEndian.length_encode _ _) (Read.takes_int64 n)
      (Moment.ofMicros?_eq_some_iff.mpr ⟨h.wholeMicros, hn⟩)
  | localDate d =>
    obtain ⟨n, hn, rfl⟩ := counted_eq_ok hp
    exact read_count _ (BigEndian.length_encode _ _) (Read.takes_int32 n)
      (Date.ofWireDays?_eq_some_iff.mpr hn)
  | localTime t =>
    obtain rfl := Except.ok.inj hp
    exact read_count _ (BigEndian.length_encode _ _) (Read.takes_int64 _)
      (TimeOfDay.ofMicros?_eq_some_iff.mpr ⟨h.wholeMicros, rfl⟩)
  | duration d =>
    obtain ⟨n, hn, rfl⟩ := counted_eq_ok hp
    exact read_count _ (length_duration n) (takes_duration n)
      (Duration.ofWireMicros?_eq_some_iff.mpr ⟨h.wholeMicros, hn⟩)
  | json j =>
    obtain rfl := Except.ok.inj hp
    exact read_json h.jsonSurvives

end Scalar

/-! ## What is read -/

namespace ScalarType

theorem meets_sized {α : Type} {good : α → Prop} (type : ScalarType) (length : Nat)
    {p : Read DecodeError α} (hp : Meets p good DecodeError.InBytes) :
    Meets (sized type length p) good DecodeError.InBytes := by
  have hremaining : Meets (ε := DecodeError) Read.remaining (fun _ => True) DecodeError.InBytes :=
    ⟨fun _ => trivial, fun hrun => nomatch (show Except.ok _ = Except.error _ from hrun)⟩
  refine hremaining.bind fun found _ => ?_
  dsimp only
  split
  · exact .throw_bind fun _ h => nomatch h
  · exact hp

theorem meets_present {α : Type} {e : DecodeError} (he : e.InBytes) (found : Option α) :
    Meets (present e found) (fun a => found = some a) DecodeError.InBytes := by
  cases found with
  | none => exact .throw he
  | some a => exact .pure rfl

theorem meets_rest : Meets (ε := DecodeError) Read.rest (fun _ => True) DecodeError.InBytes :=
  ⟨fun _ => trivial, fun hrun => nomatch (show Except.ok _ = Except.error _ from hrun)⟩

theorem meets_wholeText : Meets wholeText (fun _ => True) DecodeError.InBytes := by
  have hutf8 : DecodeError.invalidUtf8.InBytes := fun _ h => nomatch h
  exact meets_rest.bind fun bytes _ =>
    (meets_present hutf8 (Utf8.decode? bytes)).mono fun _ _ => trivial

/-- A count that is read gives what it counts. -/
theorem meets_count {α β : Type} {good : Scalar → Prop} (type : ScalarType) (length : Nat)
    {p : Read DecodeError α} (hp : Meets p (fun _ => True) DecodeError.InBytes) (what : String)
    {of? : α → Option β} {f : β → Scalar} (hof : ∀ n b, of? n = some b → good (f b)) :
    Meets (do
      let n ← sized type length p
      f <$> present (.outOfRange what) (of? n)) good DecodeError.InBytes := by
  have hrange : (DecodeError.outOfRange what).InBytes := fun _ h => nomatch h
  exact (meets_sized type length hp).bind fun n _ =>
    (meets_present hrange (of? n)).map f fun b hb => hof n b hb

/-- Reading a scalar gives one of its type, of whole microseconds. -/
theorem meets_read (type : ScalarType) :
    Meets type.read (fun s => s.type = type ∧ s.WholeMicros) DecodeError.InBytes := by
  have hword : ∀ {α : Type} (f : Nat → α) (width : Nat),
      Meets (f <$> Read.word width) (fun _ => True) DecodeError.InBytes :=
    fun f width => (meets_word width).map f fun _ _ => trivial
  have huuid : Meets Read.uuid (fun _ => True) DecodeError.InBytes :=
    (meets_take 16).map _ fun _ h => h
  have hint16 : Meets Read.int16 (fun _ => True) DecodeError.InBytes :=
    (hword UInt16.ofNat 2).map _ fun _ h => h
  have hint64 : Meets Read.int64 (fun _ => True) DecodeError.InBytes :=
    (hword UInt64.ofNat 8).map _ fun _ h => h
  cases type with
  | uuid => exact (meets_sized _ _ huuid).map _ fun _ _ => ⟨rfl, trivial⟩
  | str => exact meets_wholeText.map _ fun _ _ => ⟨rfl, trivial⟩
  | bytes => exact meets_rest.map _ fun _ _ => ⟨rfl, trivial⟩
  | int16 => exact (meets_sized _ _ hint16).map _ fun _ _ => ⟨rfl, trivial⟩
  | int32 => exact (meets_sized _ _ meets_int32).map _ fun _ _ => ⟨rfl, trivial⟩
  | int64 => exact (meets_sized _ _ hint64).map _ fun _ _ => ⟨rfl, trivial⟩
  | float32 => exact (meets_sized _ _ meets_uint32).map _ fun _ _ => ⟨rfl, trivial⟩
  | float64 => exact (meets_sized _ _ (hword UInt64.ofNat 8)).map _ fun _ _ => ⟨rfl, trivial⟩
  | bool => exact (meets_sized _ _ meets_uint8).map _ fun _ _ => ⟨rfl, trivial⟩
  | datetime | localDatetime =>
    exact meets_count _ _ hint64 _ fun n m hm => ⟨rfl, (Moment.ofMicros?_eq_some_iff.mp hm).1⟩
  | localDate => exact meets_count _ _ meets_int32 _ fun _ _ _ => ⟨rfl, trivial⟩
  | localTime =>
    exact meets_count _ _ hint64 _ fun n t ht => ⟨rfl, (TimeOfDay.ofMicros?_eq_some_iff.mp ht).1⟩
  | duration =>
    have hmicros : Meets (do
        let micros ← Read.int64
        Read.skip 8
        return micros) (fun _ => True) DecodeError.InBytes :=
      hint64.bind fun micros _ => (meets_skip 8).bind fun _ _ => .pure trivial
    exact meets_count _ _ hmicros _ fun n d hd =>
      ⟨rfl, (Duration.ofWireMicros?_eq_some_iff.mp hd).1⟩
  | json =>
    have hjson : DecodeError.invalidJson.InBytes := fun _ h => nomatch h
    have htext : Meets (do
        let text ← wholeText
        Scalar.json <$> present .invalidJson (Json.parse? text))
        (fun s => s.type = .json ∧ s.WholeMicros) DecodeError.InBytes :=
      meets_wholeText.bind fun text _ =>
        (meets_present hjson (Json.parse? text)).map _ fun _ _ => ⟨rfl, trivial⟩
    refine meets_uint8.bind fun format _ => ?_
    dsimp only
    split
    · exact .throw_bind fun _ h => nomatch h
    · exact htext

/-! ## What is left unread -/

theorem takesFront_sized {α : Type} (type : ScalarType) (length : Nat) {p : Read DecodeError α}
    (hp : TakesFront p) : TakesFront (sized type length p) := by
  have hremaining : TakesFront (Read.remaining : Read DecodeError Nat) :=
    ⟨fun hrun => (Prod.mk.inj (Except.ok.inj hrun)).2 ▸ List.suffix_rfl⟩
  refine hremaining.bind fun found => ?_
  split
  · exact (TakesFront.throw _).bind fun _ => hp
  · exact hp

theorem takesFront_present {α : Type} (e : DecodeError) (found : Option α) :
    TakesFront (present e found) := by
  cases found with
  | some a => exact .pure a
  | none => exact .throw e

theorem takesFront_rest : TakesFront (Read.rest : Read DecodeError Bytes) :=
  ⟨fun hrun => (Prod.mk.inj (Except.ok.inj hrun)).2 ▸ List.nil_suffix⟩

theorem takesFront_wholeText : TakesFront wholeText :=
  takesFront_rest.bind fun _ => takesFront_present _ _

/-- What is left unread is an end piece of the payload. -/
theorem takesFront_read (type : ScalarType) : TakesFront type.read := by
  have hword : ∀ {α : Type} (f : Nat → α) (width : Nat), TakesFront (f <$> Read.word width) :=
    fun f width => (TakesFront.word width).map f
  have hint32 : TakesFront Read.int32 := TakesFront.uint32.map _
  have hint64 : TakesFront Read.int64 := (hword UInt64.ofNat 8).map _
  cases type with
  | uuid => exact (takesFront_sized _ _ .uuid).map _
  | str => exact takesFront_wholeText.map _
  | bytes => exact takesFront_rest.map _
  | int16 => exact (takesFront_sized _ _ ((hword UInt16.ofNat 2).map _)).map _
  | int32 => exact (takesFront_sized _ _ hint32).map _
  | int64 => exact (takesFront_sized _ _ hint64).map _
  | float32 => exact (takesFront_sized _ _ .uint32).map _
  | float64 => exact (takesFront_sized _ _ (hword UInt64.ofNat 8)).map _
  | bool => exact (takesFront_sized _ _ .uint8).map _
  | datetime | localDatetime | localTime =>
    exact (takesFront_sized _ _ hint64).bind fun _ => (takesFront_present _ _).map _
  | localDate => exact (takesFront_sized _ _ hint32).bind fun _ => (takesFront_present _ _).map _
  | duration =>
    have hmicros : TakesFront (do
        let micros ← Read.int64
        Read.skip 8
        return micros) := hint64.bind fun _ => (TakesFront.skip 8).bind fun _ => .pure _
    exact (takesFront_sized _ _ hmicros).bind fun _ => (takesFront_present _ _).map _
  | json =>
    refine TakesFront.uint8.bind fun format => ?_
    have htext : TakesFront (do
        let text ← wholeText
        Scalar.json <$> present .invalidJson (Json.parse? text)) :=
      takesFront_wholeText.bind fun _ => (takesFront_present _ _).map _
    split
    · exact (TakesFront.throw _).bind fun _ => htext
    · exact htext

end ScalarType

end TypedWire
