import TypedWire.Calendar.Civil
import TypedWire.Proofs.Codec.Scalar

/-!
# Counts on the wire are exact

For every count that a word can hold it is settled whether it is one of a moment, a time or a date,
and which. No step on the way to a moment or back leaves the words that it is made in.

- `Moment.SplitsIn`, `Moment.CountsIn`: the words on the way from a count to a moment and back.
- `Moment.Marks`: the moment that a count stands for.
- `Moment.Before`: the order of moments.
- `ScalarType.ReadsExactly`: the payload of a count is read under a condition, and written again.
- `wire_counts_exact`: all of this for moments, times of day and dates.
-/

namespace TypedWire

/-- The first second of the calendar, counted from 1970-01-01. -/
def firstSecond : Int := firstDay * secondsPerDay

/-- The last second of the calendar, apart from the leap second after it. -/
def lastSecond : Int := lastDay * secondsPerDay + (secondsPerDay - 1)

namespace Moment

/-- The start of 2000-01-01, from which the wire counts. -/
def wireEpoch : Moment := ⟨⟨wireEpochDays, by decide⟩, .midnight⟩

/-- The nanoseconds from 1970-01-01 to a moment. -/
def unixNanos (m : Moment) : Int := m.unixSeconds * nanosPerSecond + m.time.nanos

/-- One moment is earlier than another: in an earlier second, or earlier in the same one. -/
def Before (m n : Moment) : Prop :=
  m.unixSeconds < n.unixSeconds ∨ m.unixSeconds = n.unixSeconds ∧ m.time.nanos < n.time.nanos

/-- A count of microseconds falls in a second of the calendar. -/
def InCalendar (micros : Int64) : Prop :=
  firstSecond ≤ wireEpochSeconds + micros.toInt / microsPerSecond ∧
    wireEpochSeconds + micros.toInt / microsPerSecond ≤ lastSecond

/-- The words on the way from a count of microseconds to a second and its nanoseconds. Each is the
number that it is meant to be, and the nanoseconds fit in 32 bits. -/
structure SplitsIn (micros whole rest seconds nanos : Int64) : Prop where
  whole_eq : whole.toInt = micros.toInt / microsPerSecond
  rest_eq : rest.toInt = micros.toInt % microsPerSecond
  seconds_eq : seconds.toInt = wireEpochSeconds + whole.toInt
  nanos_eq : nanos.toInt = rest.toInt * 1000
  unsigned : 0 ≤ nanos.toInt ∧ nanos.toInt < UInt32.size

/-- The words on the way from a moment to its count of microseconds: the seconds from the epoch,
these in microseconds, and the count. -/
structure CountsIn (m : Moment) (seconds product micros : Int64) : Prop where
  seconds_eq : seconds.toInt = m.unixSeconds - wireEpochSeconds
  product_eq : product.toInt = seconds.toInt * microsPerSecond
  micros_eq : micros.toInt = product.toInt + (m.time.nanos / 1000 : Nat)

/-- A moment is the one that lies a count of microseconds after the epoch of the wire, it is in no
leap second, and it has the count. -/
structure Marks (m : Moment) (micros : Int64) : Prop where
  distance : m.unixNanos = wireEpoch.unixNanos + micros.toInt * 1000
  inSecond : m.time.nanos < nanosPerSecond
  back : m.toMicros? = some micros

/-- An integer that a word can hold is one. -/
theorem exists_word {n : Int} (hlo : -9223372036854775808 ≤ n) (hhi : n < 9223372036854775808) :
    ∃ w : Int64, w.toInt = n :=
  ⟨Int64.ofInt n, Int64.toInt_ofInt_of_le (by omega) (by omega)⟩

/-- No step from a count to its second and nanoseconds overflows. -/
theorem exists_splitsIn (micros : Int64) : ∃ whole rest seconds nanos,
    SplitsIn micros whole rest seconds nanos := by
  have hlo := Int64.le_toInt micros
  have hhi := Int64.toInt_lt micros
  have hrest : 0 ≤ micros.toInt % microsPerSecond ∧ micros.toInt % microsPerSecond < 1000000 := by
    unfold microsPerSecond
    omega
  obtain ⟨whole, hwhole⟩ : ∃ w : Int64, w.toInt = micros.toInt / microsPerSecond :=
    exists_word (by unfold microsPerSecond; omega) (by unfold microsPerSecond; omega)
  obtain ⟨rest, hrestWord⟩ : ∃ w : Int64, w.toInt = micros.toInt % microsPerSecond :=
    exists_word (by omega) (by omega)
  obtain ⟨seconds, hseconds⟩ : ∃ w : Int64, w.toInt = wireEpochSeconds + whole.toInt := by
    unfold wireEpochSeconds
    unfold microsPerSecond at hwhole
    exact exists_word (by omega) (by omega)
  obtain ⟨nanos, hnanos⟩ : ∃ w : Int64, w.toInt = rest.toInt * 1000 :=
    exists_word (by omega) (by omega)
  have hunsigned : 0 ≤ nanos.toInt ∧ nanos.toInt < UInt32.size := by
    show _ ∧ _ < (4294967296 : Int)
    omega
  exact ⟨whole, rest, seconds, nanos, hwhole, hrestWord, hseconds, hnanos, hunsigned⟩

/-- The moment of a count is the one at the second and the nanoseconds that it splits into. -/
theorem SplitsIn.ofMicros? {micros whole rest seconds nanos : Int64}
    (h : SplitsIn micros whole rest seconds nanos) :
    Moment.ofMicros? micros = ofUnix? seconds.toInt nanos.toInt.toNat := by
  rw [Moment.ofMicros?, h.seconds_eq, h.whole_eq, h.nanos_eq, h.rest_eq]

/-- No step from a moment to its count overflows, whatever its nanoseconds are. -/
theorem exists_countsIn (m : Moment) : ∃ seconds product micros,
    m.CountsIn seconds product micros := by
  have hfirst : -96465292 ≤ m.date.days := m.date.inCalendar.1
  have hlast : m.date.days ≤ 95026236 := m.date.inCalendar.2
  have honDay : m.time.seconds < 86400 := m.time.onDay
  have hinSecond : m.time.nanos < 2 * 1000000000 := m.time.inSecond
  obtain ⟨seconds, hseconds⟩ : ∃ w : Int64, w.toInt = m.unixSeconds - wireEpochSeconds := by
    unfold unixSeconds wireEpochSeconds secondsPerDay
    exact exists_word (by omega) (by omega)
  have hbound : -8335547913600 ≤ seconds.toInt ∧ seconds.toInt < 8209320192000 := by
    rw [hseconds]
    unfold unixSeconds wireEpochSeconds secondsPerDay
    omega
  obtain ⟨product, hproduct⟩ : ∃ w : Int64, w.toInt = seconds.toInt * microsPerSecond := by
    unfold microsPerSecond
    exact exists_word (by omega) (by omega)
  obtain ⟨micros, hmicros⟩ :
      ∃ w : Int64, w.toInt = product.toInt + (m.time.nanos / 1000 : Nat) := by
    unfold microsPerSecond at hproduct
    exact exists_word (by omega) (by omega)
  exact ⟨seconds, product, micros, hseconds, hproduct, hmicros⟩

/-- The count of a moment is what the steps arrive at. -/
theorem CountsIn.toMicros? {m : Moment} {seconds product micros : Int64}
    (h : m.CountsIn seconds product micros) : m.toMicros? = some micros := by
  rw [Moment.toMicros?, int64?_eq_some_iff, h.micros_eq, h.product_eq, h.seconds_eq]

/-- The counts of moments are those that fall in a second of the calendar. -/
theorem exists_ofMicros?_iff_inCalendar (micros : Int64) :
    (∃ m, Moment.ofMicros? micros = some m) ↔ InCalendar micros := by
  unfold Moment.ofMicros? InCalendar
  rw [exists_ofUnix?_iff (micros_nanos _).2]
  unfold firstSecond lastSecond firstDay lastDay secondsPerDay
  omega

/-- The moment of a count lies as many microseconds after the epoch, and has the count. -/
theorem marks_of_ofMicros? {micros : Int64} {m : Moment} (h : Moment.ofMicros? micros = some m) :
    m.Marks micros := by
  obtain ⟨hwhole, hback⟩ := ofMicros?_eq_some_iff.mp h
  obtain ⟨⟨hseconds, hnanos⟩, -⟩ := ofUnix?_eq_some_iff.mp h
  refine ⟨?_, hwhole.2, hback⟩
  have hepoch : wireEpoch.unixNanos = 946684800 * 1000000000 := by decide
  rw [unixNanos, hepoch, hseconds, hnanos]
  unfold wireEpochSeconds microsPerSecond nanosPerSecond
  omega

/-- Of two counts the smaller one is that of the earlier moment. -/
theorem before_of_ofMicros? {a b : Int64} {m n : Moment} (hlt : a < b)
    (hm : Moment.ofMicros? a = some m) (hn : Moment.ofMicros? b = some n) : m.Before n := by
  obtain ⟨⟨hseconds, hnanos⟩, -⟩ := ofUnix?_eq_some_iff.mp hm
  obtain ⟨⟨hseconds', hnanos'⟩, -⟩ := ofUnix?_eq_some_iff.mp hn
  have hlt : a.toInt < b.toInt := Int64.lt_iff_toInt_lt.mp hlt
  rw [Before, hseconds, hseconds', hnanos, hnanos']
  unfold microsPerSecond
  omega

end Moment

/-- The counts of times of day are those of the microseconds of a day. -/
theorem TimeOfDay.exists_ofMicros?_iff_onDay (micros : Int64) :
    (∃ t, TimeOfDay.ofMicros? micros = some t) ↔
      0 ≤ micros.toInt ∧ micros.toInt < 86400000000 := by
  constructor
  · rintro ⟨t, ht⟩
    have honDay : t.seconds < 86400 := t.onDay
    obtain ⟨⟨-, hinSecond⟩, rfl⟩ := TimeOfDay.ofMicros?_eq_some_iff.mp ht
    rw [t.toInt_toMicros]
    unfold nanosPerSecond at hinSecond
    unfold microsPerSecond
    omega
  · rintro ⟨hlo, hhi⟩
    have honDay : (micros.toInt / microsPerSecond).toNat < secondsPerDay := by
      unfold microsPerSecond secondsPerDay
      omega
    unfold TimeOfDay.ofMicros?
    dsimp only
    rw [if_neg]
    · exact TimeOfDay.exists_of? honDay (micros_nanos _).2
    · unfold microsPerSecond
      omega

/-- The counts of dates are those of the days of the calendar. -/
theorem Date.exists_ofWireDays?_iff (days : Int32) : (∃ d, Date.ofWireDays? days = some d) ↔
    firstDay ≤ wireEpochDays + days.toInt ∧ wireEpochDays + days.toInt ≤ lastDay := by
  unfold Date.ofWireDays?
  constructor
  · rintro ⟨d, hd⟩
    rw [← Date.ofDays?_eq_some_iff.mp hd]
    exact d.inCalendar
  · intro hdays
    rw [Date.ofDays?, dif_pos hdays]
    exact ⟨_, rfl⟩

/-! ## Payloads -/

/-- A payload is read under a condition, as a scalar that is written as the payload again; without
the condition it is out of range. -/
structure ScalarType.ReadsExactly (type : ScalarType) (payload : Bytes) (what : String)
    (fits : Prop) : Prop where
  read : fits → ∃ s, type.read payload = .ok (s, []) ∧ s.payload = .ok payload
  refused : ¬fits → type.read payload = .error (.outOfRange what)

/-- The payload of a count is read exactly if the count is that of something. -/
theorem ScalarType.readsExactly_of_count {α β : Type} {type : ScalarType} {length : Nat}
    {p : Read DecodeError α} {of? : α → Option β} {what : String} {f : β → Scalar} {bs : Bytes}
    {n : α} {fits : Prop}
    (hread : type.read = do
      let n ← type.sized length p
      f <$> ScalarType.present (.outOfRange what) (of? n))
    (hlen : bs.length = length) (hp : Read.Takes p bs n) (hfits : (∃ b, of? n = some b) ↔ fits)
    (hback : ∀ b, of? n = some b → (f b).payload = .ok bs) :
    type.ReadsExactly bs what fits where
  read h := by
    obtain ⟨b, hb⟩ := hfits.mpr h
    refine ⟨f b, ?_, hback b hb⟩
    rw [hread]
    exact Scalar.read_count type hlen hp hb
  refused h := by
    have hnone : of? n = none :=
      Option.eq_none_iff_forall_ne_some.mpr fun b hb => h (hfits.mp ⟨b, hb⟩)
    rw [hread]
    exact Scalar.read_count_none type hlen hp hnone

open Scalar (word64 word32)

/-- For every count of microseconds, splitting it into a second and nanoseconds overflows nowhere;
there is a moment exactly if the second is one of the calendar, it lies the count of microseconds
after the start of 2000-01-01, in no leap second, and has the count. Later counts are those of later
moments. Every moment, in a leap second or between two microseconds, has a count, to which no step
overflows. What is read of a moment, a time of day or a date is so for exactly the counts that are
in range, and is written as the same count. -/
theorem wire_counts_exact :
    Date.ofCivil? ⟨2000, 1, 1⟩ = some Moment.wireEpoch.date ∧
    (∀ micros : Int64,
      (∃ whole rest seconds nanos, Moment.SplitsIn micros whole rest seconds nanos ∧
        Moment.ofMicros? micros = Moment.ofUnix? seconds.toInt nanos.toInt.toNat) ∧
      ((∃ m, Moment.ofMicros? micros = some m) ↔ Moment.InCalendar micros) ∧
      ∀ m, Moment.ofMicros? micros = some m → m.Marks micros) ∧
    (∀ (a b : Int64) (m n : Moment), a < b → Moment.ofMicros? a = some m →
      Moment.ofMicros? b = some n → m.Before n) ∧
    (∀ m : Moment, ∃ seconds product micros, m.CountsIn seconds product micros ∧
      m.toMicros? = some micros) ∧
    (∀ micros : Int64,
      ScalarType.ReadsExactly .datetime (word64 micros) "datetime" (Moment.InCalendar micros) ∧
      ScalarType.ReadsExactly .localDatetime (word64 micros) "datetime"
        (Moment.InCalendar micros) ∧
      ScalarType.ReadsExactly .localTime (word64 micros) "local_time"
        (0 ≤ micros.toInt ∧ micros.toInt < 86400000000)) ∧
    ∀ days : Int32, ScalarType.ReadsExactly .localDate (word32 days) "local_date"
      (firstDay ≤ wireEpochDays + days.toInt ∧ wireEpochDays + days.toInt ≤ lastDay) := by
  have hmoment : ∀ {micros : Int64} {m : Moment}, Moment.ofMicros? micros = some m →
      m.toMicros? = some micros := fun h => (Moment.marks_of_ofMicros? h).back
  refine ⟨by decide, fun micros => ⟨?_, Moment.exists_ofMicros?_iff_inCalendar micros, fun m =>
    Moment.marks_of_ofMicros?⟩, fun a b m n => Moment.before_of_ofMicros?, fun m => ?_,
    fun micros => ⟨?_, ?_, ?_⟩, fun days => ?_⟩
  · obtain ⟨whole, rest, seconds, nanos, h⟩ := Moment.exists_splitsIn micros
    exact ⟨whole, rest, seconds, nanos, h, h.ofMicros?⟩
  · obtain ⟨seconds, product, micros, h⟩ := m.exists_countsIn
    exact ⟨seconds, product, micros, h, h.toMicros?⟩
  · refine ScalarType.readsExactly_of_count rfl (BigEndian.length_encode 8 _) (Read.takes_int64 micros)
      (Moment.exists_ofMicros?_iff_inCalendar micros) fun m hm => ?_
    rw [Scalar.payload, hmoment hm]
    rfl
  · refine ScalarType.readsExactly_of_count rfl (BigEndian.length_encode 8 _) (Read.takes_int64 micros)
      (Moment.exists_ofMicros?_iff_inCalendar micros) fun m hm => ?_
    rw [Scalar.payload, hmoment hm]
    rfl
  · refine ScalarType.readsExactly_of_count rfl (BigEndian.length_encode 8 _) (Read.takes_int64 micros)
      (TimeOfDay.exists_ofMicros?_iff_onDay micros) fun t ht => ?_
    rw [Scalar.payload, (TimeOfDay.ofMicros?_eq_some_iff.mp ht).2]
  · refine ScalarType.readsExactly_of_count rfl (BigEndian.length_encode 4 _) (Read.takes_int32 days)
      (Date.exists_ofWireDays?_iff days) fun d hd => ?_
    rw [Scalar.payload, Date.ofWireDays?_eq_some_iff.mp hd]
    rfl

end TypedWire
