import TypedWire.Calendar.Wire

/-!
# Dates and times survive the wire

Each count on the wire is that of exactly one date, time or duration, and each of those that is a
whole count of microseconds, with no leap second, is the one of its own count.

- `TimeOfDay.WholeMicros`, `Duration.WholeMicros`: what a count of microseconds can say.
- `Moment.ofMicros?_eq_some_iff`, `TimeOfDay.ofMicros?_eq_some_iff`, `Date.ofWireDays?_eq_some_iff`,
  `Duration.ofWireMicros?_eq_some_iff`: reading a count undoes counting, and only that.
- `Moment.exists_toMicros?`, `Date.exists_toWireDays?`, `Duration.exists_toMicros?`: what has a
  count.
- `Moment.exists_ofMicros?_iff`, `TimeOfDay.exists_ofMicros?_iff`,
  `Duration.exists_ofWireMicros?_iff`: whose count is one that is read back.
-/

namespace TypedWire

/-- A time that is a whole count of microseconds and in no leap second. -/
def TimeOfDay.WholeMicros (t : TimeOfDay) : Prop :=
  t.nanos % 1000 = 0 ∧ t.nanos < nanosPerSecond

/-- A duration that is a whole count of microseconds and whose nanoseconds 64 bits hold, with
either sign. -/
def Duration.WholeMicros (d : Duration) : Prop :=
  d.nanos % 1000 = 0 ∧ (d.nanos / 1000).natAbs ≤ Int64.maxValue.toInt.toNat / 1000

theorem Date.ofDays?_eq_some_iff {n : Int} {d : Date} : Date.ofDays? n = some d ↔ d.days = n := by
  unfold Date.ofDays?
  constructor
  · intro h
    split at h
    · exact (congrArg Date.days (Option.some.inj h)).symm
    · cases h
  · rintro rfl
    rw [dif_pos d.inCalendar]

/-- Below a thousand million, nanoseconds stand in any second. -/
theorem leapLast_of_lt {seconds nanos : Nat} (h : nanos < nanosPerSecond) :
    LeapLast seconds nanos :=
  fun hleap => (Nat.not_le.mpr h hleap).elim

theorem TimeOfDay.of?_eq_some_iff {seconds nanos : Nat} {t : TimeOfDay} :
    TimeOfDay.of? seconds nanos = some t ↔
      (t.seconds = seconds ∧ t.nanos = nanos) ∧ LeapLast t.seconds t.nanos := by
  unfold TimeOfDay.of?
  constructor
  · intro h
    split at h
    · rename_i hparts
      obtain rfl := Option.some.inj h
      exact ⟨⟨rfl, rfl⟩, hparts.2.2⟩
    · cases h
  · rintro ⟨⟨rfl, rfl⟩, hleap⟩
    rw [dif_pos ⟨t.onDay, t.inSecond, hleap⟩]

theorem Moment.ofUnix?_eq_some_iff {seconds : Int} {nanos : Nat} {m : Moment} :
    Moment.ofUnix? seconds nanos = some m ↔
      (m.unixSeconds = seconds ∧ m.time.nanos = nanos) ∧
        LeapLast m.time.seconds m.time.nanos := by
  have hday : (0 : Int) < secondsPerDay := by decide
  have honDay := m.time.onDay
  unfold Moment.ofUnix? Moment.unixSeconds
  constructor
  · intro h
    obtain ⟨date, hdate, h⟩ := Option.bind_eq_some_iff.mp h
    obtain ⟨time, htime, h⟩ := Option.bind_eq_some_iff.mp h
    obtain rfl := Option.some.inj h
    obtain ⟨⟨hseconds, hnanos⟩, hleap⟩ := TimeOfDay.of?_eq_some_iff.mp htime
    rw [Date.ofDays?_eq_some_iff] at hdate
    refine ⟨⟨?_, hnanos⟩, hleap⟩
    -- the date and the seconds of the day are the quotient and the remainder
    have hmod := Int.emod_nonneg seconds (Int.ne_of_gt hday)
    have hsplit := Int.mul_ediv_add_emod seconds secondsPerDay
    show date.days * (secondsPerDay : Int) + (time.seconds : Int) = seconds
    rw [hdate, hseconds, Int.toNat_of_nonneg hmod, Int.mul_comm, hsplit]
  · rintro ⟨⟨rfl, rfl⟩, hleap⟩
    have hlt : (m.time.seconds : Int) < secondsPerDay := Int.ofNat_lt.mpr honDay
    have hdiv : (m.date.days * secondsPerDay + m.time.seconds) / (secondsPerDay : Int) =
        m.date.days := by
      rw [Int.add_comm, Int.add_mul_ediv_right _ _ (Int.ne_of_gt hday),
        Int.ediv_eq_zero_of_lt (Int.natCast_nonneg _) hlt, Int.zero_add]
    have hmod : ((m.date.days * secondsPerDay + m.time.seconds) % (secondsPerDay : Int)).toNat =
        m.time.seconds := by
      rw [Int.add_comm, Int.add_mul_emod_self_right,
        Int.emod_eq_of_lt (Int.natCast_nonneg _) hlt, Int.toNat_natCast]
    rw [hdiv, hmod, Date.ofDays?_eq_some_iff.mpr rfl,
      TimeOfDay.of?_eq_some_iff.mpr ⟨⟨rfl, rfl⟩, hleap⟩]
    rfl

/-- There is a time in every second of the day. -/
theorem TimeOfDay.exists_of? {seconds nanos : Nat} (honDay : seconds < secondsPerDay)
    (hinSecond : nanos < nanosPerSecond) : ∃ t, TimeOfDay.of? seconds nanos = some t := by
  unfold TimeOfDay.of?
  rw [dif_pos ⟨honDay, by omega, leapLast_of_lt hinSecond⟩]
  exact ⟨_, rfl⟩

/-- Outside leap seconds there are moments in exactly the seconds of the days of the calendar. -/
theorem Moment.exists_ofUnix?_iff {seconds : Int} {nanos : Nat}
    (hinSecond : nanos < nanosPerSecond) : (∃ m, Moment.ofUnix? seconds nanos = some m) ↔
      firstDay ≤ seconds / secondsPerDay ∧ seconds / secondsPerDay ≤ lastDay := by
  constructor
  · rintro ⟨m, hm⟩
    obtain ⟨date, hdate, -⟩ := Option.bind_eq_some_iff.mp hm
    rw [← Date.ofDays?_eq_some_iff.mp hdate]
    exact date.inCalendar
  · intro hday
    have honDay : (seconds % secondsPerDay).toNat < secondsPerDay := by
      unfold secondsPerDay
      omega
    obtain ⟨time, htime⟩ := TimeOfDay.exists_of? honDay hinSecond
    unfold Moment.ofUnix? Date.ofDays?
    rw [dif_pos hday, htime]
    exact ⟨_, rfl⟩

/-! ## Counts of microseconds -/

/-- A count of microseconds splits into its seconds and the rest in one way. -/
theorem micros_split {micros seconds : Int} {nanos : Nat} (hwhole : nanos % 1000 = 0)
    (hsecond : nanos < nanosPerSecond) :
    micros = seconds * microsPerSecond + (nanos / 1000 : Nat) ↔
      micros / microsPerSecond = seconds ∧ (micros % microsPerSecond * 1000).toNat = nanos := by
  unfold nanosPerSecond at hsecond
  unfold microsPerSecond
  omega

theorem micros_nanos (micros : Int) :
    (micros % microsPerSecond * 1000).toNat % 1000 = 0 ∧
      (micros % microsPerSecond * 1000).toNat < nanosPerSecond := by
  unfold nanosPerSecond microsPerSecond
  omega

/-- The moment of a count is the one in whole microseconds that has the count. -/
theorem Moment.ofMicros?_eq_some_iff {micros : Int64} {m : Moment} :
    Moment.ofMicros? micros = some m ↔ m.time.WholeMicros ∧ m.toMicros? = some micros := by
  unfold Moment.ofMicros? Moment.toMicros?
  rw [Moment.ofUnix?_eq_some_iff, int64?_eq_some_iff]
  constructor
  · rintro ⟨⟨hseconds, hnanos⟩, -⟩
    have hwhole : m.time.WholeMicros := by
      unfold TimeOfDay.WholeMicros
      rw [hnanos]
      exact micros_nanos _
    refine ⟨hwhole, (micros_split hwhole.1 hwhole.2).mpr ⟨?_, hnanos.symm⟩⟩
    rw [hseconds]
    omega
  · rintro ⟨hwhole, hmicros⟩
    obtain ⟨hseconds, hnanos⟩ := (micros_split hwhole.1 hwhole.2).mp hmicros
    exact ⟨⟨by rw [hseconds]; omega, hnanos.symm⟩, leapLast_of_lt hwhole.2⟩

/-- A day has so few microseconds that their count is never cut off. -/
theorem TimeOfDay.toInt_toMicros (t : TimeOfDay) :
    t.toMicros.toInt = t.seconds * microsPerSecond + (t.nanos / 1000 : Nat) := by
  have honDay : t.seconds < 86400 := t.onDay
  have hinSecond : t.nanos < 2 * 1000000000 := t.inSecond
  unfold TimeOfDay.toMicros microsPerSecond
  refine toInt_ofInt_of_fits ?_
  rw [Int64.toInt_minValue, Int64.toInt_maxValue]
  omega

/-- The time of a count is the one in whole microseconds that has the count. -/
theorem TimeOfDay.ofMicros?_eq_some_iff {micros : Int64} {t : TimeOfDay} :
    TimeOfDay.ofMicros? micros = some t ↔ t.WholeMicros ∧ t.toMicros = micros := by
  have honDay : t.seconds < 86400 := t.onDay
  have hinSecond : t.nanos < 2 * 1000000000 := t.inSecond
  rw [← Int64.toInt_inj, t.toInt_toMicros, eq_comm (b := micros.toInt)]
  unfold TimeOfDay.ofMicros?
  dsimp only
  constructor
  · intro h
    split at h
    · cases h
    · rename_i hpos
      obtain ⟨⟨hseconds, hnanos⟩, -⟩ := TimeOfDay.of?_eq_some_iff.mp h
      have hwhole : t.WholeMicros := by
        unfold TimeOfDay.WholeMicros
        rw [hnanos]
        exact micros_nanos _
      refine ⟨hwhole, (micros_split hwhole.1 hwhole.2).mpr ⟨?_, hnanos.symm⟩⟩
      omega
  · rintro ⟨hwhole, hmicros⟩
    obtain ⟨hseconds, hnanos⟩ := (micros_split hwhole.1 hwhole.2).mp hmicros
    rw [if_neg (by omega), hseconds, Int.toNat_natCast]
    exact TimeOfDay.of?_eq_some_iff.mpr ⟨⟨rfl, hnanos.symm⟩, leapLast_of_lt hwhole.2⟩

/-- The date of a count is the one that has the count. -/
theorem Date.ofWireDays?_eq_some_iff {days : Int32} {d : Date} :
    Date.ofWireDays? days = some d ↔ d.toWireDays? = some days := by
  unfold Date.ofWireDays? Date.toWireDays?
  rw [Date.ofDays?_eq_some_iff, int32?_eq_some_iff]
  omega

/-- The duration of a count is the one in whole microseconds that has the count. -/
theorem Duration.ofWireMicros?_eq_some_iff {micros : Int64} {d : Duration} :
    Duration.ofWireMicros? micros = some d ↔ d.WholeMicros ∧ d.toMicros? = some micros := by
  unfold Duration.ofWireMicros? Duration.toMicros? Duration.WholeMicros
  rw [Option.map_eq_some_iff, int64?_eq_some_iff, Int64.toInt_maxValue]
  constructor
  · rintro ⟨nanos, hnanos, rfl⟩
    rw [int64?_eq_some_iff] at hnanos
    have hlo := Int64.le_toInt nanos
    have hhi := Int64.toInt_lt nanos
    dsimp only
    rw [hnanos, Int.mul_tdiv_cancel _ (by decide)]
    omega
  · rintro ⟨⟨hwhole, hfits⟩, hmicros⟩
    have hnanos : micros.toInt * 1000 = d.nanos := by
      rw [hmicros]
      exact Int.tdiv_mul_cancel (Int.dvd_of_emod_eq_zero hwhole)
    -- so few microseconds that their nanoseconds are a count, too
    have hword : Int64.minValue.toInt ≤ d.nanos ∧ d.nanos ≤ Int64.maxValue.toInt := by
      rw [Int64.toInt_minValue, Int64.toInt_maxValue]
      omega
    refine ⟨Int64.ofInt d.nanos, ?_, ?_⟩
    · rw [int64?_eq_some_iff, toInt_ofInt_of_fits hword, hnanos]
    · rw [toInt_ofInt_of_fits hword]

/-! ## What has a count -/

/-- The wire has a count for every date. -/
theorem Date.exists_toWireDays? (d : Date) : ∃ n, d.toWireDays? = some n := by
  have hfirst : -96465292 ≤ d.days := d.inCalendar.1
  have hlast : d.days ≤ 95026236 := d.inCalendar.2
  unfold Date.toWireDays? int32? wireEpochDays
  rw [Int32.toInt_minValue, Int32.toInt_maxValue, if_pos (by omega)]
  exact ⟨_, rfl⟩

/-- The wire has a count for every moment. -/
theorem Moment.exists_toMicros? (m : Moment) : ∃ n, m.toMicros? = some n := by
  have hfirst : -96465292 ≤ m.date.days := m.date.inCalendar.1
  have hlast : m.date.days ≤ 95026236 := m.date.inCalendar.2
  have honDay : m.time.seconds < 86400 := m.time.onDay
  have hinSecond : m.time.nanos < 2 * 1000000000 := m.time.inSecond
  unfold Moment.toMicros? int64? Moment.unixSeconds wireEpochSeconds microsPerSecond secondsPerDay
  rw [Int64.toInt_minValue, Int64.toInt_maxValue, if_pos (by omega)]
  exact ⟨_, rfl⟩

/-- The wire has a count for every duration of whole microseconds. -/
theorem Duration.exists_toMicros? {d : Duration} (h : d.WholeMicros) :
    ∃ n, d.toMicros? = some n := by
  obtain ⟨hwhole, hfits⟩ := h
  have hdiv : d.nanos.tdiv 1000 = d.nanos / 1000 :=
    Int.tdiv_eq_ediv_of_dvd (Int.dvd_of_emod_eq_zero hwhole)
  rw [Int64.toInt_maxValue] at hfits
  unfold Duration.toMicros? int64?
  rw [hdiv, Int64.toInt_minValue, Int64.toInt_maxValue, if_pos (by omega)]
  exact ⟨_, rfl⟩

/-! ## What comes back from its count -/

/-- The leap second after the last second of a day. -/
def TimeOfDay.EndsDay (t : TimeOfDay) : Prop :=
  t.seconds + 1 = secondsPerDay ∧ nanosPerSecond ≤ t.nanos

/-- The leap second after the last second of the calendar. -/
def Moment.EndsCalendar (m : Moment) : Prop :=
  m.date.days = lastDay ∧ m.time.EndsDay

/-- The whole microseconds of a duration, as nanoseconds, fit in 64 bits. -/
def Duration.InReach (d : Duration) : Prop :=
  Int64.minValue.toInt ≤ d.nanos.tdiv 1000 * 1000 ∧
    d.nanos.tdiv 1000 * 1000 ≤ Int64.maxValue.toInt

/-- A leap second counts as the second after it, which the last one of a day does not have. -/
theorem TimeOfDay.exists_ofMicros?_iff (t : TimeOfDay) :
    (∃ t', TimeOfDay.ofMicros? t.toMicros = some t') ↔ ¬t.EndsDay := by
  have honDay : t.seconds < 86400 := t.onDay
  have hinSecond : t.nanos < 2 * 1000000000 := t.inSecond
  have hcount := t.toInt_toMicros
  unfold TimeOfDay.EndsDay
  constructor
  · rintro ⟨t', ht'⟩ ⟨hlast, hleap⟩
    have honDay' : t'.seconds < 86400 := t'.onDay
    obtain ⟨hwhole, heq⟩ := TimeOfDay.ofMicros?_eq_some_iff.mp ht'
    have hcount' := t'.toInt_toMicros
    rw [heq, hcount] at hcount'
    unfold TimeOfDay.WholeMicros at hwhole
    unfold microsPerSecond at hcount'
    unfold nanosPerSecond at hwhole hleap
    unfold secondsPerDay at hlast
    omega
  · intro hends
    unfold TimeOfDay.ofMicros?
    dsimp only
    have hseconds : (t.toMicros.toInt / microsPerSecond).toNat < secondsPerDay := by
      rw [hcount]
      unfold nanosPerSecond secondsPerDay at hends
      unfold microsPerSecond secondsPerDay
      omega
    rw [if_neg]
    · exact TimeOfDay.exists_of? hseconds (micros_nanos _).2
    · rw [hcount]
      unfold microsPerSecond
      omega

/-- A leap second counts as the second after it, which the last one of the calendar does not have. -/
theorem Moment.exists_ofMicros?_iff {m : Moment} {micros : Int64} (h : m.toMicros? = some micros) :
    (∃ m', Moment.ofMicros? micros = some m') ↔ ¬m.EndsCalendar := by
  have hfirst : -96465292 ≤ m.date.days := m.date.inCalendar.1
  have hlast : m.date.days ≤ 95026236 := m.date.inCalendar.2
  have honDay : m.time.seconds < 86400 := m.time.onDay
  have hinSecond : m.time.nanos < 2 * 1000000000 := m.time.inSecond
  unfold Moment.toMicros? Moment.unixSeconds at h
  rw [int64?_eq_some_iff] at h
  unfold Moment.ofMicros? Moment.EndsCalendar TimeOfDay.EndsDay
  rw [Moment.exists_ofUnix?_iff (micros_nanos _).2, h]
  unfold wireEpochSeconds microsPerSecond secondsPerDay nanosPerSecond firstDay lastDay
  omega

/-- The count of a duration is that of a duration exactly if it is in reach. -/
theorem Duration.exists_ofWireMicros?_iff {d : Duration} {micros : Int64}
    (h : d.toMicros? = some micros) :
    (∃ d', Duration.ofWireMicros? micros = some d') ↔ d.InReach := by
  have hcount : micros.toInt = d.nanos.tdiv 1000 := int64?_eq_some_iff.mp h
  unfold Duration.ofWireMicros? Duration.InReach int64?
  rw [hcount]
  constructor
  · rintro ⟨d', hd'⟩
    split at hd'
    · assumption
    · cases hd'
  · intro hreach
    rw [if_pos hreach]
    exact ⟨_, rfl⟩

end TypedWire
