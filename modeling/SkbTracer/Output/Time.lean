import Mathlib.Data.BitVec
import Mathlib.Algebra.Ring.Nat

/-!
# Wall-clock times

An event has a timestamp of the monotonic clock. `format_current_time` and
`format_absolute_time` add the offset between the two clocks and split the sum `r` into
seconds and milliseconds. Division and remainder truncate towards zero. A negative
remainder is repaired in the milliseconds, where a second is added, and not in the
seconds, where it is not taken away.

So the two are the floor of `r` unless it is negative, and then only if it is a whole
number of seconds.

- `floorAt_iff`: when seconds and milliseconds are the floor of the sum.
- `formats_agree`: both formats split alike, and show one instant: each text is that of
  `localtime_r` of the seconds, with the milliseconds behind it. The buffers hold the
  texts, and there is nothing to be padded.
- `sum_le_iff`: a timestamp is cast to a signed number before it is added. Later
  timestamps have later sums unless only the second of them is 2^63 or more.
- `wall_clock_iff`: for two events, when both are shown at their instants and in their
  order; `beforeEpoch_differs` is a case where they are not.

`localtime_r` is a parameter, and may be any function of the seconds into the fields of a
`struct tm` in their ranges: time zones and leap seconds are its own. A sum that overflows
is undefined in the source, and the theorems are about events whose sums do not. The
offset is computed once, at the first event that is shown (`getBootRealtimeNs_again`).
-/

namespace SkbTracer.Output

/-! ## The code -/

/-- `struct timespec`. -/
structure Timespec where
  tvSec : Int
  tvNsec : Int
  deriving DecidableEq, Repr

/-- The time in nanoseconds. -/
def Timespec.ns (ts : Timespec) : Int := ts.tvSec * 1000000000 + ts.tvNsec

/-- `get_boot_realtime_ns()`. `s` is `s_boot_realtime_ns` if `s_init` is set, the others
are what the two clocks say. -/
def getBootRealtimeNs (s : Option (BitVec 64)) (realTs monoTs : Timespec) :
    BitVec 64 × Option (BitVec 64) :=
  match s with
  | some bootRealtimeNs => (bootRealtimeNs, s)
  | none =>
    let bootRealtimeNs := BitVec.ofInt 64 (realTs.ns - monoTs.ns)
    (bootRealtimeNs, some bootRealtimeNs)

/-- `struct tm`, as `localtime_r` fills it. -/
structure Tm where
  tmYear : Int
  tmMon : Fin 12
  tmMday : Fin 32
  tmHour : Fin 24
  tmMin : Fin 60
  /-- a leap second has the number 60 -/
  tmSec : Fin 61
  /-- `tm_year + 1900` is an `int` -/
  year : -2 ^ 31 ≤ tmYear ∧ tmYear + 1900 < 2 ^ 31

/-- `get_boot_realtime_ns() + static_cast<int64_t>(event_ts)`; `none` if it overflows. -/
def eventRealtimeNs (boot eventTs : BitVec 64) : Option Int :=
  let r := boot.toInt + eventTs.toInt
  if -2 ^ 63 ≤ r ∧ r < 2 ^ 63 then some r else none

/-- `event_realtime_ns / 1000000000LL`. -/
def wallSec (r : Int) : Int := r.tdiv 1000000000

/-- The milliseconds, repaired if they are negative. -/
def wallMs (r : Int) : Int :=
  let ms := (r.tmod 1000000000).tdiv 1000000
  if ms < 0 then ms + 1000 else ms

/-- `%0<width>d`. -/
def zeroPadded (width : Nat) (n : Int) : List Char :=
  if n < 0 then '-' :: (Nat.toDigits 10 n.natAbs).leftpad (width - 1) '0'
  else (Nat.toDigits 10 n.natAbs).leftpad width '0'

/-- What `snprintf` leaves in a buffer of the size. -/
def inBuffer (size : Nat) (text : List Char) : List Char := text.take (size - 1)

/-- `"%02d:%02d:%02d.%03d"`. -/
def clockText (tm : Tm) (ms : Int) : List Char :=
  zeroPadded 2 tm.tmHour ++ ':' :: (zeroPadded 2 tm.tmMin ++
    ':' :: (zeroPadded 2 tm.tmSec ++ '.' :: zeroPadded 3 ms))

/-- `"%04d-%02d-%02d"`. -/
def dateText (tm : Tm) : List Char :=
  zeroPadded 4 (tm.tmYear + 1900) ++ '-' :: (zeroPadded 2 (tm.tmMon + 1) ++
    '-' :: zeroPadded 2 tm.tmMday)

/-- `format_current_time(event_ts)`; `boot` is the offset between the clocks. -/
def formatCurrentTime (localtimeR : Int → Tm) (boot eventTs : BitVec 64) : Option (List Char) :=
  (eventRealtimeNs boot eventTs).map fun r =>
    (inBuffer 32 (clockText (localtimeR (wallSec r)) (wallMs r))).rightpad 12 ' '

/-- `format_absolute_time(event_ts)`. -/
def formatAbsoluteTime (localtimeR : Int → Tm) (boot eventTs : BitVec 64) : Option (List Char) :=
  (eventRealtimeNs boot eventTs).map fun r =>
    (inBuffer 64 (dateText (localtimeR (wallSec r)) ++
      'T' :: clockText (localtimeR (wallSec r)) (wallMs r))).rightpad 23 ' '

/-! ## What is to be shown -/

/-- Seconds and milliseconds make up the floor of `r`, in milliseconds. -/
structure FloorAt (r sec ms : Int) : Prop where
  range : 0 ≤ ms ∧ ms ≤ 999
  floor : sec * 1000 + ms = r / 1000000

/-- Of two pairs of seconds and milliseconds the first is not the later one. -/
def NotLater (p q : Int × Int) : Prop := p.1 < q.1 ∨ p.1 = q.1 ∧ p.2 ≤ q.2

/-- Both formats show the instant of these seconds and milliseconds: the time of day is that
of `localtime_r` for the seconds, and the absolute time has the date of the same before it. -/
structure SameInstant (localtimeR : Int → Tm) (boot eventTs : BitVec 64) (sec ms : Int) :
    Prop where
  current : formatCurrentTime localtimeR boot eventTs = some (clockText (localtimeR sec) ms)
  absolute : formatAbsoluteTime localtimeR boot eventTs =
    some (dateText (localtimeR sec) ++ 'T' :: clockText (localtimeR sec) ms)

/-- The timestamps have one sign as `int64_t`, or the sums are in one millisecond. -/
def SignKept (ts₁ ts₂ : BitVec 64) (r₁ r₂ : Int) : Prop :=
  ts₁.toNat < 2 ^ 63 → 2 ^ 63 ≤ ts₂.toNat → r₁ / 1000000 = r₂ / 1000000

/-- Two events at `r₁` and `r₂` are shown when they happened, in their order, and the
same in both formats. -/
structure WallClock (localtimeR : Int → Tm) (boot ts₁ ts₂ : BitVec 64) (r₁ r₂ : Int) : Prop where
  first : FloorAt r₁ (wallSec r₁) (wallMs r₁)
  second : FloorAt r₂ (wallSec r₂) (wallMs r₂)
  monotone : ts₁ ≤ ts₂ → NotLater (wallSec r₁, wallMs r₁) (wallSec r₂, wallMs r₂)
  firstInstant : SameInstant localtimeR boot ts₁ (wallSec r₁) (wallMs r₁)
  secondInstant : SameInstant localtimeR boot ts₂ (wallSec r₂) (wallMs r₂)

/-- Not before the epoch, or a whole number of seconds before it. -/
def WholeOrLater (r : Int) : Prop := 0 ≤ r ∨ 1000000000 ∣ r

variable {r r₁ r₂ : Int} {boot ts₁ ts₂ eventTs : BitVec 64} {localtimeR : Int → Tm}

/-- The offset is that of the first call, whatever the clocks say later. -/
theorem getBootRealtimeNs_again (s : Option (BitVec 64))
    (realTs monoTs realTs' monoTs' : Timespec) :
    getBootRealtimeNs (getBootRealtimeNs s realTs monoTs).2 realTs' monoTs' =
      getBootRealtimeNs s realTs monoTs := by
  cases s with
  | none => rfl
  | some bootRealtimeNs => rfl

/-! ## Seconds and milliseconds -/

/-- Without a sign, truncation is the floor. -/
theorem wall_of_nonneg (h : 0 ≤ r) :
    wallSec r = r / 1000000000 ∧ wallMs r = r % 1000000000 / 1000000 := by
  have hrem : 0 ≤ r % 1000000000 := Int.emod_nonneg r (by decide)
  unfold wallSec wallMs
  rw [Int.tdiv_eq_ediv_of_nonneg h, Int.tmod_eq_emod_of_nonneg h,
    Int.tdiv_eq_ediv_of_nonneg hrem]
  exact ⟨rfl, if_neg (by omega)⟩

/-- With one, both are cut on the other side of zero. -/
theorem wall_of_neg (h : r < 0) :
    wallSec r = -(-r / 1000000000) ∧
      wallMs r = if -r % 1000000000 / 1000000 = 0 then 0
        else 1000 - -r % 1000000000 / 1000000 := by
  obtain ⟨n, rfl⟩ : ∃ n, r = -n := ⟨-r, by omega⟩
  have hn : 0 ≤ n := by omega
  have hrem : 0 ≤ n % 1000000000 := Int.emod_nonneg n (by decide)
  unfold wallSec wallMs
  rw [Int.neg_neg, Int.neg_tdiv, Int.neg_tmod, Int.neg_tdiv, Int.tdiv_eq_ediv_of_nonneg hn,
    Int.tmod_eq_emod_of_nonneg hn, Int.tdiv_eq_ediv_of_nonneg hrem]
  refine ⟨rfl, ?_⟩
  dsimp only
  split
  · rw [if_neg (by omega)]
    omega
  · rw [if_pos (by omega)]
    omega

theorem wallMs_range (r : Int) : 0 ≤ wallMs r ∧ wallMs r ≤ 999 := by
  by_cases h : 0 ≤ r
  · rw [(wall_of_nonneg h).2]
    omega
  · rw [(wall_of_neg (by omega)).2]
    split
    · omega
    · omega

/-- **The two are the floor exactly at and after the epoch, and at whole seconds before.** -/
theorem floorAt_iff : FloorAt r (wallSec r) (wallMs r) ↔ WholeOrLater r := by
  unfold WholeOrLater
  constructor
  · intro h
    by_contra hnot
    obtain ⟨hneg, hdvd⟩ := not_or.mp hnot
    have hfloor := h.floor
    have hms := h.range
    rw [(wall_of_neg (by omega)).1] at hfloor
    omega
  · intro h
    refine ⟨wallMs_range r, ?_⟩
    by_cases h0 : 0 ≤ r
    · rw [(wall_of_nonneg h0).1, (wall_of_nonneg h0).2]
      omega
    · rw [(wall_of_neg (by omega)).1, (wall_of_neg (by omega)).2, if_pos (by omega)]
      omega

/-- Two floors are in the order of the sums, in milliseconds. -/
theorem notLater_iff {sec₁ ms₁ sec₂ ms₂ : Int} (h₁ : FloorAt r₁ sec₁ ms₁)
    (h₂ : FloorAt r₂ sec₂ ms₂) :
    NotLater (sec₁, ms₁) (sec₂, ms₂) ↔ r₁ / 1000000 ≤ r₂ / 1000000 := by
  have hms₁ := h₁.range
  have hms₂ := h₂.range
  unfold NotLater
  rw [← h₁.floor, ← h₂.floor]
  omega

/-! ## The texts -/

theorem zeroPadded_length {width : Nat} {n : Nat} (hwidth : 0 < width) (h : n < 10 ^ width) :
    (zeroPadded width n).length = width := by
  have hdigits : (Nat.toDigits 10 n).length ≤ width :=
    (Nat.length_toDigits_le_iff (by decide) hwidth).mpr h
  unfold zeroPadded
  rw [if_neg (by omega), Int.natAbs_natCast, List.length_leftpad]
  omega

/-- The time of the day has twelve letters, since every part of it is in its range. -/
theorem clockText_length (tm : Tm) {ms : Int} (h : 0 ≤ ms ∧ ms ≤ 999) :
    (clockText tm ms).length = 12 := by
  have hhour : (zeroPadded 2 tm.tmHour).length = 2 :=
    zeroPadded_length (by decide) (Nat.lt_of_lt_of_le tm.tmHour.isLt (by decide))
  have hmin : (zeroPadded 2 tm.tmMin).length = 2 :=
    zeroPadded_length (by decide) (Nat.lt_of_lt_of_le tm.tmMin.isLt (by decide))
  have hsec : (zeroPadded 2 tm.tmSec).length = 2 :=
    zeroPadded_length (by decide) (Nat.lt_of_lt_of_le tm.tmSec.isLt (by decide))
  have hms : (zeroPadded 3 ms).length = 3 := by
    obtain ⟨n, rfl⟩ := Int.eq_ofNat_of_zero_le h.1
    exact zeroPadded_length (by decide) (by omega)
  unfold clockText
  simp only [List.length_append, List.length_cons, hhour, hmin, hsec, hms]

/-- No number is longer than its digits and a sign, and none shorter than asked. -/
theorem zeroPadded_length_bounds {width digits : Nat} {n : Int} (hwidth : 0 < width)
    (hdigits : 0 < digits) (h : n.natAbs < 10 ^ digits) :
    width ≤ (zeroPadded width n).length ∧ (zeroPadded width n).length ≤ max width (digits + 1) := by
  have hlen : (Nat.toDigits 10 n.natAbs).length ≤ digits :=
    (Nat.length_toDigits_le_iff (by decide) hdigits).mpr h
  unfold zeroPadded
  split
  · rw [List.length_cons, List.length_leftpad]
    omega
  · rw [List.length_leftpad]
    omega

/-- A date has ten letters, or up to seven more if the year has more digits than four.
-/
theorem dateText_length (tm : Tm) : 10 ≤ (dateText tm).length ∧ (dateText tm).length ≤ 17 := by
  have hdigits : (tm.tmYear + 1900).natAbs < 10 ^ 10 := by
    have hrange := tm.year
    omega
  have hyear : 4 ≤ (zeroPadded 4 (tm.tmYear + 1900)).length ∧ _ ≤ max 4 (10 + 1) :=
    zeroPadded_length_bounds (by decide) (by decide) hdigits
  have hmon : (zeroPadded 2 (tm.tmMon + 1)).length = 2 :=
    zeroPadded_length (n := tm.tmMon + 1) (by decide) (by omega)
  have hmday : (zeroPadded 2 tm.tmMday).length = 2 :=
    zeroPadded_length (by decide) (Nat.lt_of_lt_of_le tm.tmMday.isLt (by decide))
  unfold dateText
  simp only [List.length_append, List.length_cons, hmon, hmday]
  omega

theorem inBuffer_of_lt {size : Nat} {text : List Char} (h : text.length < size) :
    inBuffer size text = text := List.take_of_length_le (by omega)

theorem rightpad_of_le {width : Nat} {text : List Char} (h : width ≤ text.length) :
    text.rightpad width ' ' = text := by
  unfold List.rightpad
  rw [Nat.sub_eq_zero_of_le h, List.replicate_zero, List.append_nil]

/-- **Both formats show one instant.** The buffers are long enough, and nothing is padded. -/
theorem formats_agree (localtimeR : Int → Tm) (h : eventRealtimeNs boot eventTs = some r) :
    SameInstant localtimeR boot eventTs (wallSec r) (wallMs r) := by
  have hclock := clockText_length (localtimeR (wallSec r)) (wallMs_range r)
  have hdate := dateText_length (localtimeR (wallSec r))
  have hlen : (dateText (localtimeR (wallSec r)) ++
      'T' :: clockText (localtimeR (wallSec r)) (wallMs r)).length =
        (dateText (localtimeR (wallSec r))).length + 13 := by
    rw [List.length_append, List.length_cons, hclock]
  constructor
  · unfold formatCurrentTime
    rw [h, Option.map_some, inBuffer_of_lt (by omega), rightpad_of_le (by omega)]
  · unfold formatAbsoluteTime
    rw [h, Option.map_some, inBuffer_of_lt (by omega), rightpad_of_le (by omega)]

/-! ## Two events -/

theorem eq_sum_of_eventRealtimeNs (h : eventRealtimeNs boot eventTs = some r) :
    r = boot.toInt + eventTs.toInt := by
  unfold eventRealtimeNs at h
  dsimp only at h
  split at h
  · exact (Option.some.inj h).symm
  · cases h

/-- The order of two timestamps is that of the sums, unless the cast to `int64_t` gives
the later one a sign. -/
theorem sum_le_iff (h₁ : eventRealtimeNs boot ts₁ = some r₁)
    (h₂ : eventRealtimeNs boot ts₂ = some r₂) (hle : ts₁ ≤ ts₂) :
    r₁ ≤ r₂ ↔ ¬ (ts₁.toNat < 2 ^ 63 ∧ 2 ^ 63 ≤ ts₂.toNat) := by
  rw [eq_sum_of_eventRealtimeNs h₁, eq_sum_of_eventRealtimeNs h₂, BitVec.toInt_eq_toNat_cond ts₁,
    BitVec.toInt_eq_toNat_cond ts₂]
  have hlt₁ := ts₁.isLt
  have hlt₂ := ts₂.isLt
  have hnat : ts₁.toNat ≤ ts₂.toNat := hle
  split
  · split
    · omega
    · omega
  · split
    · omega
    · omega

/-- **Wall-clock times are right exactly if no sum is a broken second before the epoch**, and
the cast of the two timestamps keeps their order. -/
theorem wall_clock_iff (localtimeR : Int → Tm) (boot ts₁ ts₂ : BitVec 64) (r₁ r₂ : Int)
    (h₁ : eventRealtimeNs boot ts₁ = some r₁) (h₂ : eventRealtimeNs boot ts₂ = some r₂) :
    WallClock localtimeR boot ts₁ ts₂ r₁ r₂ ↔
      WholeOrLater r₁ ∧ WholeOrLater r₂ ∧ SignKept ts₁ ts₂ r₁ r₂ := by
  constructor
  · intro hwall
    refine ⟨floorAt_iff.mp hwall.first, floorAt_iff.mp hwall.second, ?_⟩
    intro hlow hhigh
    -- the later event has the smaller sum here, so the two can only be equal
    have hle : ts₁ ≤ ts₂ := show ts₁.toNat ≤ ts₂.toNat by omega
    have hfloor := (notLater_iff hwall.first hwall.second).mp (hwall.monotone hle)
    have hsum : ¬ r₁ ≤ r₂ := fun h => (sum_le_iff h₁ h₂ hle).mp h ⟨hlow, hhigh⟩
    omega
  · intro ⟨hwhole₁, hwhole₂, hsign⟩
    have hfloor₁ := floorAt_iff.mpr hwhole₁
    have hfloor₂ := floorAt_iff.mpr hwhole₂
    refine ⟨hfloor₁, hfloor₂, ?_, formats_agree _ h₁, formats_agree _ h₂⟩
    intro hle
    rw [notLater_iff hfloor₁ hfloor₂]
    by_cases hcast : ts₁.toNat < 2 ^ 63 ∧ 2 ^ 63 ≤ ts₂.toNat
    · exact le_of_eq (hsign hcast.1 hcast.2)
    · have hsum := (sum_le_iff h₁ h₂ hle).mpr hcast
      omega

/-- `localtime_r` in UTC, on the first of January 1970. -/
def firstDay (sec : Int) : Tm where
  tmYear := 70
  tmMon := 0
  tmMday := 1
  tmHour := Fin.ofNat 24 (sec / 3600).toNat
  tmMin := Fin.ofNat 60 (sec / 60).toNat
  tmSec := Fin.ofNat 61 (sec % 60).toNat
  year := by decide

/-- A second and a half after the epoch, and another second later, the times are right. -/
theorem wall_clock_iff_firstDay :
    WallClock firstDay 0 1500000000 2500000000 1500000000 2500000000 :=
  (wall_clock_iff firstDay 0 1500000000 2500000000 1500000000 2500000000 (by decide)
    (by decide)).mpr ⟨Or.inl (by decide), Or.inl (by decide), fun _ h => absurd h (by decide)⟩

example : formatAbsoluteTime firstDay 0 1500000000 = some "1970-01-01T00:00:01.500".toList := by
  decide

/-- Half a second before the epoch is shown as half a second after it, and the epoch half
a second later as before that. -/
theorem beforeEpoch_differs :
    eventRealtimeNs (-5000000000) 4500000000 = some (-500000000) ∧
      eventRealtimeNs (-5000000000) 5000000000 = some 0 ∧
      (wallSec (-500000000), wallMs (-500000000)) = (0, 500) ∧
      ¬ FloorAt (-500000000) (wallSec (-500000000)) (wallMs (-500000000)) ∧
      ¬ NotLater (wallSec (-500000000), wallMs (-500000000)) (wallSec 0, wallMs 0) ∧
      ¬ WallClock firstDay (-5000000000) 4500000000 5000000000 (-500000000) 0 := by
  have hfloor : ¬ FloorAt (-500000000) (wallSec (-500000000)) (wallMs (-500000000)) := by
    rw [floorAt_iff]
    unfold WholeOrLater
    decide
  refine ⟨by decide, by decide, by decide, hfloor, ?_, fun hwall => hfloor hwall.first⟩
  unfold NotLater
  decide

end SkbTracer.Output
