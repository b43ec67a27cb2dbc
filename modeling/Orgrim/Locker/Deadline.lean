import Orgrim.Theory.Signed

/-!
# Deadlines

`cond::timedwaitms` and `locker::trylockforms` of the two copies of `Locker.h`: the deadline that
they pass on, from what `clock_gettime` says.  `ms * 1000000` is an `int`, and the copy next to
`CircleBuffer.h` does not carry into the seconds.

The common copy computes the deadline for up to 2147 milliseconds (`common_isDeadline_iff`), the
other one as long as the nanoseconds stay below a second (`circleBuffer_isDeadline_iff`).
-/

namespace Locker

/-- `struct timespec`; `tv_sec` and `tv_nsec` have 64 bits. -/
structure Timespec where
  sec : ℤ
  nsec : ℤ
  deriving DecidableEq

/-- A time that `pthread_cond_timedwait` takes. -/
def Timespec.Valid (t : Timespec) : Prop := 0 ≤ t.nsec ∧ t.nsec ≤ 999999999

instance (t : Timespec) : Decidable t.Valid :=
  inferInstanceAs (Decidable (_ ∧ _))

/-- The time in nanoseconds. -/
def Timespec.nanoseconds (t : Timespec) : ℤ := t.sec * 1000000000 + t.nsec

/-! ### The source -/

/-- The deadline of `cond::timedwaitms` and of `locker::trylockforms`, in `common/Locker.h`. -/
def timeoutCommon (stCondTimeout : Timespec) (ms : ℤ) : Option Timespec := do
  let span ← Signed.eval 32 (ms * 1000000)
  let sum ← Signed.eval 64 (stCondTimeout.nsec + span)
  if sum ≥ 1000000000 then
    let sec ← Signed.eval 64 (stCondTimeout.sec + sum.tdiv 1000000000)
    some ⟨sec, sum.tmod 1000000000⟩
  else
    let nsec ← Signed.eval 64 (stCondTimeout.nsec + span)
    some ⟨stCondTimeout.sec, nsec⟩

/-- `cond::timedwaitms` of `common/Locker.h`: what it passes to `pthread_cond_timedwait`. -/
def timedwaitms (now : Timespec) (ms : ℤ) : Option Timespec := timeoutCommon now ms

/-- `locker::trylockforms` of `common/Locker.h`: what it passes to `pthread_mutex_timedlock`. -/
def trylockforms (now : Timespec) (ms : ℤ) : Option Timespec := timeoutCommon now ms

/-- `cond::timedwaitms` of the copy next to `CircleBuffer.h`: what it passes to
`pthread_cond_timedwait`. -/
def timedwaitmsCircleBuffer (now : Timespec) (ms : ℤ) : Option Timespec := do
  let span ← Signed.eval 32 (ms * 1000000)
  let nsec ← Signed.eval 64 (now.nsec + span)
  some ⟨now.sec, nsec⟩

/-! ### Deadlines -/

/-- The result is the valid time `ms` milliseconds after `now`. -/
def IsDeadline (now : Timespec) (ms : ℤ) (result : Option Timespec) : Prop :=
  ∃ t, result = some t ∧ t.Valid ∧ t.nanoseconds = now.nanoseconds + ms * 1000000

section

variable {now t : Timespec} {ms : ℤ}

theorem isDeadline_some :
  IsDeadline now ms (some t) ↔ t.Valid ∧ t.nanoseconds = now.nanoseconds + ms * 1000000
  := by
  simp [IsDeadline]

/-- There is one valid time for a number of nanoseconds. -/
theorem valid_ext {t' : Timespec} (h : t.Valid) (h' : t'.Valid)
    (heq : t.nanoseconds = t'.nanoseconds) :
  t = t'
  := by
  obtain ⟨sec, nsec⟩ := t
  obtain ⟨sec', nsec'⟩ := t'
  simp only [Timespec.Valid, Timespec.nanoseconds] at h h' heq
  have hsec : sec = sec' := by omega
  subst hsec
  have hnsec : nsec = nsec' := by omega
  rw [hnsec]

/-- Two functions that compute the deadline agree. -/
theorem IsDeadline.unique {r r' : Option Timespec} (h : IsDeadline now ms r)
    (h' : IsDeadline now ms r') :
  r = r'
  := by
  obtain ⟨t, rfl, hvalid, heq⟩ := h
  obtain ⟨t', rfl, hvalid', heq'⟩ := h'
  rw [valid_ext hvalid hvalid' (heq.trans heq'.symm)]

theorem timedwaitmsCircleBuffer_eq_some :
  timedwaitmsCircleBuffer now ms = some t ↔
    Signed.Fits 32 (ms * 1000000) ∧ Signed.Fits 64 (now.nsec + ms * 1000000)
      ∧ t = ⟨now.sec, now.nsec + ms * 1000000⟩
  := by
  simp only [timedwaitmsCircleBuffer, Option.bind_eq_bind, Option.bind_eq_some_iff,
    Signed.eval_eq_some, Option.some.injEq]
  constructor
  · rintro ⟨_, ⟨hspan, rfl⟩, _, ⟨hnsec, rfl⟩, rfl⟩
    use hspan, hnsec
  · rintro ⟨hspan, hnsec, rfl⟩
    use ms * 1000000, ⟨hspan, rfl⟩, now.nsec + ms * 1000000, ⟨hnsec, rfl⟩

/-- Without a carry the deadline has to lie in the current second. -/
theorem circleBuffer_isDeadline_iff (hnow : now.Valid) (hms : 0 ≤ ms) :
  IsDeadline now ms (timedwaitmsCircleBuffer now ms) ↔ now.nsec + ms * 1000000 < 1000000000
  := by
  simp only [IsDeadline, timedwaitmsCircleBuffer_eq_some, Signed.fits_int, Signed.fits_long]
  rw [Timespec.Valid] at hnow
  constructor
  · rintro ⟨t, ⟨-, -, rfl⟩, hvalid, -⟩
    simp only [Timespec.Valid] at hvalid
    omega
  · intro h
    use ⟨now.sec, now.nsec + ms * 1000000⟩
    simp only [Timespec.Valid, Timespec.nanoseconds, and_true]
    omega

theorem timeoutCommon_of_fits (hspan : Signed.Fits 32 (ms * 1000000)) (hnow : now.Valid)
    (hms : 0 ≤ ms) (hsec : Signed.Fits 64 (now.sec + (now.nsec + ms * 1000000) / 1000000000)) :
  timeoutCommon now ms = some
    ⟨now.sec + (now.nsec + ms * 1000000) / 1000000000, (now.nsec + ms * 1000000) % 1000000000⟩
  := by
  rw [Timespec.Valid] at hnow
  have hsum : Signed.Fits 64 (now.nsec + ms * 1000000) := by
    rw [Signed.fits_int] at hspan
    rw [Signed.fits_long]
    omega
  have hdiv : (now.nsec + ms * 1000000).tdiv 1000000000
      = (now.nsec + ms * 1000000) / 1000000000 := Int.tdiv_eq_ediv_of_nonneg (by omega)
  have hmod : (now.nsec + ms * 1000000).tmod 1000000000
      = (now.nsec + ms * 1000000) % 1000000000 := Int.tmod_eq_emod_of_nonneg (by omega)
  simp only [timeoutCommon, Option.bind_eq_bind, Signed.eval_of_fits hspan, Option.bind_some,
    Signed.eval_of_fits hsum, hdiv, hmod, Signed.eval_of_fits hsec]
  split
  · rfl
  · rename_i hcarry
    have hquotient : (now.nsec + ms * 1000000) / 1000000000 = 0 := by omega
    have hremainder : (now.nsec + ms * 1000000) % 1000000000 = now.nsec + ms * 1000000 := by
      omega
    rw [hquotient, hremainder, Int.add_zero]

/-- The common copy fails where `ms * 1000000` overflows, and only there: no clock comes near the
last seconds of its type. -/
theorem common_isDeadline_iff (hnow : now.Valid) (hclock : Signed.Fits 64 now.sec)
    (hlast : Signed.Fits 64 (now.sec + 3)) (hms : 0 ≤ ms) :
  IsDeadline now ms (timeoutCommon now ms) ↔ ms ≤ 2147
  := by
  rw [Signed.fits_long] at hclock hlast
  have hvalid := hnow
  rw [Timespec.Valid] at hvalid
  constructor
  · rintro ⟨t, ht, -⟩
    simp only [timeoutCommon, Option.bind_eq_bind, Option.bind_eq_some_iff,
      Signed.eval_eq_some, Signed.fits_int] at ht
    obtain ⟨_, ⟨hspan, rfl⟩, -⟩ := ht
    omega
  · intro h
    have hspan : Signed.Fits 32 (ms * 1000000) := by
      rw [Signed.fits_int]
      omega
    have hsec : Signed.Fits 64 (now.sec + (now.nsec + ms * 1000000) / 1000000000) := by
      rw [Signed.fits_long]
      omega
    rw [timeoutCommon_of_fits hspan hnow hms hsec, isDeadline_some]
    simp only [Timespec.Valid, Timespec.nanoseconds]
    omega

/-- Both copies compute the deadline, and agree, exactly if it lies in the current second. -/
theorem timedwaitms_isDeadline_iff (hnow : now.Valid) (hsec : Signed.Fits 64 now.sec)
    (hms : 0 ≤ ms) :
  (IsDeadline now ms (timedwaitms now ms) ∧ IsDeadline now ms (trylockforms now ms) ∧
      IsDeadline now ms (timedwaitmsCircleBuffer now ms) ∧
      timedwaitms now ms = timedwaitmsCircleBuffer now ms)
    ↔ now.nsec + ms * 1000000 < 1000000000
  := by
  rw [circleBuffer_isDeadline_iff hnow hms]
  constructor
  · rintro ⟨-, -, h, -⟩
    apply h
  · intro h
    have hcircle := (circleBuffer_isDeadline_iff hnow hms).mpr h
    have hcommon : IsDeadline now ms (timeoutCommon now ms) := by
      rw [Timespec.Valid] at hnow
      have hspan : Signed.Fits 32 (ms * 1000000) := by
        rw [Signed.fits_int]
        omega
      have hzero : (now.nsec + ms * 1000000) / 1000000000 = 0 := by omega
      rw [timeoutCommon_of_fits hspan hnow hms (by rwa [hzero, Int.add_zero]), isDeadline_some]
      simp only [Timespec.Valid, Timespec.nanoseconds]
      omega
    use hcommon, hcommon, h
    apply hcommon.unique hcircle

end

/-- Ten milliseconds after a full second. -/
theorem timedwaitms_isDeadline_ten :
  (IsDeadline ⟨5, 0⟩ 10 (timedwaitms ⟨5, 0⟩ 10) ∧ IsDeadline ⟨5, 0⟩ 10 (trylockforms ⟨5, 0⟩ 10) ∧
      IsDeadline ⟨5, 0⟩ 10 (timedwaitmsCircleBuffer ⟨5, 0⟩ 10) ∧
      timedwaitms ⟨5, 0⟩ 10 = timedwaitmsCircleBuffer ⟨5, 0⟩ 10)
  := by
  apply (timedwaitms_isDeadline_iff _ _ _).mpr
  · decide
  · decide
  · decide
  · decide

/-- One millisecond at the end of a second gives 1000999999 nanoseconds in one copy, and for
three seconds `ms * 1000000` overflows in both. -/
theorem timedwaitms_not_isDeadline :
  timedwaitmsCircleBuffer ⟨5, 999999999⟩ 1 = some ⟨5, 1000999999⟩ ∧
    ¬ IsDeadline ⟨5, 999999999⟩ 1 (timedwaitmsCircleBuffer ⟨5, 999999999⟩ 1) ∧
    ¬ IsDeadline ⟨5, 0⟩ 3000 (timedwaitms ⟨5, 0⟩ 3000)
  := by
  have hcircle : timedwaitmsCircleBuffer ⟨5, 999999999⟩ 1 = some ⟨5, 1000999999⟩ := by decide
  have hcommon : timedwaitms ⟨5, 0⟩ 3000 = none := by decide
  rw [hcircle, hcommon, isDeadline_some]
  use rfl
  constructor
  · decide
  · rintro ⟨t, ht, -⟩
    cases ht

end Locker
