import Mathlib.Algebra.Group.Nat.Defs
import Mathlib.Data.Nat.ModEq
import Orgrim.Theory.Monitor

/-!
# The barrier

`barrier.h`: any number of threads call `wait`, again and again.  The calls are counted as they
arrive, and each `m_threshold` of them make a generation.  No call returns before its generation
is complete, and of each generation one call returns true, the last one to arrive
(`wait_meets`).  `m_generation` wraps around; a thread that is woken then goes on waiting, and
nothing else happens.
-/

namespace SerialPort

/-- `swp::barrier` -/
structure Barrier where
  threshold : BitVec 32
  count : BitVec 32
  generation : BitVec 32

namespace Barrier

/-- `barrier`, where `count` is not zero -/
def new (count : BitVec 32) : Barrier where
  threshold := count
  count := count
  generation := 0

/-- Where a thread is: it does not call `wait`, or it waits with `gen`. -/
inductive Point where
  | outside
  | waits (gen : BitVec 32)

/-- What a call of `wait` does. -/
inductive Event where
  | arrive
  | leave (result : Bool)
  deriving DecidableEq

/-- The loop of `wait` -/
def waitLoop (b : Barrier) (gen : BitVec 32) (events : List Event) :
    Outcome Point Barrier Unit Event :=
  if gen = b.generation then { point := .waits gen, shared := b, events := events }
  else { point := .outside, shared := b, events := events ++ [.leave false] }

/-- `wait`, from where a thread has got `m_mutex` -/
def wait (b : Barrier) : Point → Outcome Point Barrier Unit Event
  | .outside =>
      let gen := b.generation
      let b : Barrier := { b with count := b.count - 1 }
      if b.count = 0 then
        { point := .outside
          shared := { b with generation := b.generation + 1, count := b.threshold }
          notes := [.broadcast ()]
          events := [.arrive, .leave true] }
      else b.waitLoop gen [.arrive]
  | .waits gen => b.waitLoop gen []

/-- The threads that use a barrier. -/
def monitor : Monitor Point Barrier Unit Unit Event where
  waits
    | .outside => none
    | .waits _ => some ()
  enter p _ b := some (b.wait p)

/-- The threads, none of which has called `wait`. -/
def start (T : Type*) [DecidableEq T] (count : BitVec 32) :
    Monitor.State T Point Barrier Unit Event :=
  Monitor.start (new count) (fun _ => .outside)

/-! ### The record of the calls -/

/-- How many calls have arrived, the number of the last one of each thread, and the numbers of
those that have returned, with their results. -/
structure Record (T : Type*) where
  arrived : ℕ
  ticket : T → ℕ
  left : List (ℕ × Bool)

section

variable {T : Type*} [DecidableEq T]

def Record.add (r : Record T) : T × Event → Record T
  | (t, .arrive) =>
      { r with arrived := r.arrived + 1, ticket := Function.update r.ticket t r.arrived }
  | (t, .leave result) => { r with left := (r.ticket t, result) :: r.left }

def record (log : List (T × Event)) : Record T := log.foldl Record.add ⟨0, fun _ => 0, []⟩

/-- No call has returned before its generation was complete, none has returned twice, and of every
complete generation exactly one has returned true. -/
structure Record.Meets (r : Record T) (n : ℕ) : Prop where
  complete : ∀ x ∈ r.left, n * (x.1 / n + 1) ≤ r.arrived
  once : (r.left.map Prod.fst).Nodup
  one : ∀ g, n * (g + 1) ≤ r.arrived → ∃! k, k / n = g ∧ (k, true) ∈ r.left

/-- A thread that waits holds the number of its generation, which it does not complete. -/
structure Record.Waits (r : Record T) (n : ℕ) (t : T) (gen : BitVec 32) : Prop where
  gen : gen = BitVec.ofNat 32 (r.ticket t / n)
  arrived : r.ticket t < r.arrived
  notLast : (r.ticket t + 1) % n ≠ 0
  notLeft : r.ticket t ∉ r.left.map Prod.fst

/-- The record of a barrier whose threshold is `n`. -/
structure Recorded (n : ℕ) (b : Barrier) (point : T → Point) (r : Record T) : Prop where
  positive : 0 < n
  threshold : b.threshold.toNat = n
  count : b.count.toNat + r.arrived % n = n
  generation : b.generation = BitVec.ofNat 32 (r.arrived / n)
  waits : ∀ t gen, point t = .waits gen → r.Waits n t gen
  tickets : ∀ t t' gen gen', point t = .waits gen → point t' = .waits gen' →
    r.ticket t = r.ticket t' → t = t'
  left : ∀ x ∈ r.left, x.1 < r.arrived ∧ (x.2 = true ↔ (x.1 + 1) % n = 0) ∧
    n * (x.1 / n + 1) ≤ r.arrived
  last : ∀ k < r.arrived, (k + 1) % n = 0 → (k, true) ∈ r.left
  once : (r.left.map Prod.fst).Nodup

/-! ### Counting in generations -/

theorem succ_last {a n : ℕ} (h : a % n + 1 = n) :
  (a + 1) / n = a / n + 1 ∧ (a + 1) % n = 0
  := by
  apply (Nat.div_mod_unique (by omega)).mpr
  have hdiv := Nat.mod_add_div a n
  rw [Nat.mul_add]
  omega

theorem succ_notLast {a n : ℕ} (h : a % n + 1 < n) :
  (a + 1) / n = a / n ∧ (a + 1) % n = a % n + 1
  := by
  apply (Nat.div_mod_unique (by omega)).mpr
  have hdiv := Nat.mod_add_div a n
  omega

/-- The last number of a generation. -/
theorem eq_of_last {k n : ℕ} (hn : 0 < n) (h : (k + 1) % n = 0) :
  k + 1 = n * (k / n + 1)
  := by
  have hlt := Nat.mod_lt k hn
  have hmod : k % n + 1 = n := by
    by_contra hne
    rw [(succ_notLast (by omega)).2] at h
    omega
  rw [← (succ_last hmod).1, Nat.mul_div_cancel' (Nat.dvd_of_mod_eq_zero h)]

/-- The generation of an earlier number is complete when the count has come to another one. -/
theorem complete_of_ne {k a n : ℕ} (hle : k ≤ a) (hne : k / n ≠ a / n) :
  n * (k / n + 1) ≤ a
  := by
  have hlt : k / n < a / n := lt_of_le_of_ne (Nat.div_le_div_right hle) hne
  calc n * (k / n + 1) ≤ n * (a / n) := Nat.mul_le_mul_left n hlt
    _ ≤ a := Nat.mul_div_le a n

/-! ### Steps -/

variable {n : ℕ} {b : Barrier} {point : T → Point} {r : Record T} {t : T}

theorem start_recorded {count : BitVec 32} (hcount : count ≠ 0) :
  Recorded count.toNat (new count) (fun _ : T => .outside) (record [])
  := by
  constructor
  case positive =>
    apply Nat.pos_of_ne_zero
    intro h
    apply hcount (BitVec.eq_of_toNat_eq h)
  case threshold => rfl
  case count => apply congrArg _ (Nat.zero_mod _)
  case generation =>
    change (0 : BitVec 32) = BitVec.ofNat 32 (0 / count.toNat)
    rw [Nat.zero_div]
    rfl
  case waits => exact fun _ _ h => nomatch h
  case tickets => exact fun _ _ _ _ h => nomatch h
  case left => exact fun _ h => absurd h List.not_mem_nil
  case last => exact fun _ h => absurd h (Nat.not_lt_zero _)
  case once => apply List.nodup_nil

omit [DecidableEq T] in
/-- A thread that waits is not concerned by the calls of others. -/
theorem Record.Waits.mono {r' : Record T} {gen : BitVec 32} (h : r.Waits n t gen)
    (hticket : r'.ticket t = r.ticket t) (harrived : r.arrived ≤ r'.arrived)
    (hleft : r.ticket t ∉ r'.left.map Prod.fst) :
  r'.Waits n t gen
  := by
  obtain ⟨hgen, hlt, hnot, -⟩ := h
  rw [← hticket] at hgen hlt hnot hleft
  exact ⟨hgen, hlt.trans_le harrived, hnot, hleft⟩

omit [DecidableEq T] in
theorem Recorded.count_bounds (h : Recorded n b point r) :
  0 < b.count.toNat ∧ b.count.toNat ≤ n
  := by
  have hlt := Nat.mod_lt r.arrived h.positive
  have hcount := h.count
  omega

omit [DecidableEq T] in
theorem Recorded.arrived_notLeft (h : Recorded n b point r) :
  r.arrived ∉ r.left.map Prod.fst
  := by
  intro hmem
  obtain ⟨x, hx, hxa⟩ := List.mem_map.mp hmem
  exact absurd hxa (h.left x hx).1.ne

/-- The call that completes a generation. -/
theorem Recorded.arrive_last (h : Recorded n b point r) (hlast : b.count - 1 = 0)
    (hout : point t = .outside) :
  Recorded n { b with generation := b.generation + 1, count := b.threshold } point
    ((r.add (t, .arrive)).add (t, .leave true))
  := by
  have hone : b.count.toNat = 1 := by
    have hpos := h.count_bounds.1
    bv_omega
  have hmod : r.arrived % n + 1 = n := by
    have hcount := h.count
    omega
  obtain ⟨hdiv, hzero⟩ := succ_last hmod
  have hothers : ∀ t' gen, point t' = .waits gen →
      Function.update r.ticket t r.arrived t' = r.ticket t' := by
    intro t' gen ht'
    apply Function.update_of_ne
    rintro rfl
    rw [hout] at ht'
    cases ht'
  have hticket : Function.update r.ticket t r.arrived t = r.arrived := Function.update_self ..
  constructor
  case positive => apply h.positive
  case threshold => apply h.threshold
  case count =>
    change b.threshold.toNat + (r.arrived + 1) % n = n
    rw [hzero, h.threshold, Nat.add_zero]
  case generation =>
    change b.generation + 1 = BitVec.ofNat 32 ((r.arrived + 1) / n)
    rw [hdiv, h.generation, BitVec.ofNat_add]
    rfl
  case waits =>
    intro t' gen ht'
    have hwaits := h.waits t' gen ht'
    simp only [Record.add, hticket]
    apply hwaits.mono (hothers t' gen ht') (Nat.le_succ _)
    apply List.not_mem_cons_of_ne_of_not_mem hwaits.arrived.ne hwaits.notLeft
  case tickets =>
    intro t₁ t₂ gen₁ gen₂ h₁ h₂ heq
    apply h.tickets t₁ t₂ gen₁ gen₂ h₁ h₂
    rw [← hothers t₁ gen₁ h₁, ← hothers t₂ gen₂ h₂]
    exact heq
  case left =>
    simp only [Record.add, hticket]
    intro x hx
    rcases List.mem_cons.mp hx with rfl | hx
    · use Nat.lt_succ_self _, iff_of_true rfl hzero
      exact (eq_of_last h.positive hzero).ge
    · obtain ⟨hlt, htrue, hle⟩ := h.left x hx
      exact ⟨hlt.trans (Nat.lt_succ_self _), htrue, hle.trans (Nat.le_succ _)⟩
  case last =>
    simp only [Record.add, hticket]
    intro k hk hkn
    rcases Nat.lt_succ_iff_lt_or_eq.mp hk with hk | rfl
    · apply List.mem_cons_of_mem _ (h.last k hk hkn)
    · apply List.mem_cons_self
  case once =>
    simp only [Record.add, hticket]
    apply List.nodup_cons.mpr ⟨h.arrived_notLeft, h.once⟩

/-- A call that has to wait. -/
theorem Recorded.arrive (h : Recorded n b point r) (hlast : b.count - 1 ≠ 0) :
  Recorded n { b with count := b.count - 1 } (Function.update point t (.waits b.generation))
    (r.add (t, .arrive))
  := by
  have hmore : (b.count - 1).toNat + 1 = b.count.toNat ∧ 1 < b.count.toNat := by
    have hpos := h.count_bounds.1
    bv_omega
  have hcount := h.count
  obtain ⟨hdiv, hmod⟩ := succ_notLast (a := r.arrived) (n := n) (by omega)
  have hsame {t' : T} (ht' : t' ≠ t) :
      Function.update r.ticket t r.arrived t' = r.ticket t' ∧
        Function.update point t (.waits b.generation) t' = point t' :=
    ⟨Function.update_of_ne ht' .., Function.update_of_ne ht' ..⟩
  have hnew : Function.update r.ticket t r.arrived t = r.arrived ∧
      Function.update point t (.waits b.generation) t = .waits b.generation :=
    ⟨Function.update_self .., Function.update_self ..⟩
  constructor
  case positive => apply h.positive
  case threshold => apply h.threshold
  case count =>
    change (b.count - 1).toNat + (r.arrived + 1) % n = n
    omega
  case generation =>
    change b.generation = BitVec.ofNat 32 ((r.arrived + 1) / n)
    rw [hdiv, h.generation]
  case waits =>
    intro t' gen ht'
    simp only [Record.add]
    rcases eq_or_ne t' t with rfl | hne
    · rw [hnew.2] at ht'
      obtain rfl := Point.waits.inj ht'
      constructor <;> simp only [hnew.1]
      case gen => apply h.generation
      case arrived => apply Nat.lt_succ_self _
      case notLast => exact hmod ▸ Nat.succ_ne_zero _
      case notLeft => apply h.arrived_notLeft
    · rw [(hsame hne).2] at ht'
      have hwaits := h.waits t' gen ht'
      exact hwaits.mono (hsame hne).1 (Nat.le_succ _) hwaits.notLeft
  case tickets =>
    simp only [Record.add]
    intro t₁ t₂ gen₁ gen₂ h₁ h₂ heq
    rcases eq_or_ne t₂ t₁ with rfl | hne
    · rfl
    rcases eq_or_ne t₁ t with rfl | hne₁
    · rw [hnew.1, (hsame hne).1] at heq
      rw [(hsame hne).2] at h₂
      exact absurd heq (h.waits t₂ gen₂ h₂).arrived.ne'
    rw [(hsame hne₁).2] at h₁
    rw [(hsame hne₁).1] at heq
    rcases eq_or_ne t₂ t with rfl | hne₂
    · rw [hnew.1] at heq
      exact absurd heq (h.waits t₁ gen₁ h₁).arrived.ne
    · rw [(hsame hne₂).1] at heq
      rw [(hsame hne₂).2] at h₂
      apply h.tickets t₁ t₂ gen₁ gen₂ h₁ h₂ heq
  case left =>
    intro x hx
    obtain ⟨hlt, htrue, hle⟩ := h.left x hx
    exact ⟨hlt.trans (Nat.lt_succ_self _), htrue, hle.trans (Nat.le_succ _)⟩
  case last =>
    intro k hk hkn
    rcases Nat.lt_succ_iff_lt_or_eq.mp hk with hk | rfl
    · apply h.last k hk hkn
    · rw [hmod] at hkn
      exact absurd hkn (Nat.succ_ne_zero _)
  case once => apply h.once

/-- A thread that waits, and finds that its generation is complete. -/
theorem Recorded.leave {gen : BitVec 32} (h : Recorded n b point r)
    (hpoint : point t = .waits gen) (hgen : gen ≠ b.generation) :
  Recorded n b (Function.update point t .outside) (r.add (t, .leave false))
  := by
  obtain ⟨hticket, harrived, hnot, hleft⟩ := h.waits t gen hpoint
  have hothers {t' : T} {gen' : BitVec 32}
      (ht' : Function.update point t Point.outside t' = .waits gen') :
      t' ≠ t ∧ point t' = .waits gen' := by
    rcases eq_or_ne t' t with rfl | hne
    · rw [Function.update_self] at ht'
      cases ht'
    · rw [Function.update_of_ne hne] at ht'
      exact ⟨hne, ht'⟩
  constructor
  case positive => apply h.positive
  case threshold => apply h.threshold
  case count => apply h.count
  case generation => apply h.generation
  case waits =>
    intro t' gen' ht'
    obtain ⟨hne, ht'⟩ := hothers ht'
    have hwaits := h.waits t' gen' ht'
    have hnotLeft : r.ticket t' ∉ (r.add (t, .leave false)).left.map Prod.fst := by
      apply List.not_mem_cons_of_ne_of_not_mem _ hwaits.notLeft
      intro heq
      apply hne (h.tickets t' t gen' gen ht' hpoint heq)
    exact hwaits.mono rfl le_rfl hnotLeft
  case tickets =>
    intro t₁ t₂ gen₁ gen₂ h₁ h₂
    apply h.tickets t₁ t₂ gen₁ gen₂ (hothers h₁).2 (hothers h₂).2
  case left =>
    intro x hx
    rcases List.mem_cons.mp hx with rfl | hx
    · use harrived, iff_of_false Bool.false_ne_true hnot
      apply complete_of_ne harrived.le
      intro heq
      apply hgen
      rw [hticket, h.generation, heq]
    · apply h.left x hx
  case last =>
    intro k hk hkn
    apply List.mem_cons_of_mem _ (h.last k hk hkn)
  case once => apply List.nodup_cons.mpr ⟨hleft, h.once⟩

/-- What every section of every thread preserves. -/
theorem Recorded.wait {o : Outcome Point Barrier Unit Event} (h : Recorded n b point r)
    (ho : b.wait (point t) = o) :
  Recorded n o.shared (Function.update point t o.point)
    ((o.events.map (fun e => (t, e))).foldl Record.add r)
  := by
  subst ho
  cases hpoint : point t with
  | outside =>
      by_cases hlast : b.count - 1 = 0
      · have hsame : Function.update point t .outside = point := by
          rw [← hpoint]
          apply Function.update_eq_self t point
        simp only [Barrier.wait, hlast, if_true, hsame]
        apply h.arrive_last hlast hpoint
      · simp only [Barrier.wait, hlast, if_false, waitLoop, if_true]
        apply h.arrive hlast
  | waits gen =>
      by_cases hgen : gen = b.generation
      · have hsame : Function.update point t (.waits gen) = point := by
          rw [← hpoint]
          apply Function.update_eq_self t point
        simp only [Barrier.wait, waitLoop, if_pos hgen, hsame]
        exact h
      · simp only [Barrier.wait, waitLoop, if_neg hgen]
        apply h.leave hpoint hgen

omit [DecidableEq T] in
theorem Recorded.meets (h : Recorded n b point r) :
  r.Meets n
  := by
  constructor
  case complete => exact fun x hx => (h.left x hx).2.2
  case once => apply h.once
  case one =>
    intro g hg
    have hlast : (n * (g + 1) - 1 + 1) = n * (g + 1) :=
      Nat.sub_add_cancel (Nat.mul_pos h.positive (Nat.succ_pos g))
    use n * (g + 1) - 1
    constructor
    · have hzero : (n * (g + 1) - 1 + 1) % n = 0 := by
        rw [hlast]
        apply Nat.mul_mod_right n (g + 1)
      constructor
      · have heq := eq_of_last h.positive hzero
        rw [hlast] at heq
        apply Nat.succ_injective (Nat.eq_of_mul_eq_mul_left h.positive heq).symm
      · apply h.last _ (by omega) hzero
    · rintro k ⟨rfl, hk⟩
      have heq : k + 1 = n * (k / n + 1) :=
        eq_of_last h.positive ((h.left (k, true) hk).2.1.mp rfl)
      rw [← heq, Nat.add_sub_cancel]

end

/-! ### Every run -/

/-- After any run of any number of threads, the count is between one and the threshold, no call
has returned before its generation was complete, and of every complete generation one call has
returned true. -/
theorem wait_meets {T : Type*} [DecidableEq T] {count : BitVec 32} (hcount : count ≠ 0)
    {moves : List (Monitor.Move T Unit Unit)}
    {s : Monitor.State T Point Barrier Unit Event}
    (hfinal : (monitor.threads T).final (start T count) moves = some s) :
  1 ≤ s.shared.count ∧ s.shared.count ≤ count ∧ (record s.log).Meets count.toNat
  := by
  have hall : Recorded count.toNat s.shared s.point (record s.log) := by
    apply Monitor.final_invariant (fun b point log => Recorded count.toNat b point (record log))
      _ (start_recorded hcount) hfinal
    intro b point log t i o h ho
    rw [record, List.foldl_append]
    apply h.wait (Option.some.inj ho)
  obtain ⟨hpos, hle⟩ := hall.count_bounds
  use BitVec.le_def.mpr hpos, BitVec.le_def.mpr hle
  apply hall.meets

/-- Two threads, twice: the second one to arrive lets the first one go. -/
theorem wait_meets_two :
  ∃ s, (monitor.threads (Fin 2)).final (start (Fin 2) 2)
      [.enter 0 () (fun _ => none), .enter 1 () (fun _ => none), .enter 1 () (fun _ => none),
        .enter 0 () (fun _ => none), .enter 0 () (fun _ => none)] = some s ∧
    s.log = [(0, .arrive), (1, .arrive), (1, .leave true), (1, .arrive), (0, .leave false),
      (0, .arrive), (0, .leave true)] ∧
    1 ≤ s.shared.count ∧ s.shared.count ≤ 2 ∧ (record s.log).Meets 2
  := by
  apply Machine.exists_final (by decide)
  intro s hs
  constructor
  · revert s
    decide
  · apply wait_meets (by decide) hs

end Barrier

end SerialPort
