import Mathlib.Data.Finset.Insert
import Orgrim.Workqueue.Pool

/-!
# The bound of the work queue

`append` refuses a request only if more than `m_max_requests` requests are waiting: one more than
that is let in.  The bound holds exactly in the runs in which no call of `append` makes its test
while `m_max_requests` requests are waiting (`queue_bounded_iff`).  What it returns is right in any
case.
-/

namespace Workqueue

variable {C R : Type*} {n : ℕ} [DecidableEq C]

/-- At most `m_max_requests` requests are waiting, and a call of `append` that has returned has
returned `false` exactly if its request has not been put into the queue. -/
def Bounded (s : Pool C R n) : Prop :=
  s.workqueue.length ≤ s.maxRequests ∧
    ∀ c queued, s.appender c = .returned queued → (queued = false ↔ c ∉ s.queued)

/-- `append` does not make its test while `m_max_requests` requests are waiting. -/
def TestsBelow (s : Pool C R n) : Step C n → Prop
  | .append c => s.appender c = .testing → s.workqueue.length ≠ s.maxRequests
  | _ => True

/-- The bound holds, and the calls that have queued their request are those that stand behind
it. -/
structure Admitted (s : Pool C R n) : Prop where
  length_le : s.workqueue.length ≤ s.maxRequests
  queued : ∀ c, c ∈ s.queued ↔ (s.appender c).hasQueued = true

omit [DecidableEq C] in
theorem Admitted.init (maxRequests : ℕ) :
  Admitted (Pool.init maxRequests : Pool C R n)
  := by
  constructor
  · apply Nat.zero_le _
  · intro c
    simp [Pool.init, AppendPoint.hasQueued]

omit [DecidableEq C] in
theorem Admitted.bounded {s : Pool C R n} (h : Admitted s) :
  Bounded s
  := by
  use h.length_le
  intro c queued hreturned
  rw [h.queued, hreturned]
  cases queued with
  | false => simp [AppendPoint.hasQueued]
  | true => simp [AppendPoint.hasQueued]

/-! ### The steps -/

omit [DecidableEq C] in
/-- A step that leaves the calls of `append` and does not make the queue longer. -/
theorem Admitted.of_frame {s s' : Pool C R n} (h : Admitted s) (hframe : Frame s s')
    (hlength : s'.workqueue.length ≤ s.workqueue.length) :
  Admitted s'
  := by
  constructor
  · rw [hframe.maxRequests]
    apply Nat.le_trans hlength h.length_le
  · rw [hframe.queued, hframe.appender]
    apply h.queued

omit [DecidableEq C] in
/-- A worker does not make the queue longer. -/
theorem Ran.length_le {s s' : Pool C R n} {w : Fin n} {p : RunPoint R} (h : Ran s s' w p) :
  s'.workqueue.length ≤ s.workqueue.length
  := by
  cases h with
  | quiet workqueue => rw [workqueue]
  | taken request point workqueue =>
      rw [workqueue]
      apply Nat.le_succ _
  | signalled workqueue => rw [workqueue]

/-- The calls that have queued their request, when the call `c` goes on. -/
theorem queued_of_update {s s' : Pool C R n} {c : C} {p : AppendPoint} (h : Admitted s)
    (happender : s'.appender = Function.update s.appender c p)
    (hothers : ∀ d, d ≠ c → (d ∈ s'.queued ↔ d ∈ s.queued))
    (hself : c ∈ s'.queued ↔ p.hasQueued = true) (d : C) :
  d ∈ s'.queued ↔ (s'.appender d).hasQueued = true
  := by
  rw [happender]
  by_cases hd : d = c
  · subst hd
    rw [Function.update_self]
    exact hself
  · rw [Function.update_of_ne hd, hothers d hd]
    apply h.queued d

theorem Admitted.append {request : C → Option R} {s s' : Pool C R n} {c : C} (h : Admitted s)
    (hbelow : TestsBelow s (.append c)) (hstep : s.appendStep request c = some s') :
  Admitted s'
  := by
  obtain ⟨p, happender, hmax, -, -, hcase⟩ := appendStep_cases hstep
  cases hcase with
  | refused point full => exact absurd h.length_le (Nat.not_le_of_lt full)
  | accepted point room workqueue queued next =>
      constructor
      · rw [hmax, workqueue, List.length_append]
        have hne := hbelow point
        apply Nat.lt_of_le_of_ne room hne
      · apply queued_of_update h happender
        · intro d hd
          rw [queued, Finset.mem_insert]
          apply or_iff_right hd
        · rw [queued, next]
          apply iff_of_true (Finset.mem_insert_self c s.queued) rfl
  | decided point workqueue queued next =>
      constructor
      · rw [hmax, workqueue]
        apply h.length_le
      · apply queued_of_update h happender
        · intro d hd
          rw [queued]
        · rw [queued, next]
          apply h.queued c

theorem Admitted.step {request : C → Option R} {s : Pool C R n} {a : Step C n} (h : Admitted s)
    (hbelow : TestsBelow s a) :
  ∀ s' ∈ (threads request).step s a, Admitted s'
  := by
  intro s' hs'
  cases a with
  | append c => apply h.append hbelow hs'
  | run w =>
      obtain ⟨p, -, hframe, hran⟩ := runStep_cases hs'
      apply h.of_frame hframe hran.length_le
  | stop =>
      obtain ⟨hqueue, -, hframe, -⟩ := stopStep_cases hs'
      apply h.of_frame hframe
      rw [hqueue]
  | spuriousWakeup =>
      obtain rfl := wakeStep_cases hs'
      exact ⟨h.length_le, h.queued⟩

/-- A request for which there is room, as the test sees it. -/
theorem appendStep_of_room {request : C → Option R} {s : Pool C R n} {c : C}
    (hpoint : s.appender c = .testing) (hroom : s.workqueue.length ≤ s.maxRequests) :
  ∃ s', s.appendStep request c = some s' ∧ s'.maxRequests = s.maxRequests ∧
    s'.workqueue = s.workqueue ++ [request c]
  := by
  have hnot : ¬ s.workqueue.length > s.maxRequests := Nat.not_lt_of_le hroom
  simp only [Pool.appendStep, hpoint, if_neg hnot]
  exact ⟨_, rfl, rfl, rfl⟩

/-- A test made while `m_max_requests` requests are waiting lets one more in. -/
theorem not_bounded_of_test {request : C → Option R} {s : Pool C R n} {a : Step C n}
    (hnot : ¬ TestsBelow s a) :
  ∃ s', (threads request).step s a = some s' ∧ ¬ Bounded s'
  := by
  cases a with
  | append c =>
      simp only [TestsBelow, Classical.not_imp, not_not] at hnot
      obtain ⟨hpoint, hlength⟩ := hnot
      obtain ⟨s', hs', hmax, hqueue⟩ :=
        @appendStep_of_room _ _ _ _ request _ _ hpoint (Nat.le_of_eq hlength)
      use s', hs'
      rintro ⟨hle, -⟩
      rw [hmax, hqueue, List.length_append, hlength] at hle
      apply Nat.not_succ_le_self _ hle
  | run w => exact absurd trivial hnot
  | stop => exact absurd trivial hnot
  | spuriousWakeup => exact absurd trivial hnot

/-! ### The runs -/

/-- The queue stays within its bound, and `append` tells what it has done, exactly in the runs in
which no call of `append` makes its test while `m_max_requests` requests are waiting. -/
theorem queue_bounded_iff (request : C → Option R) (maxRequests : ℕ) (as : List (Step C n)) :
  (threads request).Throughout Bounded (Pool.init maxRequests) as ↔
    (threads request).Along TestsBelow (Pool.init maxRequests) as
  := by
  apply Machine.throughout_iff_of_invariant (R := fun _ _ => True) Admitted
  · intro s h
    apply h.bounded
  · intro s a h _ hbelow
    apply h.step hbelow
  · intro s a _ _ hnot
    apply not_bounded_of_test hnot
  · apply Admitted.init
  · apply Machine.along_of_forall
    intro s a
    trivial

/-- With `m_max_requests = 1`, two calls of `append` are accepted before a worker takes a request:
two requests wait. -/
theorem queue_not_bounded :
  ¬ ∀ (maxRequests : ℕ) (as : List (Step Bool 1)), 1 ≤ maxRequests →
    (threads (fun _ => some ())).Throughout Bounded
      (Pool.init maxRequests : Pool Bool Unit 1) as
  := by
  intro h
  have hrun := h 1 [.append false, .append false, .append false, .append false, .append true,
    .append true] (Nat.le_refl 1)
  obtain ⟨s, hfinal, hmax, hlength⟩ : ∃ s, (threads (fun _ => some ())).final
      (Pool.init 1 : Pool Bool Unit 1) [.append false, .append false, .append false,
        .append false, .append true, .append true] = some s ∧
      s.maxRequests = 1 ∧ s.workqueue.length = 2 := by
    apply Machine.exists_final (by decide) (by decide)
  have hle := (Machine.final_of_throughout hrun hfinal).1
  rw [hmax, hlength] at hle
  exact absurd hle (by decide)

end Workqueue
