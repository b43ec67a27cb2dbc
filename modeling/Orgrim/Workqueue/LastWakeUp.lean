import Orgrim.Workqueue.Pool

/-!
# The last wake-up of `stop`

`stop` tests whether the queue is empty without `m_queuelocker`, and waits under a mutex that the
workers never take.  A worker that takes the last request and signals between the two has
signalled nobody, and so has a worker whose last request is null: it does not signal at all.
Where neither happens, `stop` is never left behind (`never_stuck`).
-/

namespace Workqueue

variable {C R : Type*} {n : ℕ}

/-- `stop` waits, nothing is left to do, and no worker is about to do anything. -/
structure Stuck (s : Pool C R n) : Prop where
  stopper : s.stopper = .blocked
  workqueue : s.workqueue = []
  worker : ∀ w, s.worker w = .waiting

/-- Somebody has still to look whether the queue is empty. -/
def Heeded (s : Pool C R n) : Prop :=
  s.workqueue ≠ [] ∨ ∃ w, (s.worker w).Promises

/-- `stop` enters `pthread_cond_wait` only while a request is waiting or a worker has still to look,
and while it is blocked no worker takes a null request as the last one unless another worker has
still to look. -/
def Careful (s : Pool C R n) : Step C n → Prop
  | .append _ => True
  | .run w => s.stopper = .blocked → s.worker w = .taking → s.workqueue = [none] →
      ∃ v, (s.worker v).Promises
  | .stop => s.stopper = .enteringCond → Heeded s
  | .spuriousWakeup => True

instance decidableCareful (s : Pool C R n) [DecidableEq R] : ∀ a, Decidable (Careful s a)
  | .append _ => .isTrue trivial
  | .run w => inferInstanceAs (Decidable (s.stopper = .blocked → s.worker w = .taking →
      s.workqueue = [none] → ∃ v, (s.worker v).Promises))
  | .stop => inferInstanceAs (Decidable (s.stopper = .enteringCond →
      s.workqueue ≠ [] ∨ ∃ w, (s.worker w).Promises))
  | .spuriousWakeup => .isTrue trivial

/-- While `stop` is blocked, somebody has still to look. -/
def Awaited (s : Pool C R n) : Prop :=
  s.stopper = .blocked → Heeded s

theorem Awaited.not_stuck {s : Pool C R n} (h : Awaited s) :
  ¬ Stuck s
  := by
  intro hstuck
  cases h hstuck.stopper with
  | inl hqueue => apply hqueue hstuck.workqueue
  | inr hpromises =>
      obtain ⟨w, hw⟩ := hpromises
      rw [hstuck.worker w] at hw
      exact hw

/-! ### The steps -/

/-- What a worker has promised does not depend on the step of another one. -/
theorem promises_of_update {s s' : Pool C R n} {v w : Fin n} {p : RunPoint R}
    (hworker : s'.worker = Function.update s.worker w p) (hv : (s.worker v).Promises)
    (hne : v ≠ w) :
  (s'.worker v).Promises
  := by
  rw [hworker, Function.update_of_ne hne]
  exact hv

theorem promises_self {s s' : Pool C R n} {w : Fin n} {p : RunPoint R}
    (hworker : s'.worker = Function.update s.worker w p) (hp : p.Promises) :
  (s'.worker w).Promises
  := by
  rw [hworker, Function.update_self]
  exact hp

theorem Heeded.quiet {s s' : Pool C R n} {w : Fin n} {p : RunPoint R} (h : Heeded s)
    (hworker : s'.worker = Function.update s.worker w p) (hqueue : s'.workqueue = s.workqueue)
    (hpromises : (s.worker w).Promises → p.Promises ∨ s.workqueue ≠ []) :
  Heeded s'
  := by
  unfold Heeded
  rw [hqueue]
  obtain hqueue | ⟨v, hv⟩ := h
  · apply Or.inl hqueue
  · by_cases hvw : v = w
    · subst hvw
      cases hpromises hv with
      | inl hp => apply Or.inr ⟨v, promises_self hworker hp⟩
      | inr hqueue => apply Or.inl hqueue
    · apply Or.inr ⟨v, promises_of_update hworker hv hvw⟩

/-- A worker that takes a request has promised to look, unless it is null. -/
theorem Heeded.taken {s s' : Pool C R n} {w : Fin n} {request : Option R}
    (hworker : s'.worker = Function.update s.worker w (.unlockingTaken request))
    (hpoint : s.worker w = .taking) (hqueue : s.workqueue = request :: s'.workqueue)
    (hnull : s.workqueue = [none] → ∃ v, (s.worker v).Promises) :
  Heeded s'
  := by
  cases request with
  | some request => apply Or.inr ⟨w, promises_self hworker trivial⟩
  | none =>
      by_cases hempty : s'.workqueue = []
      · rw [hempty] at hqueue
        obtain ⟨v, hv⟩ := hnull hqueue
        have hvw : v ≠ w := by
          rintro rfl
          rw [hpoint] at hv
          exact hv
        apply Or.inr ⟨v, promises_of_update hworker hv hvw⟩
      · apply Or.inl hempty

theorem Awaited.run {s s' : Pool C R n} {w : Fin n} (h : Awaited s)
    (hcareful : Careful s (.run w)) (hstep : s.runStep w = some s') :
  Awaited s'
  := by
  intro hblocked
  obtain ⟨p, hworker, -, hran⟩ := runStep_cases hstep
  cases hran with
  | quiet workqueue stopper promises =>
      rw [stopper] at hblocked
      apply Heeded.quiet (h hblocked) hworker workqueue promises
  | taken request point workqueue stopper next =>
      rw [stopper] at hblocked
      rw [next] at hworker
      apply Heeded.taken hworker point workqueue (hcareful hblocked point)
  | signalled workqueue stopper => exact absurd hblocked stopper

variable [DecidableEq C]

theorem Awaited.append {request : C → Option R} {s s' : Pool C R n} {c : C} (h : Awaited s)
    (hstep : s.appendStep request c = some s') :
  Awaited s'
  := by
  intro hblocked
  obtain ⟨p, -, -, hworker, hstopper, hcase⟩ := appendStep_cases hstep
  rw [hstopper] at hblocked
  unfold Heeded
  rw [hworker]
  cases hcase with
  | refused point full workqueue =>
      rw [workqueue]
      apply h hblocked
  | accepted point room workqueue =>
      rw [workqueue]
      apply Or.inl (List.append_ne_nil_of_right_ne_nil _ (List.cons_ne_nil _ _))
  | decided point workqueue =>
      rw [workqueue]
      apply h hblocked

theorem Awaited.step {request : C → Option R} {s : Pool C R n} {a : Step C n} (h : Awaited s)
    (hcareful : Careful s a) :
  ∀ s' ∈ (threads request).step s a, Awaited s'
  := by
  intro s' hs'
  cases a with
  | append c => apply h.append hs'
  | run w => apply h.run hcareful hs'
  | stop =>
      obtain ⟨hqueue, hworker, -, hstopper⟩ := stopStep_cases hs'
      intro hblocked
      unfold Heeded
      rw [hqueue, hworker]
      apply hcareful (hstopper hblocked)
  | spuriousWakeup =>
      obtain rfl := wakeStep_cases hs'
      rintro ⟨⟩

/-! ### The runs -/

/-- In a run whose steps are careful, `stop` never waits for a signal that nobody will give. -/
theorem never_stuck (request : C → Option R) (maxRequests : ℕ) (as : List (Step C n))
    (hcareful : (threads request).Along Careful (Pool.init maxRequests) as) :
  (threads request).Throughout (fun s => ¬ Stuck s) (Pool.init maxRequests) as
  := by
  apply Machine.throughout_of_invariant (Q := Careful) Awaited
  · intro s h
    apply h.not_stuck
  · intro s a h hcareful
    apply h.step hcareful
  · rintro ⟨⟩
  · exact hcareful

/-- One request, taken while `stop` is blocked: the worker signals, and `stop` wakes up. -/
theorem never_stuck_signalled :
  (threads (fun _ => some ())).Throughout (fun s => ¬ Stuck s)
    (Pool.init 1 : Pool Unit Unit 1)
    [.append (), .append (), .append (), .append (), .stop, .stop, .stop, .stop,
      .run 0, .run 0, .run 0, .run 0, .run 0, .run 0, .run 0, .run 0, .run 0, .run 0, .run 0,
      .stop]
  := by
  apply never_stuck
  decide

/-- One request, one worker: the worker takes the request, and signals, after `stop` has seen the
queue not empty and before it waits. -/
theorem stuck_of_early_signal :
  ∃ s, (threads (fun _ => some ())).final (Pool.init 1 : Pool Unit Unit 1)
      [.append (), .append (), .append (), .append (), .stop, .stop,
        .run 0, .run 0, .run 0, .run 0, .run 0, .run 0, .run 0, .run 0, .run 0, .run 0, .run 0,
        .stop, .stop] = some s ∧
    Stuck s ∧ s.queuestat = 0
  := by
  apply Machine.exists_final (by decide)
  intro s hs
  obtain rfl := Option.some.inj hs
  refine ⟨⟨?_, ?_, ?_⟩, ?_⟩
  all_goals decide

end Workqueue
