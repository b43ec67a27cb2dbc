import Orgrim.LstTimer.Order

/-!
# What the functions of the list leave alone

The functions relink timers.  They allocate and free no other timers than the one they are about,
and change no timeouts.
-/

namespace LstTimer

open SortTimerLst

variable {X : Type*} [DecidableEq X] {heap heap' heap'' : Heap X (UtilTimer X)}
  {l l' : SortTimerLst X} {p v : Option X} {timer prev : X} {fuel : ℕ} {cur expire : ℤ}
  {fired : List X}

/-- The same timers with the same timeouts. -/
structure SameTimers (heap heap' : Heap X (UtilTimer X)) : Prop where
  live : heap'.live = heap.live
  expire : expireOf heap' = expireOf heap

omit [DecidableEq X] in
theorem SameTimers.refl (heap : Heap X (UtilTimer X)) :
  SameTimers heap heap
  := ⟨rfl, rfl⟩

omit [DecidableEq X] in
theorem SameTimers.trans (h : SameTimers heap heap') (h' : SameTimers heap' heap'') :
  SameTimers heap heap''
  := ⟨h'.live.trans h.live, h'.expire.trans h.expire⟩

theorem setNext_same (h : setNext heap p v = some heap') :
  SameTimers heap heap'
  := by
  cases p with
  | none => cases h
  | some x =>
      rw [setNext] at h
      obtain ⟨-, rfl⟩ := Heap.modify_eq_some.mp h
      exact ⟨rfl, expireOf_linkNext⟩

theorem setPrev_same (h : setPrev heap p v = some heap') :
  SameTimers heap heap'
  := by
  cases p with
  | none => cases h
  | some x =>
      rw [setPrev] at h
      obtain ⟨-, rfl⟩ := Heap.modify_eq_some.mp h
      exact ⟨rfl, expireOf_linkPrev⟩

theorem clearPrev_same (h : clearPrev heap p = some heap') :
  SameTimers heap heap'
  := by
  cases p with
  | none =>
      obtain rfl := Option.some.inj h
      apply SameTimers.refl
  | some x =>
      rw [clearPrev] at h
      apply setPrev_same h

theorem addTimerFrom_same (h : addTimerFrom fuel l timer prev = some l') :
  SameTimers l.heap l'.heap
  := by
  induction fuel generalizing prev with
  | zero => cases h
  | succ fuel ih =>
      obtain ⟨prevNode, -, h⟩ := Option.bind_eq_some_iff.mp h
      cases hnext : prevNode.next with
      | none =>
          rw [hnext] at h
          obtain ⟨heap₁, h₁, h⟩ := Option.bind_eq_some_iff.mp h
          obtain ⟨heap₂, h₂, h⟩ := Option.bind_eq_some_iff.mp h
          obtain ⟨heap₃, h₃, h⟩ := Option.bind_eq_some_iff.mp h
          obtain rfl := Option.some.inj h
          exact ((setNext_same h₁).trans (setPrev_same h₂)).trans (setNext_same h₃)
      | some tmp =>
          rw [hnext] at h
          obtain ⟨timerNode, -, h⟩ := Option.bind_eq_some_iff.mp h
          obtain ⟨tmpNode, -, h⟩ := Option.bind_eq_some_iff.mp h
          split at h
          · obtain ⟨heap₁, h₁, h⟩ := Option.bind_eq_some_iff.mp h
            obtain ⟨heap₂, h₂, h⟩ := Option.bind_eq_some_iff.mp h
            obtain ⟨heap₃, h₃, h⟩ := Option.bind_eq_some_iff.mp h
            obtain ⟨heap₄, h₄, h⟩ := Option.bind_eq_some_iff.mp h
            obtain rfl := Option.some.inj h
            exact (((setNext_same h₁).trans (setNext_same h₂)).trans (setPrev_same h₃)).trans
              (setPrev_same h₄)
          · apply ih h

theorem addTimer_same (h : l.addTimer (some timer) = some l') :
  SameTimers l.heap l'.heap
  := by
  cases hhead : l.head with
  | none =>
      simp only [addTimer, hhead] at h
      obtain rfl := Option.some.inj h
      apply SameTimers.refl
  | some head =>
      simp only [addTimer, hhead] at h
      obtain ⟨timerNode, -, h⟩ := Option.bind_eq_some_iff.mp h
      obtain ⟨headNode, -, h⟩ := Option.bind_eq_some_iff.mp h
      split at h
      · obtain ⟨heap₁, h₁, h⟩ := Option.bind_eq_some_iff.mp h
        obtain ⟨heap₂, h₂, h⟩ := Option.bind_eq_some_iff.mp h
        obtain rfl := Option.some.inj h
        exact (setNext_same h₁).trans (setPrev_same h₂)
      · apply addTimerFrom_same h

theorem adjustTimer_same (h : l.adjustTimer (some timer) = some l') :
  SameTimers l.heap l'.heap
  := by
  obtain ⟨node, -, h⟩ := Option.bind_eq_some_iff.mp h
  cases hnext : node.next with
  | none =>
      simp only [hnext] at h
      obtain rfl := Option.some.inj h
      apply SameTimers.refl
  | some tmp =>
      simp only [hnext] at h
      obtain ⟨tmpNode, -, h⟩ := Option.bind_eq_some_iff.mp h
      split_ifs at h
      · obtain rfl := Option.some.inj h
        apply SameTimers.refl
      · obtain ⟨heap₁, h₁, h⟩ := Option.bind_eq_some_iff.mp h
        obtain ⟨heap₂, h₂, h⟩ := Option.bind_eq_some_iff.mp h
        exact ((setPrev_same h₁).trans (setNext_same h₂)).trans (addTimerFrom_same h)
      · obtain ⟨heap₁, h₁, h⟩ := Option.bind_eq_some_iff.mp h
        obtain ⟨node₁, -, h⟩ := Option.bind_eq_some_iff.mp h
        obtain ⟨heap₂, h₂, h⟩ := Option.bind_eq_some_iff.mp h
        obtain ⟨node₂, -, h⟩ := Option.bind_eq_some_iff.mp h
        obtain ⟨next, -, h⟩ := Option.bind_eq_some_iff.mp h
        exact ((setNext_same h₁).trans (setPrev_same h₂)).trans (addTimerFrom_same h)

/-- A timer is freed. -/
theorem SameTimers.free (h : SameTimers heap heap') (hfree : heap'.free timer = some heap'') :
  heap''.live = heap.live.erase timer ∧ expireOf heap'' = expireOf heap
  := by
  obtain ⟨-, rfl⟩ := Heap.free_eq_some.mp hfree
  exact ⟨by rw [Heap.live_remove, h.live], h.expire⟩

theorem delTimer_frees (h : l.delTimer (some timer) = some l') :
  l'.heap.live = l.heap.live.erase timer ∧ expireOf l'.heap = expireOf l.heap
  := by
  rw [delTimer] at h
  split_ifs at h
  · obtain ⟨heap₁, h₁, h⟩ := Option.bind_eq_some_iff.mp h
    obtain rfl := Option.some.inj h
    exact (SameTimers.refl _).free h₁
  · obtain ⟨node, -, h⟩ := Option.bind_eq_some_iff.mp h
    obtain ⟨heap₁, h₁, h⟩ := Option.bind_eq_some_iff.mp h
    obtain ⟨heap₂, h₂, h⟩ := Option.bind_eq_some_iff.mp h
    obtain rfl := Option.some.inj h
    exact (setPrev_same h₁).free h₂
  · obtain ⟨node, -, h⟩ := Option.bind_eq_some_iff.mp h
    obtain ⟨heap₁, h₁, h⟩ := Option.bind_eq_some_iff.mp h
    obtain ⟨heap₂, h₂, h⟩ := Option.bind_eq_some_iff.mp h
    obtain rfl := Option.some.inj h
    exact (setNext_same h₁).free h₂
  · obtain ⟨node, -, h⟩ := Option.bind_eq_some_iff.mp h
    obtain ⟨heap₁, h₁, h⟩ := Option.bind_eq_some_iff.mp h
    obtain ⟨node₁, -, h⟩ := Option.bind_eq_some_iff.mp h
    obtain ⟨heap₂, h₂, h⟩ := Option.bind_eq_some_iff.mp h
    obtain ⟨heap₃, h₃, h⟩ := Option.bind_eq_some_iff.mp h
    obtain rfl := Option.some.inj h
    exact ((setNext_same h₁).trans (setPrev_same h₂)).free h₃

theorem tickLoop_expire (h : tickLoop cur fuel l p = some (fired, l')) :
  expireOf l'.heap = expireOf l.heap
  := by
  induction fuel generalizing l p fired with
  | zero =>
      cases p with
      | none =>
          cases h
          rfl
      | some tmp => cases h
  | succ fuel ih =>
      cases p with
      | none =>
          cases h
          rfl
      | some tmp =>
          obtain ⟨node, -, h⟩ := Option.bind_eq_some_iff.mp h
          split at h
          · cases h
            rfl
          · obtain ⟨heap₁, h₁, h⟩ := Option.bind_eq_some_iff.mp h
            obtain ⟨heap₂, h₂, h⟩ := Option.bind_eq_some_iff.mp h
            obtain ⟨⟨fired', l₁⟩, h₃, h⟩ := Option.bind_eq_some_iff.mp h
            cases h
            exact (ih h₃).trans ((clearPrev_same h₁).free h₂).2

/-! ### The calls -/

/-- What a call does to the timers and their timeouts. -/
theorem step_addTimer (h : calls.step l (.addTimer timer expire) = some l') :
  l'.heap.live = insert timer l.heap.live ∧
    expireOf l'.heap = Function.update (expireOf l.heap) timer expire
  := by
  obtain ⟨hlive, hexpire⟩ := addTimer_same h
  use hlive
  rw [hexpire]
  funext x
  rcases eq_or_ne x timer with rfl | hne
  · rw [Function.update_self, expireOf, Heap.cell_add_self]
  · rw [Function.update_of_ne hne, expireOf, Heap.cell_add_of_ne _ _ hne, expireOf]

theorem step_adjustTimer (h : calls.step l (.adjustTimer timer expire) = some l') :
  l'.heap.live = l.heap.live ∧
    expireOf l'.heap = Function.update (expireOf l.heap) timer expire
  := by
  obtain ⟨heap, hmodify, h⟩ := Option.bind_eq_some_iff.mp h
  obtain ⟨-, rfl⟩ := Heap.modify_eq_some.mp hmodify
  obtain ⟨hlive, hexpire⟩ := adjustTimer_same h
  use hlive
  rw [hexpire]
  funext x
  rcases eq_or_ne x timer with rfl | hne
  · rw [Function.update_self, expireOf, Heap.cell_put_self]
  · rw [Function.update_of_ne hne, expireOf, Heap.cell_put_of_ne _ _ hne, expireOf]

theorem tick_expire (h : l.tick cur = some (fired, l')) :
  expireOf l'.heap = expireOf l.heap
  := tickLoop_expire h

end LstTimer
