import Orgrim.TimingHeap.Runs

/-!
# The bounds of the array

A call is safe (`Safe`) if all it reads and writes lies in the array, no `int` overflows, and the
array has room for its timers afterwards.  `add_timer` doubles the capacity without regard to
whether this gives any room, and `tick` reads the first cell before it looks whether there is one:
both need a capacity that is not zero.  Except for overflow this is all (`safe_iff_permits`), and
with fewer than 2³⁰ timers there is none (`intsFit_of_lt`).
-/

namespace TimingHeap

open TimeHeap

variable {X : Type}

/-! ### The ints -/

namespace TimeHeap

/-- `top` -/
def top (h : TimeHeap X) : Option (Option X) :=
  if h.curSize = 0 then some none else h.get 0

/-- `hole * 2 + 1` is an `int` for every hole that the loop of `percolate_down` comes to. -/
def SinkFits : ℕ → TimeHeap X → Option X → ℕ → Prop
  | 0, _, _, _ => True
  | fuel + 1, h, temp, hole =>
      hole * 2 + 1 < 2 ^ 31 ∧
        (hole * 2 + 1 ≤ h.curSize - 1 →
          ∀ child ∈ h.child hole, ∀ expire ∈ h.expireAt child, ∀ timer ∈ temp,
            expire < (h.timers timer).expire →
              ∀ p ∈ h.get child, ∀ h' ∈ h.set hole p, SinkFits fuel h' temp child)

/-- So it is in `percolate_down`. -/
def PercolateFits (h : TimeHeap X) (hole : ℕ) : Prop :=
  ∀ temp ∈ h.get hole, SinkFits (h.curSize + 1) h temp hole

/-- So it is in the loop of the second constructor. -/
def PercolateAllFits (h : TimeHeap X) : ℕ → Prop
  | 0 => h.PercolateFits 0
  | i + 1 => h.PercolateFits (i + 1) ∧ ∀ h' ∈ h.percolateDown (i + 1), PercolateAllFits h' i

/-- So it is in `pop_timer`. -/
def PopFits (h : TimeHeap X) : Prop :=
  h.curSize ≠ 0 → ∀ last ∈ h.get (h.curSize - 1),
    ∀ h' ∈ ({ h with curSize := h.curSize - 1 } : TimeHeap X).set 0 last, h'.PercolateFits 0

/-- So it is in the loop of `tick`. -/
def TickFits (cur : ℤ) : ℕ → TimeHeap X → Option X → Prop
  | 0, _, _ => True
  | fuel + 1, h, tmp =>
      h.curSize ≠ 0 → ∀ timer ∈ tmp, (h.timers timer).expire ≤ cur →
        h.PopFits ∧ ∀ r ∈ h.popTimer, ∀ tmp' ∈ r.2.get 0, TickFits cur fuel r.2 tmp'

end TimeHeap

/-- A call, that of `top` included. -/
inductive HeapCall (X : Type) where
  | call (c : Call X)
  | top

/-- The heap, and the calls of its functions, `top` included. -/
def heapCalls [DecidableEq X] : Machine (Session X) (HeapCall X) where
  step s
    | .call c => calls.step s c
    | .top => s.heap.top.map (fun _ => s)

/-- No `int` overflows in a call: neither a place of the array nor the doubled capacity. -/
def IntsFit (h : TimeHeap X) : HeapCall X → Prop
  | .call (.addTimer (some _)) => h.capacity ≤ h.curSize → 2 * h.capacity < 2 ^ 31
  | .call (.addTimer none) => True
  | .call (.delTimer _) => True
  | .call .popTimer => h.PopFits
  | .call (.tick cur) => ∀ tmp ∈ h.get 0, TickFits cur (h.curSize + 1) h tmp
  | .top => True

/-- No `int` overflows in the constructor. -/
def Start.IntsFit (timers : X → HeapTimer) : Start X → Prop
  | .ofCapacity _ => True
  | .ofArray initArray capacity =>
      initArray.length ≠ 0 →
        PercolateAllFits
          { timers := timers
            array := fun i => initArray[i]?
            capacity := capacity
            curSize := initArray.length }
          ((initArray.length - 1) / 2)

variable {h h' : TimeHeap X}

theorem child_le {hole child : ℕ} (hleft : hole * 2 + 1 ≤ h.curSize - 1)
    (hchild : child ∈ h.child hole) :
  child ≤ h.curSize
  := by
  unfold TimeHeap.child at hchild
  split_ifs at hchild with hright
  · obtain ⟨right, -, hchild⟩ := Option.bind_eq_some_iff.mp hchild
    obtain ⟨left, -, hchild⟩ := Option.bind_eq_some_iff.mp hchild
    obtain rfl := Option.some.inj hchild
    split_ifs <;> omega
  · obtain rfl := Option.some.inj hchild
    omega

theorem curSize_of_set {i : ℕ} {p : Option X} (hset : h' ∈ h.set i p) :
  h'.curSize = h.curSize
  := by
  unfold TimeHeap.set at hset
  split_ifs at hset
  · obtain rfl := Option.some.inj hset
    rfl
  · exact absurd hset (Option.not_mem_none _)

theorem curSize_of_percolateDownLoop {fuel hole : ℕ} {temp : Option X}
    (hloop : h' ∈ percolateDownLoop fuel h temp hole) :
  h'.curSize = h.curSize
  := by
  induction fuel generalizing h hole with
  | zero => exact absurd hloop (Option.not_mem_none _)
  | succ fuel ih =>
      unfold percolateDownLoop at hloop
      split_ifs at hloop
      · obtain ⟨child, -, hloop⟩ := Option.bind_eq_some_iff.mp hloop
        obtain ⟨expire, -, hloop⟩ := Option.bind_eq_some_iff.mp hloop
        obtain ⟨timer, -, hloop⟩ := Option.bind_eq_some_iff.mp hloop
        split_ifs at hloop
        · obtain ⟨p, -, hloop⟩ := Option.bind_eq_some_iff.mp hloop
          obtain ⟨h₁, hset, hloop⟩ := Option.bind_eq_some_iff.mp hloop
          apply (ih hloop).trans (curSize_of_set hset)
        · apply curSize_of_set hloop
      · apply curSize_of_set hloop

theorem curSize_of_percolateDown {hole : ℕ} (hdown : h' ∈ h.percolateDown hole) :
  h'.curSize = h.curSize
  := by
  obtain ⟨temp, -, hloop⟩ := Option.bind_eq_some_iff.mp hdown
  apply curSize_of_percolateDownLoop hloop

theorem curSize_of_popTimer {r : Option X × TimeHeap X} (hpop : r ∈ h.popTimer) :
  r.2.curSize ≤ h.curSize
  := by
  unfold popTimer at hpop
  split_ifs at hpop
  · obtain rfl := Option.some.inj hpop
    apply Nat.le_refl
  · obtain ⟨p, -, hpop⟩ := Option.bind_eq_some_iff.mp hpop
    cases p with
    | none =>
        obtain rfl := Option.some.inj hpop
        apply Nat.le_refl
    | some timer =>
        obtain ⟨last, -, hpop⟩ := Option.bind_eq_some_iff.mp hpop
        obtain ⟨h₁, hset, hpop⟩ := Option.bind_eq_some_iff.mp hpop
        obtain ⟨h₂, hdown, hpop⟩ := Option.bind_eq_some_iff.mp hpop
        obtain rfl := Option.some.inj hpop
        rw [curSize_of_percolateDown hdown, curSize_of_set hset]
        apply Nat.sub_le

theorem sinkFits_of_lt {fuel hole : ℕ} {temp : Option X} (hsize : h.curSize < 2 ^ 30)
    (hhole : hole ≤ h.curSize) :
  SinkFits fuel h temp hole
  := by
  induction fuel generalizing h hole with
  | zero => trivial
  | succ fuel ih =>
      apply And.intro (by omega)
      intro hleft child hchild _ _ _ _ _ p _ h' hset
      have hkept := curSize_of_set hset
      apply ih
      · rw [hkept]
        exact hsize
      · rw [hkept]
        apply child_le hleft hchild

theorem percolateFits_of_lt {hole : ℕ} (hsize : h.curSize < 2 ^ 30) (hhole : hole ≤ h.curSize) :
  h.PercolateFits hole
  := fun _ _ => sinkFits_of_lt hsize hhole

theorem percolateAllFits_of_lt {i : ℕ} (hsize : h.curSize < 2 ^ 30) (hi : i ≤ h.curSize) :
  h.PercolateAllFits i
  := by
  induction i generalizing h with
  | zero => apply percolateFits_of_lt hsize hi
  | succ i ih =>
      apply And.intro (percolateFits_of_lt hsize hi)
      intro h' hdown
      have hkept := curSize_of_percolateDown hdown
      apply ih
      · rw [hkept]
        exact hsize
      · rw [hkept]
        apply Nat.le_of_succ_le hi

theorem popFits_of_lt (hsize : h.curSize < 2 ^ 30) :
  h.PopFits
  := by
  intro _ last _ h' hset
  apply percolateFits_of_lt _ (Nat.zero_le _)
  rw [curSize_of_set hset]
  apply Nat.lt_of_le_of_lt (Nat.sub_le _ _) hsize

theorem tickFits_of_lt {cur : ℤ} {fuel : ℕ} {tmp : Option X} (hsize : h.curSize < 2 ^ 30) :
  TickFits cur fuel h tmp
  := by
  induction fuel generalizing h tmp with
  | zero => trivial
  | succ fuel ih =>
      intro _ timer _ _
      apply And.intro (popFits_of_lt hsize)
      intro r hpop tmp' _
      apply ih (Nat.lt_of_le_of_lt (curSize_of_popTimer hpop) hsize)

/-- With fewer than 2³⁰ timers no `int` overflows. -/
theorem intsFit_of_lt (hsize : h.curSize < 2 ^ 30) (c : HeapCall X) :
  IntsFit h c
  := by
  cases c with
  | top => trivial
  | call c =>
      cases c with
      | addTimer timer =>
          cases timer with
          | none => trivial
          | some timer =>
              intro hfull
              apply Nat.lt_of_le_of_lt (Nat.mul_le_mul_left 2 hfull)
              omega
      | delTimer timer => trivial
      | popTimer => apply popFits_of_lt hsize
      | tick cur => exact fun _ _ => tickFits_of_lt hsize

/-! ### Safe calls -/

/-- The constructors accept every capacity from 0 on that suffices for the timers of the array. -/
def Start.Accepts : Start X → Prop
  | .ofCapacity cap => cap < 2 ^ 31
  | .ofArray initArray capacity => initArray.length ≤ capacity ∧ capacity < 2 ^ 31

/-- The timers of the array, if the heap is created from one. -/
def Start.initial : Start X → List X
  | .ofCapacity _ => []
  | .ofArray initArray _ => initArray

/-- There is room for the timers, and the capacity is an `int`. -/
structure Within (h : TimeHeap X) : Prop where
  room : h.curSize ≤ h.capacity
  int : h.capacity < 2 ^ 31

variable [DecidableEq X]

/-- A call reads and writes only cells of the array, and leaves room for the timers. -/
def Safe (s : Session X) (c : HeapCall X) : Prop :=
  IntsFit s.heap c ∧ ∃ s', heapCalls.step s c = some s' ∧ Within s'.heap

/-- So do the constructor and all the calls of a run. -/
def SafeRun (timers : X → HeapTimer) (start : Start X) (cs : List (HeapCall X)) : Prop :=
  start.IntsFit timers ∧ ∃ s₀, start.session timers = some s₀ ∧ Within s₀.heap ∧
    heapCalls.Along Safe s₀ cs

/-- There is a first cell if the call needs one. -/
def FindsCell (s : Session X) : HeapCall X → Prop
  | .call (.addTimer (some _)) => 0 < s.heap.capacity
  | .call (.tick _) => 0 < s.heap.capacity
  | _ => True

/-- A call that needs a first cell has one, and no `int` overflows. -/
def Permits (s : Session X) (c : HeapCall X) : Prop :=
  IntsFit s.heap c ∧ FindsCell s c

/-- So it is in all the calls of a run. -/
def PermitsRun (timers : X → HeapTimer) (start : Start X) (cs : List (HeapCall X)) : Prop :=
  start.IntsFit timers ∧ ∀ s₀ ∈ start.session timers, heapCalls.Along Permits s₀ cs

variable {timers : X → HeapTimer} {s : Session X} {xs : List X}

/-- A heap with room for one timer at least does what every call asks for. -/
theorem exists_held (hholds : Holds s.heap xs) (c : HeapCall X) :
  ∃ s' ys, heapCalls.step s c = some s' ∧ Holds s'.heap ys ∧ ys.length ≤ xs.length + 1 ∧
    (s.heap.capacity < 2 ^ 31 → IntsFit s.heap c → s'.heap.capacity < 2 ^ 31)
  := by
  cases c with
  | top =>
      refine ⟨s, xs, ?_, hholds, Nat.le_succ _, fun hint _ => hint⟩
      have htop : ∃ p, s.heap.top = some p := by
        unfold top
        split_ifs
        · exact ⟨none, rfl⟩
        · exact ⟨_, get_of_lt hholds.nonempty⟩
      obtain ⟨p, hp⟩ := htop
      simp only [heapCalls, hp, Option.map_some]
  | call c =>
      obtain ⟨s', ys, hstep, hstepped⟩ := exists_stepped hholds c
      refine ⟨s', ys, hstep, hstepped.holds, hstepped.length_le, ?_⟩
      intro hint hfits
      rcases hstepped.capacity with heq | ⟨⟨timer, rfl⟩, hfull, hdouble⟩
      · rw [heq]
        exact hint
      · rw [hdouble]
        apply hfits hfull

/-! ### Few timers -/

omit [DecidableEq X] in
theorem permits_of_holds (hholds : Holds s.heap xs) (hsize : xs.length < 2 ^ 30)
    (c : HeapCall X) :
  Permits s c
  := by
  rw [hholds.length_eq] at hsize
  apply And.intro (intsFit_of_lt hsize c)
  unfold FindsCell
  split
  · apply hholds.nonempty
  · apply hholds.nonempty
  · trivial

/-- Each call adds one timer at most. -/
theorem along_permits_of_few {cs : List (HeapCall X)} (hholds : Holds s.heap xs)
    (hfew : xs.length + cs.length < 2 ^ 30) :
  heapCalls.Along Permits s cs
  := by
  induction cs generalizing s xs with
  | nil => trivial
  | cons c cs ih =>
      rw [List.length_cons] at hfew
      apply And.intro (permits_of_holds hholds (by omega) c)
      intro s' hs'
      obtain ⟨s₁, ys, hstep, hholds', hlength, -⟩ := exists_held hholds c
      obtain rfl := Option.some.inj (hstep.symm.trans hs')
      apply ih hholds'
      omega

/-- So every run is permitted that begins with a cell, as long as it is not too long. -/
theorem permitsRun_of_few {start : Start X} (hfits : start.Fits) {cs : List (HeapCall X)}
    (hfew : start.initial.length + cs.length < 2 ^ 30) :
  PermitsRun timers start cs
  := by
  cases start with
  | ofCapacity cap =>
      apply And.intro trivial
      rintro _ ⟨⟩
      apply along_permits_of_few (holds_ofCapacity timers hfits) hfew
  | ofArray initArray capacity =>
      obtain ⟨h, hcreate, hholds, -⟩ := ofArray_spec timers hfits.1 hfits.2
      constructor
      · intro _
        apply percolateAllFits_of_lt
        · apply Nat.lt_of_le_of_lt (Nat.le_add_right _ cs.length) hfew
        · apply Nat.le_trans (Nat.div_le_self _ 2) (Nat.sub_le _ 1)
      · intro s₀ hs₀
        rw [Start.session, hcreate] at hs₀
        obtain rfl := Option.some.inj hs₀
        apply along_permits_of_few hholds hfew

/-! ### An array without cells -/

/-- What is true of a heap between the calls: it holds some timers, or has no cell at all. -/
structure Bounded (s : Session X) : Prop where
  within : Within s.heap
  holds : 0 < s.heap.capacity → ∃ xs, Holds s.heap xs

omit [DecidableEq X] in
/-- The first timer does not fit into a doubled array of no cells. -/
theorem addTimer_of_capacity_zero (hsize : h.curSize = 0) (hzero : h.capacity = 0) (timer : X) :
  h.addTimer (some timer) = none
  := by
  simp only [addTimer, resizeIfFull, resize, hsize, hzero, addTimerLoop, TimeHeap.set,
    Nat.le_refl, if_true, Nat.mul_zero, Option.bind_eq_bind, Option.bind_some, Nat.lt_irrefl,
    if_false]

omit [DecidableEq X] in
theorem tick_of_capacity_zero (hzero : h.capacity = 0) (cur : ℤ) :
  h.tick cur = none
  := by
  simp only [tick, TimeHeap.get, hzero, Nat.lt_irrefl, if_false, Option.bind_eq_bind,
    Option.bind_none]

omit [DecidableEq X] in
theorem Bounded.of_capacity_zero (hsize : s.heap.curSize = 0) (hzero : s.heap.capacity = 0) :
  Bounded s
  := by
  apply Bounded.mk
  · apply Within.mk
    · apply Nat.le_of_eq (hsize.trans hzero.symm)
    · rw [hzero]
      decide
  · intro hpos
    exact absurd hpos (Nat.not_lt.mpr (Nat.le_of_eq hzero))

/-- Where there is no cell, the calls that need none leave it so. -/
theorem step_of_capacity_zero (hsize : s.heap.curSize = 0) (hzero : s.heap.capacity = 0)
    (c : HeapCall X) :
  (FindsCell s c ∧ ∃ s', heapCalls.step s c = some s' ∧ Bounded s') ∨
    (¬ FindsCell s c ∧ heapCalls.step s c = none)
  := by
  have hbounded := Bounded.of_capacity_zero hsize hzero
  have hnone : ¬ 0 < s.heap.capacity := Nat.not_lt.mpr (Nat.le_of_eq hzero)
  cases c with
  | top =>
      refine Or.inl ⟨trivial, s, ?_, hbounded⟩
      simp only [heapCalls, top, if_pos hsize, Option.map_some]
  | call c =>
      cases c with
      | addTimer timer =>
          cases timer with
          | none => apply Or.inl ⟨trivial, s, step_addTimer_none s, hbounded⟩
          | some timer =>
              refine Or.inr ⟨hnone, ?_⟩
              simp only [heapCalls, calls, addTimer_of_capacity_zero hsize hzero, Option.map_none]
      | delTimer timer =>
          refine Or.inl ⟨trivial, _, rfl, Bounded.of_capacity_zero ?_ ?_⟩
          · cases timer <;> exact hsize
          · cases timer <;> exact hzero
      | popTimer => apply Or.inl ⟨trivial, s, step_popTimer_empty hsize, hbounded⟩
      | tick cur =>
          refine Or.inr ⟨hnone, ?_⟩
          simp only [heapCalls, calls, tick_of_capacity_zero hzero, Option.map_none]

/-! ### Runs -/

/-- A call in which no `int` overflows leaves the heap bounded, or fails for want of a cell. -/
theorem Bounded.step (hbounded : Bounded s) {c : HeapCall X} (hfits : IntsFit s.heap c) :
  (FindsCell s c ∧ ∃ s', heapCalls.step s c = some s' ∧ Bounded s') ∨
    (¬ FindsCell s c ∧ heapCalls.step s c = none)
  := by
  rcases Nat.eq_zero_or_pos s.heap.capacity with hzero | hpos
  · have hroom := hbounded.within.room
    rw [hzero] at hroom
    apply step_of_capacity_zero (Nat.le_zero.mp hroom) hzero c
  · obtain ⟨xs, hholds⟩ := hbounded.holds hpos
    obtain ⟨s', ys, hstep, hholds', -, hint⟩ := exists_held hholds c
    refine Or.inl ⟨?_, s', hstep, ⟨hholds'.room, hint hbounded.within.int hfits⟩,
      fun _ => ⟨ys, hholds'⟩⟩
    unfold FindsCell
    split
    · exact hpos
    · exact hpos
    · trivial

theorem Bounded.safe_iff (hbounded : Bounded s) (c : HeapCall X) :
  Safe s c ↔ Permits s c
  := by
  apply and_congr_right
  intro hfits
  rcases hbounded.step hfits with ⟨hfinds, s', hstep, hbounded'⟩ | ⟨hfinds, hstep⟩
  · apply iff_of_true ⟨s', hstep, hbounded'.within⟩ hfinds
  · apply iff_of_false _ hfinds
    rintro ⟨s', hsome, -⟩
    cases hstep.symm.trans hsome

theorem Bounded.next (hbounded : Bounded s) {c : HeapCall X} (hpermits : Permits s c) :
  ∀ s' ∈ heapCalls.step s c, Bounded s'
  := by
  intro s' hs'
  rcases hbounded.step hpermits.1 with ⟨-, s₁, hstep, hbounded'⟩ | ⟨hfinds, -⟩
  · obtain rfl := Option.some.inj (hstep.symm.trans hs')
    exact hbounded'
  · exact absurd hpermits.2 hfinds

omit [DecidableEq X] in
/-- The constructors leave a bounded heap. -/
theorem exists_bounded (timers : X → HeapTimer) {start : Start X} (haccepts : start.Accepts) :
  ∃ s₀, start.session timers = some s₀ ∧ Bounded s₀
  := by
  cases start with
  | ofCapacity cap =>
      refine ⟨_, rfl, ⟨Nat.zero_le cap, haccepts⟩, ?_⟩
      intro hpos
      exact ⟨[], holds_ofCapacity timers hpos⟩
  | ofArray initArray capacity =>
      rcases Nat.eq_zero_or_pos capacity with hzero | hpos
      · have hlength := haccepts.1
        rw [hzero] at hlength
        obtain rfl := List.length_eq_zero_iff.mp (Nat.le_zero.mp hlength)
        subst hzero
        exact ⟨_, rfl, Bounded.of_capacity_zero rfl rfl⟩
      · obtain ⟨h, hcreate, hholds, -, hcapacity⟩ := ofArray_spec timers hpos haccepts.1
        refine ⟨⟨h, initArray, []⟩, ?_, ⟨hholds.room, ?_⟩, fun _ => ⟨initArray, hholds⟩⟩
        · simp only [Start.session, hcreate, Option.map_some]
        · apply hcapacity ▸ haccepts.2

/-- Whatever the capacity to begin with: in a run the timers stay within the capacity, and the calls
within the array, exactly if no call needs a first cell where there is none, and no `int`
overflows. -/
theorem safe_iff_permits (timers : X → HeapTimer) {start : Start X} (haccepts : start.Accepts)
    (cs : List (HeapCall X)) :
  SafeRun timers start cs ↔ PermitsRun timers start cs
  := by
  obtain ⟨s₀, hstart, hbounded⟩ := exists_bounded timers haccepts
  apply and_congr_right
  intro _
  constructor
  · rintro ⟨_, hs₀, -, hsafe⟩ _ hs₁
    obtain rfl := Option.some.inj (hs₀.symm.trans hs₁)
    obtain rfl := Option.some.inj (hs₀.symm.trans hstart)
    apply Machine.along_of_invariant Bounded _ hbounded hsafe
    intro s c hbounded hsafe
    have hpermits := (hbounded.safe_iff c).mp hsafe
    exact ⟨hpermits, hbounded.next hpermits⟩
  · intro hpermits
    refine ⟨s₀, hstart, hbounded.within, ?_⟩
    apply Machine.along_of_invariant Bounded _ hbounded (hpermits s₀ hstart)
    intro s c hbounded hpermits
    exact ⟨(hbounded.safe_iff c).mpr hpermits, hbounded.next hpermits⟩

/-- Four timers, one after the other, in an array that has room for one to begin with. -/
theorem safeRun_four :
  SafeRun (fun x : ℕ => ⟨x, true⟩) (.ofCapacity 1)
    [.call (.addTimer (some 7)), .call (.addTimer (some 5)), .call (.addTimer (some 6)),
      .call (.addTimer (some 3)), .top, .call .popTimer, .call (.tick 6)]
  := by
  have haccepts : (Start.ofCapacity 1 : Start ℕ).Accepts := show 1 < 2 ^ 31 by decide
  have hfits : (Start.ofCapacity 1 : Start ℕ).Fits := Nat.one_pos
  apply (safe_iff_permits _ haccepts _).mpr
  apply permitsRun_of_few hfits
  decide

/-- A heap with no room to begin with gets none for its first timer. -/
theorem not_safeRun_zero :
  (Start.ofCapacity 0 : Start ℕ).Accepts ∧
    ¬ SafeRun (fun x : ℕ => ⟨x, true⟩) (.ofCapacity 0) [.call (.addTimer (some 0))]
  := by
  apply And.intro (show 0 < 2 ^ 31 by decide)
  rintro ⟨-, _, ⟨⟩, -, ⟨-, s', hstep, -⟩, -⟩
  cases hstep

end TimingHeap
