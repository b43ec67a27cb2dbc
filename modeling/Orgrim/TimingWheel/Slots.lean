import Orgrim.Theory.Strand
import Orgrim.TimingWheel.Wheel

/-!
# The slots of the timing wheel

`Holds w L`: the slot `ts` of the wheel is a doubly linked list of the timers `L ts`, and these are
the allocated timers that belong there.  Every function of the wheel keeps this.
-/

namespace TimingWheel

open Links TimeWheel

variable {X : Type*}

namespace TimeWheel

/-- The links of the timers. -/
def next (w : TimeWheel X) (x : X) : Option X := (w.heap.cell x).next

def prev (w : TimeWheel X) (x : X) : Option X := (w.heap.cell x).prev

def timeSlot (w : TimeWheel X) (x : X) : ℕ := (w.heap.cell x).timeSlot

def rotation (w : TimeWheel X) (x : X) : ℕ := (w.heap.cell x).rotation

end TimeWheel

/-- The slots of the wheel are doubly linked lists of the timers `L`. -/
structure Holds (w : TimeWheel X) (L : ℕ → List X) : Prop where
  strand : ∀ ts, ∃ tail, Strand w.next w.prev (w.slots ts) (L ts) tail
  mem_iff : ∀ ts x, x ∈ L ts ↔ x ∈ w.heap.live ∧ w.timeSlot x = ts

/-- The timer `y` when `x` has been taken out from where it is linked. -/
def relinked [DecidableEq X] (w : TimeWheel X) (x y : X) : TwTimer X :=
  { w.heap.cell y with
    next := if w.prev x = some y then w.next x else w.next y
    prev := if w.next x = some y then w.prev x else w.prev y }

/-- In `w'` the timer `x` has been taken out of the slot `ts` and deleted. -/
structure Unlinked [DecidableEq X] (w w' : TimeWheel X) (ts : ℕ) (x : X) : Prop where
  live : w'.heap.live = w.heap.live.erase x
  slots : w'.slots =
    if w.slots ts = some x then Function.update w.slots ts (w.next x) else w.slots
  curSlot : w'.curSlot = w.curSlot
  cell : ∀ y, y ≠ x → w'.heap.cell y = relinked w x y

variable {w w' : TimeWheel X} {L : ℕ → List X} {ts : ℕ} {x y : X} {xs ys : List X}

theorem Holds.congr (h : Holds w L) (hslots : w'.slots = w.slots)
    (hlive : w'.heap.live = w.heap.live) (hnext : w'.next = w.next) (hprev : w'.prev = w.prev)
    (htimeSlot : w'.timeSlot = w.timeSlot) :
  Holds w' L
  := by
  constructor
  · rw [hslots, hnext, hprev]
    apply h.strand
  · rw [hlive, htimeSlot]
    apply h.mem_iff

/-- What is known of a timer in the list of a slot. -/
structure Placed (w : TimeWheel X) (ts : ℕ) (xs : List X) (x : X) (ys : List X) : Prop where
  live : x ∈ w.heap.live
  timeSlot : w.timeSlot x = ts
  next : w.next x = ys.head?
  prev : w.prev x = xs.getLast?
  first : w.slots ts = some x ↔ xs = []
  others_live : ∀ y ∈ xs ++ ys, y ∈ w.heap.live
  others_ne : ∀ y ∈ xs ++ ys, y ≠ x

theorem Holds.placed (h : Holds w L) (hx : L ts = xs ++ x :: ys) :
  Placed w ts xs x ys
  := by
  obtain ⟨tail, hstrand⟩ := h.strand ts
  rw [hx] at hstrand
  have hnodup := List.nodup_cons.mp (List.nodup_middle.mp hstrand.nodup)
  have hothers : ∀ y ∈ xs ++ ys, y ∈ L ts := by
    intro y hy
    rw [hx]
    apply List.perm_middle.mem_iff.mpr (List.mem_cons_of_mem x hy)
  have hself : x ∈ L ts := by
    rw [hx]
    apply List.mem_append_right xs List.mem_cons_self
  obtain ⟨hlive, htimeSlot⟩ := (h.mem_iff ts x).mp hself
  refine ⟨hlive, htimeSlot, hstrand.neighbours.1, hstrand.neighbours.2,
    hstrand.head_eq_some_iff, ?_, ?_⟩
  · intro y hy
    exact ((h.mem_iff ts y).mp (hothers y hy)).1
  · rintro y hy rfl
    exact hnodup.1 hy

variable [DecidableEq X]

/-! ### Taking out a timer -/

theorem Unlinked.next (h : Unlinked w w' ts x) (hy : y ≠ x) :
  w'.next y = if w.prev x = some y then w.next x else w.next y
  := congrArg TwTimer.next (h.cell y hy)

theorem Unlinked.prev (h : Unlinked w w' ts x) (hy : y ≠ x) :
  w'.prev y = if w.next x = some y then w.prev x else w.prev y
  := congrArg TwTimer.prev (h.cell y hy)

theorem Unlinked.timeSlot (h : Unlinked w w' ts x) (hy : y ≠ x) :
  w'.timeSlot y = w.timeSlot y
  := by
  rw [TimeWheel.timeSlot, h.cell y hy]
  rfl

theorem Unlinked.rotation (h : Unlinked w w' ts x) (hy : y ≠ x) :
  w'.rotation y = w.rotation y
  := by
  rw [TimeWheel.rotation, h.cell y hy]
  rfl

/-- The slot after the timer has been taken out. -/
theorem Unlinked.slots_self (h : Unlinked w w' ts x) (hplaced : Placed w ts xs x ys) :
  w'.slots ts = if xs = [] then w.next x else w.slots ts
  := by
  rw [h.slots]
  by_cases hfirst : w.slots ts = some x
  · rw [if_pos hfirst, if_pos (hplaced.first.mp hfirst), Function.update_self]
  · rw [if_neg hfirst, if_neg (fun hnil => hfirst (hplaced.first.mpr hnil))]

theorem Unlinked.slots_of_ne {l : ℕ} (h : Unlinked w w' ts x) (hl : l ≠ ts) :
  w'.slots l = w.slots l
  := by
  rw [h.slots]
  split_ifs
  · rw [Function.update_of_ne hl]
  · rfl

/-- The timers of the other slots are left as they are. -/
theorem Unlinked.links_of_ne (h : Unlinked w w' ts x) (hplaced : Placed w ts xs x ys)
    (hslots : ∀ z ∈ xs ++ ys, w.timeSlot z = ts) (hy : w.timeSlot y ≠ ts) :
  w'.next y = w.next y ∧ w'.prev y = w.prev y
  := by
  have hyx : y ≠ x := by
    rintro rfl
    apply hy hplaced.timeSlot
  rw [h.next hyx, h.prev hyx, hplaced.next, hplaced.prev]
  constructor
  · apply if_neg
    intro hlast
    apply hy (hslots y (List.mem_append_left _ (List.mem_of_getLast? hlast)))
  · apply if_neg
    intro hfirst
    apply hy (hslots y (List.mem_append_right _ (List.mem_of_mem_head? hfirst)))

theorem Holds.unlink (h : Holds w L) (hx : L ts = xs ++ x :: ys) (hunlinked : Unlinked w w' ts x) :
  Holds w' (Function.update L ts (xs ++ ys))
  := by
  have hplaced := h.placed hx
  have hslots : ∀ y ∈ xs ++ ys, w.timeSlot y = ts := by
    intro y hy
    apply ((h.mem_iff ts y).mp _).2
    rw [hx]
    apply List.perm_middle.mem_iff.mpr (List.mem_cons_of_mem x hy)
  constructor
  · intro l
    by_cases hl : l = ts
    · subst hl
      obtain ⟨tail, hstrand⟩ := h.strand l
      rw [hx] at hstrand
      rw [Function.update_self, hunlinked.slots_self hplaced]
      use if ys = [] then w.prev x else tail
      apply hstrand.unlink
      · intro y hy
        apply hunlinked.next (hplaced.others_ne y hy)
      · intro y hy
        apply hunlinked.prev (hplaced.others_ne y hy)
    · obtain ⟨tail, hstrand⟩ := h.strand l
      rw [Function.update_of_ne hl, hunlinked.slots_of_ne hl]
      use tail
      have hlinks : ∀ y ∈ L l, w'.next y = w.next y ∧ w'.prev y = w.prev y := by
        intro y hy
        apply hunlinked.links_of_ne hplaced hslots
        rw [((h.mem_iff l y).mp hy).2]
        exact hl
      apply hstrand.congr
      · intro y hy
        exact (hlinks y hy).1
      · intro y hy
        exact (hlinks y hy).2
  · intro l y
    have hmem : y ∈ w'.heap.live ∧ w'.timeSlot y = l ↔ y ≠ x ∧ y ∈ L l := by
      rw [hunlinked.live, Finset.mem_erase, and_assoc]
      apply and_congr_right
      intro hy
      rw [hunlinked.timeSlot hy, ← h.mem_iff]
    rw [hmem]
    by_cases hl : l = ts
    · subst hl
      rw [Function.update_self, hx, List.perm_middle.mem_iff, List.mem_cons]
      constructor
      · intro hy
        exact ⟨hplaced.others_ne y hy, Or.inr hy⟩
      · rintro ⟨hne, hy⟩
        apply hy.resolve_left hne
    · rw [Function.update_of_ne hl]
      symm
      apply and_iff_right_of_imp
      rintro hy rfl
      apply hl (((h.mem_iff l y).mp hy).2.symm.trans hplaced.timeSlot)

/-! ### Writing links -/

/-- What `setPrev` leaves, if the pointer is null or leads to a timer. -/
theorem exists_setPrev (heap : Heap X (TwTimer X)) {p : Option X} (v : Option X)
    (hp : ∀ x, p = some x → x ∈ heap.live) :
  ∃ heap', setPrev heap p v = some heap' ∧ heap'.live = heap.live ∧
    ∀ y, heap'.cell y = if p = some y then { heap.cell y with prev := v } else heap.cell y
  := by
  cases p with
  | none => exact ⟨heap, rfl, rfl, fun y => rfl⟩
  | some x => apply Heap.exists_modify (hp x rfl) (fun timer => { timer with prev := v })

/-- What `setNext` leaves, if the pointer leads to a timer. -/
theorem exists_setNext (heap : Heap X (TwTimer X)) {p : Option X} (v : Option X)
    (hx : p = some x) (hlive : x ∈ heap.live) :
  ∃ heap', setNext heap p v = some heap' ∧ heap'.live = heap.live ∧
    ∀ y, heap'.cell y = if p = some y then { heap.cell y with next := v } else heap.cell y
  := by
  subst hx
  apply Heap.exists_modify hlive (fun timer => { timer with next := v })

omit [DecidableEq X] in
/-- The timers next to a timer are allocated, and are not that timer. -/
theorem Placed.next_live (h : Placed w ts xs x ys) (hy : w.next x = some y) :
  y ∈ w.heap.live ∧ y ≠ x
  := by
  have hmem : y ∈ xs ++ ys := by
    apply List.mem_append_right
    apply List.mem_of_mem_head?
    rw [← h.next, hy]
    rfl
  exact ⟨h.others_live y hmem, h.others_ne y hmem⟩

omit [DecidableEq X] in
theorem Placed.prev_live (h : Placed w ts xs x ys) (hy : w.prev x = some y) :
  y ∈ w.heap.live ∧ y ≠ x
  := by
  have hmem : y ∈ xs ++ ys := by
    apply List.mem_append_left
    apply List.mem_of_getLast?
    rw [← h.prev, hy]
  exact ⟨h.others_live y hmem, h.others_ne y hmem⟩

/-- What the functions do to a timer that is not the first of its slot. -/
theorem exists_bypass (h : Placed w ts xs x ys) (hxs : xs ≠ []) :
  ∃ heap₁ heap₂, setNext w.heap (w.prev x) (w.next x) = some heap₁ ∧
    heap₁.load x = some (w.heap.cell x) ∧ setPrev heap₁ (w.next x) (w.prev x) = some heap₂ ∧
    heap₂.load x = some (w.heap.cell x) ∧ heap₂.live = w.heap.live ∧
    ∀ y, y ≠ x → heap₂.cell y = relinked w x y
  := by
  obtain ⟨p, hp⟩ : ∃ p, w.prev x = some p := by
    rw [h.prev]
    exact ⟨_, List.getLast?_eq_some_getLast hxs⟩
  obtain ⟨hplive, hpx⟩ := h.prev_live hp
  obtain ⟨heap₁, hset₁, hlive₁, hcell₁⟩ := exists_setNext w.heap (w.next x) hp hplive
  have hself₁ : heap₁.cell x = w.heap.cell x := by
    rw [hcell₁, hp, if_neg (fun heq => hpx (Option.some.inj heq))]
  obtain ⟨heap₂, hset₂, hlive₂, hcell₂⟩ : ∃ heap₂,
      setPrev heap₁ (w.next x) (w.prev x) = some heap₂ ∧
      heap₂.live = heap₁.live ∧ ∀ y, heap₂.cell y =
        if w.next x = some y then { heap₁.cell y with prev := w.prev x } else heap₁.cell y := by
    apply exists_setPrev
    intro y hy
    rw [hlive₁]
    exact (h.next_live hy).1
  have hself₂ : heap₂.cell x = w.heap.cell x := by
    rw [hcell₂, if_neg (fun heq => (h.next_live heq).2 rfl), hself₁]
  refine ⟨heap₁, heap₂, hset₁, ?_, hset₂, ?_, hlive₂.trans hlive₁, ?_⟩
  · rw [Heap.load_of_mem (hlive₁ ▸ h.live), hself₁]
  · rw [Heap.load_of_mem (hlive₂ ▸ hlive₁ ▸ h.live), hself₂]
  · intro y hy
    rw [hcell₂, hcell₁, relinked]
    split_ifs <;> rfl

/-- What they do to the first timer of its slot. -/
theorem relinked_first (h : Placed w ts xs x ys) (hxs : xs = []) :
  relinked w x y =
    if w.next x = some y then { w.heap.cell y with prev := none } else w.heap.cell y
  := by
  have hprev : w.prev x = none := by
    rw [h.prev, hxs, List.getLast?_nil]
  rw [relinked, hprev, if_neg (Option.some_ne_none y).symm]
  split_ifs <;> rfl

theorem expire_spec (hplaced : Placed w w.curSlot xs x ys) :
  ∃ w', w.expire x = some (ys.head?, w') ∧ Unlinked w w' w.curSlot x
  := by
  have hload := Heap.load_of_mem hplaced.live
  simp only [expire, hload, Option.bind_eq_bind, Option.bind_some]
  by_cases hfirst : w.slots w.curSlot = some x
  · obtain ⟨heap, hset, hlive, hcell⟩ : ∃ heap,
        setPrev (w.heap.remove x) (w.next x) none = some heap ∧
        heap.live = (w.heap.remove x).live ∧ ∀ y, heap.cell y =
          if w.next x = some y then { (w.heap.remove x).cell y with prev := none }
          else (w.heap.remove x).cell y := by
      apply exists_setPrev
      intro y hy
      obtain ⟨hylive, hyx⟩ := hplaced.next_live hy
      apply Finset.mem_erase.mpr ⟨hyx, hylive⟩
    unfold TimeWheel.next at hset
    rw [if_pos hfirst.symm, Heap.free_of_mem hplaced.live, Option.bind_some, hset,
      Option.bind_some]
    refine ⟨_, congrArg some (congrArg₂ Prod.mk hplaced.next rfl), hlive, ?_, rfl, ?_⟩
    · rw [if_pos hfirst]
      rfl
    · intro y hy
      rw [relinked_first hplaced (hplaced.first.mp hfirst)]
      apply hcell y
  · obtain ⟨heap₁, heap₂, hset₁, hload₁, hset₂, hload₂, hlive, hcell⟩ :=
      exists_bypass hplaced (fun hnil => hfirst (hplaced.first.mpr hnil))
    unfold TimeWheel.next TimeWheel.prev at hset₁ hset₂
    have hfree := Heap.free_of_mem (hlive ▸ hplaced.live)
    rw [if_neg (Ne.symm hfirst), hset₁, Option.bind_some, hload₁, Option.bind_some, hset₂,
      Option.bind_some, hload₂, Option.bind_some, hfree, Option.bind_some]
    refine ⟨_, congrArg some (congrArg₂ Prod.mk hplaced.next rfl), ?_, ?_, rfl, hcell⟩
    · apply congrArg (fun live => live.erase x) hlive
    · rw [if_neg hfirst]

theorem delTimer_spec (hplaced : Placed w ts xs x ys) :
  ∃ w', w.delTimer (some x) = some w' ∧ Unlinked w w' ts x
  := by
  have hload := Heap.load_of_mem hplaced.live
  simp only [delTimer, hload, Option.bind_eq_bind, Option.bind_some]
  have hts : (w.heap.cell x).timeSlot = ts := hplaced.timeSlot
  rw [hts]
  by_cases hfirst : w.slots ts = some x
  · obtain ⟨heap, hset, hlive, hcell⟩ : ∃ heap, setPrev w.heap (w.next x) none = some heap ∧
        heap.live = w.heap.live ∧ ∀ y, heap.cell y =
          if w.next x = some y then { w.heap.cell y with prev := none } else w.heap.cell y := by
      apply exists_setPrev
      intro y hy
      exact (hplaced.next_live hy).1
    unfold TimeWheel.next at hset
    have hfree := Heap.free_of_mem (hlive ▸ hplaced.live)
    rw [if_pos hfirst.symm, hset, Option.bind_some, hfree, Option.bind_some]
    refine ⟨_, rfl, ?_, ?_, rfl, ?_⟩
    · apply congrArg (fun live => live.erase x) hlive
    · rw [if_pos hfirst]
      rfl
    · intro y hy
      rw [relinked_first hplaced (hplaced.first.mp hfirst)]
      apply hcell y
  · obtain ⟨heap₁, heap₂, hset₁, hload₁, hset₂, -, hlive, hcell⟩ :=
      exists_bypass hplaced (fun hnil => hfirst (hplaced.first.mpr hnil))
    unfold TimeWheel.next TimeWheel.prev at hset₁ hset₂
    have hfree := Heap.free_of_mem (hlive ▸ hplaced.live)
    rw [if_neg (Ne.symm hfirst), hset₁, Option.bind_some, hload₁, Option.bind_some, hset₂,
      Option.bind_some, hfree, Option.bind_some]
    refine ⟨_, rfl, ?_, ?_, rfl, hcell⟩
    · apply congrArg (fun live => live.erase x) hlive
    · rw [if_neg hfirst]

/-! ### Adding a timer -/

/-- The slot of a timer that is added now. -/
def TimeWheel.slotFor (w : TimeWheel X) (timeout : ℤ) : ℕ :=
  (w.curSlot + ticks timeout % N) % N

/-- In `w'` the timer `x` has been created and put before the timers of its slot. -/
structure Added (w w' : TimeWheel X) (timeout : ℤ) (x : X) : Prop where
  fresh : x ∉ w.heap.live
  live : w'.heap.live = insert x w.heap.live
  slots : w'.slots = Function.update w.slots (w.slotFor timeout) (some x)
  curSlot : w'.curSlot = w.curSlot
  self : w'.heap.cell x =
    ⟨ticks timeout / N, w.slotFor timeout, w.slots (w.slotFor timeout), none⟩
  cell : ∀ y, y ≠ x → w'.heap.cell y =
    if w.slots (w.slotFor timeout) = some y then { w.heap.cell y with prev := some x }
    else w.heap.cell y

omit [DecidableEq X] in
theorem Holds.head_mem (h : Holds w L) (hx : w.slots ts = some x) :
  x ∈ L ts
  := by
  obtain ⟨tail, hstrand⟩ := h.strand ts
  rw [hstrand.head_eq] at hx
  apply List.mem_of_mem_head? hx

theorem addTimer_spec (h : Holds w L) {timeout : ℤ} (htimeout : 0 ≤ timeout)
    (hx : x ∉ w.heap.live) :
  ∃ w', w.addTimer timeout (some x) = some (some x, w') ∧ Added w w' timeout x
  := by
  have hmalloc : ∀ f, w.heap.malloc (some x) f = (some x, w.heap.add x f) := fun f => if_neg hx
  simp only [addTimer, if_neg (Int.not_lt.mpr htimeout), hmalloc]
  cases hhead : w.slots ((w.curSlot + ticks timeout % N) % N) with
  | none =>
      refine ⟨_, rfl, hx, rfl, rfl, rfl, ?_, ?_⟩
      · rw [Heap.cell_add_self, slotFor, hhead]
      · intro y hy
        rw [slotFor, hhead, if_neg (Option.some_ne_none y).symm, Heap.cell_add_of_ne _ _ hy]
  | some head =>
      have hlive : head ∈ w.heap.live := ((h.mem_iff _ head).mp (h.head_mem hhead)).1
      have hne : head ≠ x := Heap.ne_of_not_mem hx hlive
      obtain ⟨heap₁, hset₁, hlive₁, hcell₁⟩ := exists_setNext
        (w.heap.add x (fun _ => ⟨ticks timeout / N, w.slotFor timeout, none, none⟩))
        (some head) rfl (Finset.mem_insert_self x w.heap.live)
      obtain ⟨heap₂, hset₂, hlive₂, hcell₂⟩ :
          ∃ heap₂, setPrev heap₁ (some head) (some x) = some heap₂ ∧ heap₂.live = heap₁.live ∧
            ∀ y, heap₂.cell y =
              if some head = some y then { heap₁.cell y with prev := some x }
              else heap₁.cell y := by
        apply exists_setPrev
        rintro _ ⟨⟩
        rw [hlive₁]
        apply Finset.mem_insert_of_mem hlive
      unfold slotFor at hset₁
      simp only [Option.bind_eq_bind, hset₁, Option.bind_some, hset₂]
      refine ⟨_, rfl, hx, hlive₂.trans hlive₁, rfl, rfl, ?_, ?_⟩
      · rw [hcell₂, if_neg (fun heq => hne (Option.some.inj heq)), hcell₁, if_pos rfl,
          Heap.cell_add_self]
        rw [← hhead]
        rfl
      · intro y hy
        rw [hcell₂, hcell₁, if_neg (fun heq => hy (Option.some.inj heq).symm),
          Heap.cell_add_of_ne _ _ hy, slotFor, hhead]

/-- `add_timer` refuses, or it creates a timer. -/
theorem addTimer_cases (h : Holds w L) (timeout : ℤ) (answer : Option X) :
  w.addTimer timeout answer = some (none, w) ∨
    ∃ x w', answer = some x ∧ 0 ≤ timeout ∧
      w.addTimer timeout answer = some (some x, w') ∧ Added w w' timeout x
  := by
  by_cases htimeout : timeout < 0
  · apply Or.inl (if_pos htimeout)
  · cases answer with
    | none => apply Or.inl (if_neg htimeout)
    | some x =>
        by_cases hx : x ∈ w.heap.live
        · left
          have hmalloc : ∀ f, w.heap.malloc (some x) f = (none, w.heap) := fun f => if_pos hx
          simp only [addTimer, if_neg htimeout, hmalloc]
        · obtain ⟨w', hadd, hadded⟩ := addTimer_spec h (Int.not_lt.mp htimeout) hx
          apply Or.inr ⟨x, w', rfl, Int.not_lt.mp htimeout, hadd, hadded⟩

section

variable {timeout : ℤ}

theorem Added.slots_self (h : Added w w' timeout x) :
  w'.slots (w.slotFor timeout) = some x
  := by
  rw [h.slots, Function.update_self]

theorem Added.next (h : Added w w' timeout x) (hy : y ≠ x) :
  w'.next y = w.next y
  := by
  rw [TimeWheel.next, h.cell y hy]
  split_ifs <;> rfl

theorem Added.prev (h : Added w w' timeout x) (hy : y ≠ x) :
  w'.prev y = if w.slots (w.slotFor timeout) = some y then some x else w.prev y
  := by
  rw [TimeWheel.prev, h.cell y hy]
  split_ifs <;> rfl

theorem Added.timeSlot (h : Added w w' timeout x) (hy : y ≠ x) :
  w'.timeSlot y = w.timeSlot y
  := by
  rw [TimeWheel.timeSlot, h.cell y hy]
  split_ifs <;> rfl

theorem Added.rotation (h : Added w w' timeout x) (hy : y ≠ x) :
  w'.rotation y = w.rotation y
  := by
  rw [TimeWheel.rotation, h.cell y hy]
  split_ifs <;> rfl

theorem Added.timeSlot_self (h : Added w w' timeout x) :
  w'.timeSlot x = w.slotFor timeout
  := congrArg TwTimer.timeSlot h.self

theorem Added.rotation_self (h : Added w w' timeout x) :
  w'.rotation x = ticks timeout / N
  := congrArg TwTimer.rotation h.self

theorem Holds.add (h : Holds w L) (hadded : Added w w' timeout x) :
  Holds w' (Function.update L (w.slotFor timeout) (x :: L (w.slotFor timeout)))
  := by
  have hne : ∀ l, ∀ y ∈ L l, y ≠ x := by
    rintro l y hy rfl
    apply hadded.fresh ((h.mem_iff l y).mp hy).1
  have hself : w'.next x = w.slots (w.slotFor timeout) := congrArg TwTimer.next hadded.self
  have hprev : w'.prev x = none := congrArg TwTimer.prev hadded.self
  constructor
  · intro l
    obtain ⟨tail, hstrand⟩ := h.strand l
    by_cases hl : l = w.slotFor timeout
    · rw [hl] at hstrand
      rw [hl, Function.update_self, hadded.slots_self]
      cases hhead : w.slots (w.slotFor timeout) with
      | none =>
          rw [hhead] at hstrand hself
          rw [chain_none.mp hstrand.forward]
          exact ⟨_, strand_singleton hself hprev⟩
      | some head =>
          rw [hhead] at hstrand hself
          use tail
          have hmem : head ∈ L (w.slotFor timeout) := h.head_mem hhead
          apply hstrand.push hself hprev
          · rw [hadded.prev (hne _ head hmem), if_pos hhead]
          · intro y hy
            apply hadded.next (hne _ y hy)
          · intro y hy hyhead
            rw [hadded.prev (hne _ y hy), hhead]
            exact if_neg (fun heq => hyhead (Option.some.inj heq).symm)
    · rw [Function.update_of_ne hl, hadded.slots, Function.update_of_ne hl]
      use tail
      apply hstrand.congr
      · intro y hy
        apply hadded.next (hne l y hy)
      · intro y hy
        rw [hadded.prev (hne l y hy)]
        apply if_neg
        intro hhead
        apply hl
        rw [← ((h.mem_iff l y).mp hy).2, ((h.mem_iff _ y).mp (h.head_mem hhead)).2]
  · intro l y
    rw [hadded.live, Finset.mem_insert]
    by_cases hy : y = x
    · subst hy
      rw [hadded.timeSlot_self]
      by_cases hl : l = w.slotFor timeout
      · subst hl
        rw [Function.update_self]
        apply iff_of_true List.mem_cons_self ⟨Or.inl rfl, rfl⟩
      · rw [Function.update_of_ne hl]
        apply iff_of_false (fun hmem => hne l y hmem rfl) (fun heq => hl heq.2.symm)
    · rw [hadded.timeSlot hy, or_iff_right hy, ← h.mem_iff]
      by_cases hl : l = w.slotFor timeout
      · subst hl
        rw [Function.update_self, List.mem_cons, or_iff_right hy]
      · rw [Function.update_of_ne hl]

end

end TimingWheel
