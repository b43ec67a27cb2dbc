import Orgrim.LstTimer.List
import Orgrim.Theory.Strand

/-!
# The links of the list

`Linked l xs`: the list is doubly linked, and its nodes are `xs`.  Adding a timer puts it between
two nodes or at an end, adjusting takes it out and adds it further on, deleting takes it out.  The
tail is right as long as there are nodes: `tick` leaves it where it is when it takes the last one.
-/

namespace LstTimer

open Links SortTimerLst

variable {X : Type*}

/-! ### Fields -/

/-- The links and the timeouts of the timers. -/
def nextOf (heap : Heap X (UtilTimer X)) (x : X) : Option X := (heap.cell x).next

def prevOf (heap : Heap X (UtilTimer X)) (x : X) : Option X := (heap.cell x).prev

def expireOf (heap : Heap X (UtilTimer X)) (x : X) : ℤ := (heap.cell x).expire

/-- The list is doubly linked, through the timers `xs`. -/
structure Linked (l : SortTimerLst X) (xs : List X) : Prop where
  strand : ∃ tail, Strand (nextOf l.heap) (prevOf l.heap) l.head xs tail ∧
    (xs ≠ [] → l.tail = tail)
  live : ∀ x ∈ xs, x ∈ l.heap.live

variable {l l' : SortTimerLst X} {heap : Heap X (UtilTimer X)} {x y a : X} {xs ys : List X}
  {v : Option X}

theorem Linked.strand_of_ne_nil (h : Linked l xs) (hxs : xs ≠ []) :
  Strand (nextOf l.heap) (prevOf l.heap) l.head xs l.tail
  := by
  obtain ⟨tail, hstrand, htail⟩ := h.strand
  rw [htail hxs]
  exact hstrand

theorem Linked.strand_at (h : Linked l (xs ++ x :: ys)) :
  Strand (nextOf l.heap) (prevOf l.heap) l.head (xs ++ x :: ys) l.tail
  := h.strand_of_ne_nil (List.append_ne_nil_of_right_ne_nil xs (List.cons_ne_nil x ys))

theorem Linked.of_strand (h : Strand (nextOf l.heap) (prevOf l.heap) l.head xs l.tail)
    (hlive : ∀ x ∈ xs, x ∈ l.heap.live) :
  Linked l xs
  := ⟨⟨l.tail, h, fun _ => rfl⟩, hlive⟩

/-- What `add_timer(timer, lst_head)` leaves: the timer `x` is in the list, behind those that are
not later than it. -/
structure Inserted (l l' : SortTimerLst X) (xs : List X) (x : X) (ys : List X) : Prop where
  live : l'.heap.live = l.heap.live
  expire : expireOf l'.heap = expireOf l.heap
  linked : ∃ cs ds, ys = cs ++ ds ∧ Linked l' (xs ++ cs ++ x :: ds) ∧
    (∀ y ∈ cs, expireOf l.heap y ≤ expireOf l.heap x) ∧
    ∀ y, ds.head? = some y → expireOf l.heap x < expireOf l.heap y

/-- The timer is put directly behind the timers `xs`. -/
theorem Inserted.here (hlive : l'.heap.live = l.heap.live)
    (hexpire : expireOf l'.heap = expireOf l.heap) (hlinked : Linked l' (xs ++ x :: ys))
    (hafter : ∀ y, ys.head? = some y → expireOf l.heap x < expireOf l.heap y) :
  Inserted l l' xs x ys
  := by
  refine ⟨hlive, hexpire, [], ys, rfl, ?_, ?_, hafter⟩
  · rw [List.append_nil]
    exact hlinked
  · intro y hy
    exact absurd hy List.not_mem_nil

/-- The timer is put behind `b`, and further on if need be. -/
theorem Inserted.pass {b : X} (h : Inserted l l' (xs ++ [b]) x ys)
    (hle : expireOf l.heap b ≤ expireOf l.heap x) :
  Inserted l l' xs x (b :: ys)
  := by
  obtain ⟨hlive, hexpire, cs, ds, rfl, hlinked, hbefore, hafter⟩ := h
  refine ⟨hlive, hexpire, b :: cs, ds, rfl, ?_, ?_, hafter⟩
  · rw [List.append_cons xs b cs]
    exact hlinked
  · intro y hy
    rcases List.mem_cons.mp hy with rfl | hy
    · exact hle
    · apply hbefore y hy

/-- Nothing but the links has been written before. -/
theorem Inserted.congr {l₁ : SortTimerLst X} (h : Inserted l₁ l' xs x ys)
    (hlive : l₁.heap.live = l.heap.live) (hexpire : expireOf l₁.heap = expireOf l.heap) :
  Inserted l l' xs x ys
  := by
  obtain ⟨hlive', hexpire', cs, ds, rfl, hlinked, hbefore, hafter⟩ := h
  rw [hexpire] at hbefore hafter
  exact ⟨hlive'.trans hlive, hexpire'.trans hexpire, cs, ds, rfl, hlinked, hbefore, hafter⟩

variable [DecidableEq X]

/-! ### Writing links -/

/-- The heap where the link `next` of a timer points to `v`. -/
def linkNext (heap : Heap X (UtilTimer X)) (x : X) (v : Option X) : Heap X (UtilTimer X) :=
  heap.put x { heap.cell x with next := v }

/-- The heap where the link `prev` of a timer points to `v`. -/
def linkPrev (heap : Heap X (UtilTimer X)) (x : X) (v : Option X) : Heap X (UtilTimer X) :=
  heap.put x { heap.cell x with prev := v }

theorem setNext_of_mem (hx : x ∈ heap.live) :
  setNext heap (some x) v = some (linkNext heap x v)
  := if_pos hx

theorem setPrev_of_mem (hx : x ∈ heap.live) :
  setPrev heap (some x) v = some (linkPrev heap x v)
  := if_pos hx

@[simp]
theorem live_linkNext :
  (linkNext heap x v).live = heap.live
  := rfl

@[simp]
theorem live_linkPrev :
  (linkPrev heap x v).live = heap.live
  := rfl

@[simp]
theorem nextOf_linkNext :
  nextOf (linkNext heap x v) = Function.update (nextOf heap) x v
  := by
  funext y
  by_cases hy : y = x
  · rw [hy, Function.update_self, nextOf, linkNext, Heap.cell_put_self]
  · rw [Function.update_of_ne hy, nextOf, linkNext, Heap.cell_put_of_ne _ _ hy, nextOf]

@[simp]
theorem prevOf_linkPrev :
  prevOf (linkPrev heap x v) = Function.update (prevOf heap) x v
  := by
  funext y
  by_cases hy : y = x
  · rw [hy, Function.update_self, prevOf, linkPrev, Heap.cell_put_self]
  · rw [Function.update_of_ne hy, prevOf, linkPrev, Heap.cell_put_of_ne _ _ hy, prevOf]

/-- A field that is not written. -/
theorem field_put {β : Type*} (field : UtilTimer X → β) (heap : Heap X (UtilTimer X)) (x : X)
    (c : UtilTimer X) (h : field c = field (heap.cell x)) (y : X) :
  field ((heap.put x c).cell y) = field (heap.cell y)
  := by
  by_cases hy : y = x
  · rw [hy, Heap.cell_put_self, h]
  · rw [Heap.cell_put_of_ne _ _ hy]

@[simp]
theorem prevOf_linkNext :
  prevOf (linkNext heap x v) = prevOf heap
  := by
  funext y
  apply field_put UtilTimer.prev
  rfl

@[simp]
theorem nextOf_linkPrev :
  nextOf (linkPrev heap x v) = nextOf heap
  := by
  funext y
  apply field_put UtilTimer.next
  rfl

@[simp]
theorem expireOf_linkNext :
  expireOf (linkNext heap x v) = expireOf heap
  := by
  funext y
  apply field_put UtilTimer.expire
  rfl

@[simp]
theorem expireOf_linkPrev :
  expireOf (linkPrev heap x v) = expireOf heap
  := by
  funext y
  apply field_put UtilTimer.expire
  rfl

/-! ### Adding a timer behind another -/

/-- The loop comes to the end of the list. -/
theorem addTimerFrom_last (fuel : ℕ) (h : Linked l (xs ++ [a])) (hx : x ∈ l.heap.live)
    (hfresh : x ∉ xs ++ [a]) :
  ∃ l', addTimerFrom (fuel + 1) l x a = some l' ∧ Inserted l l' (xs ++ [a]) x []
  := by
  have hstrand := h.strand_at
  have hmem : ∀ y ∈ xs ++ [a], y ≠ x := by
    rintro y hy rfl
    apply hfresh hy
  have ha : a ∈ xs ++ [a] := List.mem_append_right xs List.mem_cons_self
  have halive : a ∈ l.heap.live := h.live a ha
  have hnext : (l.heap.cell a).next = none := hstrand.neighbours.1
  rw [hstrand.tail_eq_some_iff.mpr rfl] at hstrand
  simp only [addTimerFrom, Heap.load_of_mem halive, Option.bind_eq_bind, Option.bind_some, hnext]
  rw [setNext_of_mem halive, Option.bind_some, setPrev_of_mem (by exact hx), Option.bind_some,
    setNext_of_mem (by exact hx), Option.bind_some]
  refine ⟨_, rfl, Inserted.here rfl ?_ ?_ ?_⟩
  · simp only [expireOf_linkNext, expireOf_linkPrev]
  · apply Linked.of_strand
    · simp only [nextOf_linkNext, nextOf_linkPrev, prevOf_linkNext, prevOf_linkPrev]
      apply hstrand.append
      · rw [Function.update_self]
      · rw [Function.update_self]
      · rw [Function.update_of_ne (hmem a ha), Function.update_self]
      · intro y hy
        rw [Function.update_of_ne (hmem y hy)]
      · intro y hy hya
        rw [Function.update_of_ne (hmem y hy), Function.update_of_ne hya]
    · intro y hy
      rcases List.mem_append.mp hy with hy | hy
      · apply h.live y hy
      · rw [List.mem_singleton.mp hy]
        exact hx
  · rintro y ⟨⟩

/-- The loop comes to the node before which the timer belongs. -/
theorem addTimerFrom_between (fuel : ℕ) {b : X} (h : Linked l (xs ++ a :: b :: ys))
    (hx : x ∈ l.heap.live) (hfresh : x ∉ xs ++ a :: b :: ys)
    (hlt : expireOf l.heap x < expireOf l.heap b) :
  ∃ l', addTimerFrom (fuel + 1) l x a = some l' ∧ Inserted l l' (xs ++ [a]) x (b :: ys)
  := by
  have hstrand := h.strand_at
  have hmem : ∀ y ∈ xs ++ a :: b :: ys, y ≠ x := by
    rintro y hy rfl
    apply hfresh hy
  have ha : a ∈ xs ++ a :: b :: ys := List.mem_append_right xs List.mem_cons_self
  have hb : b ∈ xs ++ a :: b :: ys :=
    List.mem_append_right xs (List.mem_cons_of_mem a List.mem_cons_self)
  have halive : a ∈ l.heap.live := h.live a ha
  have hblive : b ∈ l.heap.live := h.live b hb
  have hnext : (l.heap.cell a).next = some b := hstrand.neighbours.1
  have hlt' : (l.heap.cell x).expire < (l.heap.cell b).expire := hlt
  simp only [addTimerFrom, Heap.load_of_mem halive, Heap.load_of_mem hblive, Heap.load_of_mem hx,
    Option.bind_eq_bind, Option.bind_some, hnext]
  rw [if_pos hlt', setNext_of_mem halive, Option.bind_some, setNext_of_mem (by exact hx),
    Option.bind_some, setPrev_of_mem (by exact hblive), Option.bind_some,
    setPrev_of_mem (by exact hx), Option.bind_some]
  refine ⟨_, rfl, Inserted.here rfl ?_ ?_ ?_⟩
  · simp only [expireOf_linkNext, expireOf_linkPrev]
  · rw [← List.append_cons]
    apply Linked.of_strand
    · simp only [nextOf_linkNext, nextOf_linkPrev, prevOf_linkNext, prevOf_linkPrev]
      apply hstrand.insert
      · rw [Function.update_self]
      · rw [Function.update_self]
      · rw [Function.update_of_ne (hmem a ha), Function.update_self]
      · rw [Function.update_of_ne (hmem b hb), Function.update_self]
      · intro y hy hya
        rw [Function.update_of_ne (hmem y hy), Function.update_of_ne hya]
      · intro y hy hyb
        rw [Function.update_of_ne (hmem y hy), Function.update_of_ne hyb]
    · intro y hy
      rw [List.append_cons] at hy
      rcases List.mem_cons.mp (List.perm_middle.mem_iff.mp hy) with rfl | hy
      · exact hx
      · rw [← List.append_cons] at hy
        apply h.live y hy
  · rintro y ⟨⟩
    exact hlt

/-- The loop goes past a node. -/
theorem addTimerFrom_pass (fuel : ℕ) {b : X} (h : Linked l (xs ++ a :: b :: ys))
    (hx : x ∈ l.heap.live) (hle : ¬ expireOf l.heap x < expireOf l.heap b) :
  addTimerFrom (fuel + 1) l x a = addTimerFrom fuel l x b
  := by
  have hstrand := h.strand_at
  have halive : a ∈ l.heap.live := h.live a (List.mem_append_right xs List.mem_cons_self)
  have hblive : b ∈ l.heap.live :=
    h.live b (List.mem_append_right xs (List.mem_cons_of_mem a List.mem_cons_self))
  have hnext : (l.heap.cell a).next = some b := hstrand.neighbours.1
  have hle' : ¬ (l.heap.cell x).expire < (l.heap.cell b).expire := hle
  simp only [addTimerFrom, Heap.load_of_mem halive, Heap.load_of_mem hblive, Heap.load_of_mem hx,
    Option.bind_eq_bind, Option.bind_some, hnext, if_neg hle']

theorem addTimerFrom_spec {fuel : ℕ} (h : Linked l (xs ++ a :: ys)) (hx : x ∈ l.heap.live)
    (hfresh : x ∉ xs ++ a :: ys) (hfuel : ys.length < fuel) :
  ∃ l', addTimerFrom fuel l x a = some l' ∧ Inserted l l' (xs ++ [a]) x ys
  := by
  obtain ⟨fuel, rfl⟩ := Nat.exists_eq_succ_of_ne_zero (Nat.ne_zero_of_lt hfuel)
  induction ys generalizing a xs fuel with
  | nil => apply addTimerFrom_last fuel h hx hfresh
  | cons b ys ih =>
      by_cases hlt : expireOf l.heap x < expireOf l.heap b
      · apply addTimerFrom_between fuel h hx hfresh hlt
      · obtain ⟨fuel, rfl⟩ := Nat.exists_eq_succ_of_ne_zero
          (Nat.ne_zero_of_lt (Nat.lt_of_succ_lt_succ hfuel))
        have hround := addTimerFrom_pass (fuel + 1) h hx hlt
        rw [List.append_cons] at h hfresh
        obtain ⟨l', hloop, hinserted⟩ := ih h hfresh fuel (Nat.lt_of_succ_lt_succ hfuel)
        exact ⟨l', hround.trans hloop, hinserted.pass (Int.not_lt.mp hlt)⟩

theorem addTimer_spec (h : Linked l xs) (hx : x ∈ l.heap.live) (hfresh : x ∉ xs)
    (hnext : nextOf l.heap x = none) (hprev : prevOf l.heap x = none) :
  ∃ l', l.addTimer (some x) = some l' ∧ Inserted l l' [] x xs
  := by
  cases xs with
  | nil =>
      obtain ⟨tail, hstrand, -⟩ := h.strand
      have hhead : l.head = none := hstrand.head_eq
      simp only [addTimer, hhead]
      refine ⟨_, rfl, Inserted.here rfl rfl ?_ ?_⟩
      · apply Linked.of_strand
        · apply strand_singleton hnext hprev
        · intro y hy
          rw [List.mem_singleton.mp hy]
          exact hx
      · rintro y ⟨⟩
  | cons a ys =>
      have hstrand := h.strand_of_ne_nil (List.cons_ne_nil a ys)
      have hhead : l.head = some a := hstrand.head_eq
      have halive : a ∈ l.heap.live := h.live a List.mem_cons_self
      have hmem : ∀ y ∈ a :: ys, y ≠ x := by
        rintro y hy rfl
        apply hfresh hy
      simp only [addTimer, hhead, Heap.load_of_mem hx, Heap.load_of_mem halive,
        Option.bind_eq_bind, Option.bind_some]
      by_cases hlt : (l.heap.cell x).expire < (l.heap.cell a).expire
      · rw [if_pos hlt, setNext_of_mem hx, Option.bind_some, setPrev_of_mem (by exact halive),
          Option.bind_some]
        refine ⟨_, rfl, Inserted.here rfl ?_ ?_ ?_⟩
        · simp only [expireOf_linkNext, expireOf_linkPrev]
        · apply Linked.of_strand
          · rw [hhead] at hstrand
            simp only [nextOf_linkNext, nextOf_linkPrev, prevOf_linkNext, prevOf_linkPrev]
            apply hstrand.push
            · rw [Function.update_self]
            · rw [Function.update_of_ne (hmem a List.mem_cons_self).symm, hprev]
            · rw [Function.update_self]
            · intro y hy
              rw [Function.update_of_ne (hmem y hy)]
            · intro y hy hya
              rw [Function.update_of_ne hya]
          · intro y hy
            rcases List.mem_cons.mp hy with rfl | hy
            · exact hx
            · apply h.live y hy
        · rintro y ⟨⟩
          exact hlt
      · rw [if_neg hlt]
        have hlist : Linked l ([] ++ a :: ys) := h
        have hfuel : ys.length < l.heap.live.card := hstrand.forward.length_le_card h.live
        obtain ⟨l', hloop, hinserted⟩ := addTimerFrom_spec hlist hx hfresh hfuel
        exact ⟨l', hloop, hinserted.pass (Int.not_lt.mp hlt)⟩

/-! ### Taking out a timer -/

/-- The links of the timers next to `x` are made to point past it. -/
theorem Linked.unlink (h : Linked l (xs ++ x :: ys))
    (hnext : ∀ y ∈ xs ++ ys, nextOf l'.heap y =
      if prevOf l.heap x = some y then nextOf l.heap x else nextOf l.heap y)
    (hprev : ∀ y ∈ xs ++ ys, prevOf l'.heap y =
      if nextOf l.heap x = some y then prevOf l.heap x else prevOf l.heap y)
    (hhead : l'.head = if xs = [] then nextOf l.heap x else l.head)
    (htail : xs ++ ys ≠ [] → l'.tail = if ys = [] then prevOf l.heap x else l.tail)
    (hlive : ∀ y ∈ xs ++ ys, y ∈ l'.heap.live) :
  Linked l' (xs ++ ys)
  := by
  have hstrand := h.strand_at
  refine ⟨⟨_, ?_, htail⟩, hlive⟩
  rw [hhead]
  apply hstrand.unlink hnext hprev

/-- A link that is written, as a case distinction. -/
theorem update_eq_ite {β : Type*} (f : X → β) (a : X) (v : β) (y : X) :
  Function.update f a v y = if some a = some y then v else f y
  := by
  rw [Function.update_apply]
  apply if_congr (eq_comm.trans (Option.some_inj).symm) rfl rfl

/-- What is known of a timer in the list, and of its neighbours. -/
structure Placed (l : SortTimerLst X) (xs : List X) (x : X) (ys : List X) : Prop where
  live : x ∈ l.heap.live
  next : nextOf l.heap x = ys.head?
  prev : prevOf l.heap x = xs.getLast?
  head : l.head = some x ↔ xs = []
  tail : l.tail = some x ↔ ys = []
  others : ∀ y ∈ xs ++ ys, y ∈ l.heap.live ∧ y ≠ x

omit [DecidableEq X] in
theorem Linked.placed (h : Linked l (xs ++ x :: ys)) :
  Placed l xs x ys
  := by
  have hstrand := h.strand_at
  refine ⟨h.live x (List.mem_append_right xs List.mem_cons_self), hstrand.neighbours.1,
    hstrand.neighbours.2, hstrand.head_eq_some_iff, hstrand.tail_eq_some_iff, ?_⟩
  intro y hy
  constructor
  · apply h.live y (List.perm_middle.mem_iff.mpr (List.mem_cons_of_mem x hy))
  · rintro rfl
    exact (List.nodup_cons.mp (List.nodup_middle.mp hstrand.nodup)).1 hy

/-- In `l'` the timer has been deleted. -/
structure Deleted (l l' : SortTimerLst X) (xs : List X) (x : X) (ys : List X) : Prop where
  linked : Linked l' (xs ++ ys)
  live : l'.heap.live = l.heap.live.erase x
  expire : expireOf l'.heap = expireOf l.heap

theorem Linked.delete {heap : Heap X (UtilTimer X)} (h : Linked l (xs ++ x :: ys))
    (hlive : heap.live = l.heap.live) (hexpire : expireOf heap = expireOf l.heap)
    (hnext : ∀ y, nextOf heap y =
      if prevOf l.heap x = some y then nextOf l.heap x else nextOf l.heap y)
    (hprev : ∀ y, prevOf heap y =
      if nextOf l.heap x = some y then prevOf l.heap x else prevOf l.heap y)
    {head tail : Option X} (hhead : head = if xs = [] then nextOf l.heap x else l.head)
    (htail : xs ++ ys ≠ [] → tail = if ys = [] then prevOf l.heap x else l.tail) :
  Deleted l ⟨heap.remove x, head, tail⟩ xs x ys
  := by
  refine ⟨h.unlink (fun y _ => hnext y) (fun y _ => hprev y) hhead htail ?_, ?_, hexpire⟩
  · intro y hy
    obtain ⟨hylive, hyx⟩ := h.placed.others y hy
    rw [Heap.live_remove, hlive]
    apply Finset.mem_erase.mpr ⟨hyx, hylive⟩
  · rw [Heap.live_remove, hlive]

theorem delTimer_only (h : Linked l ([] ++ [x])) :
  ∃ l', l.delTimer (some x) = some l' ∧ Deleted l l' [] x []
  := by
  obtain ⟨hx, hnext, hprev, hhead, htail, -⟩ := h.placed
  simp only [delTimer, hhead.mpr rfl, htail.mpr rfl, and_self, if_true, Heap.free_of_mem hx,
    Option.bind_eq_bind, Option.bind_some]
  refine ⟨_, rfl, h.delete rfl rfl ?_ ?_ hnext.symm (fun hne => absurd rfl hne)⟩
  · intro y
    rw [hprev]
    rfl
  · intro y
    rw [hnext]
    rfl

theorem delTimer_first {b : X} (h : Linked l ([] ++ x :: b :: ys)) :
  ∃ l', l.delTimer (some x) = some l' ∧ Deleted l l' [] x (b :: ys)
  := by
  obtain ⟨hx, hnext, hprev, hhead, htail, hothers⟩ := h.placed
  have hb : b ∈ l.heap.live := (hothers b List.mem_cons_self).1
  have hlast : ¬ l.tail = some x := fun heq => List.cons_ne_nil b ys (htail.mp heq)
  have hcell : (l.heap.cell x).next = some b := hnext
  simp only [delTimer, hhead.mpr rfl, hlast, and_false, if_false, if_true, Heap.load_of_mem hx,
    hcell, setPrev_of_mem hb, Option.bind_eq_bind, Option.bind_some]
  rw [Heap.free_of_mem (by exact hx), Option.bind_some]
  refine ⟨_, rfl, h.delete live_linkPrev expireOf_linkPrev ?_ ?_ hnext.symm ?_⟩
  · intro y
    rw [hprev, nextOf_linkPrev]
    rfl
  · intro y
    rw [hprev, hnext, prevOf_linkPrev]
    apply update_eq_ite
  · intro _
    rw [if_neg (List.cons_ne_nil b ys)]

theorem delTimer_last (h : Linked l ((xs ++ [a]) ++ [x])) :
  ∃ l', l.delTimer (some x) = some l' ∧ Deleted l l' (xs ++ [a]) x []
  := by
  obtain ⟨hx, hnext, hprev, hhead, htail, hothers⟩ := h.placed
  have hne : xs ++ [a] ≠ [] := List.append_ne_nil_of_right_ne_nil xs (List.cons_ne_nil a [])
  have ha : a ∈ l.heap.live :=
    (hothers a (List.mem_append_left [] (List.mem_append_right xs List.mem_cons_self))).1
  have hfirst : ¬ l.head = some x := fun heq => hne (hhead.mp heq)
  rw [List.getLast?_concat] at hprev
  have hcell : (l.heap.cell x).prev = some a := hprev
  simp only [delTimer, hfirst, htail.mpr rfl, false_and, if_false, if_true, Heap.load_of_mem hx,
    hcell, setNext_of_mem ha, Option.bind_eq_bind, Option.bind_some]
  rw [Heap.free_of_mem (by exact hx), Option.bind_some]
  refine ⟨_, rfl, h.delete live_linkNext expireOf_linkNext ?_ ?_ (if_neg hne).symm ?_⟩
  · intro y
    rw [hprev, hnext, nextOf_linkNext]
    apply update_eq_ite
  · intro y
    rw [hnext, prevOf_linkNext]
    rfl
  · intro _
    rw [hprev]
    rfl

/-- A timer between two others is bypassed, in the way of `del_timer` and of `adjust_timer`. -/
theorem exists_bypass {b : X} (h : Linked l ((xs ++ [a]) ++ x :: b :: ys)) :
  ∃ heap₁ heap₂, setNext l.heap (l.heap.cell x).prev (l.heap.cell x).next = some heap₁ ∧
    heap₁.load x = some (l.heap.cell x) ∧
    setPrev heap₁ (l.heap.cell x).next (l.heap.cell x).prev = some heap₂ ∧
    heap₂.load x = some (l.heap.cell x) ∧ heap₂.live = l.heap.live ∧
    expireOf heap₂ = expireOf l.heap ∧
    (∀ y, nextOf heap₂ y =
      if prevOf l.heap x = some y then nextOf l.heap x else nextOf l.heap y) ∧
    ∀ y, prevOf heap₂ y =
      if nextOf l.heap x = some y then prevOf l.heap x else prevOf l.heap y
  := by
  obtain ⟨hx, hnext, hprev, -, -, hothers⟩ := h.placed
  obtain ⟨halive, hax⟩ :=
    hothers a (List.mem_append_left _ (List.mem_append_right xs List.mem_cons_self))
  obtain ⟨hblive, hbx⟩ := hothers b (List.mem_append_right _ List.mem_cons_self)
  rw [List.getLast?_concat] at hprev
  have hcellNext : (l.heap.cell x).next = some b := hnext
  have hcellPrev : (l.heap.cell x).prev = some a := hprev
  have hself : (linkNext l.heap a (some b)).cell x = l.heap.cell x :=
    Heap.cell_put_of_ne _ _ hax.symm
  refine ⟨linkNext l.heap a (some b), linkPrev (linkNext l.heap a (some b)) b (some a), ?_, ?_, ?_,
    ?_, rfl, ?_, ?_, ?_⟩
  · rw [hcellNext, hcellPrev, setNext_of_mem halive]
  · rw [Heap.load_of_mem (by exact hx), hself]
  · rw [hcellNext, hcellPrev, setPrev_of_mem (by exact hblive)]
  · rw [Heap.load_of_mem (by exact hx), linkPrev, Heap.cell_put_of_ne _ _ hbx.symm, hself]
  · rw [expireOf_linkPrev, expireOf_linkNext]
  · intro y
    rw [hprev, hnext, nextOf_linkPrev, nextOf_linkNext]
    apply update_eq_ite
  · intro y
    rw [hprev, hnext, prevOf_linkPrev, prevOf_linkNext]
    apply update_eq_ite

theorem delTimer_between {b : X} (h : Linked l ((xs ++ [a]) ++ x :: b :: ys)) :
  ∃ l', l.delTimer (some x) = some l' ∧ Deleted l l' (xs ++ [a]) x (b :: ys)
  := by
  obtain ⟨hx, -, -, hhead, htail, -⟩ := h.placed
  have hne : xs ++ [a] ≠ [] := List.append_ne_nil_of_right_ne_nil xs (List.cons_ne_nil a [])
  have hfirst : ¬ l.head = some x := fun heq => hne (hhead.mp heq)
  have hlast : ¬ l.tail = some x := fun heq => List.cons_ne_nil b ys (htail.mp heq)
  obtain ⟨heap₁, heap₂, hset₁, hload₁, hset₂, -, hlive, hexpire, hnexts, hprevs⟩ := exists_bypass h
  simp only [delTimer, hfirst, hlast, and_self, if_false, Heap.load_of_mem hx, hset₁, hload₁, hset₂,
    Option.bind_eq_bind, Option.bind_some, Heap.free_of_mem (hlive ▸ hx)]
  refine ⟨_, rfl, h.delete hlive hexpire hnexts hprevs (if_neg hne).symm ?_⟩
  intro _
  rw [if_neg (List.cons_ne_nil b ys)]

theorem delTimer_spec (h : Linked l (xs ++ x :: ys)) :
  ∃ l', l.delTimer (some x) = some l' ∧ Deleted l l' xs x ys
  := by
  cases xs using List.reverseRecOn with
  | nil =>
      cases ys with
      | nil => apply delTimer_only h
      | cons b ys => apply delTimer_first h
  | append_singleton xs a =>
      cases ys with
      | nil => apply delTimer_last h
      | cons b ys => apply delTimer_between h

/-! ### Adjusting a timer -/

/-- A timer that has been taken out is added behind the node `b` that was next to it. -/
theorem exists_readded {l₁ : SortTimerLst X} {b : X} (h : Linked l₁ (xs ++ b :: ys))
    (hlive : l₁.heap.live = l.heap.live) (hexpire : expireOf l₁.heap = expireOf l.heap)
    (hx : x ∈ l.heap.live) (hfresh : x ∉ xs ++ b :: ys)
    (hle : expireOf l.heap b ≤ expireOf l.heap x) :
  ∃ l', addTimerFrom l₁.heap.live.card l₁ x b = some l' ∧ Inserted l l' xs x (b :: ys)
  := by
  have hfuel : ys.length < l₁.heap.live.card := by
    have hcard := h.strand_at.forward.length_le_card h.live
    rw [List.length_append, List.length_cons] at hcard
    omega
  obtain ⟨l', hloop, hinserted⟩ := addTimerFrom_spec h (hlive.symm ▸ hx) hfresh hfuel
  exact ⟨l', hloop, (hinserted.congr hlive hexpire).pass hle⟩

theorem adjustTimer_first {b : X} (h : Linked l ([] ++ x :: b :: ys))
    (hle : ¬ (l.heap.cell x).expire < (l.heap.cell b).expire) :
  ∃ l', l.adjustTimer (some x) = some l' ∧ Inserted l l' [] x (b :: ys)
  := by
  obtain ⟨hx, hnext, hprev, hhead, htail, hothers⟩ := h.placed
  have hb : b ∈ l.heap.live := (hothers b List.mem_cons_self).1
  have hcell : (l.heap.cell x).next = some b := hnext
  have hfresh : x ∉ [] ++ b :: ys := fun hmem => (hothers x hmem).2 rfl
  have hunlinked :
      Linked ⟨linkNext (linkPrev l.heap b none) x none, some b, l.tail⟩ ([] ++ b :: ys) := by
    apply h.unlink
    · intro y hy
      rw [hprev, nextOf_linkNext, nextOf_linkPrev, Function.update_of_ne (hothers y hy).2]
      rfl
    · intro y _
      rw [hprev, hnext, prevOf_linkNext, prevOf_linkPrev]
      apply update_eq_ite
    · apply hnext.symm
    · intro _
      rw [if_neg (List.cons_ne_nil b ys)]
    · intro y hy
      exact (hothers y hy).1
  have hexpire : expireOf (linkNext (linkPrev l.heap b none) x none) = expireOf l.heap := by
    rw [expireOf_linkNext, expireOf_linkPrev]
  have hlive : (linkNext (linkPrev l.heap b none) x none).live = l.heap.live := rfl
  obtain ⟨l', hloop, hinserted⟩ :=
    exists_readded hunlinked hlive hexpire hx hfresh (Int.not_lt.mp hle)
  refine ⟨l', ?_, hinserted⟩
  simp only [adjustTimer, Heap.load_of_mem hx, Heap.load_of_mem hb, hcell, if_neg hle,
    hhead.mpr rfl, if_true, setPrev_of_mem hb, Option.bind_eq_bind, Option.bind_some]
  rw [setNext_of_mem (by exact hx), Option.bind_some]
  exact hloop

theorem adjustTimer_between {b : X} (h : Linked l ((xs ++ [a]) ++ x :: b :: ys))
    (hle : ¬ (l.heap.cell x).expire < (l.heap.cell b).expire) :
  ∃ l', l.adjustTimer (some x) = some l' ∧ Inserted l l' (xs ++ [a]) x (b :: ys)
  := by
  obtain ⟨hx, hnext, -, hhead, -, hothers⟩ := h.placed
  have hne : xs ++ [a] ≠ [] := List.append_ne_nil_of_right_ne_nil xs (List.cons_ne_nil a [])
  have hb : b ∈ l.heap.live := (hothers b (List.mem_append_right _ List.mem_cons_self)).1
  have hcell : (l.heap.cell x).next = some b := hnext
  have hfirst : ¬ l.head = some x := fun heq => hne (hhead.mp heq)
  have hfresh : x ∉ (xs ++ [a]) ++ b :: ys := fun hmem => (hothers x hmem).2 rfl
  obtain ⟨heap₁, heap₂, hset₁, hload₁, hset₂, hload₂, hlive, hexpire, hnexts, hprevs⟩ :=
    exists_bypass h
  have hunlinked : Linked ⟨heap₂, l.head, l.tail⟩ ((xs ++ [a]) ++ b :: ys) := by
    apply h.unlink (fun y _ => hnexts y) (fun y _ => hprevs y)
    · rw [if_neg hne]
    · intro _
      rw [if_neg (List.cons_ne_nil b ys)]
    · intro y hy
      apply hlive.symm ▸ (hothers y hy).1
  obtain ⟨l', hloop, hinserted⟩ :=
    exists_readded hunlinked hlive hexpire hx hfresh (Int.not_lt.mp hle)
  refine ⟨l', ?_, hinserted⟩
  rw [hcell] at hset₁ hset₂
  simp only [adjustTimer, Heap.load_of_mem hx, Heap.load_of_mem hb, hcell, if_neg hle, hfirst,
    if_false, hset₁, hload₁, hset₂, hload₂, Option.bind_eq_bind, Option.bind_some]
  exact hloop

theorem adjustTimer_spec (h : Linked l (xs ++ x :: ys)) :
  ∃ l', l.adjustTimer (some x) = some l' ∧ Inserted l l' xs x ys
  := by
  obtain ⟨hx, hnext, -, -, -, hothers⟩ := h.placed
  have hload := Heap.load_of_mem hx
  cases ys with
  | nil =>
      have hcell : (l.heap.cell x).next = none := hnext
      refine ⟨l, ?_, Inserted.here rfl rfl h ?_⟩
      · simp only [adjustTimer, hload, Option.bind_eq_bind, Option.bind_some, hcell]
      · rintro y ⟨⟩
  | cons b ys =>
      have hcell : (l.heap.cell x).next = some b := hnext
      have hb : b ∈ l.heap.live := (hothers b (List.mem_append_right _ List.mem_cons_self)).1
      by_cases hlt : (l.heap.cell x).expire < (l.heap.cell b).expire
      · refine ⟨l, ?_, Inserted.here rfl rfl h ?_⟩
        · simp only [adjustTimer, hload, Option.bind_eq_bind, Option.bind_some, hcell,
            Heap.load_of_mem hb, if_pos hlt]
        · rintro y ⟨⟩
          exact hlt
      · cases xs using List.reverseRecOn with
        | nil => apply adjustTimer_first h hlt
        | append_singleton xs a => apply adjustTimer_between h hlt

end LstTimer
