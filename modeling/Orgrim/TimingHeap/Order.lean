import Mathlib.Data.Int.Order.Basic
import Orgrim.Theory.HeapOrder
import Orgrim.TimingHeap.TimeHeap

/-!
# The order of the heap of timers

`Holds h xs`: the array is a binary heap with regard to `expire`, and holds the timers `xs`.  While
a timer sinks or rises, the cell that is left for it is taken to hold it already.
-/

namespace TimingHeap

open HeapOrder TimeHeap

variable {X : Type}

/-- The time at which a timer expires. -/
def expireOf (timers : X → HeapTimer) : Option X → ℤ
  | none => 0
  | some timer => (timers timer).expire

/-- The array is a binary heap that holds the timers `xs`. -/
structure Holds (h : TimeHeap X) (xs : List X) : Prop where
  room : h.curSize ≤ h.capacity
  nonempty : 0 < h.capacity
  ordered : OrderedFrom (expireOf h.timers) h.array h.curSize 0
  holds : (h.array.slice 0 h.curSize).Perm (xs.map some)

variable {h : TimeHeap X} {xs : List X} {temp p : Option X} {hole i k : ℕ}

/-! ### Reading and writing -/

theorem get_of_lt (hi : i < h.capacity) :
  h.get i = some (h.array i)
  := if_pos hi

theorem set_of_lt (hi : i < h.capacity) :
  h.set i p = some { h with array := Function.update h.array i p }
  := if_pos hi

theorem expireAt_of_lt (hi : i < h.capacity) (hfull : (h.array i).isSome) :
  h.expireAt i = some (expireOf h.timers (h.array i))
  := by
  obtain ⟨timer, htimer⟩ := Option.isSome_iff_exists.mp hfull
  simp only [expireAt, get_of_lt hi, htimer, Option.bind_eq_bind, Option.bind_some, expireOf]

/-- The cells of an array that holds timers. -/
theorem isSome_of_perm {a : Memory (Option X)} {n : ℕ} (h : (a.slice 0 n).Perm (xs.map some))
    (hi : i < n) :
  ∃ timer ∈ xs, a i = some timer
  := by
  have hmem : a i ∈ a.slice 0 n := by
    apply List.mem_map.mpr
    exact ⟨i, List.mem_range.mpr hi, by rw [Nat.zero_add]⟩
  obtain ⟨timer, htimer, heq⟩ := List.mem_map.mp (h.mem_iff.mp hmem)
  exact ⟨timer, htimer, heq.symm⟩

theorem isSome_array (hholds : (h.array.slice 0 h.curSize).Perm (xs.map some))
    (hi : i < h.curSize) :
  (h.array i).isSome
  := by
  obtain ⟨timer, -, htimer⟩ := isSome_of_perm hholds hi
  rw [htimer]
  rfl

/-- When a timer moves into the hole, only the cell that it leaves may be empty. -/
theorem isSome_of_moved {a : Memory (Option X)} {j n : ℕ} (hj : (a j).isSome)
    (hfull : ∀ i, i < n → i ≠ hole → (a i).isSome) (hi : i < n) :
  (Function.update a hole (a j) i).isSome
  := by
  by_cases heq : i = hole
  · rw [heq, Function.update_self]
    exact hj
  · rw [Function.update_of_ne heq]
    apply hfull i hi heq

/-! ### Sinking -/

/-- The child to which `percolate_down` goes expires first. -/
theorem child_spec (hroom : h.curSize ≤ h.capacity) (hleft : hole * 2 + 1 ≤ h.curSize - 1)
    (hfull : ∀ i, hole < i → i < h.curSize → (h.array i).isSome) :
  ∃ c, h.child hole = some c ∧ 0 < c ∧ c < h.curSize ∧ parent c = hole ∧
    ∀ i, 0 < i → i < h.curSize → parent i = hole →
      expireOf h.timers (h.array c) ≤ expireOf h.timers (h.array i)
  := by
  unfold child
  by_cases hright : hole * 2 + 1 < h.curSize - 1
  · have hlast : hole * 2 + 2 < h.curSize := by omega
    have hexpire : ∀ i, hole < i → i < h.curSize →
        h.expireAt i = some (expireOf h.timers (h.array i)) := by
      intro i hi hlt
      apply expireAt_of_lt (Nat.lt_of_lt_of_le hlt hroom) (hfull i hi hlt)
    rw [if_pos hright, hexpire _ (by omega) (Nat.lt_of_succ_lt hlast),
      hexpire _ (by omega) hlast]
    simp only [Option.bind_eq_bind, Option.bind_some]
    refine ⟨_, rfl, ?_⟩
    split_ifs with hlt
    · refine ⟨by omega, by omega, (parent_eq_iff (by omega)).mpr (Or.inr rfl), ?_⟩
      intro i hpos _ hi
      rcases (parent_eq_iff hpos).mp hi with rfl | rfl
      · apply Int.le_of_lt hlt
      · apply Int.le_refl _
    · refine ⟨by omega, by omega, (parent_eq_iff (by omega)).mpr (Or.inl rfl), ?_⟩
      intro i hpos _ hi
      rcases (parent_eq_iff hpos).mp hi with rfl | rfl
      · apply Int.le_refl _
      · apply Int.not_lt.mp hlt
  · rw [if_neg hright]
    refine ⟨_, rfl, by omega, by omega, (parent_eq_iff (by omega)).mpr (Or.inl rfl), ?_⟩
    intro i hpos hlt hi
    rcases (parent_eq_iff hpos).mp hi with rfl | rfl
    · apply Int.le_refl _
    · omega

theorem percolateDownLoop_spec {fuel : ℕ} {x : X} (hroom : h.curSize ≤ h.capacity)
    (hhole : hole < h.capacity) (hle : hole ≤ h.curSize) (hk : k ≤ hole)
    (hfull : ∀ i, i < h.curSize → i ≠ hole → (h.array i).isSome)
    (hsinking : SinkingAt (expireOf h.timers) (Function.update h.array hole (some x)) h.curSize k
      hole)
    (hfuel : h.curSize < fuel + hole) :
  ∃ a, percolateDownLoop fuel h (some x) hole = some { h with array := a } ∧
    OrderedFrom (expireOf h.timers) a h.curSize k ∧
    (Memory.slice a 0 h.curSize).Perm
      (Memory.slice (Function.update h.array hole (some x)) 0 h.curSize)
  := by
  induction fuel generalizing h hole with
  | zero => omega
  | succ fuel ih =>
      by_cases hleft : hole * 2 + 1 ≤ h.curSize - 1
      · obtain ⟨c, hchild, hpos, hc, hparent, hmin⟩ := child_spec hroom hleft
          (fun i hi hlt => hfull i hlt (Nat.ne_of_gt hi))
        have hlt : hole < c := hparent ▸ parent_lt hpos
        have hne : c ≠ hole := Nat.ne_of_gt hlt
        have hcapacity : c < h.capacity := Nat.lt_of_lt_of_le hc hroom
        have hkept : ∀ i, 0 < i → parent i = hole →
            Function.update h.array hole (some x) i = h.array i := by
          intro i hipos hi
          apply Function.update_of_ne
          apply Nat.ne_of_gt (hi ▸ parent_lt hipos)
        have hexpire := expireAt_of_lt hcapacity (hfull c hc hne)
        simp only [percolateDownLoop, if_pos hleft, hchild, hexpire, get_of_lt hcapacity,
          set_of_lt hhole, Option.bind_eq_bind, Option.bind_some]
        by_cases hless : expireOf h.timers (h.array c) < (h.timers x).expire
        · rw [if_pos hless]
          have hmoved := hsinking.move hk hpos hc hparent
            (fun i hipos hi hparent' => by
              rw [hkept c hpos hparent, hkept i hipos hparent']
              apply hmin i hipos hi hparent')
            (by
              rw [hkept c hpos hparent, Function.update_self]
              apply Int.le_of_lt hless)
          have hswap := slice_swap_perm (Function.update h.array hole (some x))
            (Nat.lt_trans hlt hc) hc
          rw [swap_update h.array (some x) hne] at hmoved hswap
          have hfull' : ∀ i, i < h.curSize → i ≠ c →
              (Function.update h.array hole (h.array c) i).isSome := by
            intro i hi _
            apply isSome_of_moved (hfull c hc hne) hfull hi
          obtain ⟨a, hloop, hordered, hperm⟩ :=
            ih (h := { h with array := Function.update h.array hole (h.array c) }) hroom hcapacity
              (Nat.le_of_lt hc) (Nat.le_trans hk (Nat.le_of_lt hlt)) hfull' hmoved
              (show h.curSize < fuel + c by omega)
          exact ⟨a, hloop, hordered, hperm.trans hswap⟩
        · rw [if_neg hless]
          refine ⟨_, rfl, hsinking.finish ?_, List.Perm.refl _⟩
          intro i hipos hi hparent'
          rw [Function.update_self, hkept i hipos hparent']
          apply Int.le_trans (Int.not_lt.mp hless) (hmin i hipos hi hparent')
      · simp only [percolateDownLoop, if_neg hleft, set_of_lt hhole]
        refine ⟨_, rfl, hsinking.finish ?_, List.Perm.refl _⟩
        intro i hpos hi hparent
        have hplace := (parent_eq_iff hpos).mp hparent
        omega

/-- The timer in the cell `hole` sinks. -/
theorem percolateDown_spec {x : X} (hroom : h.curSize ≤ h.capacity) (hhole : hole < h.capacity)
    (hle : hole ≤ h.curSize) (hk : k ≤ hole) (hx : h.array hole = some x)
    (hholds : (h.array.slice 0 h.curSize).Perm (xs.map some))
    (hsinking : SinkingAt (expireOf h.timers) h.array h.curSize k hole) :
  ∃ a, h.percolateDown hole = some { h with array := a } ∧
    OrderedFrom (expireOf h.timers) a h.curSize k ∧
    (Memory.slice a 0 h.curSize).Perm (xs.map some)
  := by
  have hself : Function.update h.array hole (some x) = h.array := by
    rw [← hx]
    apply Function.update_eq_self
  have hfull : ∀ i, i < h.curSize → i ≠ hole → (h.array i).isSome := by
    intro i hi _
    apply isSome_array hholds hi
  rw [← hself] at hsinking
  obtain ⟨a, hloop, hordered, hperm⟩ := percolateDownLoop_spec hroom hhole hle hk hfull hsinking
    (show h.curSize < h.curSize + 1 + hole by omega)
  rw [hself] at hperm
  refine ⟨a, ?_, hordered, hperm.trans hholds⟩
  simp only [percolateDown, get_of_lt hhole, hx, Option.bind_eq_bind, Option.bind_some, hloop]

/-- The loop of the second constructor. -/
theorem percolateAll_spec (hroom : h.curSize ≤ h.capacity) (hi : i < h.curSize)
    (hholds : (h.array.slice 0 h.curSize).Perm (xs.map some))
    (hordered : OrderedFrom (expireOf h.timers) h.array h.curSize (i + 1)) :
  ∃ a, h.percolateAll i = some { h with array := a } ∧
    OrderedFrom (expireOf h.timers) a h.curSize 0 ∧
    (Memory.slice a 0 h.curSize).Perm (xs.map some)
  := by
  induction i generalizing h with
  | zero =>
      obtain ⟨x, -, hx⟩ := isSome_of_perm hholds hi
      apply percolateDown_spec hroom (Nat.lt_of_lt_of_le hi hroom) (Nat.le_of_lt hi)
        (Nat.le_refl 0) hx hholds hordered.sinkingAt
  | succ i ih =>
      obtain ⟨x, -, hx⟩ := isSome_of_perm hholds hi
      obtain ⟨a, hdown, hordered', hholds'⟩ := percolateDown_spec hroom
        (Nat.lt_of_lt_of_le hi hroom) (Nat.le_of_lt hi) (Nat.le_refl _) hx hholds hordered.sinkingAt
      obtain ⟨a', hall, hrest⟩ :=
        ih (h := { h with array := a }) hroom (Nat.lt_of_succ_lt hi) hholds' hordered'
      refine ⟨a', ?_, hrest⟩
      simp only [percolateAll, hdown, Option.bind_eq_bind, Option.bind_some, hall]

/-! ### The constructors -/

theorem holds_ofCapacity (timers : X → HeapTimer) {cap : ℕ} (hcap : 0 < cap) :
  Holds (TimeHeap.ofCapacity timers cap) []
  := by
  refine ⟨Nat.zero_le _, hcap, ?_, List.Perm.refl _⟩
  intro i _ hi
  exact absurd hi (Nat.not_lt_zero i)

theorem slice_getElem? (xs : List X) :
  Memory.slice (fun i => xs[i]?) 0 xs.length = xs.map some
  := by
  apply List.ext_getElem
  · rw [Memory.length_slice, List.length_map]
  · intro i hi _
    rw [Memory.length_slice] at hi
    rw [Memory.getElem_slice, List.getElem_map, Nat.zero_add, List.getElem?_eq_getElem hi]

theorem ofArray_spec (timers : X → HeapTimer) {initArray : List X} {capacity : ℕ}
    (hcapacity : 0 < capacity) (hlength : initArray.length ≤ capacity) :
  ∃ h, TimeHeap.ofArray timers initArray capacity = some h ∧ Holds h initArray ∧
    h.timers = timers ∧ h.capacity = capacity
  := by
  have hslice := List.Perm.of_eq (slice_getElem? initArray)
  by_cases hempty : initArray.length = 0
  · refine ⟨⟨timers, fun i => initArray[i]?, capacity, initArray.length⟩, ?_,
      ⟨hlength, hcapacity, ?_, hslice⟩, rfl, rfl⟩
    · simp only [TimeHeap.ofArray, if_neg (Nat.not_lt.mpr hlength), if_neg (not_not.mpr hempty)]
    · apply OrderedFrom.of_le
      apply Nat.le_trans (Nat.le_of_eq hempty) (Nat.zero_le _)
  · have hhalf : (initArray.length - 1) / 2 < initArray.length := by omega
    have hordered : OrderedFrom (expireOf timers) (fun i => initArray[i]?) initArray.length
        ((initArray.length - 1) / 2 + 1) := by
      apply OrderedFrom.of_le
      omega
    obtain ⟨a, hall, hordered', hholds⟩ := percolateAll_spec
      (h := ⟨timers, fun i => initArray[i]?, capacity, initArray.length⟩) hlength hhalf hslice
      hordered
    refine ⟨⟨timers, a, capacity, initArray.length⟩, ?_,
      ⟨hlength, hcapacity, hordered', hholds⟩, rfl, rfl⟩
    simp only [TimeHeap.ofArray, if_neg (Nat.not_lt.mpr hlength), if_pos hempty]
    exact hall

/-! ### Rising -/

theorem addTimerLoop_spec {fuel : ℕ} {timer : X} (hroom : h.curSize ≤ h.capacity)
    (hhole : hole < h.curSize) (hfull : ∀ i, i < h.curSize → i ≠ hole → (h.array i).isSome)
    (hrising : RisingAt (expireOf h.timers) (Function.update h.array hole (some timer)) h.curSize
      hole)
    (hfuel : hole < fuel) :
  ∃ a, addTimerLoop fuel h timer hole = some { h with array := a } ∧
    OrderedFrom (expireOf h.timers) a h.curSize 0 ∧
    (Memory.slice a 0 h.curSize).Perm
      (Memory.slice (Function.update h.array hole (some timer)) 0 h.curSize)
  := by
  induction fuel generalizing h hole with
  | zero => omega
  | succ fuel ih =>
      have hcapacity : hole < h.capacity := Nat.lt_of_lt_of_le hhole hroom
      by_cases hpos : 0 < hole
      · have hup : parent hole < hole := parent_lt hpos
        have hne : parent hole ≠ hole := Nat.ne_of_lt hup
        have hlt : parent hole < h.curSize := Nat.lt_trans hup hhole
        have hkept : Function.update h.array hole (some timer) (parent hole) =
            h.array (parent hole) := Function.update_of_ne hne ..
        have hexpire : h.expireAt ((hole - 1) / 2) =
            some (expireOf h.timers (h.array (parent hole))) :=
          expireAt_of_lt (Nat.lt_of_lt_of_le hlt hroom) (hfull (parent hole) hlt hne)
        have hget : h.get ((hole - 1) / 2) = some (h.array (parent hole)) :=
          get_of_lt (Nat.lt_of_lt_of_le hlt hroom)
        simp only [addTimerLoop, if_pos hpos, hexpire, hget, set_of_lt hcapacity,
          Option.bind_eq_bind, Option.bind_some]
        by_cases hle : expireOf h.timers (h.array (parent hole)) ≤ (h.timers timer).expire
        · rw [if_pos hle]
          refine ⟨_, rfl, hrising.finish ?_, List.Perm.refl _⟩
          intro _
          rw [hkept, Function.update_self]
          exact hle
        · rw [if_neg hle]
          have hmoved := hrising.move hpos hhole
            (by
              rw [hkept, Function.update_self]
              apply Int.le_of_lt (Int.not_le.mp hle))
          have hswap := slice_swap_perm (Function.update h.array hole (some timer)) hhole hlt
          rw [swap_update h.array (some timer) hne] at hmoved hswap
          have hfull' : ∀ i, i < h.curSize → i ≠ parent hole →
              (Function.update h.array hole (h.array (parent hole)) i).isSome := by
            intro i hi _
            apply isSome_of_moved (hfull _ hlt hne) hfull hi
          obtain ⟨a, hloop, hordered, hperm⟩ :=
            ih (h := { h with array := Function.update h.array hole (h.array (parent hole)) }) hroom
              hlt hfull' hmoved (Nat.lt_of_lt_of_le hup (Nat.le_of_lt_succ hfuel))
          exact ⟨a, hloop, hordered, hperm.trans hswap⟩
      · simp only [addTimerLoop, if_neg hpos, set_of_lt hcapacity]
        exact ⟨_, rfl, hrising.finish (fun h => absurd h hpos), List.Perm.refl _⟩

/-- The array has room for one more timer, if need be after `resize`. -/
theorem exists_room (hholds : Holds h xs) :
  ∃ h', h.resizeIfFull = some h' ∧ Holds h' xs ∧ h'.curSize < h'.capacity ∧
    h'.timers = h.timers ∧
    h'.capacity = if h.capacity ≤ h.curSize then 2 * h.capacity else h.capacity
  := by
  unfold resizeIfFull
  by_cases hsmall : h.capacity ≤ h.curSize
  · rw [if_pos hsmall]
    have hkept : ∀ i, i < h.curSize → (if i < h.curSize then h.array i else none) = h.array i :=
      fun i hi => if_pos hi
    have hpositive := hholds.nonempty
    have hroom := hholds.room
    refine ⟨_, if_pos hroom, ⟨?_, ?_, ?_, ?_⟩, ?_, rfl, (if_pos hsmall).symm⟩
    · apply Nat.le_trans hroom (Nat.le_mul_of_pos_left _ (by decide))
    · apply Nat.mul_pos (by decide) hpositive
    · intro i hpos hi hk
      dsimp only at hi ⊢
      rw [hkept i hi, hkept _ (Nat.lt_trans (parent_lt hpos) hi)]
      apply hholds.ordered i hpos hi hk
    · apply List.Perm.trans _ hholds.holds
      apply List.Perm.of_eq
      apply Memory.slice_congr
      intro i _ hi
      rw [Nat.zero_add] at hi
      apply hkept i hi
    · dsimp only
      omega
  · rw [if_neg hsmall]
    exact ⟨h, rfl, hholds, Nat.not_le.mp hsmall, rfl, (if_neg hsmall).symm⟩

theorem addTimer_spec (hholds : Holds h xs) (timer : X) :
  ∃ h', h.addTimer (some timer) = some h' ∧ Holds h' (xs ++ [timer]) ∧ h'.timers = h.timers ∧
    h'.capacity = if h.capacity ≤ h.curSize then 2 * h.capacity else h.capacity
  := by
  obtain ⟨h₁, hroom, hholds₁, hlt, htimers, hcapacity⟩ := exists_room hholds
  have hfull : ∀ i, i < h₁.curSize + 1 → i ≠ h₁.curSize → (h₁.array i).isSome := by
    intro i hi hne
    apply isSome_array hholds₁.holds
    omega
  obtain ⟨a, hloop, hordered, hperm⟩ := addTimerLoop_spec
    (h := { h₁ with curSize := h₁.curSize + 1 }) hlt (Nat.lt_succ_self _) hfull
    (hholds₁.ordered.risingAt (some timer)) (Nat.lt_succ_self _)
  refine ⟨{ h₁ with array := a, curSize := h₁.curSize + 1 }, ?_,
    ⟨hlt, hholds₁.nonempty, hordered, ?_⟩, htimers, hcapacity⟩
  · simp only [addTimer, hroom, Option.bind_eq_bind, Option.bind_some]
    exact hloop
  · apply hperm.trans
    rw [Memory.slice_update_last, List.map_append]
    apply hholds₁.holds.append_right _

/-! ### Taking the first timer -/

/-- The first timer of a heap: what is left without it, and none of the others expires earlier. -/
structure Popped (h h' : TimeHeap X) (xs : List X) (x : X) (ys : List X) : Prop where
  perm : xs.Perm (x :: ys)
  holds : Holds h' ys
  first : ∀ y ∈ xs, (h.timers x).expire ≤ (h.timers y).expire
  timers : h'.timers = h.timers
  curSize : h'.curSize + 1 = h.curSize

/-- The last cell takes the place of the first one. -/
theorem slice_update_first (a : Memory (Option X)) (n : ℕ) :
  (a 0 :: Memory.slice (Function.update a 0 (a n)) 0 n).Perm (a.slice 0 (n + 1))
  := by
  rw [Memory.slice_succ]
  apply List.Perm.cons
  cases n with
  | zero => apply List.Perm.refl []
  | succ n =>
      rw [Memory.slice_succ, Memory.slice_add]
      have hlast : Memory.slice a (0 + 1 + n) 1 = [a (n + 1)] := by
        rw [Memory.slice_succ, Nat.zero_add, Nat.add_comm 1 n]
        rfl
      have hrest : Memory.slice (Function.update a 0 (a (n + 1))) (0 + 1) n =
          a.slice (0 + 1) n := by
        apply Memory.slice_congr
        intro i hi _
        apply Function.update_of_ne
        omega
      rw [hlast, hrest, Function.update_self]
      exact (List.perm_append_singleton _ _).symm

theorem Holds.length_eq (hholds : Holds h xs) :
  xs.length = h.curSize
  := by
  have hlength := hholds.holds.length_eq
  rw [Memory.length_slice, List.length_map] at hlength
  apply hlength.symm

theorem popTimer_empty (hzero : h.curSize = 0) :
  h.popTimer = some (none, h)
  := if_pos hzero

theorem popTimer_spec (hholds : Holds h xs) (hpos : 0 < h.curSize) :
  ∃ x ys h', h.array 0 = some x ∧ h.popTimer = some (some x, h') ∧ Popped h h' xs x ys ∧
    h'.capacity = h.capacity
  := by
  obtain ⟨n, hn⟩ := Nat.exists_eq_succ_of_ne_zero (Nat.ne_of_gt hpos)
  have hroom := hholds.room
  obtain ⟨x, hx, harray⟩ := isSome_of_perm hholds.holds hpos
  obtain ⟨as, bs, hsplit⟩ := List.append_of_mem hx
  have hperm : xs.Perm (x :: (as ++ bs)) := by
    rw [hsplit]
    apply List.perm_middle
  have hrest : (Memory.slice (Function.update h.array 0 (h.array n)) 0 n).Perm
      ((as ++ bs).map some) := by
    apply List.Perm.cons_inv (a := some x)
    rw [← List.map_cons, ← harray]
    apply (slice_update_first h.array n).trans
    have hall := hholds.holds
    rw [hn] at hall
    apply hall.trans (hperm.map some)
  have hlast : ∃ y, h.array n = some y := by
    obtain ⟨y, -, hy⟩ := isSome_of_perm hholds.holds (show n < h.curSize by omega)
    exact ⟨y, hy⟩
  obtain ⟨y, hy⟩ := hlast
  have hordered := hholds.ordered
  rw [hn] at hordered
  obtain ⟨a, hdown, hordered', hholds'⟩ := percolateDown_spec
    (h := ⟨h.timers, Function.update h.array 0 (h.array n), h.capacity, n⟩)
    (show n ≤ h.capacity by omega) hholds.nonempty (Nat.zero_le n) (Nat.le_refl 0)
    (by dsimp only; rw [Function.update_self, hy]) hrest (hordered.sinkingAt_root (h.array n))
  refine ⟨x, as ++ bs, ⟨h.timers, a, h.capacity, n⟩, harray, ?_, ⟨hperm,
    ⟨show n ≤ h.capacity by omega, hholds.nonempty, hordered', hholds'⟩, ?_, rfl, hn.symm⟩,
    rfl⟩
  · have hget : h.get 0 = some (some x) := by
      rw [get_of_lt hholds.nonempty, harray]
    have hsize : h.curSize - 1 = n := by omega
    simp only [popTimer, if_neg (Nat.ne_of_gt hpos), hget, hsize, Option.bind_eq_bind,
      Option.bind_some]
    rw [get_of_lt (by dsimp only; omega), Option.bind_some, set_of_lt (by exact hholds.nonempty),
      Option.bind_some, hdown, Option.bind_some]
  · intro z hz
    have hmem : some z ∈ h.array.slice 0 h.curSize :=
      hholds.holds.mem_iff.mpr (List.mem_map_of_mem hz)
    obtain ⟨i, hi, hzi⟩ := List.mem_map.mp hmem
    have hle := hholds.ordered.root_le (List.mem_range.mp hi)
    rw [Nat.zero_add] at hzi
    rw [harray, hzi] at hle
    exact hle

end TimingHeap
