import Mathlib.Data.List.Sort
import Orgrim.Frlist.Linked

/-!
# Insertion sort

`frlist_add_sort` adds one node to a sorted list.  Added one after the other to an empty list, the
nodes are sorted as `List.insertionSort` sorts them, the last one first; a node goes in front of
the nodes that compare equal.  `size` has 32 bits, so fewer than `2 ^ 32` nodes can be sorted
(`sorts_iff_length_lt`).

The function never moves `tail` when it inserts, so nothing is said about `tail` here.
-/

namespace Frlist

open Links Frlist.Lists

variable {ι α : Type} [DecidableEq ι] [DecidableEq α] {s s' : Lists ι α} {l : ι} {x : α}
  {xs nodes : List α} {compare : α → α → ℤ}

/-- The list has the nodes `xs`, and its header their number. -/
structure Holds (s : Lists ι α) (l : ι) (xs : List α) : Prop where
  chain : Chain s.next (s.head l) xs
  size : (s.size l).toNat = xs.length
  live : ∀ x ∈ xs, x ∈ s.live

/-! ### One node -/

omit [DecidableEq α] in
/-- After one more node has been counted. -/
theorem Holds.grown (h : Holds s l xs) (hx : x ∈ s.live) (hbound : xs.length + 1 < 2 ^ 32)
    {ys zs : List α} (hxs : xs = ys ++ zs) (hlive : s'.live = s.live)
    (hsize : s'.size = Function.update s.size l (s.size l + 1))
    (hchain : Chain s'.next (s'.head l) (ys ++ x :: zs)) :
  Holds s' l (ys ++ x :: zs)
  := by
  constructor
  · apply hchain
  · rw [hsize, Function.update_self, toNat_add_one h.size hbound, hxs]
    simp only [List.length_append, List.length_cons]
    omega
  · intro y hy
    rw [hlive]
    rw [List.mem_append, List.mem_cons] at hy
    obtain hy | rfl | hy := hy
    · apply h.live
      rw [hxs]
      apply List.mem_append_left zs hy
    · apply hx
    · apply h.live
      rw [hxs]
      apply List.mem_append_right ys hy

/-- The first node is appended. -/
theorem Holds.addFirst (h : Holds s l []) (hx : x ∈ s.live) :
  ∃ s', s.addSort (some l) (some x) (some compare) = some s' ∧ Holds s' l [x] ∧
    s'.live = s.live
  := by
  have hsize : s.size l = 0 := BitVec.eq_of_toNat_eq h.size
  have hhead : s.head l = none := h.chain
  rw [addSort_eq_addTail hsize]
  refine ⟨_, addTail_eq_some.mpr ⟨hx, Or.inl ⟨hhead, rfl⟩⟩, ?_, rfl⟩
  have hbound : ([] : List α).length + 1 < 2 ^ 32 := by
    rw [List.length_nil]
    decide
  apply h.grown hx hbound (List.append_nil []).symm
  · rfl
  · rfl
  · dsimp only
    rw [Function.update_self]
    use rfl
    apply Function.update_self ..

/-- `frlist_add_sort` puts a node where it belongs. -/
theorem Holds.addSort (h : Holds s l xs) (hx : x ∈ s.live) (hfresh : x ∉ xs)
    (hbound : xs.length + 1 < 2 ^ 32) :
  ∃ s', s.addSort (some l) (some x) (some compare) = some s' ∧
    Holds s' l (insertSorted compare x xs) ∧ s'.live = s.live
  := by
  cases hcase : xs with
  | nil =>
      rw [hcase] at h
      apply h.addFirst hx
  | cons first rest =>
      rw [← hcase]
      have hsize : ¬ s.size l < 1 := by
        have hlength := h.size
        rw [hcase, List.length_cons] at hlength
        bv_omega
      have hsort : s.sortPre (compare x) s.live.card (s.head l) none
          = some ((xs.takeWhile (fun y => 0 < compare x y)).getLast?.or none) :=
        sortPre_eq h.chain h.live (h.chain.length_le_card h.live) none
      rw [Option.or_none] at hsort
      have hsplit := (List.takeWhile_append_dropWhile (p := fun y => 0 < compare x y)
        (l := xs)).symm
      have hchain := h.chain
      rw [insertSorted]
      generalize xs.takeWhile (fun y => 0 < compare x y) = ys at hsort hsplit ⊢
      generalize xs.dropWhile (fun y => 0 < compare x y) = zs at hsplit ⊢
      rcases List.eq_nil_or_concat ys with rfl | ⟨front, y, hys⟩
      · have hhead : s.head l = some first := by
          rw [hcase] at hchain
          apply hchain.1
        have hfirst : first ∈ s.live := by
          apply h.live
          rw [hcase]
          apply List.mem_cons_self
        have hzs : xs = zs := hsplit
        refine ⟨_, (addSort_eq_some hsize).mpr ⟨none, hsort, hx,
          Or.inl ⟨rfl, first, hhead, hfirst, rfl⟩⟩, ?_, rfl⟩
        apply h.grown hx hbound hsplit
        · rfl
        · rfl
        · dsimp only
          rw [Function.update_self, List.nil_append, ← hzs]
          apply hchain.push hfresh
      · rw [List.concat_eq_append] at hys
        rw [hys, List.getLast?_concat] at hsort
        have hmem : y ∈ xs := by
          rw [hsplit, hys]
          apply List.mem_append_left _ List.mem_concat_self
        have hyx : xs = front ++ y :: zs := by
          rw [hsplit, hys, List.append_assoc, List.singleton_append]
        rw [hyx] at hchain hfresh
        have hjoin : ys ++ x :: zs = front ++ y :: x :: zs := by
          rw [hys, List.append_assoc, List.singleton_append]
        have hbehind := hchain.insertBehind hfresh
        rw [← hjoin] at hbehind
        cases zs with
        | nil =>
            have hnext : s.next y = none := (segment_middle.mp hchain).2
            refine ⟨_, (addSort_eq_some hsize).mpr ⟨some y, hsort, hx,
              Or.inr ⟨y, rfl, h.live y hmem, Or.inl ⟨hnext, rfl⟩⟩⟩, ?_, rfl⟩
            apply h.grown hx hbound hsplit
            · rfl
            · rfl
            · apply hbehind
        | cons z zs =>
            have hnext : s.next y = some z := (segment_middle.mp hchain).2.1
            have hz : z ∈ s.live := by
              apply h.live
              rw [hsplit]
              apply List.mem_append_right ys List.mem_cons_self
            refine ⟨_, (addSort_eq_some hsize).mpr ⟨some y, hsort, hx,
              Or.inr ⟨y, rfl, h.live y hmem, Or.inr ⟨z, hnext, hz, rfl⟩⟩⟩, ?_, rfl⟩
            apply h.grown hx hbound hsplit
            · rfl
            · rfl
            · apply hbehind

/-! ### Node after node -/

omit [DecidableEq ι] [DecidableEq α] in
theorem insertSorted_eq_orderedInsert (compare : α → α → ℤ) (x : α) (xs : List α) :
  insertSorted compare x xs = xs.orderedInsert (fun x y => compare x y ≤ 0) x
  := by
  simp only [insertSorted, List.orderedInsert_eq_take_drop, Int.not_le]

omit [DecidableEq ι] [DecidableEq α] in
/-- Inserting nodes one after the other is insertion sort, from the last node to the first. -/
theorem foldl_insertSorted (compare : α → α → ℤ) (nodes : List α) :
  nodes.foldl (fun xs x => insertSorted compare x xs) []
    = nodes.reverse.insertionSort (fun x y => compare x y ≤ 0)
  := by
  rw [List.insertionSort, List.foldr_reverse]
  congr 1
  funext xs x
  apply insertSorted_eq_orderedInsert

/-- The calls that add the nodes one after the other. -/
def addSortCalls (compare : α → α → ℤ) (l : ι) (nodes : List α) : List (Call ι α) :=
  nodes.map (fun x => .addSort l x (some compare))

theorem Holds.run (h : Holds s l xs) (hlive : ∀ x ∈ nodes, x ∈ s.live)
    (hnodup : (xs ++ nodes).Nodup) (hbound : xs.length + nodes.length < 2 ^ 32) :
  ∃ s', frlist.final s (addSortCalls compare l nodes) = some s' ∧
    Holds s' l (nodes.foldl (fun xs x => insertSorted compare x xs) xs)
  := by
  induction nodes generalizing s xs with
  | nil => exact ⟨s, rfl, h⟩
  | cons x nodes ih =>
      rw [List.length_cons] at hbound
      have hmiddle := List.nodup_middle.mp hnodup
      have hfresh : x ∉ xs := by
        intro hmem
        apply (List.nodup_cons.mp hmiddle).1 (List.mem_append_left nodes hmem)
      have hx : x ∈ s.live := hlive x List.mem_cons_self
      obtain ⟨s₁, hstep, h₁ : Holds s₁ l (insertSorted compare x xs), hlive₁⟩ :=
        h.addSort hx hfresh (by omega)
      have hperm : (insertSorted compare x xs).Perm (x :: xs) := by
        rw [insertSorted_eq_orderedInsert]
        apply List.perm_orderedInsert
      have hnodup₁ : (insertSorted compare x xs ++ nodes).Nodup := by
        rw [(hperm.append_right nodes).nodup_iff]
        apply hmiddle
      have hlive' : ∀ y ∈ nodes, y ∈ s₁.live := by
        intro y hy
        rw [hlive₁]
        apply hlive y (List.mem_cons_of_mem x hy)
      have hbound₁ : (insertSorted compare x xs).length + nodes.length < 2 ^ 32 := by
        rw [length_insertSorted]
        omega
      obtain ⟨s', hfinal, h'⟩ := ih h₁ hlive' hnodup₁ hbound₁
      refine ⟨s', ?_, h'⟩
      rw [addSortCalls, List.map_cons, Machine.final]
      apply Option.bind_eq_some_iff.mpr ⟨s₁, hstep, hfinal⟩

/-! ### Sorting -/

/-- The order of `compare` is a total preorder. -/
structure TotalPreorder (compare : α → α → ℤ) : Prop where
  total : ∀ x y, compare x y ≤ 0 ∨ compare y x ≤ 0
  trans : ∀ x y z, compare x y ≤ 0 → compare y z ≤ 0 → compare x z ≤ 0

/-- The nodes of the list are the given ones, sorted; of two nodes that compare equal the one
that was added later comes first. -/
structure Sorts (compare : α → α → ℤ) (nodes : List α) (s : Lists ι α) (l : ι) (xs : List α) :
    Prop where
  chain : Chain s.next (s.head l) xs
  size : (s.size l).toNat = xs.length
  sorted : xs.Pairwise (fun x y => compare x y ≤ 0)
  perm : xs.Perm nodes
  ties : ∀ x y, [x, y].Sublist nodes → compare x y ≤ 0 → compare y x ≤ 0 → [y, x].Sublist xs

omit [DecidableEq ι] [DecidableEq α] in
/-- What is sorted can be counted with 32 bits. -/
theorem Sorts.length_lt (h : Sorts compare nodes s l xs) :
  nodes.length < 2 ^ 32
  := by
  rw [← h.perm.length_eq, ← h.size]
  apply BitVec.isLt

omit [DecidableEq ι] [DecidableEq α] in
theorem Holds.sorts (horder : TotalPreorder compare)
    (h : Holds s l (nodes.reverse.insertionSort (fun x y => compare x y ≤ 0))) :
  Sorts compare nodes s l (nodes.reverse.insertionSort (fun x y => compare x y ≤ 0))
  := by
  have : Std.Total (fun x y => compare x y ≤ 0) := ⟨horder.total⟩
  have : IsTrans α (fun x y => compare x y ≤ 0) := ⟨horder.trans⟩
  constructor
  · apply h.chain
  · apply h.size
  · apply List.pairwise_insertionSort
  · apply (List.perm_insertionSort _ _).trans
    apply List.reverse_perm
  · intro x y hsublist _ hyx
    apply List.pair_sublist_insertionSort (r := fun x y => compare x y ≤ 0) hyx
    rw [← List.reverse_sublist] at hsublist
    apply hsublist

/-- Calls of `frlist_add_sort` sort the nodes, exactly if `size` can count them. -/
theorem sorts_iff_length_lt (horder : TotalPreorder compare) (hhead : s.head l = none)
    (hsize : s.size l = 0) (hlive : ∀ x ∈ nodes, x ∈ s.live) (hnodup : nodes.Nodup) :
  (∃ s' xs, frlist.final s (addSortCalls compare l nodes) = some s' ∧
      Sorts compare nodes s' l xs) ↔
    nodes.length < 2 ^ 32
  := by
  constructor
  · rintro ⟨s', xs, -, hsorts⟩
    apply hsorts.length_lt
  · intro hbound
    have hempty : Holds s l [] := by
      constructor
      · apply hhead
      · rw [hsize]
        rfl
      · intro x hx
        apply absurd hx List.not_mem_nil
    obtain ⟨s', hfinal : frlist.final s (addSortCalls compare l nodes) = some s', h⟩ :=
      hempty.run hlive hnodup (by simpa using hbound)
    rw [foldl_insertSorted] at h
    exact ⟨s', _, hfinal, h.sorts horder⟩

/-- Numbers are compared by their half, so that different ones compare equal. -/
def compareHalf (x y : ℕ) : ℤ := ((x / 2 : ℕ) : ℤ) - (y / 2 : ℕ)

theorem compareHalf_totalPreorder :
  TotalPreorder compareHalf
  := by
  constructor
  · intro x y
    simp only [compareHalf]
    omega
  · intro x y z
    simp only [compareHalf]
    omega

/-- An empty list, and the first `n` nodes. -/
def emptyList (n : ℕ) : Lists Unit ℕ :=
  start (Finset.range n) (fun _ => none) (fun _ => none) (fun _ => none)

theorem live_emptyList (n : ℕ) :
  ∀ x ∈ List.range n, x ∈ (emptyList n).live
  := by
  intro x hx
  apply Finset.mem_range.mpr (List.mem_range.mp hx)

/-- Five nodes are sorted. -/
theorem sorts_five :
  ∃ s' xs, frlist.final (emptyList 5) (addSortCalls compareHalf () (List.range 5)) = some s' ∧
    Sorts compareHalf (List.range 5) s' () xs
  := by
  apply (sorts_iff_length_lt compareHalf_totalPreorder rfl rfl (live_emptyList 5)
    List.nodup_range).mpr
  decide

/-- `2 ^ 32` nodes are not: `size` cannot be their number. -/
theorem not_sorts_range :
  TotalPreorder compareHalf ∧
    (∀ x ∈ List.range (2 ^ 32), x ∈ (emptyList (2 ^ 32)).live) ∧ (List.range (2 ^ 32)).Nodup ∧
    ¬ ∃ s' xs, frlist.final (emptyList (2 ^ 32))
        (addSortCalls compareHalf () (List.range (2 ^ 32))) = some s' ∧
      Sorts compareHalf (List.range (2 ^ 32)) s' () xs
  := by
  use compareHalf_totalPreorder, live_emptyList _, List.nodup_range
  rintro ⟨s', xs, -, hsorts⟩
  have hlength := hsorts.length_lt
  rw [List.length_range] at hlength
  apply Nat.lt_irrefl _ hlength

end Frlist
