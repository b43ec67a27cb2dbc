import Mathlib.Data.List.Basic
import Orgrim.Theory.Chain

/-!
# Doubly linked lists

`Strand next pre head xs tail`: from `head` on the links `next` go through the nodes `xs` and end
there, and from `tail` on the links `pre` go through the same nodes the other way.

A node may be put in front of the others (`Strand.push`) or behind a node (`Strand.insert`), and
may be taken out wherever it is (`Strand.unlink`).
-/

namespace Links

variable {α : Type*}

/-- The nodes `xs`, linked in both directions. -/
structure Strand (next pre : α → Option α) (head : Option α) (xs : List α) (tail : Option α) :
    Prop where
  forward : Chain next head xs
  backward : Chain pre tail xs.reverse

variable {next pre next' pre' : α → Option α} {head tail p : Option α} {xs ys : List α}
  {x y a b : α}

/-! ### One direction -/

/-- A node is put behind the node `a`. -/
theorem Chain.insert (h : Chain next p (xs ++ a :: ys)) (ha : next' a = some x)
    (hx : next' x = next a) (hothers : ∀ y ∈ xs ++ a :: ys, y ≠ a → next' y = next y) :
  Chain next' p (xs ++ a :: x :: ys)
  := by
  have hnodup := List.nodup_cons.mp (List.nodup_middle.mp h.nodup)
  have hkept : ∀ y ∈ xs ++ ys, next' y = next y := by
    intro y hy
    apply hothers y (List.perm_middle.mem_iff.mpr (List.mem_cons_of_mem a hy))
    rintro rfl
    exact hnodup.1 hy
  obtain ⟨hxs, hys⟩ := segment_middle.mp h
  apply segment_middle.mpr
  constructor
  · apply hxs.congr
    intro y hy
    apply hkept y (List.mem_append_left _ hy)
  · use ha
    rw [hx]
    apply hys.congr
    intro y hy
    apply hkept y (List.mem_append_right _ hy)

/-- A node is taken out; the link to it is made to point behind it. -/
theorem Chain.bypass [DecidableEq α] (h : Chain next p (xs ++ x :: ys))
    (hothers : ∀ y ∈ xs ++ ys,
      next' y = if xs.getLast? = some y then next x else next y) :
  Chain next' (if xs = [] then next x else p) (xs ++ ys)
  := by
  have hnodup := h.nodup
  obtain ⟨hxs, hys⟩ := segment_middle.mp h
  have hafter : Chain next' (next x) ys := by
    apply Segment.congr hys
    intro y hy
    rw [hothers y (List.mem_append_right _ hy)]
    apply if_neg
    intro hlast
    exact (List.nodup_append.mp hnodup).2.2 y (List.mem_of_getLast? hlast) y
      (List.mem_cons_of_mem x hy) rfl
  cases xs using List.reverseRecOn with
  | nil => exact hafter
  | append_singleton xs a =>
      have hlast : (xs ++ [a]).getLast? = some a := List.getLast?_concat
      have ha : a ∉ xs := by
        intro hmem
        rw [List.append_assoc] at hnodup
        exact (List.nodup_append.mp hnodup).2.2 a hmem a List.mem_cons_self rfl
      rw [if_neg (List.append_ne_nil_of_right_ne_nil xs (List.cons_ne_nil a []))]
      apply segment_append.mpr
      use next x
      constructor
      · apply segment_concat.mpr
        constructor
        · apply (segment_concat.mp hxs).1.congr
          intro y hy
          rw [hothers y (List.mem_append_left _ (List.mem_append_left _ hy)), hlast]
          apply if_neg
          rintro ⟨⟩
          apply ha hy
        · rw [hothers a (List.mem_append_left _ (List.mem_append_right _ List.mem_cons_self)),
            if_pos hlast]
      · exact hafter

/-! ### Both directions -/

theorem strand_nil :
  Strand next pre head [] tail ↔ head = none ∧ tail = none
  := by
  constructor
  · intro h
    exact ⟨h.forward, h.backward⟩
  · rintro ⟨rfl, rfl⟩
    exact ⟨rfl, rfl⟩

/-- The same nodes, read from the other end. -/
theorem Strand.reverse (h : Strand next pre head xs tail) :
  Strand pre next tail xs.reverse head
  := by
  use h.backward
  rw [List.reverse_reverse]
  apply h.forward

theorem Strand.nodup (h : Strand next pre head xs tail) :
  xs.Nodup
  := h.forward.nodup

theorem Strand.head_eq (h : Strand next pre head xs tail) :
  head = xs.head?
  := h.forward.head_eq

theorem Strand.congr (h : Strand next pre head xs tail) (hnext : ∀ x ∈ xs, next' x = next x)
    (hpre : ∀ x ∈ xs, pre' x = pre x) :
  Strand next' pre' head xs tail
  := by
  constructor
  · apply Segment.congr h.forward hnext
  · apply Segment.congr h.backward
    intro x hx
    apply hpre x (List.mem_reverse.mp hx)

/-- The links from a node lead to the nodes next to it. -/
theorem Strand.neighbours (h : Strand next pre head (xs ++ x :: ys) tail) :
  next x = ys.head? ∧ pre x = xs.getLast?
  := by
  have hbackward := h.backward
  rw [List.reverse_append, List.reverse_cons, ← List.append_cons] at hbackward
  constructor
  · apply h.forward.after.head_eq
  · rw [hbackward.after.head_eq, List.head?_reverse]

/-- A node is the first one if there is none before it. -/
theorem Strand.head_eq_some_iff (h : Strand next pre head (xs ++ x :: ys) tail) :
  head = some x ↔ xs = []
  := by
  rw [h.head_eq]
  cases xs with
  | nil => apply iff_of_true rfl rfl
  | cons y xs =>
      apply iff_of_false _ (List.cons_ne_nil y xs)
      rintro ⟨⟩
      exact (List.nodup_cons.mp (List.nodup_middle.mp h.nodup)).1 List.mem_cons_self

theorem Strand.tail_eq_some_iff (h : Strand next pre head (xs ++ x :: ys) tail) :
  tail = some x ↔ ys = []
  := by
  have hreverse := h.reverse
  rw [List.reverse_append, List.reverse_cons, ← List.append_cons] at hreverse
  rw [hreverse.head_eq_some_iff, List.reverse_eq_nil_iff]

/-- A single node. -/
theorem strand_singleton (hnext : next x = none) (hpre : pre x = none) :
  Strand next pre (some x) [x] (some x)
  := ⟨⟨rfl, hnext⟩, ⟨rfl, hpre⟩⟩

/-- A node is put in front of the others. -/
theorem Strand.push (h : Strand next pre (some a) xs tail) (hnext : next' x = some a)
    (hpre : pre' x = none) (ha : pre' a = some x) (hnexts : ∀ y ∈ xs, next' y = next y)
    (hpres : ∀ y ∈ xs, y ≠ a → pre' y = pre y) :
  Strand next' pre' (some x) (x :: xs) tail
  := by
  obtain ⟨ys, rfl⟩ := List.head?_eq_some_iff.mp h.head_eq.symm
  have hbackward := h.backward
  rw [List.reverse_cons] at hbackward
  constructor
  · use rfl
    rw [hnext]
    apply Segment.congr h.forward hnexts
  · rw [List.reverse_cons, List.reverse_cons, ← List.append_cons]
    apply Chain.insert hbackward ha
    · rw [hpre, (segment_concat.mp hbackward).2]
    · intro y hy
      rw [← List.reverse_cons, List.mem_reverse] at hy
      apply hpres y hy

/-- A node is put behind the others. -/
theorem Strand.append (h : Strand next pre head xs (some a)) (hnext : next' x = none)
    (hpre : pre' x = some a) (ha : next' a = some x) (hpres : ∀ y ∈ xs, pre' y = pre y)
    (hnexts : ∀ y ∈ xs, y ≠ a → next' y = next y) :
  Strand next' pre' head (xs ++ [x]) (some x)
  := by
  have hpush : Strand pre' next' (some x) (x :: xs.reverse) head := by
    apply h.reverse.push hpre hnext ha
    · intro y hy
      apply hpres y (List.mem_reverse.mp hy)
    · intro y hy
      apply hnexts y (List.mem_reverse.mp hy)
  have hreverse := hpush.reverse
  rw [List.reverse_cons, List.reverse_reverse] at hreverse
  exact hreverse

/-- A node is put between the nodes `a` and `b`. -/
theorem Strand.insert (h : Strand next pre head (xs ++ a :: b :: ys) tail)
    (hnext : next' x = some b) (hpre : pre' x = some a) (ha : next' a = some x)
    (hb : pre' b = some x) (hnexts : ∀ y ∈ xs ++ a :: b :: ys, y ≠ a → next' y = next y)
    (hpres : ∀ y ∈ xs ++ a :: b :: ys, y ≠ b → pre' y = pre y) :
  Strand next' pre' head (xs ++ a :: x :: b :: ys) tail
  := by
  have hreverse : ∀ zs, (xs ++ a :: zs).reverse = zs.reverse ++ a :: xs.reverse := by
    intro zs
    rw [List.reverse_append, List.reverse_cons, ← List.append_cons]
  constructor
  · apply Chain.insert h.forward ha _ hnexts
    rw [hnext, h.neighbours.1, List.head?_cons]
  · have hbackward := h.backward
    rw [hreverse, List.reverse_cons, ← List.append_cons] at hbackward
    rw [hreverse, List.reverse_cons, List.reverse_cons, ← List.append_cons, ← List.append_cons]
    apply Chain.insert hbackward hb
    · rw [hpre, hbackward.after.head_eq, List.head?_cons]
    · intro y hy
      rw [List.append_cons, ← List.reverse_cons, ← hreverse, List.mem_reverse] at hy
      apply hpres y hy

/-- A node is taken out; the links of the nodes next to it are made to point past it. -/
theorem Strand.unlink [DecidableEq α] (h : Strand next pre head (xs ++ x :: ys) tail)
    (hnexts : ∀ y ∈ xs ++ ys, next' y = if pre x = some y then next x else next y)
    (hpres : ∀ y ∈ xs ++ ys, pre' y = if next x = some y then pre x else pre y) :
  Strand next' pre' (if xs = [] then next x else head) (xs ++ ys)
    (if ys = [] then pre x else tail)
  := by
  have hbackward := h.backward
  rw [List.reverse_append, List.reverse_cons, ← List.append_cons] at hbackward
  constructor
  · apply Chain.bypass h.forward
    intro y hy
    rw [hnexts y hy, h.neighbours.2]
  · have hbypass : Chain pre' (if ys.reverse = [] then pre x else tail)
        (ys.reverse ++ xs.reverse) := by
      apply Chain.bypass hbackward
      intro y hy
      rw [← List.reverse_append, List.mem_reverse] at hy
      rw [hpres y hy, h.neighbours.1, List.getLast?_reverse]
    rw [List.reverse_append]
    simp only [List.reverse_eq_nil_iff] at hbypass
    exact hbypass

end Links
