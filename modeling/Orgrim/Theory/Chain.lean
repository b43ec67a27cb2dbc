import Mathlib.Data.Finset.Card
import Mathlib.Data.List.Nodup

/-!
# Chains of pointers

A function `next` tells where the link of a node points to, if it points anywhere.
`Segment next p xs q`: from the pointer `p` on, the links go through the nodes `xs`, one
after the other, and then point to `q`.  `Chain next p xs` is a segment that ends with a
pointer to nothing.  A chain is determined by its first pointer, so it visits no node twice,
and a link that is not one of its nodes' may be changed.

`Reaches next p x`: the links lead from `p` to `x`; `follow next n p` lists the first `n` nodes
on the way.
-/

namespace Links

section

variable {α : Type*} (next : α → Option α)

/-- From `p` on, the links go through the nodes `xs`, and then point to `q`. -/
def Segment : Option α → List α → Option α → Prop
  | p, [], q => p = q
  | p, x :: xs, q => p = some x ∧ Segment (next x) xs q

/-- From `p` on, the links go through the nodes `xs`, and end there. -/
abbrev Chain (p : Option α) (xs : List α) : Prop := Segment next p xs none

/-- The links lead from `p` to a node. -/
inductive Reaches (p : Option α) : α → Prop
  | here {x : α} : p = some x → Reaches p x
  | there {x y : α} : Reaches p x → next x = some y → Reaches p y

/-- The first `n` nodes to which the links lead from `p` on. -/
def follow : ℕ → Option α → List α
  | 0, _ => []
  | _ + 1, none => []
  | n + 1, some x => x :: follow n (next x)

instance decidableSegment [DecidableEq α] :
    ∀ (p : Option α) (xs : List α) (q : Option α), Decidable (Segment next p xs q)
  | p, [], q => inferInstanceAs (Decidable (p = q))
  | _, x :: xs, q => @instDecidableAnd _ _ _ (decidableSegment (next x) xs q)

end

variable {α : Type*} {next : α → Option α} {p q : Option α} {xs ys : List α} {x y a : α}

/-! ### Segments -/

theorem segment_cons :
  Segment next p (x :: xs) q ↔ p = some x ∧ Segment next (next x) xs q
  := Iff.rfl

theorem segment_append :
  Segment next p (xs ++ ys) q ↔ ∃ m, Segment next p xs m ∧ Segment next m ys q
  := by
  induction xs generalizing p with
  | nil =>
      constructor
      · intro h
        use p, rfl, h
      · rintro ⟨m, rfl, h⟩
        exact h
  | cons x xs ih =>
      rw [List.cons_append, segment_cons, ih]
      constructor
      · rintro ⟨hp, m, hxs, hys⟩
        use m, ⟨hp, hxs⟩, hys
      · rintro ⟨m, ⟨hp, hxs⟩, hys⟩
        use hp, m, hxs, hys

/-- A segment whose last node is `x` ends where the link of `x` points to. -/
theorem segment_concat :
  Segment next p (xs ++ [x]) q ↔ Segment next p xs (some x) ∧ next x = q
  := by
  rw [segment_append]
  constructor
  · rintro ⟨m, hxs, rfl, hq⟩
    use hxs, hq
  · rintro ⟨hxs, hq⟩
    use some x, hxs, rfl, hq

/-- A segment around the node `x`. -/
theorem segment_middle :
  Segment next p (xs ++ x :: ys) q ↔
    Segment next p xs (some x) ∧ Segment next (next x) ys q
  := by
  rw [segment_append]
  constructor
  · rintro ⟨m, hxs, rfl, hys⟩
    use hxs, hys
  · rintro ⟨hxs, hys⟩
    use some x, hxs, rfl, hys

theorem Segment.congr {next' : α → Option α} (h : Segment next p xs q)
    (heq : ∀ x ∈ xs, next' x = next x) :
  Segment next' p xs q
  := by
  induction xs generalizing p with
  | nil => exact h
  | cons x xs ih =>
      use h.1
      rw [heq x List.mem_cons_self]
      apply ih h.2
      intro y hy
      apply heq y (List.mem_cons_of_mem x hy)

/-- The link of a node that is not on the segment may be changed. -/
theorem Segment.update [DecidableEq α] (h : Segment next p xs q) (ha : a ∉ xs)
    (v : Option α) :
  Segment (Function.update next a v) p xs q
  := by
  apply h.congr
  intro x hx
  apply Function.update_of_ne
  rintro rfl
  apply ha hx

/-- The link of the last node may be changed; the segment then ends there. -/
theorem Segment.update_last [DecidableEq α] (h : Segment next p (xs ++ [x]) q)
    (hx : x ∉ xs) (v : Option α) :
  Segment (Function.update next x v) p (xs ++ [x]) v
  := by
  rw [segment_concat] at h ⊢
  use h.1.update hx v
  apply Function.update_self

/-! ### Chains -/

theorem chain_none :
  Chain next none xs ↔ xs = []
  := by
  cases xs with
  | nil => apply iff_of_true rfl rfl
  | cons x xs =>
      apply iff_of_false
      · rintro ⟨⟨⟩, -⟩
      · rintro ⟨⟩

theorem Chain.head_eq (h : Chain next p xs) :
  p = xs.head?
  := by
  cases xs with
  | nil => exact h
  | cons x xs => exact h.1

/-- A pointer is the start of one chain only. -/
theorem Chain.unique (hxs : Chain next p xs) (hys : Chain next p ys) :
  xs = ys
  := by
  induction xs generalizing p ys with
  | nil =>
      obtain rfl := hxs
      exact (chain_none.mp hys).symm
  | cons x xs ih =>
      cases ys with
      | nil =>
          obtain rfl := hys
          exact absurd hxs.1 (Option.some_ne_none x).symm
      | cons y ys =>
          obtain rfl := Option.some.inj (hxs.1.symm.trans hys.1)
          rw [ih hxs.2 hys.2]

/-- What comes after a node is the chain of its link. -/
theorem Chain.after (h : Chain next p (xs ++ x :: ys)) :
  Chain next (next x) ys
  := (segment_middle.mp h).2

/-- A chain visits no node twice. -/
theorem Chain.nodup (h : Chain next p xs) :
  xs.Nodup
  := by
  induction xs generalizing p with
  | nil => apply List.nodup_nil
  | cons x xs ih =>
      apply List.nodup_cons.mpr
      constructor
      · intro hx
        obtain ⟨before, rest, rfl⟩ := List.append_of_mem hx
        have hagain : Chain next (next x) rest := Chain.after h.2
        have hlength := congrArg List.length (Chain.unique h.2 hagain)
        rw [List.length_append, List.length_cons] at hlength
        omega
      · apply ih h.2

/-- The last node of a chain is linked to something else. -/
theorem Chain.relink [DecidableEq α] (h : Chain next p (xs ++ [x])) (v : Option α) :
  Segment (Function.update next x v) p (xs ++ [x]) v
  := by
  apply Segment.update_last h
  have hnodup := List.nodup_append_comm.mp h.nodup
  exact (List.nodup_cons.mp hnodup).1

/-- A chain within finitely many nodes is not longer than they are many. -/
theorem Chain.length_le_card {live : Finset α} (h : Chain next p xs)
    (hlive : ∀ x ∈ xs, x ∈ live) :
  xs.length ≤ live.card
  := by
  classical
  rw [← List.toFinset_card_of_nodup h.nodup]
  apply Finset.card_le_card
  intro x hx
  apply hlive x (List.mem_toFinset.mp hx)

/-- The chain that is cut behind a node. -/
theorem Chain.update_cut [DecidableEq α] (h : Chain next p (xs ++ x :: ys)) :
  Chain (Function.update next x none) p (xs ++ [x])
  := by
  have hx : x ∉ xs := by
    have hnodup := h.nodup
    rw [List.nodup_append] at hnodup
    intro hmem
    apply hnodup.2.2 x hmem x List.mem_cons_self rfl
  have hfront : Segment next p (xs ++ [x]) (next x) := by
    rw [segment_concat]
    use (segment_middle.mp h).1
  apply hfront.update_last hx

/-- The chain with a node put in front of it. -/
theorem Chain.push [DecidableEq α] (h : Chain next p xs) (ha : a ∉ xs) :
  Chain (Function.update next a p) (some a) (a :: xs)
  := by
  use rfl
  rw [Function.update_self]
  apply h.update ha

/-- The chain with a node put behind another. -/
theorem Chain.insertBehind [DecidableEq α] (h : Chain next p (xs ++ x :: ys))
    (ha : a ∉ xs ++ x :: ys) :
  Chain (Function.update (Function.update next x (some a)) a (next x)) p (xs ++ x :: a :: ys)
  := by
  have hnodup := List.nodup_cons.mp (List.nodup_middle.mp h.nodup)
  rw [List.mem_append] at hnodup
  rw [List.mem_append, List.mem_cons] at ha
  obtain ⟨hxs, hys⟩ := segment_middle.mp h
  have hne : x ≠ a := by
    rintro rfl
    apply ha (Or.inr (Or.inl rfl))
  apply segment_middle.mpr
  constructor
  · have hx : Segment (Function.update next x (some a)) p xs (some x) := by
      apply hxs.update
      intro hmem
      apply hnodup.1 (Or.inl hmem)
    apply hx.update
    intro hmem
    apply ha (Or.inl hmem)
  · rw [Function.update_of_ne hne, Function.update_self]
    use rfl
    rw [Function.update_self]
    have hy : Segment (Function.update next x (some a)) (next x) ys none := by
      apply hys.update
      intro hmem
      apply hnodup.1 (Or.inr hmem)
    apply hy.update
    intro hmem
    apply ha (Or.inr (Or.inr hmem))

/-- The chain from which the node behind another is taken out. -/
theorem Chain.unlink [DecidableEq α] (h : Chain next p (xs ++ a :: x :: ys)) :
  Chain (Function.update next a (next x)) p (xs ++ a :: ys)
  := by
  have hnodup := List.nodup_cons.mp (List.nodup_middle.mp h.nodup)
  obtain ⟨hxs, hrest⟩ := segment_middle.mp h
  apply segment_middle.mpr
  constructor
  · apply hxs.update
    intro hmem
    exact hnodup.1 (List.mem_append_left _ hmem)
  · rw [Function.update_self]
    apply hrest.2.update
    intro hmem
    exact hnodup.1 (List.mem_append_right _ (List.mem_cons_of_mem x hmem))

/-! ### Reaching a node -/

theorem not_reaches_none :
  ¬ Reaches next none x
  := by
  intro h
  induction h with
  | here hp => cases hp
  | there _ _ ih => exact ih

theorem Reaches.trans (h : Reaches next p x) (hy : Reaches next (next x) y) :
  Reaches next p y
  := by
  induction hy with
  | here hy => apply h.there hy
  | there _ hy ih => apply ih.there hy

/-- The link of a node is not needed to get there. -/
theorem Reaches.update_self [DecidableEq α] (h : Reaches next p x) (v : Option α) :
  Reaches (Function.update next x v) p x
  := by
  have hpath : ∀ y, Reaches next p y →
      Reaches (Function.update next x v) p y ∨ Reaches (Function.update next x v) p x := by
    intro y hy
    induction hy with
    | here hp => apply Or.inl (Reaches.here hp)
    | @there y z _ hz ih =>
        rcases ih with hy | hx
        · by_cases hyx : y = x
          · rw [hyx] at hy
            apply Or.inr hy
          · left
            apply hy.there
            rw [Function.update_of_ne hyx, hz]
        · apply Or.inr hx
  exact (hpath x h).elim id id

theorem Segment.reaches (h : Segment next p xs q) (hx : x ∈ xs) :
  Reaches next p x
  := by
  induction xs generalizing p with
  | nil => exact absurd hx List.not_mem_nil
  | cons y ys ih =>
      obtain ⟨rfl, hrest⟩ := h
      cases List.mem_cons.mp hx with
      | inl heq =>
          obtain rfl := heq
          apply Reaches.here rfl
      | inr hmem => exact (Reaches.here rfl).trans (ih hrest hmem)

/-- The links lead to a node along a segment that visits no node twice. -/
theorem Reaches.exists_segment (h : Reaches next p x) :
  ∃ xs : List α, (xs ++ [x]).Nodup ∧ Segment next p (xs ++ [x]) (next x)
  := by
  induction h with
  | @here x hp =>
      use [], List.nodup_singleton x, hp
      rfl
  | @there x y _ hy ih =>
      obtain ⟨xs, hnodup, hseg⟩ := ih
      rw [hy] at hseg
      by_cases hmem : y ∈ xs ++ [x]
      · obtain ⟨front, rest, hsplit⟩ := List.append_of_mem hmem
        rw [hsplit] at hnodup hseg
        use front
        rw [segment_concat]
        use hnodup.sublist (List.Sublist.append_left (List.singleton_sublist.mpr
          List.mem_cons_self) front)
        use (segment_middle.mp hseg).1
      · use xs ++ [x]
        rw [segment_concat]
        use List.nodup_append_comm.mp (List.nodup_cons.mpr ⟨hmem, hnodup⟩), hseg

/-! ### Following the links -/

theorem reaches_of_mem_follow {n : ℕ} (h : x ∈ follow next n p) :
  Reaches next p x
  := by
  induction n generalizing p with
  | zero => exact absurd h List.not_mem_nil
  | succ n ih =>
      cases p with
      | none => exact absurd h List.not_mem_nil
      | some y =>
          cases List.mem_cons.mp h with
          | inl heq => apply Reaches.here (congrArg some heq.symm)
          | inr hmem => exact (Reaches.here rfl).trans (ih hmem)

/-- Following enough links visits a whole segment. -/
theorem Segment.follow_eq {n : ℕ} (h : Segment next p xs q) :
  follow next (xs.length + n) p = xs ++ follow next n q
  := by
  induction xs generalizing p with
  | nil =>
      obtain rfl := h
      rw [List.length_nil, Nat.zero_add, List.nil_append]
  | cons x xs ih =>
      obtain ⟨rfl, hrest⟩ := h
      rw [List.length_cons, Nat.add_right_comm, follow, ih hrest, List.cons_append]

/-- Following enough links visits the whole chain. -/
theorem Chain.follow_eq {n : ℕ} (h : Chain next p xs) (hn : xs.length ≤ n) :
  follow next n p = xs
  := by
  obtain ⟨m, rfl⟩ := Nat.exists_eq_add_of_le hn
  rw [Segment.follow_eq h]
  cases m with
  | zero => apply List.append_nil xs
  | succ m => apply List.append_nil xs

/-- Where the nodes that are reached are among finitely many, following as many links
finds them all. -/
theorem mem_follow_iff [DecidableEq α] {live : Finset α}
    (hlive : ∀ x, Reaches next p x → x ∈ live) :
  x ∈ follow next live.card p ↔ Reaches next p x
  := by
  constructor
  · apply reaches_of_mem_follow
  · intro h
    obtain ⟨xs, hnodup, hseg⟩ := h.exists_segment
    have hsubset : (xs ++ [x]).toFinset ⊆ live := by
      intro y hy
      rw [List.mem_toFinset] at hy
      apply hlive y (hseg.reaches hy)
    have hcard := Finset.card_le_card hsubset
    rw [List.toFinset_card_of_nodup hnodup] at hcard
    obtain ⟨m, hm⟩ := Nat.exists_eq_add_of_le hcard
    rw [hm, hseg.follow_eq]
    apply List.mem_append_left
    apply List.mem_append_right xs List.mem_cons_self

end Links
