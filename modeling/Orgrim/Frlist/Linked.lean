import Mathlib.Algebra.Group.Nat.Defs
import Mathlib.Data.List.TakeWhile
import Orgrim.Frlist.Calls

/-!
# Following the lists forward

`Linked s ns`: following `next` from the head of a list visits the nodes `ns`, and its header has
their number and the last of them.  There is a lemma for what each function of the source does to
these nodes.  It takes that `size` does not overflow; `frlist_add_sort` must not insert behind the
last node, as it does not move `tail` then (`Linked.addSort`); and `frlist_node_free` and
`frlist_node_apart`, which go by `pre`, must find the right node there (`Linked.unlinkBehind`).
-/

namespace Frlist

open Links Frlist.Lists

variable {ι α : Type} {s s' : Lists ι α} {ns : ι → List α} {l : ι} {x : α}

/-- The headers and the nodes `ns` of the lists. -/
structure Linked (s : Lists ι α) (ns : ι → List α) : Prop where
  chain : ∀ l, Chain s.next (s.head l) (ns l)
  tail : ∀ l, s.tail l = (ns l).getLast?
  size : ∀ l, (s.size l).toNat = (ns l).length
  live : ∀ l, ∀ x ∈ ns l, x ∈ s.live
  disjoint : ∀ l l' x, x ∈ ns l → x ∈ ns l' → l = l'

theorem Linked.members_eq (h : Linked s ns) :
  s.members = ns
  := by
  funext l
  apply (h.chain l).follow_eq
  apply (h.chain l).length_le_card (h.live l)

/-- The lists stay as they are when no field of theirs is changed. -/
theorem Linked.congr (h : Linked s ns) (hhead : s'.head = s.head) (htail : s'.tail = s.tail)
    (hsize : s'.size = s.size) (hns : ∀ l, ∀ x ∈ ns l, s'.next x = s.next x ∧ x ∈ s'.live) :
  Linked s' ns
  := by
  constructor
  · intro l
    rw [hhead]
    apply (h.chain l).congr
    intro x hx
    exact (hns l x hx).1
  · intro l
    rw [htail, h.tail]
  · intro l
    rw [hsize, h.size]
  · intro l x hx
    exact (hns l x hx).2
  · apply h.disjoint

theorem Linked.head_eq (h : Linked s ns) (l : ι) :
  s.head l = (ns l).head?
  := (h.chain l).head_eq

theorem Linked.nodup (h : Linked s ns) (l : ι) :
  (ns l).Nodup
  := (h.chain l).nodup

variable [DecidableEq ι]

/-- One list is changed. -/
theorem Linked.set {xs : List α} {first last : Option α} {n : BitVec 32} (h : Linked s ns)
    (hhead : s'.head = Function.update s.head l first)
    (htail : s'.tail = Function.update s.tail l last)
    (hsize : s'.size = Function.update s.size l n)
    (hchain : Chain s'.next first xs) (hlast : last = xs.getLast?) (hn : n.toNat = xs.length)
    (hlive : ∀ x ∈ xs, x ∈ s'.live)
    (hothers : ∀ l' ≠ l, ∀ x ∈ ns l', x ∉ xs ∧ s'.next x = s.next x ∧ x ∈ s'.live) :
  Linked s' (Function.update ns l xs)
  := by
  constructor
  · intro l'
    by_cases hl : l' = l
    · rw [hl, hhead, Function.update_self, Function.update_self]
      exact hchain
    · rw [hhead, Function.update_of_ne hl, Function.update_of_ne hl]
      apply (h.chain l').congr
      intro x hx
      exact (hothers l' hl x hx).2.1
  · intro l'
    by_cases hl : l' = l
    · rw [hl, htail, Function.update_self, Function.update_self, hlast]
    · rw [htail, Function.update_of_ne hl, Function.update_of_ne hl, h.tail]
  · intro l'
    by_cases hl : l' = l
    · rw [hl, hsize, Function.update_self, Function.update_self, hn]
    · rw [hsize, Function.update_of_ne hl, Function.update_of_ne hl, h.size]
  · intro l' x hx
    by_cases hl : l' = l
    · rw [hl, Function.update_self] at hx
      apply hlive x hx
    · rw [Function.update_of_ne hl] at hx
      exact (hothers l' hl x hx).2.2
  · intro l₁ l₂ x hx₁ hx₂
    by_cases hl₁ : l₁ = l
    · rw [hl₁, Function.update_self] at hx₁
      by_cases hl₂ : l₂ = l
      · rw [hl₁, hl₂]
      · rw [Function.update_of_ne hl₂] at hx₂
        exact absurd hx₁ (hothers l₂ hl₂ x hx₂).1
    · rw [Function.update_of_ne hl₁] at hx₁
      by_cases hl₂ : l₂ = l
      · rw [hl₂, Function.update_self] at hx₂
        exact absurd hx₂ (hothers l₁ hl₁ x hx₁).1
      · rw [Function.update_of_ne hl₂] at hx₂
        apply h.disjoint l₁ l₂ x hx₁ hx₂

/-! ### Adding -/

theorem toNat_add_one {n : BitVec 32} {k : ℕ} (hn : n.toNat = k) (hk : k + 1 < 2 ^ 32) :
  (n + 1).toNat = k + 1
  := by
  bv_omega

/-- A node that is in no list is inserted into a list. -/
theorem Linked.insert {first last : Option α} (h : Linked s ns) (ys zs : List α)
    (hns : ns l = ys ++ zs) (hx : x ∈ s.live) (hfresh : ∀ l, x ∉ ns l)
    (hbound : (ns l).length + 1 < 2 ^ 32) (hlive : s'.live = s.live)
    (hhead : s'.head = Function.update s.head l first)
    (htail : s'.tail = Function.update s.tail l last)
    (hsize : s'.size = Function.update s.size l (s.size l + 1))
    (hchain : Chain s'.next first (ys ++ x :: zs)) (hlast : last = (ys ++ x :: zs).getLast?)
    (hnext : ∀ y, y ∉ ns l → y ≠ x → s'.next y = s.next y) :
  Linked s' (Function.update ns l (ys ++ x :: zs))
  := by
  have hmem : ∀ y ∈ ys ++ x :: zs, y = x ∨ y ∈ ns l := by
    intro y hy
    rw [hns]
    rw [List.mem_append, List.mem_cons] at hy
    rw [List.mem_append]
    tauto
  apply h.set hhead htail hsize hchain hlast
  · rw [toNat_add_one (h.size l) hbound, hns, List.length_append, List.length_append,
      List.length_cons, Nat.add_assoc]
  · intro y hy
    rw [hlive]
    cases hmem y hy with
    | inl heq =>
        rw [heq]
        exact hx
    | inr hy => apply h.live l y hy
  · intro l' hl y hy
    have hne : y ≠ x := by
      rintro rfl
      apply hfresh l' hy
    have hnot : y ∉ ns l := by
      intro hy'
      apply hl (h.disjoint l' l y hy hy')
    use fun hy' => (hmem y hy').elim hne hnot, hnext y hnot hne
    rw [hlive]
    apply h.live l' y hy

variable [DecidableEq α]

/-- A node is added to an empty list. -/
theorem Linked.addFirst (h : Linked s ns) (hx : x ∈ s.live) (hfresh : ∀ l, x ∉ ns l)
    (hbound : (ns l).length + 1 < 2 ^ 32) (hns : ns l = []) (pre : α → Option α) :
  Linked
    { s with
      pre := pre
      next := Function.update s.next x none
      size := Function.update s.size l (s.size l + 1)
      head := Function.update s.head l (some x)
      tail := Function.update s.tail l (some x) }
    (Function.update ns l [x])
  := by
  refine h.insert [] [] hns hx hfresh hbound rfl rfl rfl rfl ?_ rfl ?_
  · use rfl
    apply Function.update_self ..
  · intro y _ hne
    apply Function.update_of_ne hne ..

theorem Linked.addTail (h : Linked s ns) (hx : x ∈ s.live) (hfresh : ∀ l, x ∉ ns l)
    (hbound : (ns l).length + 1 < 2 ^ 32) :
  ∃ s', s.addTail (some l) (some x) = some s' ∧
    Linked s' (Function.update ns l (ns l ++ [x])) ∧ s'.live = s.live ∧ s'.data = s.data
  := by
  have hhead := h.head_eq l
  have htail := h.tail l
  have hchain := h.chain l
  rcases List.eq_nil_or_concat (ns l) with hns | ⟨ys, t, hns⟩
  · rw [hns] at hhead
    refine ⟨_, addTail_eq_some.mpr ⟨hx, Or.inl ⟨hhead, rfl⟩⟩, ?_, rfl, rfl⟩
    rw [hns]
    apply h.addFirst hx hfresh hbound hns _
  · rw [List.concat_eq_append] at hns
    have ht : t ∈ ns l := by
      rw [hns]
      apply List.mem_concat_self
    have htx : t ≠ x := by
      rintro rfl
      apply hfresh l ht
    obtain ⟨first, hfirst⟩ : ∃ first, s.head l = some first := by
      rw [hhead, hns, ← Option.isSome_iff_exists, List.isSome_head?]
      simp
    rw [hns, List.getLast?_concat] at htail
    refine ⟨_, addTail_eq_some.mpr ⟨hx, Or.inr ⟨first, t, hfirst, htail, h.live l t ht, rfl⟩⟩,
      ?_, rfl, rfl⟩
    refine h.insert (ns l) [] (List.append_nil _).symm hx hfresh hbound rfl
      (Function.update_eq_self l s.head).symm rfl rfl ?_ List.getLast?_concat.symm ?_
    · apply segment_concat.mpr
      rw [hns] at hchain ⊢
      have hfresh' : x ∉ ys ++ [t] := by
        rw [← hns]
        apply hfresh l
      constructor
      · have hupdated : Chain (Function.update s.next x none) (s.head l) (ys ++ [t]) :=
          hchain.update hfresh' none
        apply hupdated.relink (some x)
      · exact (Function.update_of_ne htx.symm ..).trans (Function.update_self ..)
    · intro y hy hne
      have hyt : y ≠ t := by
        rintro rfl
        apply hy ht
      exact (Function.update_of_ne hyt ..).trans (Function.update_of_ne hne ..)

/-- A node is put before the first node of a list. -/
theorem Linked.insertFirst {after : α} {rest : List α} (h : Linked s ns) (hx : x ∈ s.live)
    (hfresh : ∀ l, x ∉ ns l) (hbound : (ns l).length + 1 < 2 ^ 32) (hns : ns l = after :: rest)
    (pre : α → Option α) :
  Linked
    { s with
      pre := pre
      next := Function.update s.next x (s.head l)
      size := Function.update s.size l (s.size l + 1)
      head := Function.update s.head l (some x) }
    (Function.update ns l (x :: after :: rest))
  := by
  refine h.insert [] (after :: rest) hns hx hfresh hbound rfl rfl
    (Function.update_eq_self l s.tail).symm rfl ?_ ?_ ?_
  · rw [List.nil_append, ← hns]
    apply (h.chain l).push (hfresh l)
  · rw [h.tail, hns]
    rfl
  · intro y _ hne
    apply Function.update_of_ne hne ..

theorem Linked.addHeader (h : Linked s ns) (hx : x ∈ s.live) (hfresh : ∀ l, x ∉ ns l)
    (hbound : (ns l).length + 1 < 2 ^ 32) :
  ∃ s', s.addHeader (some l) (some x) = some s' ∧ Linked s' (Function.update ns l (x :: ns l))
  := by
  have hhead := h.head_eq l
  cases hns : ns l with
  | nil =>
      rw [hns] at hhead
      exact ⟨_, addHeader_eq_some.mpr ⟨hx, Or.inl ⟨hhead, rfl⟩⟩,
        h.addFirst hx hfresh hbound hns _⟩
  | cons first rest =>
      rw [hns] at hhead
      have hfirst : first ∈ ns l := by
        rw [hns]
        apply List.mem_cons_self
      refine ⟨_, addHeader_eq_some.mpr
        ⟨hx, Or.inr ⟨first, hhead, h.live l first hfirst, rfl⟩⟩, ?_⟩
      apply h.insertFirst hx hfresh hbound hns _

omit [DecidableEq α] in
/-- The last node stays the last one when another is put before it. -/
theorem getLast?_append_cons_cons (ys : List α) (x z : α) (zs : List α) :
  (ys ++ x :: z :: zs).getLast? = (ys ++ z :: zs).getLast?
  := by
  rw [List.getLast?_append, List.getLast?_append, List.getLast?_cons_cons]

/-- Where a node belongs in a sorted list: behind the nodes that come before it. -/
def insertSorted (compare : α → α → ℤ) (x : α) (xs : List α) : List α :=
  xs.takeWhile (fun y => 0 < compare x y) ++ x :: xs.dropWhile (fun y => 0 < compare x y)

omit [DecidableEq ι] [DecidableEq α] in
theorem length_insertSorted (compare : α → α → ℤ) (x : α) (xs : List α) :
  (insertSorted compare x xs).length = xs.length + 1
  := by
  rw [insertSorted, List.length_append, List.length_cons, ← Nat.add_assoc, ← List.length_append,
    List.takeWhile_append_dropWhile]

/-- `frlist_add_sort` on an empty list. -/
theorem addSort_eq_addTail {compare : α → α → ℤ} (hsize : s.size l = 0) :
  s.addSort (some l) (some x) (some compare) = s.addTail (some l) (some x)
  := by
  apply if_pos
  rw [hsize]
  decide

/-- A node is put between two nodes of a list. -/
theorem Linked.insertBetween {front rest : List α} {y after : α} (h : Linked s ns)
    (hx : x ∈ s.live) (hfresh : ∀ l, x ∉ ns l) (hbound : (ns l).length + 1 < 2 ^ 32)
    (hns : ns l = front ++ [y] ++ after :: rest) (pre : α → Option α) :
  Linked
    { s with
      pre := pre
      next := Function.update (Function.update s.next y (some x)) x (s.next y)
      size := Function.update s.size l (s.size l + 1) }
    (Function.update ns l (front ++ [y] ++ x :: after :: rest))
  := by
  have hchain := h.chain l
  have hy : y ∈ ns l := by
    rw [hns]
    apply List.mem_append_left _ List.mem_concat_self
  have hx' := hfresh l
  rw [hns, List.append_assoc, List.singleton_append] at hchain hx'
  refine h.insert (front ++ [y]) (after :: rest) hns hx hfresh hbound rfl
    (Function.update_eq_self l s.head).symm (Function.update_eq_self l s.tail).symm rfl
    ?_ ?_ ?_
  · rw [List.append_assoc, List.singleton_append]
    apply hchain.insertBehind hx'
  · rw [h.tail, hns, getLast?_append_cons_cons]
  · intro w hw hne
    have hwy : w ≠ y := by
      rintro rfl
      apply hw hy
    exact (Function.update_of_ne hne ..).trans (Function.update_of_ne hwy ..)

/-- `frlist_add_sort`, where it does not insert behind the last node. -/
theorem Linked.addSort {compare : α → α → ℤ} (h : Linked s ns) (hx : x ∈ s.live)
    (hfresh : ∀ l, x ∉ ns l) (hbound : (ns l).length + 1 < 2 ^ 32)
    (hinside : ∃ z ∈ ns l, compare x z ≤ 0) :
  ∃ s', s.addSort (some l) (some x) (some compare) = some s' ∧
    Linked s' (Function.update ns l (insertSorted compare x (ns l)))
  := by
  have hchain := h.chain l
  obtain ⟨z, hz, hle⟩ := hinside
  have hsize : ¬ s.size l < 1 := by
    have hlength := h.size l
    have hpos := List.length_pos_of_mem hz
    bv_omega
  have hsort : s.sortPre (compare x) s.live.card (s.head l) none
      = some (((ns l).takeWhile (fun y => 0 < compare x y)).getLast?.or none) :=
    sortPre_eq hchain (h.live l) (hchain.length_le_card (h.live l)) none
  rw [Option.or_none] at hsort
  rw [insertSorted]
  have hsplit := (List.takeWhile_append_dropWhile (p := fun y => 0 < compare x y)
    (l := ns l)).symm
  have hrest : (ns l).dropWhile (fun y => 0 < compare x y) ≠ [] := by
    intro hnil
    have hpos := List.dropWhile_eq_nil_iff.mp hnil z hz
    rw [decide_eq_true_eq] at hpos
    omega
  generalize (ns l).takeWhile (fun y => 0 < compare x y) = ys at hsort hsplit ⊢
  generalize (ns l).dropWhile (fun y => 0 < compare x y) = zs at hsplit hrest ⊢
  obtain ⟨after, rest, rfl⟩ := List.exists_cons_of_ne_nil hrest
  have hafter : after ∈ ns l := by
    rw [hsplit]
    apply List.mem_append_right ys List.mem_cons_self
  rcases List.eq_nil_or_concat ys with rfl | ⟨front, y, hys⟩
  · rw [List.nil_append] at hsplit
    have hhead : s.head l = some after := by
      rw [h.head_eq, hsplit]
      rfl
    refine ⟨_, (addSort_eq_some hsize).mpr ⟨none, hsort, hx,
      Or.inl ⟨rfl, after, hhead, h.live l after hafter, rfl⟩⟩, ?_⟩
    apply h.insertFirst hx hfresh hbound hsplit _
  · rw [List.concat_eq_append] at hys
    subst hys
    have hy : y ∈ ns l := by
      rw [hsplit]
      apply List.mem_append_left _ List.mem_concat_self
    rw [List.getLast?_concat] at hsort
    have hnext : s.next y = some after := by
      rw [hsplit, List.append_assoc] at hchain
      exact (segment_middle.mp hchain).2.1
    refine ⟨_, (addSort_eq_some hsize).mpr ⟨some y, hsort, hx,
      Or.inr ⟨y, rfl, h.live l y hy, Or.inr ⟨after, hnext, h.live l after hafter, rfl⟩⟩⟩, ?_⟩
    apply h.insertBetween hx hfresh hbound hsplit _

/-! ### Merging -/

omit [DecidableEq α] in
/-- A list is emptied. -/
theorem Linked.headerInit (h : Linked s ns) (l : ι) :
  Linked (s.headerInit l) (Function.update ns l [])
  := by
  refine h.set rfl rfl rfl rfl rfl rfl ?_ ?_
  · intro x hx
    exact absurd hx List.not_mem_nil
  · intro l' _ x hx
    exact ⟨List.not_mem_nil, rfl, h.live l' x hx⟩

omit [DecidableEq α] in
theorem eq_nil_iff_size {k : List α} {n : BitVec 32} (hn : n.toNat = k.length) :
  k = [] ↔ n = 0
  := by
  rw [← List.length_eq_zero_iff, ← hn]
  constructor
  · intro hzero
    apply BitVec.eq_of_toNat_eq hzero
  · rintro rfl
    rfl

omit [DecidableEq α] in
/-- The nodes of `src` come before those of `dst`, and leave their own list. -/
theorem Linked.merge {dst src : ι} {last : Option α} {n : BitVec 32} (h : Linked s ns)
    (hne : dst ≠ src) (hlive : s'.live = s.live)
    (hhead : s'.head = Function.update (Function.update s.head dst (s.head src)) src none)
    (htail : s'.tail = Function.update (Function.update s.tail dst last) src none)
    (hsize : s'.size = Function.update (Function.update s.size dst n) src 0)
    (hchain : Chain s'.next (s.head src) (ns src ++ ns dst))
    (hlast : last = (ns src ++ ns dst).getLast?) (hn : n.toNat = (ns src ++ ns dst).length)
    (hnext : ∀ x, x ∉ ns src → s'.next x = s.next x) :
  Linked s' (Function.update (Function.update ns dst (ns src ++ ns dst)) src [])
  := by
  rw [Function.update_comm hne] at hhead htail hsize ⊢
  refine (h.headerInit src).set hhead htail hsize hchain hlast hn ?_ ?_
  · intro x hx
    rw [hlive]
    cases List.mem_append.mp hx with
    | inl hmem => apply h.live src x hmem
    | inr hmem => apply h.live dst x hmem
  · intro l hl x hx
    have hsrc : l ≠ src := by
      rintro rfl
      rw [Function.update_self] at hx
      exact absurd hx List.not_mem_nil
    rw [Function.update_of_ne hsrc] at hx
    have hnot : x ∉ ns src := fun hmem => hsrc (h.disjoint l src x hx hmem)
    refine ⟨?_, hnext x hnot, ?_⟩
    · intro hmem
      cases List.mem_append.mp hmem with
      | inl hmem => apply hnot hmem
      | inr hmem => apply hl (h.disjoint l dst x hx hmem)
    · rw [hlive]
      apply h.live l x hx

/-- `frlist_merge_header_top` into an empty list. -/
theorem Linked.mergeHeaderTop_into_nil {dst src : ι} (h : Linked s ns) (hne : dst ≠ src)
    (hsrc : s.size src ≠ 0) (hdst : s.size dst = 0) :
  ∃ s', s.mergeHeaderTop (some dst) (some src) = some s' ∧
    Linked s' (Function.update (Function.update ns dst (ns src ++ ns dst)) src [])
  := by
  have hnil : ns dst = [] := (eq_nil_iff_size (h.size dst)).mpr hdst
  refine ⟨_, mergeHeaderTop_eq_some.mpr (Or.inr (Or.inl ⟨hsrc, hdst, rfl⟩)), ?_⟩
  refine h.merge hne rfl rfl rfl rfl ?_ ?_ ?_ (fun _ _ => rfl)
  · rw [hnil, List.append_nil]
    apply h.chain src
  · rw [hnil, List.append_nil, h.tail]
  · rw [hnil, List.append_nil, h.size]

/-- `frlist_merge_header_top`, where both lists have nodes. -/
theorem Linked.mergeHeaderTop_both {dst src : ι} {front : List α} {last : α} (h : Linked s ns)
    (hne : dst ≠ src) (hbound : (ns src ++ ns dst).length < 2 ^ 32) (hsrc : s.size src ≠ 0)
    (hdst : s.size dst ≠ 0) (hfront : ns src = front ++ [last]) :
  ∃ s', s.mergeHeaderTop (some dst) (some src) = some s' ∧
    Linked s' (Function.update (Function.update ns dst (ns src ++ ns dst)) src [])
  := by
  have hlast : last ∈ ns src := by
    rw [hfront]
    apply List.mem_concat_self
  have htail : s.tail src = some last := by
    rw [h.tail, hfront, List.getLast?_concat]
  have hdstNe : ns dst ≠ [] := by
    intro hnil
    apply hdst ((eq_nil_iff_size (h.size dst)).mp hnil)
  have hlastDst : last ∉ ns dst := by
    intro hmem
    apply hne (h.disjoint dst src last hmem hlast)
  refine ⟨_, mergeHeaderTop_eq_some.mpr
    (Or.inr (Or.inr ⟨hsrc, hdst, last, htail, h.live src last hlast, rfl⟩)), ?_⟩
  have htails : Function.update s.tail src none
      = Function.update (Function.update s.tail dst (s.tail dst)) src none := by
    rw [Function.update_eq_self]
  refine h.merge hne rfl rfl htails rfl ?_ ?_ ?_ ?_
  · apply segment_append.mpr
    use s.head dst
    have hchain := h.chain src
    constructor
    · rw [hfront] at hchain ⊢
      apply hchain.relink (s.head dst)
    · exact (h.chain dst).update hlastDst (s.head dst)
  · rw [List.getLast?_append_of_ne_nil _ hdstNe, h.tail]
  · have hdstSize := h.size dst
    have hsrcSize := h.size src
    rw [List.length_append] at hbound ⊢
    bv_omega
  · intro x hx
    apply Function.update_of_ne
    rintro rfl
    apply hx hlast

theorem Linked.mergeHeaderTop {dst src : ι} (h : Linked s ns) (hne : dst ≠ src)
    (hbound : (ns src ++ ns dst).length < 2 ^ 32) :
  ∃ s', s.mergeHeaderTop (some dst) (some src) = some s' ∧
    Linked s' (Function.update (Function.update ns dst (ns src ++ ns dst)) src [])
  := by
  by_cases hsrc : s.size src = 0
  · have hnil : ns src = [] := (eq_nil_iff_size (h.size src)).mpr hsrc
    refine ⟨s, mergeHeaderTop_eq_some.mpr (Or.inl ⟨hsrc, rfl⟩), ?_⟩
    rw [hnil, List.nil_append, Function.update_eq_self, ← hnil, Function.update_eq_self]
    exact h
  · by_cases hdst : s.size dst = 0
    · apply h.mergeHeaderTop_into_nil hne hsrc hdst
    · rcases List.eq_nil_or_concat (ns src) with hnil | ⟨front, last, hfront⟩
      · exact absurd ((eq_nil_iff_size (h.size src)).mp hnil) hsrc
      · rw [List.concat_eq_append] at hfront
        apply h.mergeHeaderTop_both hne hbound hsrc hdst hfront

/-! ### Taking out -/

theorem toNat_sub_one {n : BitVec 32} {k : ℕ} (hn : n.toNat = k + 1) :
  (n - 1).toNat = k
  := by
  bv_omega

omit [DecidableEq α] in
/-- Nodes are taken out of a list. -/
theorem Linked.shrink {xs : List α} {first last : Option α} {n : BitVec 32} (h : Linked s ns)
    (hsub : ∀ x ∈ xs, x ∈ ns l)
    (hhead : s'.head = Function.update s.head l first)
    (htail : s'.tail = Function.update s.tail l last)
    (hsize : s'.size = Function.update s.size l n)
    (hchain : Chain s'.next first xs) (hlast : last = xs.getLast?) (hn : n.toNat = xs.length)
    (hlive : ∀ x ∈ xs, x ∈ s'.live)
    (hothers : ∀ x, x ∉ ns l → s'.next x = s.next x ∧ (x ∈ s.live → x ∈ s'.live)) :
  Linked s' (Function.update ns l xs)
  := by
  apply h.set hhead htail hsize hchain hlast hn hlive
  intro l' hl x hx
  have hnot : x ∉ ns l := by
    intro hmem
    apply hl (h.disjoint l' l x hx hmem)
  obtain ⟨hnext, hlive⟩ := hothers x hnot
  exact ⟨fun hmem => hnot (hsub x hmem), hnext, hlive (h.live l' x hx)⟩

omit [DecidableEq α] in
/-- One node is taken out of a list. -/
theorem Linked.takeOut {first last : Option α} (h : Linked s ns) (ys zs : List α)
    (hns : ns l = ys ++ x :: zs) (hlive : s'.live = s.live)
    (hhead : s'.head = Function.update s.head l first)
    (htail : s'.tail = Function.update s.tail l last)
    (hsize : s'.size = Function.update s.size l (s.size l - 1))
    (hchain : Chain s'.next first (ys ++ zs)) (hlast : last = (ys ++ zs).getLast?)
    (hnext : ∀ y, y ∉ ns l → s'.next y = s.next y) :
  Linked s' (Function.update ns l (ys ++ zs))
  := by
  have hsub : ∀ y ∈ ys ++ zs, y ∈ ns l := by
    intro y hy
    rw [hns]
    rw [List.mem_append] at hy
    rw [List.mem_append, List.mem_cons]
    tauto
  apply h.shrink hsub hhead htail hsize hchain hlast
  · have hlength := h.size l
    rw [hns, List.length_append, List.length_cons, ← Nat.add_assoc] at hlength
    rw [List.length_append]
    apply toNat_sub_one hlength
  · intro y hy
    rw [hlive]
    apply h.live l y (hsub y hy)
  · intro y hy
    use hnext y hy
    rw [hlive]
    exact id

theorem Linked.removeHead (h : Linked s ns) (l : ι) :
  ∃ s', (s.removeHead (some l)).map Prod.snd = some s' ∧
    Linked s' (Function.update ns l (ns l).tail)
  := by
  have hhead := h.head_eq l
  have hchain := h.chain l
  have hlast := h.tail l
  cases hns : ns l with
  | nil =>
      rw [hns] at hhead
      refine ⟨s, removeHead_eq_some.mpr (Or.inl ⟨hhead, rfl⟩), ?_⟩
      rw [List.tail_nil, ← hns, Function.update_eq_self]
      exact h
  | cons x rest =>
      have hx : x ∈ ns l := by
        rw [hns]
        apply List.mem_cons_self
      have hnodup := h.nodup l
      rw [hns] at hhead hchain hlast hnodup
      have hrest : Chain (Function.update s.next x none) (s.next x) rest :=
        hchain.2.update (List.nodup_cons.mp hnodup).1 none
      have hothers : ∀ y, y ∉ ns l → Function.update s.next x none y = s.next y := by
        intro y hy
        apply Function.update_of_ne
        rintro rfl
        apply hy hx
      rw [List.tail_cons]
      cases rest with
      | nil =>
          have hnext : s.next x = none := hchain.2
          rw [hnext] at hrest
          refine ⟨_, removeHead_eq_some.mpr
            (Or.inr ⟨x, hhead, h.live l x hx, Or.inl ⟨hnext, rfl⟩⟩), ?_⟩
          exact h.takeOut [] [] hns rfl rfl rfl rfl hrest rfl hothers
      | cons first rest =>
          have hnext : s.next x = some first := hchain.2.1
          have hfirst : first ∈ s.live := by
            apply h.live l
            rw [hns]
            apply List.mem_cons_of_mem x List.mem_cons_self
          have htail : s.tail l = (first :: rest).getLast? := by
            rw [hlast, List.getLast?_cons_cons]
          refine ⟨_, removeHead_eq_some.mpr
            (Or.inr ⟨x, hhead, h.live l x hx, Or.inr ⟨first, hnext, hfirst, rfl⟩⟩), ?_⟩
          exact h.takeOut [] (first :: rest) hns rfl rfl
            (Function.update_eq_self l s.tail).symm rfl hrest htail hothers

/-- `frlist_node_free` and `frlist_node_apart`, for the head. -/
theorem Linked.unlinkHead {zs : List α} (h : Linked s ns) (hns : ns l = x :: zs) :
  ∃ s', s.unlink l x = some s' ∧ Linked s' (Function.update ns l zs) ∧ s'.live = s.live
  := by
  have hx : x ∈ ns l := by
    rw [hns]
    apply List.mem_cons_self
  have hchain := h.chain l
  have hlast := h.tail l
  have hnodup := h.nodup l
  rw [hns] at hchain hlast hnodup
  obtain ⟨hfirst, hrest⟩ := hchain
  have htail : (if s.tail l = some x then Function.update s.tail l none else s.tail)
      = Function.update s.tail l zs.getLast? := by
    cases zs with
    | nil =>
        rw [hlast]
        exact if_pos rfl
    | cons z zs =>
        rw [List.getLast?_cons_cons] at hlast
        rw [if_neg, ← hlast, Function.update_eq_self]
        intro heq
        rw [hlast] at heq
        exact (List.nodup_cons.mp hnodup).1 (List.mem_of_getLast? heq)
  refine ⟨_, unlink_eq_some.mpr ⟨h.live l x hx, Or.inl ⟨hfirst, rfl⟩⟩, ?_, rfl⟩
  exact h.takeOut [] zs hns rfl rfl htail rfl hrest rfl (fun _ _ => rfl)

/-- `frlist_node_free` and `frlist_node_apart`, for a node whose back link is right. -/
theorem Linked.unlinkBehind {front zs : List α} {before : α} (h : Linked s ns)
    (hns : ns l = front ++ before :: x :: zs) (hpre : s.pre x = some before) :
  ∃ s', s.unlink l x = some s' ∧ Linked s' (Function.update ns l (front ++ before :: zs)) ∧
    s'.live = s.live
  := by
  have hmem : ∀ y ∈ before :: x :: zs, y ∈ ns l := by
    intro y hy
    rw [hns]
    apply List.mem_append_right front hy
  have hbefore : before ∈ ns l := hmem before List.mem_cons_self
  have hxlive : x ∈ s.live := h.live l x (hmem x (List.mem_cons_of_mem _ List.mem_cons_self))
  have hchain := h.chain l
  have hhead := h.head_eq l
  have hlast := h.tail l
  have hnodup := h.nodup l
  rw [hns] at hchain hhead hlast hnodup
  have hnotx : x ∉ front ++ [before] ++ zs := by
    rw [← List.singleton_append, ← List.append_assoc] at hnodup
    exact (List.nodup_cons.mp (List.nodup_middle.mp hnodup)).1
  have hunlink : Chain (Function.update s.next before (s.next x)) (s.head l)
      (front ++ before :: zs) := hchain.unlink
  have hfirst : s.head l ≠ some x := by
    intro heq
    rw [heq] at hhead
    apply hnotx
    apply List.mem_append_left
    apply List.mem_of_head?
    rw [hhead]
    cases front with
    | nil => rfl
    | cons first front => rfl
  have hothers : ∀ v y, y ∉ ns l → Function.update s.next before v y = s.next y := by
    intro v y hy
    apply Function.update_of_ne
    rintro rfl
    apply hy hbefore
  have hsplit : ns l = (front ++ [before]) ++ x :: zs := by
    rw [hns, List.append_assoc, List.singleton_append]
  have hjoin : (front ++ [before]) ++ zs = front ++ before :: zs := by
    rw [List.append_assoc, List.singleton_append]
  have hrest := (segment_middle.mp hchain).2.2
  rw [← hjoin] at hunlink ⊢
  cases zs with
  | nil =>
      have hnext : s.next x = none := hrest
      rw [hnext] at hunlink
      rw [← List.singleton_append, ← List.append_assoc, List.getLast?_concat] at hlast
      refine ⟨_, unlink_eq_some.mpr ⟨hxlive, Or.inr (Or.inl
        ⟨hfirst, hlast, before, hpre, h.live l before hbefore, rfl⟩)⟩, ?_, rfl⟩
      refine h.takeOut (front ++ [before]) [] hsplit rfl (Function.update_eq_self l s.head).symm
        rfl rfl hunlink ?_ (hothers none)
      rw [hpre, List.append_nil, List.getLast?_concat]
  | cons after zs =>
      have hafter : after ∈ ns l := hmem after (by simp)
      have htail : s.tail l = (front ++ [before] ++ after :: zs).getLast? := by
        rw [h.tail, hsplit, getLast?_append_cons_cons]
      have htailNe : s.tail l ≠ some x := by
        intro heq
        rw [htail] at heq
        apply hnotx (List.mem_of_getLast? heq)
      refine ⟨_, unlink_eq_some.mpr ⟨hxlive, Or.inr (Or.inr
        ⟨hfirst, htailNe, before, after, hpre, h.live l before hbefore, hrest.1,
          h.live l after hafter, rfl⟩)⟩, ?_, rfl⟩
      exact h.takeOut (front ++ [before]) (after :: zs) hsplit rfl
        (Function.update_eq_self l s.head).symm (Function.update_eq_self l s.tail).symm rfl
        hunlink htail (hothers (s.next x))

omit [DecidableEq ι] in
/-- A node that is in no list is freed. -/
theorem Linked.free (h : Linked s ns) (hx : x ∈ s.live) (hfresh : ∀ l, x ∉ ns l) :
  ∃ s', s.free x = some s' ∧ Linked s' ns
  := by
  refine ⟨_, free_eq_some.mpr ⟨hx, rfl⟩, ?_⟩
  refine h.congr rfl rfl rfl ?_
  intro l y hy
  use rfl
  apply Finset.mem_erase.mpr
  use ne_of_mem_of_not_mem hy (hfresh l), h.live l y hy

/-- The nodes that `frlist_remove_from_idx` leaves; it frees the others. -/
def takeFromIdx (idx : BitVec 32) (xs : List α) : List α :=
  if BitVec.ofNat 32 xs.length < idx + 1 then xs else xs.take (freeIdx idx)

omit [DecidableEq ι] [DecidableEq α] in
/-- A list that is long enough has a node with the index. -/
theorem freeIdx_lt {n idx : BitVec 32} {k : ℕ} (hn : n.toNat = k) (hzero : ¬ n = 0)
    (hlt : ¬ n < idx + 1) :
  freeIdx idx < k
  := by
  rw [freeIdx]
  by_cases hneg : idx.toInt < 0
  · rw [if_pos hneg]
    bv_omega
  · rw [if_neg hneg]
    rw [BitVec.toInt_neg_iff] at hneg
    bv_omega

/-- The second loop of `frlist_remove_from_idx`, after the list has been cut behind `ys`. -/
theorem Linked.freeNodes {ys zs : List α} {p : Option α} (h : Linked s ns)
    (cut : Lists ι α) (hns : ns l = ys ++ zs) (hlive : cut.live = s.live)
    (hsize : cut.size = s.size)
    (hhead : cut.head = Function.update s.head l ys.head?)
    (htail : cut.tail = Function.update s.tail l ys.getLast?)
    (hys : Chain cut.next ys.head? ys) (hzs : Chain cut.next p zs)
    (hnext : ∀ y, y ∉ ns l → cut.next y = s.next y) :
  ∃ s', freeNodes l cut.live.card p cut = some s' ∧ Linked s' (Function.update ns l ys) ∧
    s'.live = s.live \ zs.toFinset
  := by
  have hnodup := h.nodup l
  have hlength := h.size l
  rw [hns, List.nodup_append] at hnodup
  rw [hns, List.length_append] at hlength
  have hmem : ∀ y ∈ ys ++ zs, y ∈ cut.live := by
    intro y hy
    rw [hlive]
    apply h.live l
    rw [hns]
    exact hy
  have hzsLive : ∀ y ∈ zs, y ∈ cut.live := fun y hy => hmem y (List.mem_append_right ys hy)
  refine ⟨_, freeNodes_eq hzs hzsLive (hzs.length_le_card hzsLive), ?_, by rw [hlive]⟩
  have hkept : ∀ y, y ∈ cut.live → y ∉ zs → y ∈ cut.live \ zs.toFinset := by
    intro y hy hnot
    rw [Finset.mem_sdiff, List.mem_toFinset]
    exact ⟨hy, hnot⟩
  refine h.shrink ?_ hhead htail (by rw [hsize]) hys rfl ?_ ?_ ?_
  · intro y hy
    rw [hns]
    apply List.mem_append_left zs hy
  · bv_omega
  · intro y hy
    apply hkept y (hmem y (List.mem_append_left zs hy))
    intro hy'
    exact hnodup.2.2 y hy y hy' rfl
  · intro y hy
    use hnext y hy
    intro hy'
    apply hkept y (hlive ▸ hy')
    intro hmem
    apply hy
    rw [hns]
    apply List.mem_append_right ys hmem

/-- All nodes are removed. -/
theorem Linked.removeFromIdx_all (h : Linked s ns) {l : ι} {idx : BitVec 32} {x : α} {zs : List α}
    (hguard : ¬ (s.size l = 0 ∨ s.size l < idx + 1)) (hidx : freeIdx idx = 0)
    (hns : ns l = x :: zs) :
  ∃ s', s.removeFromIdx idx (some l) = some s' ∧ Linked s' (Function.update ns l []) ∧
    s'.live = s.live \ (x :: zs).toFinset
  := by
  have hchain := h.chain l
  have hlast := h.tail l
  have hlive := h.live l
  rw [Lists.removeFromIdx, if_neg hguard, hidx, Option.bind_eq_bind, seek_eq hchain hlive,
    Option.bind_some]
  rw [hns] at hchain hlast hlive ⊢
  rw [List.drop_zero, List.head?_cons, List.take_zero]
  rcases List.eq_nil_or_concat (x :: zs) with hnil | ⟨front, last, hend⟩
  · exact absurd hnil (List.cons_ne_nil x zs)
  rw [List.concat_eq_append] at hend
  rw [hend, List.getLast?_concat] at hlast
  have hlastMem : last ∈ x :: zs := by
    rw [hend]
    apply List.mem_concat_self
  have hlastLive : last ∈ s.live := hlive last hlastMem
  have hcut : Chain (Function.update s.next last none) (some x) (x :: zs) := by
    rw [← hchain.1]
    rw [hend] at hchain ⊢
    apply hchain.relink none
  let cut : Lists ι α :=
    { s with
      next := Function.update s.next last none
      head := Function.update s.head l none
      tail := Function.update (Function.update s.tail l (some last)) l none }
  simp only [List.getLast?_nil, Option.none_or, hlast, Function.update_self,
    Option.bind_eq_bind, Option.bind_some, storeNext, hlastLive, if_true]
  refine h.freeNodes cut hns rfl rfl rfl (Function.update_idem ..) rfl hcut ?_
  intro y hy
  apply Function.update_of_ne
  rintro rfl
  apply hy (hns ▸ hlastMem)

/-- The nodes behind the node `before` are removed. -/
theorem Linked.removeFromIdx_behind (h : Linked s ns) {l : ι} {idx : BitVec 32} {before x : α}
    {front zs : List α} (hguard : ¬ (s.size l = 0 ∨ s.size l < idx + 1))
    (hidx : freeIdx idx = (front ++ [before]).length)
    (hns : ns l = front ++ [before] ++ x :: zs) :
  ∃ s', s.removeFromIdx idx (some l) = some s' ∧
    Linked s' (Function.update ns l (front ++ [before])) ∧ s'.live = s.live \ (x :: zs).toFinset
  := by
  have hchain := h.chain l
  have hlive := h.live l
  rw [Lists.removeFromIdx, if_neg hguard, hidx, Option.bind_eq_bind, seek_eq hchain hlive,
    Option.bind_some]
  rw [hns] at hchain hlive ⊢
  rw [List.drop_left, List.head?_cons, List.take_left]
  have hbefore : before ∈ s.live := hlive before (List.mem_append_left _ List.mem_concat_self)
  have hnot : before ∉ x :: zs := by
    have hnodup := h.nodup l
    rw [hns, List.nodup_append] at hnodup
    intro hmem
    exact hnodup.2.2 before List.mem_concat_self before hmem rfl
  have hlength : ¬ (front ++ [before]).length = 0 := by
    rw [List.length_append]
    apply Nat.succ_ne_zero _
  have hfirst : s.head l = (front ++ [before]).head? := by
    rw [hchain.head_eq]
    cases front with
    | nil => rfl
    | cons y front => rfl
  rw [List.append_assoc] at hchain
  have hcut : Chain (Function.update s.next before none) (front ++ [before]).head?
      (front ++ [before]) := by
    rw [← hfirst]
    apply Chain.update_cut hchain
  have hrest : Chain (Function.update s.next before none) (some x) (x :: zs) := by
    have hafter := (segment_middle.mp hchain).2
    rw [← hafter.1]
    apply hafter.update hnot none
  simp only [List.getLast?_concat, Option.some_or, Option.bind_eq_bind, Option.bind_some,
    Function.update_self, storeNext, hbefore, if_true, hlength, if_false]
  let cut : Lists ι α :=
    { s with
      next := Function.update s.next before none
      tail := Function.update s.tail l (some before) }
  refine h.freeNodes cut hns rfl rfl ?_ ?_ hcut hrest ?_
  · rw [← hfirst, Function.update_eq_self]
  · rw [List.getLast?_concat]
  · intro y hy
    apply Function.update_of_ne
    rintro rfl
    apply hy
    rw [hns]
    apply List.mem_append_left _ List.mem_concat_self

theorem Linked.removeFromIdx (h : Linked s ns) (l : ι) (idx : BitVec 32) :
  ∃ s', s.removeFromIdx idx (some l) = some s' ∧
    Linked s' (Function.update ns l (takeFromIdx idx (ns l))) ∧
    s'.live = s.live \ ((ns l).drop (takeFromIdx idx (ns l)).length).toFinset
  := by
  have hsize := h.size l
  have hof : BitVec.ofNat 32 (ns l).length = s.size l := by
    rw [← hsize, BitVec.ofNat_toNat, BitVec.setWidth_eq]
  rw [takeFromIdx, hof]
  by_cases hguard : s.size l = 0 ∨ s.size l < idx + 1
  · rw [Lists.removeFromIdx, if_pos hguard]
    use s, rfl
    have hsame : (if s.size l < idx + 1 then ns l else (ns l).take (freeIdx idx)) = ns l := by
      by_cases hlt : s.size l < idx + 1
      · exact if_pos hlt
      · have hnil : ns l = [] := (eq_nil_iff_size hsize).mpr (hguard.resolve_right hlt)
        rw [if_neg hlt, hnil, List.take_nil]
    rw [hsame, Function.update_eq_self, List.drop_length, List.toFinset_nil, Finset.sdiff_empty]
    use h
  · obtain ⟨hnonempty, hshort⟩ := not_or.mp hguard
    rw [if_neg hshort]
    have hk := freeIdx_lt hsize hnonempty hshort
    obtain ⟨ys, x, zs, hns, hidx⟩ : ∃ ys x zs, ns l = ys ++ x :: zs ∧ ys.length = freeIdx idx := by
      refine ⟨(ns l).take (freeIdx idx), (ns l)[freeIdx idx], (ns l).drop (freeIdx idx + 1), ?_, ?_⟩
      · rw [← List.drop_eq_getElem_cons hk, List.take_append_drop]
      · rw [List.length_take, Nat.min_eq_left hk.le]
    rw [hns, ← hidx, List.take_left, List.drop_left]
    rcases List.eq_nil_or_concat ys with rfl | ⟨front, before, rfl⟩
    · apply h.removeFromIdx_all hguard hidx.symm hns
    · rw [List.concat_eq_append] at hns hidx ⊢
      apply h.removeFromIdx_behind hguard hidx.symm hns

/-! ### Copying -/

omit [DecidableEq ι] in
theorem Linked.nodeCreate (h : Linked s ns) (answer : Option α) (data : Option ℕ) :
  Linked (s.nodeCreate answer data).2 ns
  := by
  cases answer with
  | none => exact h
  | some x =>
      by_cases hx : x ∈ s.live
      · rw [nodeCreate_live hx]
        exact h
      · rw [nodeCreate_fresh hx]
        refine h.congr rfl rfl rfl ?_
        intro l y hy
        have hy' := h.live l y hy
        use Function.update_of_ne (ne_of_mem_of_not_mem hy' hx) ..
        apply Finset.mem_insert_of_mem hy'

/-- A node is created and added behind the others. -/
theorem exists_createTail (h : Linked s ns) (hx : x ∉ s.live) (data : Option ℕ)
    (hbound : (ns l).length + 1 < 2 ^ 32) :
  ∃ s', (s.nodeCreate (some x) data).2.addTail (some l) (some x) = some s' ∧
    Linked s' (Function.update ns l (ns l ++ [x])) ∧ s'.live = insert x s.live ∧
    ∀ y ∈ s.live, s'.data y = s.data y
  := by
  have hcreate := h.nodeCreate (some x) data
  rw [nodeCreate_fresh hx] at hcreate ⊢
  have hfresh : ∀ l, x ∉ ns l := fun l hmem => hx (h.live l x hmem)
  obtain ⟨s', hadd, hlinked, hlive, hdata⟩ :=
    hcreate.addTail (Finset.mem_insert_self x s.live) hfresh hbound
  refine ⟨s', hadd, hlinked, hlive, ?_⟩
  intro y hy
  rw [hdata]
  apply Function.update_of_ne (ne_of_mem_of_not_mem hy hx) ..

/-- The nodes that `frlist_shallow_copy` creates for the nodes of a list. -/
def copies (data : α → Option ℕ) : Finset α → List (Option α) → List α → List α
  | _, _, [] => []
  | live, answers, x :: xs =>
      if data x = none then copies data live answers xs
      else match answers.headD none with
        | none => copies data live answers.tail xs
        | some y =>
            if y ∈ live then copies data live answers.tail xs
            else y :: copies data (insert y live) answers.tail xs

theorem Linked.copyNodes {dst src : ι} {front xs : List α} {p : Option α} {n : ℕ}
    {answers : List (Option α)} {data : α → Option ℕ} (h : Linked s ns) (hne : dst ≠ src)
    (hns : ns src = front ++ xs) (hp : p = xs.head?) (hn : xs.length ≤ n)
    (hdata : ∀ x ∈ xs, s.data x = data x)
    (hbound : (ns dst ++ copies data s.live answers xs).length < 2 ^ 32) :
  ∃ s', copyNodes dst n answers p s = some s' ∧
    Linked s' (Function.update ns dst (ns dst ++ copies data s.live answers xs))
  := by
  induction xs generalizing s ns front p n answers with
  | nil =>
      obtain rfl := hp
      refine ⟨s, ?_, ?_⟩
      · cases n with
        | zero => rfl
        | succ n => rfl
      · rw [copies, List.append_nil, Function.update_eq_self]
        exact h
  | cons x xs ih =>
      obtain rfl := hp
      obtain ⟨n, rfl⟩ := Nat.exists_eq_succ_of_ne_zero (Nat.ne_zero_of_lt hn)
      have hx : x ∈ ns src := by
        rw [hns]
        apply List.mem_append_right front List.mem_cons_self
      have hxlive : x ∈ s.live := h.live src x hx
      have hchain := h.chain src
      rw [hns] at hchain
      have hnext : s.next x = xs.head? := hchain.after.head_eq
      have hns' : ns src = (front ++ [x]) ++ xs := by
        rw [hns, List.append_assoc, List.singleton_append]
      have hn' := Nat.le_of_succ_le_succ hn
      have hdata' : ∀ y ∈ xs, s.data y = data y :=
        fun y hy => hdata y (List.mem_cons_of_mem x hy)
      have hxdata : s.data x = data x := hdata x List.mem_cons_self
      rw [List.head?_cons, Lists.copyNodes, loadNext, if_pos hxlive, loadData, if_pos hxlive]
      rw [copies] at hbound ⊢
      simp only [Option.bind_eq_bind, Option.bind_some]
      rw [hxdata]
      cases hcase : data x with
      | none =>
          rw [hcase, if_pos rfl] at hbound
          apply ih h hns' hnext hn' hdata' hbound
      | some value =>
          rw [hcase, if_neg (Option.some_ne_none value)] at hbound
          rw [if_neg (Option.some_ne_none value)]
          cases hanswer : answers.headD none with
          | none =>
              rw [hanswer] at hbound
              apply ih h hns' hnext hn' hdata' hbound
          | some y =>
              rw [hanswer] at hbound
              by_cases hy : y ∈ s.live
              · simp only [hy, if_true] at hbound ⊢
                rw [nodeCreate_live hy]
                apply ih h hns' hnext hn' hdata' hbound
              · simp only [hy, if_false] at hbound ⊢
                rw [List.length_append, List.length_cons, ← Nat.add_assoc] at hbound
                obtain ⟨s₁, hadd, hlinked, hlive, hkept⟩ :=
                  exists_createTail (l := dst) h hy (some value) (by omega)
                rw [nodeCreate_fresh hy] at hadd ⊢
                simp only [hadd, Option.bind_some]
                have hyxs : ∀ z ∈ xs, s₁.data z = data z := by
                  intro z hz
                  have hzsrc : z ∈ ns src := by
                    rw [hns]
                    apply List.mem_append_right front (List.mem_cons_of_mem x hz)
                  rw [hkept z (h.live src z hzsrc), hdata' z hz]
                have hsrc : Function.update ns dst (ns dst ++ [y]) src = (front ++ [x]) ++ xs := by
                  rw [Function.update_of_ne hne.symm, hns']
                have hbound' : (Function.update ns dst (ns dst ++ [y]) dst
                    ++ copies data s₁.live answers.tail xs).length < 2 ^ 32 := by
                  rw [Function.update_self, hlive, List.length_append, List.length_append,
                    List.length_singleton]
                  omega
                have hresult := ih hlinked hsrc hnext hn' hyxs hbound'
                rw [Function.update_self, Function.update_idem, hlive, List.append_assoc,
                  List.singleton_append] at hresult
                exact hresult

end Frlist
