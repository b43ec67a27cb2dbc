import Orgrim.Frlist.List

/-!
# What the calls do

For every function when it has a result, and the fields it leaves.
-/

namespace Frlist.Lists

open Links

variable {ι α : Type} [DecidableEq α] {s s' : Lists ι α} {l dst src : ι} {x : α}
  {p : Option α}

/-! ### Fields -/

theorem storePre_eq_some :
  s.storePre x p = some s' ↔ x ∈ s.live ∧ s' = { s with pre := Function.update s.pre x p }
  := by
  rw [storePre, Option.ite_none_right_eq_some, Option.some_inj, eq_comm (b := s')]

theorem storeNext_eq_some :
  s.storeNext x p = some s' ↔ x ∈ s.live ∧ s' = { s with next := Function.update s.next x p }
  := by
  rw [storeNext, Option.ite_none_right_eq_some, Option.some_inj, eq_comm (b := s')]

theorem loadNext_eq_some :
  s.loadNext x = some p ↔ x ∈ s.live ∧ p = s.next x
  := by
  rw [loadNext, Option.ite_none_right_eq_some, Option.some_inj, eq_comm (b := p)]

theorem free_eq_some :
  s.free x = some s' ↔ x ∈ s.live ∧ s' = { s with live := s.live.erase x }
  := by
  rw [free, Option.ite_none_right_eq_some, Option.some_inj, eq_comm (b := s')]

variable [DecidableEq ι]

/-! ### Creating -/

omit [DecidableEq ι] in
theorem nodeCreate_live {data : Option ℕ} (hx : x ∈ s.live) :
  s.nodeCreate (some x) data = (none, s)
  := if_pos hx

omit [DecidableEq ι] in
theorem nodeCreate_fresh {data : Option ℕ} (hx : x ∉ s.live) :
  s.nodeCreate (some x) data = (some x, { s with
    live := insert x s.live
    pre := Function.update s.pre x none
    next := Function.update s.next x none
    data := Function.update s.data x data })
  := if_neg hx

/-! ### Adding -/

theorem addTail_eq_some :
  s.addTail (some l) (some x) = some s' ↔ x ∈ s.live ∧
    (s.head l = none ∧ s' =
        { s with
          pre := Function.update s.pre x none
          next := Function.update s.next x none
          size := Function.update s.size l (s.size l + 1)
          head := Function.update s.head l (some x)
          tail := Function.update s.tail l (some x) } ∨
      ∃ first last, s.head l = some first ∧ s.tail l = some last ∧ last ∈ s.live ∧ s' =
        { s with
          pre := Function.update s.pre x (s.tail l)
          next := Function.update (Function.update s.next x none) last (some x)
          size := Function.update s.size l (s.size l + 1)
          tail := Function.update s.tail l (some x) })
  := by
  rw [addTail, Option.bind_eq_bind, Option.bind_eq_some_iff]
  simp only [storeNext_eq_some, and_assoc, exists_and_left, exists_eq_left, setTail, setHead,
    setSize]
  apply and_congr_right
  intro hx
  cases hhead : s.head l with
  | none => simp [storePre_eq_some, Option.bind_eq_some_iff, hx, eq_comm (b := s')]
  | some first =>
      simp [storePre_eq_some, storeNext_eq_some, Option.bind_eq_some_iff, hx,
        eq_comm (b := s'), and_assoc]

theorem addHeader_eq_some :
  s.addHeader (some l) (some x) = some s' ↔ x ∈ s.live ∧
    (s.head l = none ∧ s' =
        { s with
          pre := Function.update s.pre x none
          next := Function.update s.next x none
          size := Function.update s.size l (s.size l + 1)
          head := Function.update s.head l (some x)
          tail := Function.update s.tail l (some x) } ∨
      ∃ first, s.head l = some first ∧ first ∈ s.live ∧ s' =
        { s with
          pre := Function.update (Function.update s.pre first (some x)) x none
          next := Function.update s.next x (s.head l)
          size := Function.update s.size l (s.size l + 1)
          head := Function.update s.head l (some x) })
  := by
  rw [addHeader]
  cases hhead : s.head l with
  | none =>
      simp [storePre_eq_some, storeNext_eq_some, setHead, setTail, setSize,
        Option.bind_eq_some_iff, eq_comm (b := s')]
  | some first =>
      simp only [Option.bind_eq_bind, Option.bind_eq_some_iff, storePre_eq_some,
        storeNext_eq_some, and_assoc, exists_and_left, exists_eq_left, setHead, setSize,
        Option.some_inj, eq_comm (b := s'), hhead, reduceCtorEq, false_and, false_or,
        exists_eq_left']
      tauto

theorem mergeHeaderTop_eq_some :
  s.mergeHeaderTop (some dst) (some src) = some s' ↔
    s.size src = 0 ∧ s' = s ∨
    s.size src ≠ 0 ∧ s.size dst = 0 ∧ s' =
      { s with
        size := Function.update (Function.update s.size dst (s.size src)) src 0
        head := Function.update (Function.update s.head dst (s.head src)) src none
        tail := Function.update (Function.update s.tail dst (s.tail src)) src none } ∨
    s.size src ≠ 0 ∧ s.size dst ≠ 0 ∧ ∃ last, s.tail src = some last ∧ last ∈ s.live ∧ s' =
      { s with
        next := Function.update s.next last (s.head dst)
        size := Function.update (Function.update s.size dst (s.size dst + s.size src)) src 0
        head := Function.update (Function.update s.head dst (s.head src)) src none
        tail := Function.update s.tail src none }
  := by
  rw [mergeHeaderTop]
  by_cases hsrc : s.size src = 0
  · simp only [hsrc, if_true, ne_eq, not_true, false_and, or_false, true_and,
      Option.some_inj, eq_comm (b := s')]
  · by_cases hdst : s.size dst = 0
    · simp only [hsrc, hdst, if_true, if_false, ne_eq, not_true, not_false_iff, false_and,
        and_false, false_or, or_false, true_and, headerInit, setHead, setTail, setSize,
        Option.some_inj, eq_comm (b := s')]
    · simp only [hsrc, hdst, if_false, ne_eq, not_false_iff, false_and,
        and_false, false_or, true_and, Option.bind_eq_bind, Option.bind_eq_some_iff,
        storeNext_eq_some, and_assoc, exists_and_left, exists_eq_left, headerInit, setHead,
        setTail, setSize, Option.some_inj, eq_comm (b := s')]

/-- `frlist_add_sort` on a list that is not empty. -/
theorem addSort_eq_some {compare : α → α → ℤ} (hsize : ¬ s.size l < 1) :
  s.addSort (some l) (some x) (some compare) = some s' ↔
    ∃ pre, s.sortPre (compare x) s.live.card (s.head l) none = some pre ∧ x ∈ s.live ∧
      ((pre = none ∧ ∃ first, s.head l = some first ∧ first ∈ s.live ∧ s' =
        { s with
          pre := Function.update (Function.update s.pre x none) first (some x)
          next := Function.update s.next x (s.head l)
          size := Function.update s.size l (s.size l + 1)
          head := Function.update s.head l (some x) }) ∨
      ∃ y, pre = some y ∧ y ∈ s.live ∧
        ((s.next y = none ∧ s' =
          { s with
            pre := Function.update s.pre x pre
            next := Function.update (Function.update s.next y (some x)) x (s.next y)
            size := Function.update s.size l (s.size l + 1) }) ∨
        ∃ z, s.next y = some z ∧ z ∈ s.live ∧ s' =
          { s with
            pre := Function.update (Function.update s.pre x pre) z (some x)
            next := Function.update (Function.update s.next y (some x)) x (s.next y)
            size := Function.update s.size l (s.size l + 1) }))
  := by
  rw [addSort, if_neg hsize, Option.bind_eq_bind, Option.bind_eq_some_iff]
  apply exists_congr
  intro pre
  apply and_congr_right
  intro _
  cases pre with
  | none =>
      simp only [Option.bind_eq_bind, Option.bind_eq_some_iff, storePre_eq_some,
        storeNext_eq_some, and_assoc, exists_and_left, exists_eq_left, setHead, setSize,
        Option.some_inj, eq_comm (b := s'), reduceCtorEq, false_and, true_and, exists_false,
        or_false, and_self_left]
  | some y =>
      simp only [Option.bind_eq_bind, Option.bind_eq_some_iff, loadNext_eq_some,
        storePre_eq_some, storeNext_eq_some, and_assoc, exists_and_left, exists_eq_left, setSize,
        Option.some_inj, reduceCtorEq, false_and, false_or, exists_eq_left']
      cases hnext : s.next y with
      | none => simp [eq_comm (b := s'), and_left_comm]
      | some z =>
          simp [eq_comm (b := s'), storePre_eq_some, Option.bind_eq_some_iff, and_left_comm]

/-! ### Taking out -/

theorem removeHead_eq_some :
  (s.removeHead (some l)).map Prod.snd = some s' ↔
    s.head l = none ∧ s' = s ∨
    ∃ x, s.head l = some x ∧ x ∈ s.live ∧
      (s.next x = none ∧ s' =
          { s with
            next := Function.update s.next x none
            size := Function.update s.size l (s.size l - 1)
            head := Function.update s.head l none
            tail := Function.update s.tail l none } ∨
        ∃ first, s.next x = some first ∧ first ∈ s.live ∧ s' =
          { s with
            pre := Function.update s.pre first none
            next := Function.update s.next x none
            size := Function.update s.size l (s.size l - 1)
            head := Function.update s.head l (s.next x) })
  := by
  rw [removeHead]
  cases hhead : s.head l with
  | none => simp [eq_comm (b := s')]
  | some x =>
      cases hnext : s.next x with
      | none =>
          simp [loadNext, Option.bind_eq_some_iff, storeNext_eq_some, setHead, setTail, setSize,
            eq_comm (b := s'), hnext]
      | some first =>
          simp [loadNext, Option.bind_eq_some_iff, storeNext_eq_some, storePre_eq_some, setHead,
            setSize, eq_comm (b := s'), hnext]
          tauto

theorem unlink_eq_some :
  s.unlink l x = some s' ↔ x ∈ s.live ∧
    (s.head l = some x ∧ s' =
        { s with
          size := Function.update s.size l (s.size l - 1)
          head := Function.update s.head l (s.next x)
          tail := if s.tail l = some x then Function.update s.tail l none else s.tail } ∨
      s.head l ≠ some x ∧ s.tail l = some x ∧ (∃ before, s.pre x = some before ∧
        before ∈ s.live ∧ s' =
        { s with
          next := Function.update s.next before none
          size := Function.update s.size l (s.size l - 1)
          tail := Function.update s.tail l (s.pre x) }) ∨
      s.head l ≠ some x ∧ s.tail l ≠ some x ∧ ∃ before after, s.pre x = some before ∧
        before ∈ s.live ∧ s.next x = some after ∧ after ∈ s.live ∧ s' =
        { s with
          pre := Function.update s.pre after (s.pre x)
          next := Function.update s.next before (s.next x)
          size := Function.update s.size l (s.size l - 1) })
  := by
  rw [unlink]
  by_cases hx : x ∈ s.live
  · by_cases hhead : s.head l = some x
    · by_cases htail : s.tail l = some x
      · simp [loadPre, loadNext, hx, hhead, htail, setHead, setTail, setSize, eq_comm (b := s')]
      · simp [loadPre, loadNext, hx, hhead, htail, setHead, setSize, eq_comm (b := s')]
    · by_cases htail : s.tail l = some x
      · simp [loadPre, loadNext, hx, hhead, htail, setTail, setSize, eq_comm (b := s'),
          Option.bind_eq_some_iff, storeNext_eq_some]
      · simp only [loadPre, loadNext, hx, hhead, htail, if_true, if_false, false_and, false_or,
          ne_eq, not_false_iff, true_and, Option.bind_eq_bind, Option.bind_some,
          Option.bind_eq_some_iff, storeNext_eq_some, storePre_eq_some, setSize, and_assoc,
          exists_and_left, exists_eq_left, Option.some_inj, eq_comm (b := s')]
  · simp [loadPre, hx]

/-! ### Loops -/

/-- The first loop of `frlist_remove_from_idx` goes `n` nodes ahead, and `tail` is the last
node it has left behind. -/
theorem seek_eq {xs : List α} {n : ℕ} (h : Chain s.next p xs) (hlive : ∀ x ∈ xs, x ∈ s.live) :
  seek l n p s = some ((xs.drop n).head?,
    { s with tail := Function.update s.tail l ((xs.take n).getLast?.or (s.tail l)) })
  := by
  induction n generalizing p xs s with
  | zero =>
      rw [seek, List.drop_zero, List.take_zero, h.head_eq, List.getLast?_nil, Option.none_or,
        Function.update_eq_self]
  | succ n ih =>
      cases xs with
      | nil =>
          obtain rfl := h
          rw [seek, List.drop_nil, List.take_nil, List.getLast?_nil, Option.none_or,
            Function.update_eq_self]
          rfl
      | cons x xs =>
          obtain ⟨rfl, hnext⟩ := h
          have hload : (s.setTail l (some x)).loadNext x = some (s.next x) :=
            if_pos (hlive x List.mem_cons_self)
          have hrest := ih (s := s.setTail l (some x)) hnext
            (fun y hy => hlive y (List.mem_cons_of_mem x hy))
          rw [seek]
          simp only [Option.bind_eq_bind, hload, Option.bind_some]
          rw [hrest, List.drop_succ_cons, List.take_succ_cons, List.getLast?_cons]
          simp only [setTail, Function.update_self, Function.update_idem]
          cases (xs.take n).getLast? with
          | none => rfl
          | some y => rfl

/-- The second loop frees the nodes. -/
theorem freeNodes_eq {xs : List α} {n : ℕ} (h : Chain s.next p xs)
    (hlive : ∀ x ∈ xs, x ∈ s.live) (hn : xs.length ≤ n) :
  freeNodes l n p s = some { s with
    live := s.live \ xs.toFinset
    size := Function.update s.size l (s.size l - BitVec.ofNat 32 xs.length) }
  := by
  induction xs generalizing p n s with
  | nil =>
      obtain rfl := h
      rw [List.toFinset_nil, Finset.sdiff_empty, List.length_nil, BitVec.sub_zero,
        Function.update_eq_self]
      cases n with
      | zero => rfl
      | succ n => rfl
  | cons x xs ih =>
      have hnodup := List.nodup_cons.mp h.nodup
      obtain ⟨rfl, hnext⟩ := h
      obtain ⟨n, rfl⟩ := Nat.exists_eq_succ_of_ne_zero (Nat.ne_zero_of_lt hn)
      have hx : x ∈ s.live := hlive x List.mem_cons_self
      let freed : Lists ι α :=
        { s with
          live := s.live.erase x
          size := Function.update s.size l (s.size l - 1) }
      have hrest := ih (s := freed) hnext
        (by
          intro y hy
          apply Finset.mem_erase.mpr
          use ne_of_mem_of_not_mem hy hnodup.1, hlive y (List.mem_cons_of_mem x hy))
        (Nat.le_of_succ_le_succ hn)
      have hset : s.live.erase x \ xs.toFinset = s.live \ (x :: xs).toFinset := by
        ext y
        simp only [Finset.mem_sdiff, Finset.mem_erase, List.toFinset_cons, Finset.mem_insert]
        tauto
      have hsize : s.size l - 1 - BitVec.ofNat 32 xs.length
          = s.size l - BitVec.ofNat 32 (x :: xs).length := by
        rw [List.length_cons]
        bv_omega
      rw [freeNodes, loadNext, if_pos hx, free, if_pos hx]
      simp only [Option.bind_eq_bind, Option.bind_some]
      change freeNodes l n (s.next x) freed = _
      rw [hrest, ← hset, ← hsize]
      simp only [freed, Function.update_self, Function.update_idem]

omit [DecidableEq ι] in
/-- The loop of `frlist_add_sort` finds the last of the nodes that come before. -/
theorem sortPre_eq {compare : α → ℤ} {xs : List α} {n : ℕ} (h : Chain s.next p xs)
    (hlive : ∀ x ∈ xs, x ∈ s.live) (hn : xs.length ≤ n) (pre : Option α) :
  s.sortPre compare n p pre
    = some ((xs.takeWhile (fun y => 0 < compare y)).getLast?.or pre)
  := by
  induction xs generalizing p n pre with
  | nil =>
      obtain rfl := h
      cases n with
      | zero => rfl
      | succ n => rfl
  | cons x xs ih =>
      obtain ⟨rfl, hnext⟩ := h
      obtain ⟨n, rfl⟩ := Nat.exists_eq_succ_of_ne_zero (Nat.ne_zero_of_lt hn)
      rw [sortPre, loadNext, if_pos (hlive x List.mem_cons_self), List.takeWhile_cons]
      simp only [Option.bind_eq_bind, Option.bind_some]
      by_cases hle : compare x ≤ 0
      · rw [if_pos hle, if_neg]
        · rfl
        · rw [decide_eq_true_eq]
          omega
      · rw [if_neg hle, if_pos, List.getLast?_cons]
        · rw [ih hnext (fun y hy => hlive y (List.mem_cons_of_mem x hy))
            (Nat.le_of_succ_le_succ hn)]
          cases (xs.takeWhile (fun y => 0 < compare y)).getLast? with
          | none => rfl
          | some y => rfl
        · rw [decide_eq_true_eq]
          omega

end Frlist.Lists
