import Orgrim.LstTimer.Links

/-!
# The order of the list

`Holds l xs`: the nodes of the list are the timers that live, in the order `xs`, which is ascending
in their timeouts.  Every function keeps this, and a tick runs the callbacks of those of `xs` that
are due, in this order, and leaves the others (`sorted_list`).
-/

namespace LstTimer

open Links SortTimerLst

variable {X : Type*}

/-- The list is doubly linked, through all timers that live, and ascending in their timeouts. -/
structure Holds (l : SortTimerLst X) (xs : List X) : Prop where
  linked : Linked l xs
  mem_iff : ∀ x, x ∈ xs ↔ x ∈ l.heap.live
  ascending : xs.Pairwise (fun x y => expireOf l.heap x ≤ expireOf l.heap y)

variable {l l' : SortTimerLst X} {x : X} {xs ys : List X}

/-- Timers that are not in the list, and timeouts, do not matter to its links. -/
theorem Linked.congr (h : Linked l xs) {heap : Heap X (UtilTimer X)}
    (hnext : ∀ x ∈ xs, nextOf heap x = nextOf l.heap x)
    (hprev : ∀ x ∈ xs, prevOf heap x = prevOf l.heap x) (hlive : ∀ x ∈ xs, x ∈ heap.live) :
  Linked { l with heap := heap } xs
  := by
  obtain ⟨tail, hstrand, hlast⟩ := h.strand
  exact ⟨⟨tail, hstrand.congr hnext hprev, hlast⟩, hlive⟩

/-! ### Adding, adjusting and deleting -/

/-- An element between those that are not greater and those that are not less. -/
theorem pairwise_insert {r : X → X → Prop} (h : (xs ++ ys).Pairwise r) (hbefore : ∀ y ∈ xs, r y x)
    (hafter : ∀ y ∈ ys, r x y) :
  (xs ++ x :: ys).Pairwise r
  := by
  obtain ⟨hxs, hys, hxys⟩ := List.pairwise_append.mp h
  apply List.pairwise_append.mpr
  refine ⟨hxs, List.pairwise_cons.mpr ⟨hafter, hys⟩, ?_⟩
  intro y hy z hz
  rcases List.mem_cons.mp hz with rfl | hz
  · apply hbefore y hy
  · apply hxys y hy z hz

/-- A timer has been put behind those of an ascending list that are not later. -/
theorem Inserted.holds (h : Inserted l l' xs x ys)
    (hascending : (xs ++ ys).Pairwise (fun x y => expireOf l.heap x ≤ expireOf l.heap y))
    (hxs : ∀ y ∈ xs, expireOf l.heap y ≤ expireOf l.heap x)
    (hmem : ∀ y, y = x ∨ y ∈ xs ++ ys ↔ y ∈ l.heap.live) :
  ∃ zs, Holds l' zs
  := by
  obtain ⟨hlive, hexpire, cs, ds, rfl, hlinked, hbefore, hafter⟩ := h
  refine ⟨_, hlinked, ?_, ?_⟩
  · intro y
    rw [hlive, ← hmem, List.perm_middle.mem_iff, List.mem_cons, List.append_assoc]
  · rw [hexpire]
    rw [← List.append_assoc] at hascending
    apply pairwise_insert hascending
    · intro y hy
      rcases List.mem_append.mp hy with hy | hy
      · apply hxs y hy
      · apply hbefore y hy
    · intro y hy
      cases ds with
      | nil => exact absurd hy List.not_mem_nil
      | cons d ds =>
          have hd := hafter d rfl
          rcases List.mem_cons.mp hy with rfl | hy
          · apply Int.le_of_lt hd
          · have hds := (List.pairwise_append.mp hascending).2.1
            apply Int.le_trans (Int.le_of_lt hd) ((List.pairwise_cons.mp hds).1 y hy)

variable [DecidableEq X]

theorem exists_add (h : Holds l xs) (hx : x ∉ l.heap.live) (expire : ℤ) :
  ∃ l' zs, calls.step l (.addTimer x expire) = some l' ∧ Holds l' zs
  := by
  have hne : ∀ y ∈ xs, y ≠ x := by
    rintro y hy rfl
    apply hx ((h.mem_iff y).mp hy)
  have hcell : ∀ y ∈ xs, (l.heap.add x (fun _ => ⟨expire, none, none⟩)).cell y = l.heap.cell y := by
    intro y hy
    apply Heap.cell_add_of_ne _ _ (hne y hy)
  have hnew : (l.heap.add x (fun _ => ⟨expire, none, none⟩)).cell x = ⟨expire, none, none⟩ :=
    Heap.cell_add_self ..
  have hlinked : Linked { l with heap := l.heap.add x (fun _ => ⟨expire, none, none⟩) } xs := by
    apply h.linked.congr
    · intro y hy
      apply congrArg UtilTimer.next (hcell y hy)
    · intro y hy
      apply congrArg UtilTimer.prev (hcell y hy)
    · intro y hy
      apply Finset.mem_insert_of_mem ((h.mem_iff y).mp hy)
  obtain ⟨l', hadd, hinserted⟩ := addTimer_spec hlinked (Finset.mem_insert_self x l.heap.live)
    (fun hmem => hne x hmem rfl) (congrArg UtilTimer.next hnew) (congrArg UtilTimer.prev hnew)
  obtain ⟨zs, hzs⟩ : ∃ zs, Holds l' zs := by
    apply hinserted.holds
    · apply h.ascending.imp_of_mem
      intro y z hy hz hle
      rw [expireOf, expireOf, hcell y hy, hcell z hz]
      exact hle
    · intro y hy
      exact absurd hy List.not_mem_nil
    · intro y
      rw [List.nil_append, h.mem_iff]
      apply Finset.mem_insert.symm
  exact ⟨l', zs, hadd, hzs⟩

theorem exists_adjust (h : Holds l xs) (hx : x ∈ l.heap.live) {expire : ℤ}
    (hexpire : expireOf l.heap x ≤ expire) :
  ∃ l' zs, calls.step l (.adjustTimer x expire) = some l' ∧ Holds l' zs
  := by
  obtain ⟨as, bs, rfl⟩ := List.append_of_mem ((h.mem_iff x).mpr hx)
  have hothers := h.linked.placed.others
  obtain ⟨heap, hmodify, hlive, hcell⟩ :=
    Heap.exists_modify hx (fun node : UtilTimer X => { node with expire := expire })
  have hkept : ∀ y ∈ as ++ bs, expireOf heap y = expireOf l.heap y := by
    intro y hy
    rw [expireOf, hcell, if_neg (fun heq => (hothers y hy).2 (Option.some.inj heq).symm), expireOf]
  have hnew : expireOf heap x = expire := by
    rw [expireOf, hcell, if_pos rfl]
  have hlinked : Linked { l with heap := heap } (as ++ x :: bs) := by
    apply h.linked.congr
    · intro y _
      rw [nextOf, hcell]
      split_ifs <;> rfl
    · intro y _
      rw [prevOf, hcell]
      split_ifs <;> rfl
    · intro y hy
      rw [hlive]
      exact (h.mem_iff y).mp hy
  have hsublist : List.Sublist (as ++ bs) (as ++ x :: bs) :=
    (List.Sublist.refl as).append (List.sublist_cons_self x bs)
  obtain ⟨l', hadjust, hinserted⟩ := adjustTimer_spec hlinked
  obtain ⟨zs, hzs⟩ : ∃ zs, Holds l' zs := by
    apply hinserted.holds
    · apply (List.Pairwise.sublist hsublist h.ascending).imp_of_mem
      intro y z hy hz hle
      rw [hkept y hy, hkept z hz]
      exact hle
    · intro y hy
      rw [hkept y (List.mem_append_left bs hy), hnew]
      have hle := (List.pairwise_append.mp h.ascending).2.2 y hy x List.mem_cons_self
      apply Int.le_trans hle hexpire
    · intro y
      rw [hlive, ← h.mem_iff, List.perm_middle.mem_iff, List.mem_cons]
  refine ⟨l', zs, ?_, hzs⟩
  simp only [calls, hmodify, Option.bind_eq_bind, Option.bind_some]
  exact hadjust

theorem Deleted.holds (h : Holds l (xs ++ x :: ys)) (hdeleted : Deleted l l' xs x ys) :
  Holds l' (xs ++ ys)
  := by
  have hothers := h.linked.placed.others
  refine ⟨hdeleted.linked, ?_, ?_⟩
  · intro y
    rw [hdeleted.live, Finset.mem_erase, ← h.mem_iff, List.perm_middle.mem_iff, List.mem_cons]
    constructor
    · intro hy
      exact ⟨(hothers y hy).2, Or.inr hy⟩
    · rintro ⟨hne, hy⟩
      apply hy.resolve_left hne
  · rw [hdeleted.expire]
    apply List.Pairwise.sublist _ h.ascending
    exact (List.Sublist.refl xs).append (List.sublist_cons_self x ys)

theorem exists_del (h : Holds l xs) (hx : x ∈ l.heap.live) :
  ∃ l' zs, calls.step l (.delTimer x) = some l' ∧ Holds l' zs
  := by
  obtain ⟨as, bs, rfl⟩ := List.append_of_mem ((h.mem_iff x).mpr hx)
  obtain ⟨l', hdel, hdeleted⟩ := delTimer_spec h.linked
  exact ⟨l', as ++ bs, hdel, hdeleted.holds h⟩

/-! ### The ticks -/

theorem tickLoop_none (cur : ℤ) (fuel : ℕ) (l : SortTimerLst X) :
  tickLoop cur fuel l none = some ([], l)
  := by
  cases fuel with
  | zero => rfl
  | succ fuel => rfl

/-- The loop comes to a timer that is due. -/
theorem tickLoop_due {cur : ℤ} (fuel : ℕ) (h : Linked l ([] ++ x :: ys))
    (hdue : expireOf l.heap x ≤ cur) :
  ∃ l₁, tickLoop cur (fuel + 1) l (some x) =
      (tickLoop cur fuel l₁ ys.head?).map (fun r => (x :: r.1, r.2)) ∧
    Deleted l l₁ [] x ys
  := by
  obtain ⟨hx, hnext, hprev, -, -, hothers⟩ := h.placed
  have hnot : ¬ cur < (l.heap.cell x).expire := Int.not_lt.mpr hdue
  have hcell : (l.heap.cell x).next = ys.head? := hnext
  have hwrite : ∃ heap, clearPrev l.heap ys.head? = some heap ∧ heap.live = l.heap.live ∧
      expireOf heap = expireOf l.heap ∧ nextOf heap = nextOf l.heap ∧
      ∀ y, prevOf heap y = if ys.head? = some y then none else prevOf l.heap y := by
    cases ys with
    | nil => exact ⟨l.heap, rfl, rfl, rfl, rfl, fun y => rfl⟩
    | cons b ys =>
        have hb : b ∈ l.heap.live := (hothers b List.mem_cons_self).1
        refine ⟨linkPrev l.heap b none, setPrev_of_mem hb, rfl, expireOf_linkPrev,
          nextOf_linkPrev, ?_⟩
        intro y
        rw [prevOf_linkPrev]
        apply update_eq_ite
  obtain ⟨heap, hset, hlive, hexpire, hnexts, hprevs⟩ := hwrite
  refine ⟨⟨heap.remove x, ys.head?, l.tail⟩, ?_, h.delete hlive hexpire ?_ ?_ hnext.symm ?_⟩
  · simp only [tickLoop, Heap.load_of_mem hx, if_neg hnot, hcell, hset,
      Heap.free_of_mem (hlive ▸ hx), Option.bind_eq_bind, Option.bind_some]
    cases tickLoop cur fuel ⟨heap.remove x, ys.head?, l.tail⟩ ys.head? with
    | none => rfl
    | some r => rfl
  · intro y
    rw [hprev, hnexts]
    rfl
  · intro y
    rw [hprevs, hnext, hprev]
    rfl
  · intro hne
    exact (if_neg hne).symm

theorem tickLoop_spec {cur : ℤ} {fuel : ℕ} (h : Holds l xs) (hfuel : xs.length ≤ fuel) :
  ∃ l', tickLoop cur fuel l xs.head? =
      some (xs.filter (fun x => expireOf l.heap x ≤ cur), l') ∧
    Holds l' (xs.filter (fun x => cur < expireOf l.heap x))
  := by
  induction xs generalizing l fuel with
  | nil => exact ⟨l, tickLoop_none cur fuel l, h⟩
  | cons x ys ih =>
      obtain ⟨fuel, rfl⟩ := Nat.exists_eq_succ_of_ne_zero (Nat.ne_zero_of_lt hfuel)
      obtain ⟨hfirst, hrest⟩ := List.pairwise_cons.mp h.ascending
      by_cases hdue : expireOf l.heap x ≤ cur
      · obtain ⟨l₁, hloop, hdeleted⟩ := tickLoop_due fuel h.linked hdue
        have hholds : Holds l₁ ([] ++ ys) := hdeleted.holds h
        obtain ⟨l', hloop', hholds'⟩ := ih hholds (Nat.le_of_succ_le_succ hfuel)
        rw [hdeleted.expire] at hloop' hholds'
        refine ⟨l', ?_, ?_⟩
        · rw [List.head?_cons, hloop, hloop', List.filter_cons_of_pos (by simpa using hdue)]
          rfl
        · rw [List.filter_cons_of_neg (by simpa using hdue)]
          exact hholds'
      · have hlate : ∀ y ∈ x :: ys, ¬ expireOf l.heap y ≤ cur := by
          intro y hy
          rcases List.mem_cons.mp hy with rfl | hy
          · exact hdue
          · have hle := hfirst y hy
            omega
        have hnone : (x :: ys).filter (fun y => expireOf l.heap y ≤ cur) = [] := by
          apply List.filter_eq_nil_iff.mpr
          intro y hy
          simpa using hlate y hy
        have hall : (x :: ys).filter (fun y => cur < expireOf l.heap y) = x :: ys := by
          apply List.filter_eq_self.mpr
          intro y hy
          simpa using hlate y hy
        have hx : x ∈ l.heap.live := (h.mem_iff x).mp List.mem_cons_self
        have hlt : cur < (l.heap.cell x).expire := Int.not_le.mp hdue
        refine ⟨l, ?_, ?_⟩
        · rw [hnone, List.head?_cons]
          simp only [tickLoop, Heap.load_of_mem hx, if_pos hlt, Option.bind_eq_bind,
            Option.bind_some]
        · rw [hall]
          exact h

theorem tick_spec (h : Holds l xs) (cur : ℤ) :
  ∃ l', l.tick cur = some (xs.filter (fun x => expireOf l.heap x ≤ cur), l') ∧
    Holds l' (xs.filter (fun x => cur < expireOf l.heap x))
  := by
  obtain ⟨tail, hstrand, -⟩ := h.linked.strand
  rw [tick, hstrand.head_eq]
  apply tickLoop_spec h
  apply hstrand.forward.length_le_card h.linked.live

/-! ### Runs -/

/-- The timer that is added is a new one; one that is adjusted or deleted lives, and its timeout
does not get less. -/
def Proper (l : SortTimerLst X) : Call X → Prop
  | .addTimer timer _ => timer ∉ l.heap.live
  | .adjustTimer timer expire => timer ∈ l.heap.live ∧ expireOf l.heap timer ≤ expire
  | .delTimer timer => timer ∈ l.heap.live
  | .tick _ => True

instance decidableProper (l : SortTimerLst X) : DecidablePred (Proper l)
  | .addTimer timer _ => inferInstanceAs (Decidable (timer ∉ l.heap.live))
  | .adjustTimer timer expire =>
      inferInstanceAs (Decidable (timer ∈ l.heap.live ∧ expireOf l.heap timer ≤ expire))
  | .delTimer timer => inferInstanceAs (Decidable (timer ∈ l.heap.live))
  | .tick _ => .isTrue trivial

theorem exists_step (h : Holds l xs) {c : Call X} (hproper : Proper l c) :
  ∃ l', calls.step l c = some l' ∧ ∃ zs, Holds l' zs
  := by
  cases c with
  | addTimer timer expire =>
      obtain ⟨l', zs, hstep, hholds⟩ := exists_add h hproper expire
      exact ⟨l', hstep, zs, hholds⟩
  | adjustTimer timer expire =>
      obtain ⟨l', zs, hstep, hholds⟩ := exists_adjust h hproper.1 hproper.2
      exact ⟨l', hstep, zs, hholds⟩
  | delTimer timer =>
      obtain ⟨l', zs, hstep, hholds⟩ := exists_del h hproper
      exact ⟨l', hstep, zs, hholds⟩
  | tick cur =>
      obtain ⟨l', htick, hholds⟩ := tick_spec h cur
      refine ⟨l', ?_, _, hholds⟩
      simp only [calls, htick, Option.map_some]

omit [DecidableEq X] in
theorem Holds.init :
  Holds (SortTimerLst.init : SortTimerLst X) []
  := by
  refine ⟨⟨⟨none, strand_nil.mpr ⟨rfl, rfl⟩, fun hne => absurd rfl hne⟩, ?_⟩, ?_, List.Pairwise.nil⟩
  · intro x hx
    exact absurd hx List.not_mem_nil
  · intro x
    apply iff_of_false List.not_mem_nil (Finset.notMem_empty x)

/-- Any calls have a result: a list that is doubly linked through all timers that live, in
ascending order.  A tick at any time runs the callbacks of those that are due, in this order, and
leaves the others. -/
theorem sorted_list (as : List (Call X))
    (hproper : calls.Along Proper (SortTimerLst.init : SortTimerLst X) as) :
  ∃ l xs, calls.final SortTimerLst.init as = some l ∧ Holds l xs ∧
    ∀ cur, ∃ l', l.tick cur = some (xs.filter (fun x => expireOf l.heap x ≤ cur), l') ∧
      Holds l' (xs.filter (fun x => cur < expireOf l.heap x))
  := by
  obtain ⟨l, hfinal, xs, hholds⟩ : ∃ l, calls.final SortTimerLst.init as = some l ∧
      ∃ xs, Holds l xs := by
    apply Machine.exists_final_of_invariant (fun l => ∃ xs, Holds l xs) _ ⟨[], Holds.init⟩ hproper
    rintro l c ⟨xs, h⟩ hc
    apply exists_step h hc
  exact ⟨l, xs, hfinal, hholds, fun cur => tick_spec hholds cur⟩

/-- Three timers, of which the first one is put off. -/
theorem sorted_list_three :
  ∃ l xs, calls.final (SortTimerLst.init : SortTimerLst ℕ)
      [.addTimer 1 3, .addTimer 2 5, .addTimer 3 4, .adjustTimer 1 9] = some l ∧ Holds l xs ∧
    ∃ l', l.tick 4 = some (xs.filter (fun x => expireOf l.heap x ≤ 4), l') ∧
      Holds l' (xs.filter (fun x => 4 < expireOf l.heap x))
  := by
  obtain ⟨l, xs, hfinal, hholds, htick⟩ :=
    sorted_list [.addTimer 1 3, .addTimer 2 5, .addTimer 3 4, .adjustTimer 1 9] (by decide)
  exact ⟨l, xs, hfinal, hholds, htick 4⟩

end LstTimer
