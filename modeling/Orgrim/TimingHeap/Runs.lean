import Orgrim.TimingHeap.Order

/-!
# Runs of the heap of timers

However the heap has been created, and whatever is called: it holds the timers that have been added
and not yet been deleted, in heap order (`heap_correct`).  So `pop_timer` gives them in ascending
order, and `tick` those of them that are due.  A timer that has been deleted is out of the reach of
the heap, if none is added twice (`notMem_deleted`).
-/

namespace TimingHeap

open TimeHeap

variable {X : Type} {h h' : TimeHeap X} {xs ys : List X}

/-! ### The ticks -/

/-- What `tick` at the time `cur` does to a heap that holds `xs`: it deletes the timers that are
due, in ascending order, runs the callbacks that they have, and leaves the timers `ys`. -/
structure Ticked (h h' : TimeHeap X) (cur : ℤ) (xs deleted called ys : List X) : Prop where
  perm : xs.Perm (deleted ++ ys)
  holds : Holds h' ys
  ascending : deleted.Pairwise (fun x y => (h.timers x).expire ≤ (h.timers y).expire)
  due : ∀ x ∈ deleted, (h.timers x).expire ≤ cur
  later : ∀ y ∈ ys, cur < (h.timers y).expire
  called : called = deleted.filter (fun x => (h.timers x).cbFunc)
  timers : h'.timers = h.timers

/-- Nothing is due. -/
theorem Ticked.nothing {cur : ℤ} (hholds : Holds h xs)
    (hlater : ∀ y ∈ xs, cur < (h.timers y).expire) :
  Ticked h h cur xs [] [] xs
  := by
  refine ⟨List.Perm.refl xs, hholds, List.Pairwise.nil, ?_, hlater, rfl, rfl⟩
  intro x hx
  exact absurd hx List.not_mem_nil

/-- One timer is due, and then others. -/
theorem Ticked.pop {h₁ : TimeHeap X} {cur : ℤ} {x : X} {zs deleted called : List X}
    (hpopped : Popped h h₁ xs x zs) (hdue : (h.timers x).expire ≤ cur)
    (hticked : Ticked h₁ h' cur zs deleted called ys) :
  Ticked h h' cur xs (x :: deleted) ((if (h.timers x).cbFunc then [x] else []) ++ called) ys
  := by
  obtain ⟨hperm, hholds, hascending, hdues, hlater, hcalled, htimers⟩ := hticked
  rw [hpopped.timers] at hascending hdues hlater hcalled htimers
  refine ⟨hpopped.perm.trans (hperm.cons x), hholds, ?_, ?_, hlater, ?_, htimers⟩
  · apply List.pairwise_cons.mpr
    refine ⟨?_, hascending⟩
    intro y hy
    apply hpopped.first y
    apply hpopped.perm.mem_iff.mpr
    apply List.mem_cons_of_mem
    apply hperm.mem_iff.mpr
    apply List.mem_append_left ys hy
  · intro y hy
    rcases List.mem_cons.mp hy with rfl | hy
    · exact hdue
    · apply hdues y hy
  · rw [hcalled, List.filter_cons]
    split_ifs <;> rfl

theorem tickLoop_spec {cur : ℤ} {fuel : ℕ} (hholds : Holds h xs) (hfuel : h.curSize < fuel) :
  ∃ deleted called h' ys, tickLoop cur fuel h (h.array 0) = some (deleted, called, h') ∧
    Ticked h h' cur xs deleted called ys ∧ h'.capacity = h.capacity
  := by
  induction fuel generalizing h xs with
  | zero => omega
  | succ fuel ih =>
      by_cases hzero : h.curSize = 0
      · have hnil : xs = [] := List.eq_nil_of_length_eq_zero (hholds.length_eq.trans hzero)
        subst hnil
        refine ⟨[], [], h, [], ?_, Ticked.nothing hholds ?_, rfl⟩
        · simp only [tickLoop, if_pos hzero]
        · intro y hy
          exact absurd hy List.not_mem_nil
      · obtain ⟨x, zs, h₁, harray, hpop, hpopped, hcapacity⟩ :=
          popTimer_spec hholds (Nat.pos_of_ne_zero hzero)
        have hget : h.get 0 = some (some x) := by
          rw [get_of_lt hholds.nonempty, harray]
        by_cases hlater : cur < (h.timers x).expire
        · refine ⟨[], [], h, xs, ?_, Ticked.nothing hholds ?_, rfl⟩
          · simp only [tickLoop, if_neg hzero, harray, if_pos hlater]
          · intro y hy
            apply Int.lt_of_lt_of_le hlater (hpopped.first y hy)
        · have hfuel₁ : h₁.curSize < fuel := by
            have hsize := hpopped.curSize
            omega
          obtain ⟨deleted, called, h', ys, hloop, hticked, hkept⟩ := ih hpopped.holds hfuel₁
          refine ⟨_, _, h', ys, ?_, hticked.pop hpopped (Int.not_lt.mp hlater),
            hkept.trans hcapacity⟩
          simp only [tickLoop, if_neg hzero, harray, if_neg hlater, hget, hpop,
            get_of_lt hpopped.holds.nonempty, hloop, Option.bind_eq_bind, Option.bind_some]
          rfl

theorem tick_spec (hholds : Holds h xs) (cur : ℤ) :
  ∃ deleted called h' ys, h.tick cur = some (deleted, called, h') ∧
    Ticked h h' cur xs deleted called ys ∧ h'.capacity = h.capacity
  := by
  obtain ⟨deleted, called, h', ys, hloop, hticked⟩ :=
    @tickLoop_spec _ _ _ cur _ hholds (Nat.lt_succ_self h.curSize)
  refine ⟨deleted, called, h', ys, ?_, hticked⟩
  simp only [tick, get_of_lt hholds.nonempty, Option.bind_eq_bind, Option.bind_some]
  exact hloop

/-! ### Runs -/

/-- The heap holds the timers `xs`: those that have been added and not yet been deleted.  When they
expire has not changed. -/
structure Sound (timers : X → HeapTimer) (s : Session X) (xs : List X) : Prop where
  holds : Holds s.heap xs
  kept : s.added.Perm (s.deleted ++ xs)
  expire : ∀ x, (s.heap.timers x).expire = (timers x).expire

/-- There is room for one timer at least, and for those of the array. -/
def Start.Fits : Start X → Prop
  | .ofCapacity cap => 0 < cap
  | .ofArray initArray capacity => 0 < capacity ∧ initArray.length ≤ capacity

variable {timers : X → HeapTimer} {s : Session X}

theorem exists_session {start : Start X} (hfits : start.Fits) :
  ∃ s xs, start.session timers = some s ∧ Sound timers s xs
  := by
  cases start with
  | ofCapacity cap =>
      exact ⟨_, [], rfl, holds_ofCapacity timers hfits, List.Perm.refl [], fun _ => rfl⟩
  | ofArray initArray capacity =>
      obtain ⟨h, hcreate, hholds, htimers, -⟩ := ofArray_spec timers hfits.1 hfits.2
      refine ⟨⟨h, initArray, []⟩, initArray, ?_, hholds, List.Perm.refl _, ?_⟩
      · simp only [Start.session, hcreate, Option.map_some]
      · intro x
        rw [htimers]

variable [DecidableEq X]

/-- A timer that loses its callback stays where it is. -/
theorem expire_delTimer (h : TimeHeap X) (timer : Option X) (x : X) :
  ((h.delTimer timer).timers x).expire = (h.timers x).expire
  := by
  cases timer with
  | none => rfl
  | some y =>
      unfold delTimer
      by_cases hxy : x = y
      · subst hxy
        dsimp only
        rw [Function.update_self]
      · dsimp only
        rw [Function.update_of_ne hxy]

theorem Holds.delTimer (hholds : Holds h xs) (timer : Option X) :
  Holds (h.delTimer timer) xs
  := by
  have hexpire : expireOf (h.delTimer timer).timers = expireOf h.timers := by
    funext p
    cases p with
    | none => rfl
    | some x => apply expire_delTimer h timer x
  cases timer with
  | none => exact hholds
  | some y =>
      refine ⟨hholds.room, hholds.nonempty, ?_, hholds.holds⟩
      rw [hexpire]
      apply hholds.ordered

theorem Sound.pop (hsound : Sound timers s xs) (hpos : 0 < s.heap.curSize) :
  ∃ x ys s', calls.step s .popTimer = some s' ∧ s'.deleted = s.deleted ++ [x] ∧
    Popped s.heap s'.heap xs x ys ∧ Sound timers s' ys
  := by
  obtain ⟨x, ys, h', -, hpop, hpopped, -⟩ := popTimer_spec hsound.holds hpos
  refine ⟨x, ys, ⟨h', s.added, s.deleted ++ [x]⟩, ?_, rfl, hpopped, hpopped.holds, ?_, ?_⟩
  · simp only [calls, hpop, Option.map_some]
    rfl
  · rw [List.append_assoc]
    apply hsound.kept.trans (hpopped.perm.append_left s.deleted)
  · intro y
    rw [hpopped.timers, hsound.expire]

theorem step_addTimer_none (s : Session X) :
  calls.step s (.addTimer none) = some s
  := by
  simp only [calls, addTimer, Option.map_some, Option.toList_none, List.append_nil]

theorem step_popTimer_empty (hzero : s.heap.curSize = 0) :
  calls.step s .popTimer = some s
  := by
  simp only [calls, popTimer_empty hzero, Option.map_some, Option.toList_none, List.append_nil]

/-- What a call does to a heap that holds `xs`: the timers are accounted for, when they expire does
not change, and the capacity only if a timer is added to a full array. -/
structure Stepped (s s' : Session X) (c : Call X) (xs ys : List X) : Prop where
  holds : Holds s'.heap ys
  kept : s.added.Perm (s.deleted ++ xs) → s'.added.Perm (s'.deleted ++ ys)
  expire : ∀ x, (s'.heap.timers x).expire = (s.heap.timers x).expire
  length_le : ys.length ≤ xs.length + 1
  capacity : s'.heap.capacity = s.heap.capacity ∨
    (∃ timer, c = .addTimer (some timer)) ∧ s.heap.capacity ≤ s.heap.curSize ∧
      s'.heap.capacity = 2 * s.heap.capacity

omit [DecidableEq X] in
theorem Stepped.refl (hholds : Holds s.heap xs) (c : Call X) :
  Stepped s s c xs xs
  := ⟨hholds, id, fun _ => rfl, Nat.le_succ _, Or.inl rfl⟩

/-- Every call has a result. -/
theorem exists_stepped (hholds : Holds s.heap xs) (c : Call X) :
  ∃ s' ys, calls.step s c = some s' ∧ Stepped s s' c xs ys
  := by
  cases c with
  | addTimer timer =>
      cases timer with
      | none => exact ⟨s, xs, step_addTimer_none s, Stepped.refl hholds _⟩
      | some timer =>
          obtain ⟨h', hadd, hholds', htimers, hcapacity⟩ := addTimer_spec hholds timer
          refine ⟨⟨h', s.added ++ [timer], s.deleted⟩, xs ++ [timer], ?_, hholds', ?_, ?_, ?_, ?_⟩
          · simp only [calls, hadd, Option.map_some]
            rfl
          · intro hkept
            rw [← List.append_assoc]
            apply hkept.append_right [timer]
          · intro x
            rw [htimers]
          · rw [List.length_append, List.length_singleton]
          · by_cases hfull : s.heap.capacity ≤ s.heap.curSize
            · right
              exact ⟨⟨timer, rfl⟩, hfull, hcapacity.trans (if_pos hfull)⟩
            · left
              apply hcapacity.trans (if_neg hfull)
  | delTimer timer =>
      refine ⟨_, xs, rfl, hholds.delTimer timer, id, expire_delTimer s.heap timer, Nat.le_succ _,
        ?_⟩
      cases timer <;> exact Or.inl rfl
  | popTimer =>
      rcases Nat.eq_zero_or_pos s.heap.curSize with hzero | hpos
      · exact ⟨s, xs, step_popTimer_empty hzero, Stepped.refl hholds _⟩
      · obtain ⟨x, ys, h', -, hpop, hpopped, hcapacity⟩ := popTimer_spec hholds hpos
        refine ⟨⟨h', s.added, s.deleted ++ [x]⟩, ys, ?_, hpopped.holds, ?_, ?_, ?_,
          Or.inl hcapacity⟩
        · simp only [calls, hpop, Option.map_some]
          rfl
        · intro hkept
          rw [List.append_assoc]
          apply hkept.trans (hpopped.perm.append_left s.deleted)
        · intro y
          rw [hpopped.timers]
        · rw [hpopped.perm.length_eq, List.length_cons]
          omega
  | tick cur =>
      obtain ⟨deleted, called, h', ys, htick, hticked, hcapacity⟩ := tick_spec hholds cur
      refine ⟨⟨h', s.added, s.deleted ++ deleted⟩, ys, ?_, hticked.holds, ?_, ?_, ?_,
        Or.inl hcapacity⟩
      · simp only [calls, htick, Option.map_some]
      · intro hkept
        rw [List.append_assoc]
        apply hkept.trans (hticked.perm.append_left s.deleted)
      · intro y
        rw [hticked.timers]
      · rw [hticked.perm.length_eq, List.length_append]
        omega

omit [DecidableEq X] in
theorem Sound.step {s' : Session X} {c : Call X} (hsound : Sound timers s xs)
    (hstepped : Stepped s s' c xs ys) :
  Sound timers s' ys
  := by
  refine ⟨hstepped.holds, hstepped.kept hsound.kept, ?_⟩
  intro x
  rw [hstepped.expire, hsound.expire]

/-- Popping until the heap is empty. -/
theorem Sound.drain (hsound : Sound timers s xs) :
  ∃ ds s', calls.final s (List.replicate s.heap.curSize .popTimer) = some s' ∧
    s'.heap.curSize = 0 ∧ s'.deleted = s.deleted ++ ds ∧ ds.Perm xs ∧
    ds.Pairwise (fun x y => (timers x).expire ≤ (timers y).expire)
  := by
  obtain ⟨n, hn⟩ : ∃ n, s.heap.curSize = n := ⟨_, rfl⟩
  induction n generalizing s xs with
  | zero =>
      have hnil : xs = [] := List.eq_nil_of_length_eq_zero (hsound.holds.length_eq.trans hn)
      subst hnil
      rw [hn]
      exact ⟨[], s, rfl, hn, (List.append_nil _).symm, List.Perm.refl [], List.Pairwise.nil⟩
  | succ n ih =>
      obtain ⟨x, ys, s₁, hstep, hdeleted, hpopped, hsound₁⟩ :=
        hsound.pop (show 0 < s.heap.curSize by omega)
      have hn₁ : s₁.heap.curSize = n := Nat.succ.inj (hpopped.curSize.trans hn)
      obtain ⟨ds, s', hfinal, hempty, hdeleted', hperm, hascending⟩ := ih hsound₁ hn₁
      refine ⟨x :: ds, s', ?_, hempty, ?_, (hperm.cons x).trans hpopped.perm.symm, ?_⟩
      · rw [hn, List.replicate_succ, Machine.final_of_step hstep, ← hn₁, hfinal]
      · rw [hdeleted', hdeleted, List.append_assoc]
        rfl
      · apply List.pairwise_cons.mpr
        refine ⟨?_, hascending⟩
        intro y hy
        rw [← hsound.expire, ← hsound.expire]
        apply hpopped.first y
        apply hpopped.perm.mem_iff.mpr
        apply List.mem_cons_of_mem x (hperm.mem_iff.mp hy)

/-- After any calls the heap holds the timers that have been added and not yet been deleted. -/
theorem exists_sound (timers : X → HeapTimer) {start : Start X} (hfits : start.Fits)
    (cs : List (Call X)) :
  ∃ s₀ s xs, start.session timers = some s₀ ∧ calls.final s₀ cs = some s ∧ Sound timers s xs
  := by
  obtain ⟨s₀, xs₀, hstart, hsound₀⟩ := exists_session hfits
  obtain ⟨s, hfinal, xs, hsound⟩ : ∃ s, calls.final s₀ cs = some s ∧ ∃ xs, Sound timers s xs := by
    apply Machine.exists_final_of_invariant (Q := fun _ _ => True) _ _ ⟨xs₀, hsound₀⟩
    · apply Machine.along_of_forall
      intro s c
      trivial
    · rintro s c ⟨xs, hsound⟩ -
      obtain ⟨s', ys, hstep, hstepped⟩ := exists_stepped hsound.holds c
      exact ⟨s', hstep, ys, hsound.step hstepped⟩
  exact ⟨s₀, s, xs, hstart, hfinal, hsound⟩

/-- No cell of the heap points to a timer that has been deleted, if none has been added twice. -/
theorem notMem_deleted (timers : X → HeapTimer) {start : Start X} (hfits : start.Fits)
    (cs : List (Call X)) :
  ∃ s₀ s, start.session timers = some s₀ ∧ calls.final s₀ cs = some s ∧
    (s.added.Nodup → ∀ i < s.heap.curSize, ∃ x, s.heap.array i = some x ∧ x ∉ s.deleted)
  := by
  obtain ⟨s₀, s, xs, hstart, hfinal, hsound⟩ := exists_sound timers hfits cs
  refine ⟨s₀, s, hstart, hfinal, ?_⟩
  intro hnodup i hi
  obtain ⟨x, hx, harray⟩ := isSome_of_perm hsound.holds.holds hi
  have hdisjoint := List.disjoint_of_nodup_append (hsound.kept.nodup_iff.mp hnodup)
  exact ⟨x, harray, fun hdeleted => hdisjoint hdeleted hx⟩

/-- After any calls the heap holds the timers that have been added and not yet been deleted, in heap
order.  Popping until it is empty gives them in ascending order, and a tick those that are due. -/
theorem heap_correct (timers : X → HeapTimer) (start : Start X) (hfits : start.Fits)
    (cs : List (Call X)) :
  ∃ s₀ s xs, start.session timers = some s₀ ∧ calls.final s₀ cs = some s ∧ Sound timers s xs ∧
    (∃ ds s', calls.final s (List.replicate s.heap.curSize .popTimer) = some s' ∧
      s'.heap.curSize = 0 ∧ s'.deleted = s.deleted ++ ds ∧ ds.Perm xs ∧
      ds.Pairwise (fun x y => (timers x).expire ≤ (timers y).expire)) ∧
    ∀ cur, ∃ deleted called h' ys, s.heap.tick cur = some (deleted, called, h') ∧
      Ticked s.heap h' cur xs deleted called ys
  := by
  obtain ⟨s₀, s, xs, hstart, hfinal, hsound⟩ := exists_sound timers hfits cs
  refine ⟨s₀, s, xs, hstart, hfinal, hsound, hsound.drain, ?_⟩
  intro cur
  obtain ⟨deleted, called, h', ys, htick, hticked, -⟩ := tick_spec hsound.holds cur
  exact ⟨deleted, called, h', ys, htick, hticked⟩

/-- A heap that has been created from three timers and is full, with another one added. -/
theorem heap_correct_four :
  ∃ s₀ s xs, (Start.ofArray [5, 3, 4] 3).session (fun x : ℕ => ⟨x, true⟩) = some s₀ ∧
    calls.final s₀ [.addTimer (some 2), .popTimer] = some s ∧
    Sound (fun x : ℕ => ⟨x, true⟩) s xs
  := by
  obtain ⟨s₀, s, xs, hstart, hfinal, hsound, -⟩ := heap_correct (fun x : ℕ => ⟨x, true⟩)
    (.ofArray [5, 3, 4] 3) ⟨by decide, by decide⟩ [.addTimer (some 2), .popTimer]
  exact ⟨s₀, s, xs, hstart, hfinal, hsound⟩

end TimingHeap
