import Orgrim.TimingWheel.Firing

/-!
# Runs of the timing wheel

Any number of calls of `add_timer`, `del_timer` and `tick`, where only timers that live are deleted.
Every call has a result, and leaves the slots well formed; and the callback of a timer added with
the timeout `n` is run in the tick that comes `max n 1` ticks after the first one (`fires_on_time`).
-/

namespace TimingWheel

open TimeWheel

variable {X : Type*} [DecidableEq X]

/-- Only timers that live are deleted. -/
def DeletesLive (w : TimeWheel X) : Call X → Prop
  | .delTimer (some x) => x ∈ w.heap.live
  | _ => True

instance decidableDeletesLive (w : TimeWheel X) : DecidablePred (DeletesLive w)
  | .addTimer _ _ => .isTrue trivial
  | .delTimer none => .isTrue trivial
  | .delTimer (some x) => inferInstanceAs (Decidable (x ∈ w.heap.live))
  | .tick => .isTrue trivial

variable {w w' : TimeWheel X} {x : X} {c : Call X}

/-! ### One call -/

/-- What a call means for a timer that it does not create: unless it is deleted, or its callback is
run, it goes on to live, and each tick is one of those that remain. -/
structure Aged (w w' : TimeWheel X) (c : Call X) (x : X) : Prop where
  mem_live : x ∈ w'.heap.live ↔
    x ∈ w.heap.live ∧ c ≠ .delTimer (some x) ∧ (c = .tick → w.remaining x ≠ 0)
  remaining : x ∈ w'.heap.live → w'.remaining x + (if c = .tick then 1 else 0) = w.remaining x

theorem Aged.refl (hdel : c ≠ .delTimer (some x)) (htick : c ≠ .tick) :
  Aged w w c x
  := by
  constructor
  · exact (and_iff_left ⟨hdel, fun heq => absurd heq htick⟩).symm
  · intro _
    rw [if_neg htick, Nat.add_zero]

theorem Added.aged {timeout : ℤ} {y : X} (h : Added w w' timeout y) (hx : x ≠ y)
    (hdel : c ≠ .delTimer (some x)) (htick : c ≠ .tick) :
  Aged w w' c x
  := by
  constructor
  · rw [h.live, Finset.mem_insert, or_iff_right hx]
    exact (and_iff_left ⟨hdel, fun heq => absurd heq htick⟩).symm
  · intro _
    rw [if_neg htick, Nat.add_zero, h.remaining_of_ne hx]

theorem Deleted.aged {y : X} (h : Deleted w w' y) :
  Aged w w' (.delTimer (some y)) x
  := by
  have hmem : x ∈ w'.heap.live ↔ x ≠ y ∧ x ∈ w.heap.live := by
    rw [h.live, Finset.mem_erase]
  constructor
  · rw [hmem]
    constructor
    · rintro ⟨hne, hx⟩
      use hx
      constructor
      · rintro ⟨⟩
        apply hne rfl
      · rintro ⟨⟩
    · rintro ⟨hx, hne, -⟩
      refine ⟨?_, hx⟩
      rintro rfl
      apply hne rfl
  · intro hx
    rw [if_neg (by rintro ⟨⟩), Nat.add_zero, h.remaining x (hmem.mp hx).1]

theorem Ticked.aged {fired : List X} (h : Ticked w w' fired) :
  Aged w w' .tick x
  := by
  constructor
  · rw [h.mem_live]
    apply and_congr_right
    intro _
    constructor
    · intro hne
      exact ⟨by rintro ⟨⟩, fun _ => hne⟩
    · rintro ⟨-, hne⟩
      apply hne rfl
  · intro hx
    rw [if_pos rfl, h.remaining x hx]

/-- Every call has a result. -/
theorem exists_step (h : WellFormed w) (hlegit : DeletesLive w c) :
  ∃ w', calls.step w c = some w' ∧ WellFormed w' ∧
    ∀ x, (∀ timeout, c ≠ .addTimer timeout (some x)) → Aged w w' c x
  := by
  cases c with
  | addTimer timeout answer =>
      obtain ⟨L, hholds⟩ := h.slots
      obtain hadd | ⟨y, w', rfl, -, hadd, hadded⟩ := addTimer_cases hholds timeout answer
      · refine ⟨w, ?_, h, ?_⟩
        · simp only [calls, hadd, Option.map_some]
        · intro x _
          apply Aged.refl
          · rintro ⟨⟩
          · rintro ⟨⟩
      · refine ⟨w', ?_, (hadded.wellFormed h).1, ?_⟩
        · simp only [calls, hadd, Option.map_some]
        · intro x hother
          apply hadded.aged
          · rintro rfl
            apply hother timeout rfl
          · rintro ⟨⟩
          · rintro ⟨⟩
  | delTimer timer =>
      cases timer with
      | none =>
          refine ⟨w, rfl, h, ?_⟩
          intro x _
          apply Aged.refl
          · rintro ⟨⟩
          · rintro ⟨⟩
      | some y =>
          obtain ⟨w', hdel, hdeleted⟩ := exists_delTimer h hlegit
          exact ⟨w', hdel, hdeleted.wellFormed, fun x _ => hdeleted.aged⟩
  | tick =>
      obtain ⟨fired, w', htick, hticked⟩ := tick_spec h
      refine ⟨w', ?_, hticked.wellFormed, fun x _ => hticked.aged⟩
      simp only [calls, htick, Option.map_some]

/-! ### Runs -/

/-- A run comes to its end.  A timer that is not created in it, and is not deleted, lives until as
many ticks have passed as remained. -/
theorem run_spec {cs : List (Call X)} (h : WellFormed w) (hlegit : calls.Along DeletesLive w cs) :
  ∃ w', calls.final w cs = some w' ∧ WellFormed w' ∧
    ∀ x, (∀ timeout, .addTimer timeout (some x) ∉ cs) →
      (x ∈ w'.heap.live ↔
        x ∈ w.heap.live ∧ .delTimer (some x) ∉ cs ∧ cs.count .tick ≤ w.remaining x) ∧
      (x ∈ w'.heap.live → w'.remaining x + cs.count .tick = w.remaining x)
  := by
  induction cs generalizing w with
  | nil =>
      refine ⟨w, rfl, h, ?_⟩
      intro x _
      constructor
      · exact (and_iff_left ⟨List.not_mem_nil, Nat.zero_le _⟩).symm
      · intro _
        rfl
  | cons c cs ih =>
      obtain ⟨w₁, hstep, hwell₁, haged⟩ := exists_step h hlegit.1
      obtain ⟨w', hfinal, hwell', hrest⟩ := ih hwell₁ (hlegit.2 w₁ hstep)
      refine ⟨w', ?_, hwell', ?_⟩
      · rw [Machine.final_of_step hstep, hfinal]
      · intro x hother
        obtain ⟨hmem₁, hremaining₁⟩ :=
          haged x (fun timeout heq => hother timeout (heq ▸ List.mem_cons_self))
        obtain ⟨hmem', hremaining'⟩ :=
          hrest x (fun timeout hmem => hother timeout (List.mem_cons_of_mem c hmem))
        have hcount : (c :: cs).count .tick = cs.count .tick + if c = .tick then 1 else 0 := by
          rw [List.count_cons]
          simp only [beq_iff_eq]
        rw [hcount]
        constructor
        · rw [hmem', List.mem_cons, not_or]
          constructor
          · rintro ⟨hx, hdel, hle⟩
            obtain ⟨hlive, hne, -⟩ := hmem₁.mp hx
            refine ⟨hlive, ⟨Ne.symm hne, hdel⟩, ?_⟩
            rw [← hremaining₁ hx]
            apply Nat.add_le_add_right hle
          · rintro ⟨hlive, ⟨hne, hdel⟩, hle⟩
            have hx : x ∈ w₁.heap.live := by
              apply hmem₁.mpr
              refine ⟨hlive, Ne.symm hne, ?_⟩
              intro htick hzero
              rw [if_pos htick, hzero] at hle
              apply Nat.not_succ_le_zero _ hle
            refine ⟨hx, hdel, ?_⟩
            rw [← hremaining₁ hx] at hle
            apply Nat.le_of_add_le_add_right hle
        · intro hx
          rw [← Nat.add_assoc, hremaining' hx, hremaining₁ (hmem'.mp hx).1]

omit [DecidableEq X] in
theorem WellFormed.init :
  WellFormed (TimeWheel.init : TimeWheel X)
  := by
  refine ⟨⟨fun _ => [], ?_, ?_⟩, Nat.zero_lt_succ 59, ?_⟩
  · intro ts
    exact ⟨none, Links.strand_nil.mpr ⟨rfl, rfl⟩⟩
  · intro ts x
    apply iff_of_false List.not_mem_nil (fun h => absurd h.1 (Finset.notMem_empty x))
  · intro x hx
    exact absurd hx (Finset.notMem_empty x)

/-- The ticks after which a timer expires. -/
theorem ticks_eq {timeout : ℤ} (h : 0 ≤ timeout) :
  (ticks timeout : ℤ) = max timeout 1
  := by
  unfold ticks TI
  split_ifs with hlt
  · omega
  · rw [Int.ediv_one]
    omega

/-- What `add_timer` has done if it has created a timer. -/
theorem added_of_addTimer {timeout : ℤ} {w₁ : TimeWheel X} (h : WellFormed w)
    (hadd : w.addTimer timeout (some x) = some (some x, w₁)) :
  0 ≤ timeout ∧ Added w w₁ timeout x
  := by
  obtain ⟨L, hholds⟩ := h.slots
  obtain hrefused | ⟨y, w', hanswer, htimeout, hadd', hadded⟩ :=
    addTimer_cases hholds timeout (some x)
  · rw [hadd] at hrefused
    cases hrefused
  · cases hanswer
    rw [hadd] at hadd'
    cases hadd'
    exact ⟨htimeout, hadded⟩

theorem count_fired {fired : List X} (h : Ticked w w' fired) {P : Prop} [Decidable P]
    (hP : x ∈ w.heap.live ∧ w.remaining x = 0 ↔ P) :
  fired.count x = if P then 1 else 0
  := by
  rw [← h.mem_fired] at hP
  split_ifs with hfired
  · apply List.count_eq_one_of_mem h.nodup (hP.mpr hfired)
  · apply List.count_eq_zero_of_not_mem (fun hx => hfired (hP.mp hx))

/-- The callback of a timer is run once, in the tick before which `max timeout 1` ticks have passed
since the timer was created, unless the timer has been deleted, and in no other tick: until `new`
gives its address to another timer. -/
theorem fires_on_time (as : List (Call X))
    (hlegit : calls.Along DeletesLive (TimeWheel.init : TimeWheel X) as) :
  ∃ w fired w', calls.final TimeWheel.init as = some w ∧ WellFormed w ∧
    w.tick = some (fired, w') ∧
    ∀ pre timeout x post w₀ w₁, as = pre ++ .addTimer timeout (some x) :: post →
      calls.final TimeWheel.init pre = some w₀ →
      w₀.addTimer timeout (some x) = some (some x, w₁) →
      (∀ other, .addTimer other (some x) ∉ post) →
        fired.count x =
          if (post.count .tick : ℤ) = max timeout 1 ∧ .delTimer (some x) ∉ post then 1 else 0
  := by
  obtain ⟨w, hfinal, hwell, -⟩ := run_spec WellFormed.init hlegit
  obtain ⟨fired, w', htick, hticked⟩ := tick_spec hwell
  refine ⟨w, fired, w', hfinal, hwell, htick, ?_⟩
  rintro pre timeout x post w₀ w₁ rfl hpre hadd hother
  obtain ⟨hlegit₀, -, hlegit₁⟩ := (Machine.along_append hpre _).mp hlegit
  have hwell₀ : WellFormed w₀ := by
    obtain ⟨w₂, hfinal₂, hwell₂, -⟩ := run_spec WellFormed.init hlegit₀
    rw [hpre] at hfinal₂
    cases hfinal₂
    exact hwell₂
  have hstep : calls.step w₀ (.addTimer timeout (some x)) = some w₁ := by
    simp only [calls, hadd, Option.map_some]
  obtain ⟨htimeout, hadded⟩ := added_of_addTimer hwell₀ hadd
  obtain ⟨hwell₁, hnew⟩ := hadded.wellFormed hwell₀
  obtain ⟨w₂, hfinal₂, -, hrun⟩ := run_spec hwell₁ (hlegit₁ w₁ hstep)
  rw [Machine.final_append hpre, Machine.final_of_step hstep, hfinal₂] at hfinal
  cases hfinal
  obtain ⟨hlive, hremaining⟩ := hrun x hother
  apply count_fired hticked
  rw [← ticks_eq htimeout, Int.natCast_inj]
  rw [hnew, hadded.live, and_iff_right (Finset.mem_insert_self x _)] at hlive
  rw [hnew] at hremaining
  constructor
  · rintro ⟨hx, hzero⟩
    have hcount := hremaining hx
    rw [hzero, Nat.zero_add] at hcount
    exact ⟨hcount, (hlive.mp hx).1⟩
  · rintro ⟨hcount, hdel⟩
    have hx : x ∈ w.heap.live := hlive.mpr ⟨hdel, Nat.le_of_eq hcount⟩
    have hsum := hremaining hx
    rw [hcount] at hsum
    exact ⟨hx, by omega⟩

/-- Three timers of one slot.  The third tick runs the callback of the first one; the second one has
been deleted, and the third one is due a round later. -/
theorem fires_on_time_third :
  ∃ w fired w', calls.final (TimeWheel.init : TimeWheel ℕ)
      [.addTimer 2 (some 7), .addTimer 2 (some 8), .addTimer 62 (some 9), .delTimer (some 8), .tick,
        .tick] = some w ∧
    w.tick = some (fired, w') ∧ fired.count 7 = 1 ∧ fired.count 8 = 0 ∧ fired.count 9 = 0
  := by
  obtain ⟨w, fired, w', hfinal, -, htick, hfires⟩ :=
    fires_on_time [.addTimer 2 (some 7), .addTimer 2 (some 8), .addTimer 62 (some 9),
      .delTimer (some 8), .tick, .tick] (by decide)
  have hfirst := hfires [] 2 7 [.addTimer 2 (some 8), .addTimer 62 (some 9), .delTimer (some 8),
    .tick, .tick] _ _ rfl rfl rfl (by simp)
  have hsecond := hfires [.addTimer 2 (some 7)] 2 8 [.addTimer 62 (some 9), .delTimer (some 8),
    .tick, .tick] _ _ rfl rfl rfl (by simp)
  have hthird := hfires [.addTimer 2 (some 7), .addTimer 2 (some 8)] 62 9 [.delTimer (some 8),
    .tick, .tick] _ _ rfl rfl rfl (by simp)
  exact ⟨w, fired, w', hfinal, htick, hfirst, hsecond, hthird⟩

end TimingWheel
