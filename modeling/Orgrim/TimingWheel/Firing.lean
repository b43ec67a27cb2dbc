import Orgrim.TimingWheel.Slots

/-!
# When the timers fire

`remaining w x` tells how many ticks lie between now and the one that runs the callback of `x`: the
turns of the wheel that are left to it, and the way from the current slot to its own.  A tick lowers
it by one for every timer, and runs the callbacks of those for which it is 0 (`tick_spec`).  So the
callback of a timer is run in the tick that its timeout demands, and in no other.
-/

namespace TimingWheel

open Links TimeWheel

variable {X : Type*} [DecidableEq X]

/-- The ticks between now and the one that runs the callback of a timer. -/
def TimeWheel.remaining (w : TimeWheel X) (x : X) : ℕ :=
  (w.timeSlot x + N - w.curSlot) % N + N * w.rotation x

/-- Every slot is a doubly linked list, and there are `N` slots. -/
structure WellFormed (w : TimeWheel X) : Prop where
  slots : ∃ L, Holds w L
  curSlot_lt : w.curSlot < N
  timeSlot_lt : ∀ x ∈ w.heap.live, w.timeSlot x < N

/-- What the loop of `tick` has done to the timers `xs`: it has deleted those that are due and
lowered the rotation of the others. -/
structure Swept (w w' : TimeWheel X) (xs : List X) : Prop where
  curSlot : w'.curSlot = w.curSlot
  mem_live : ∀ y, y ∈ w'.heap.live ↔ y ∈ w.heap.live ∧ ¬ (y ∈ xs ∧ w.rotation y = 0)
  timeSlot : ∀ y ∈ w'.heap.live, w'.timeSlot y = w.timeSlot y
  rotation : ∀ y ∈ w'.heap.live,
    w'.rotation y = if y ∈ xs then w.rotation y - 1 else w.rotation y

variable {w w' : TimeWheel X} {L : ℕ → List X} {x y : X} {xs ys : List X}

/-! ### The loop of `tick` -/

theorem tickLoop_none (fuel : ℕ) (w : TimeWheel X) :
  tickLoop fuel w none = some ([], w)
  := by
  cases fuel with
  | zero => rfl
  | succ fuel => rfl

/-- In `w'` the timer `x` has one turn less to wait. -/
structure Turned (w w' : TimeWheel X) (x : X) : Prop where
  slots : w'.slots = w.slots
  curSlot : w'.curSlot = w.curSlot
  live : w'.heap.live = w.heap.live
  cell : ∀ y, w'.heap.cell y =
    if some x = some y then { w.heap.cell y with rotation := w.rotation y - 1 } else w.heap.cell y

theorem Turned.next (h : Turned w w' x) :
  w'.next = w.next
  := by
  funext y
  rw [TimeWheel.next, h.cell y]
  split_ifs <;> rfl

theorem Turned.prev (h : Turned w w' x) :
  w'.prev = w.prev
  := by
  funext y
  rw [TimeWheel.prev, h.cell y]
  split_ifs <;> rfl

theorem Turned.timeSlot (h : Turned w w' x) :
  w'.timeSlot = w.timeSlot
  := by
  funext y
  rw [TimeWheel.timeSlot, h.cell y]
  split_ifs <;> rfl

theorem Turned.rotation_self (h : Turned w w' x) :
  w'.rotation x = w.rotation x - 1
  := by
  rw [TimeWheel.rotation, h.cell x, if_pos rfl]

theorem Turned.rotation_of_ne (h : Turned w w' x) (hy : y ≠ x) :
  w'.rotation y = w.rotation y
  := by
  rw [TimeWheel.rotation, h.cell y, if_neg (fun heq => hy (Option.some.inj heq).symm)]
  rfl

/-- The loop comes to a timer with turns left. -/
theorem tickLoop_turn (fuel : ℕ) (hx : x ∈ w.heap.live) (hrotation : w.rotation x ≠ 0) :
  ∃ w₁, tickLoop (fuel + 1) w (some x) = tickLoop fuel w₁ (w.next x) ∧ Turned w w₁ x
  := by
  obtain ⟨heap, hmodify, hlive, hcell⟩ :=
    Heap.exists_modify hx (fun timer : TwTimer X => { timer with rotation := timer.rotation - 1 })
  have hpositive : 0 < (w.heap.cell x).rotation := Nat.pos_of_ne_zero hrotation
  refine ⟨{ w with heap := heap }, ?_, rfl, rfl, hlive, hcell⟩
  simp only [tickLoop, Heap.load_of_mem hx, Heap.load_of_mem (hlive ▸ hx), hmodify,
    Option.bind_eq_bind, Option.bind_some, if_pos hpositive, hcell, if_true]
  rfl

/-- The loop comes to a timer that is due. -/
theorem tickLoop_due (fuel : ℕ) (hplaced : Placed w w.curSlot xs x ys)
    (hrotation : w.rotation x = 0) :
  ∃ w₁, Unlinked w w₁ w.curSlot x ∧ tickLoop (fuel + 1) w (some x) =
    (tickLoop fuel w₁ ys.head?).map (fun r => (x :: r.1, r.2))
  := by
  obtain ⟨w₁, hexpire, hunlinked⟩ := expire_spec hplaced
  have hnot : ¬ 0 < (w.heap.cell x).rotation := Nat.not_lt_of_le (Nat.le_of_eq hrotation)
  use w₁, hunlinked
  simp only [tickLoop, Heap.load_of_mem hplaced.live, Option.bind_eq_bind, Option.bind_some,
    if_neg hnot, hexpire]
  cases tickLoop fuel w₁ ys.head? with
  | none => rfl
  | some r => rfl

theorem Swept.refl (w : TimeWheel X) :
  Swept w w []
  := by
  refine ⟨rfl, ?_, fun _ _ => rfl, ?_⟩
  · intro y
    symm
    apply and_iff_left (fun hy => List.not_mem_nil hy.1)
  · intro y _
    rw [if_neg List.not_mem_nil]

theorem Swept.turned {w₁ : TimeWheel X} (h : Swept w₁ w' ys) (hturned : Turned w w₁ x)
    (hx : x ∉ ys) (hrotation : w.rotation x ≠ 0) :
  Swept w w' (x :: ys)
  := by
  refine ⟨h.curSlot.trans hturned.curSlot, ?_, ?_, ?_⟩
  · intro y
    rw [h.mem_live, hturned.live]
    apply and_congr_right
    intro _
    by_cases hy : y = x
    · subst hy
      apply iff_of_true (fun hmem => hx hmem.1) (fun hmem => hrotation hmem.2)
    · rw [hturned.rotation_of_ne hy, List.mem_cons, or_iff_right hy]
  · intro y hy
    rw [h.timeSlot y hy, hturned.timeSlot]
  · intro y hy
    rw [h.rotation y hy]
    by_cases hyx : y = x
    · subst hyx
      rw [if_neg hx, if_pos List.mem_cons_self, hturned.rotation_self]
    · rw [hturned.rotation_of_ne hyx]
      apply if_congr (List.mem_cons.trans (or_iff_right hyx)).symm rfl rfl

theorem Swept.unlinked {w₁ : TimeWheel X} {ts : ℕ} (h : Swept w₁ w' ys)
    (hunlinked : Unlinked w w₁ ts x) (hx : x ∉ ys) (hrotation : w.rotation x = 0) :
  Swept w w' (x :: ys)
  := by
  have hne : ∀ y ∈ w'.heap.live, y ≠ x := by
    intro y hy
    have hmem := ((h.mem_live y).mp hy).1
    rw [hunlinked.live] at hmem
    apply Finset.ne_of_mem_erase hmem
  refine ⟨h.curSlot.trans hunlinked.curSlot, ?_, ?_, ?_⟩
  · intro y
    rw [h.mem_live, hunlinked.live, Finset.mem_erase]
    by_cases hy : y = x
    · subst hy
      exact iff_of_false (fun hmem => hmem.1.1 rfl)
        (fun hmem => hmem.2 ⟨List.mem_cons_self, hrotation⟩)
    · rw [hunlinked.rotation hy, List.mem_cons, or_iff_right hy, and_iff_right hy]
  · intro y hy
    rw [h.timeSlot y hy, hunlinked.timeSlot (hne y hy)]
  · intro y hy
    rw [h.rotation y hy, hunlinked.rotation (hne y hy)]
    apply if_congr (List.mem_cons.trans (or_iff_right (hne y hy))).symm rfl rfl

omit [DecidableEq X] in
/-- The timers that are due, when the rotation of another one has changed. -/
theorem filter_rotation {w₁ : TimeWheel X} (h : ∀ y ∈ ys, w₁.rotation y = w.rotation y) :
  ys.filter (fun y => w₁.rotation y = 0) = ys.filter (fun y => w.rotation y = 0)
  := by
  apply List.filter_congr
  intro y hy
  rw [h y hy]

theorem tickLoop_spec {fuel : ℕ} (h : Holds w L) (hcur : L w.curSlot = xs ++ ys)
    (hfuel : ys.length ≤ fuel) :
  ∃ w', tickLoop fuel w ys.head? = some (ys.filter (fun y => w.rotation y = 0), w') ∧
    Swept w w' ys ∧ ∃ L', Holds w' L'
  := by
  induction ys generalizing w L xs fuel with
  | nil => exact ⟨w, tickLoop_none fuel w, Swept.refl w, L, h⟩
  | cons x ys ih =>
      obtain ⟨fuel, rfl⟩ := Nat.exists_eq_succ_of_ne_zero (Nat.ne_zero_of_lt hfuel)
      have hplaced := h.placed hcur
      have hx : x ∉ ys := by
        intro hmem
        apply hplaced.others_ne x (List.mem_append_right xs hmem) rfl
      have hne : ∀ y ∈ ys, y ≠ x := by
        rintro y hy rfl
        apply hx hy
      by_cases hrotation : w.rotation x = 0
      · obtain ⟨w₁, hunlinked, hloop⟩ := tickLoop_due fuel hplaced hrotation
        have hcur₁ : Function.update L w.curSlot (xs ++ ys) w₁.curSlot = xs ++ ys := by
          rw [hunlinked.curSlot, Function.update_self]
        obtain ⟨w', hrest, hswept, hholds⟩ :=
          ih (h.unlink hcur hunlinked) hcur₁ (Nat.le_of_succ_le_succ hfuel)
        refine ⟨w', ?_, hswept.unlinked hunlinked hx hrotation, hholds⟩
        rw [List.head?_cons, hloop, hrest, List.filter_cons_of_pos (by simpa using hrotation),
          filter_rotation (fun y hy => hunlinked.rotation (hne y hy))]
        rfl
      · obtain ⟨w₁, hloop, hturned⟩ := tickLoop_turn fuel hplaced.live hrotation
        have hholds₁ : Holds w₁ L :=
          h.congr hturned.slots hturned.live hturned.next hturned.prev hturned.timeSlot
        have hcur₁ : L w₁.curSlot = (xs ++ [x]) ++ ys := by
          rw [hturned.curSlot, hcur, List.append_cons]
        obtain ⟨w', hrest, hswept, hholds⟩ := ih hholds₁ hcur₁ (Nat.le_of_succ_le_succ hfuel)
        refine ⟨w', ?_, hswept.turned hturned hx hrotation, hholds⟩
        rw [List.head?_cons, hloop, hplaced.next, hrest,
          List.filter_cons_of_neg (by simpa using hrotation),
          filter_rotation (fun y hy => hturned.rotation_of_ne (hne y hy))]

/-! ### The ticks that remain -/

omit [DecidableEq X] in
theorem remaining_congr (hcurSlot : w'.curSlot = w.curSlot)
    (htimeSlot : w'.timeSlot x = w.timeSlot x) (hrotation : w'.rotation x = w.rotation x) :
  w'.remaining x = w.remaining x
  := by
  rw [remaining, remaining, hcurSlot, htimeSlot, hrotation]

omit [DecidableEq X] in
theorem remaining_eq_zero_iff (hcurSlot : w.curSlot < N) (htimeSlot : w.timeSlot x < N) :
  w.remaining x = 0 ↔ w.timeSlot x = w.curSlot ∧ w.rotation x = 0
  := by
  unfold remaining
  unfold N at *
  omega

/-- The wheel turns on by one slot. -/
theorem remaining_turn {ts curSlot rotation : ℕ} (hts : ts < N) (hcurSlot : curSlot < N)
    (hdue : ¬ (ts = curSlot ∧ rotation = 0)) :
  (ts + N - (curSlot + 1) % N) % N +
      N * (if ts = curSlot then rotation - 1 else rotation) + 1 =
    (ts + N - curSlot) % N + N * rotation
  := by
  unfold N at *
  split_ifs with heq
  · subst heq
    omega
  · omega

/-- A timer that is put into the slot for it. -/
theorem remaining_new {curSlot n : ℕ} (hcurSlot : curSlot < N) :
  ((curSlot + n % N) % N + N - curSlot) % N + N * (n / N) = n
  := by
  unfold N at *
  omega

/-! ### The functions -/

/-- What `tick` does, if it runs the callbacks of `fired`. -/
structure Ticked (w w' : TimeWheel X) (fired : List X) : Prop where
  wellFormed : WellFormed w'
  nodup : fired.Nodup
  mem_fired : ∀ x, x ∈ fired ↔ x ∈ w.heap.live ∧ w.remaining x = 0
  mem_live : ∀ x, x ∈ w'.heap.live ↔ x ∈ w.heap.live ∧ w.remaining x ≠ 0
  remaining : ∀ x ∈ w'.heap.live, w'.remaining x + 1 = w.remaining x

theorem tick_spec (h : WellFormed w) :
  ∃ fired w', w.tick = some (fired, w') ∧ Ticked w w' fired
  := by
  obtain ⟨L, hholds⟩ := h.slots
  obtain ⟨tail, hstrand⟩ := hholds.strand w.curSlot
  have hfuel : (L w.curSlot).length ≤ w.heap.live.card := by
    apply hstrand.forward.length_le_card
    intro x hx
    exact ((hholds.mem_iff _ x).mp hx).1
  have hcur : L w.curSlot = [] ++ L w.curSlot := rfl
  obtain ⟨w', hloop, hswept, L', hholds'⟩ := tickLoop_spec hholds hcur hfuel
  have hdue : ∀ x ∈ w.heap.live,
      w.remaining x = 0 ↔ w.timeSlot x = w.curSlot ∧ w.rotation x = 0 := by
    intro x hx
    apply remaining_eq_zero_iff h.curSlot_lt (h.timeSlot_lt x hx)
  have hmem : ∀ x, x ∈ w'.heap.live ↔ x ∈ w.heap.live ∧ w.remaining x ≠ 0 := by
    intro x
    rw [hswept.mem_live, hholds.mem_iff]
    apply and_congr_right
    intro hx
    rw [and_iff_right hx, ← hdue x hx]
  use (L w.curSlot).filter (fun x => w.rotation x = 0),
    { w' with curSlot := (w'.curSlot + 1) % N }
  constructor
  · rw [tick, hstrand.head_eq, hloop]
    rfl
  · refine ⟨⟨⟨L', hholds'.congr rfl rfl rfl rfl rfl⟩, Nat.mod_lt _ (by decide), ?_⟩,
      hstrand.nodup.filter _, ?_, hmem, ?_⟩
    · intro x hx
      apply lt_of_eq_of_lt (hswept.timeSlot x hx)
      apply h.timeSlot_lt x ((hmem x).mp hx).1
    · intro x
      rw [List.mem_filter, decide_eq_true_eq, hholds.mem_iff, and_assoc]
      apply and_congr_right
      intro hx
      rw [hdue x hx]
    · intro x hx
      obtain ⟨hlive, hremaining⟩ := (hmem x).mp hx
      have hrotation : w'.rotation x =
          if w.timeSlot x = w.curSlot then w.rotation x - 1 else w.rotation x := by
        rw [hswept.rotation x hx]
        apply if_congr (by rw [hholds.mem_iff, and_iff_right hlive]) rfl rfl
      have hturn := remaining_turn (h.timeSlot_lt x hlive) h.curSlot_lt
        (fun hnow => hremaining ((hdue x hlive).mpr hnow))
      rw [← hrotation, ← hswept.timeSlot x hx] at hturn
      have hnow : ({ w' with curSlot := (w'.curSlot + 1) % N } : TimeWheel X).remaining x =
          (w'.timeSlot x + N - (w.curSlot + 1) % N) % N + N * w'.rotation x := by
        rw [← hswept.curSlot]
        rfl
      rw [hnow, hturn, hswept.timeSlot x hx]
      rfl

theorem Added.wellFormed {timeout : ℤ} (h : WellFormed w) (hadded : Added w w' timeout x) :
  WellFormed w' ∧ w'.remaining x = ticks timeout
  := by
  obtain ⟨L, hholds⟩ := h.slots
  refine ⟨⟨⟨_, hholds.add hadded⟩, ?_, ?_⟩, ?_⟩
  · rw [hadded.curSlot]
    apply h.curSlot_lt
  · intro y hy
    by_cases hyx : y = x
    · rw [hyx, hadded.timeSlot_self]
      apply Nat.mod_lt _ (by decide)
    · rw [hadded.live, Finset.mem_insert, or_iff_right hyx] at hy
      rw [hadded.timeSlot hyx]
      apply h.timeSlot_lt y hy
  · rw [TimeWheel.remaining, hadded.timeSlot_self, hadded.rotation_self, hadded.curSlot, slotFor]
    apply remaining_new h.curSlot_lt

theorem Added.remaining_of_ne {timeout : ℤ} (h : Added w w' timeout x) (hy : y ≠ x) :
  w'.remaining y = w.remaining y
  := by
  apply remaining_congr h.curSlot (h.timeSlot hy) (h.rotation hy)

/-- What `del_timer` does to a timer that lives. -/
structure Deleted (w w' : TimeWheel X) (x : X) : Prop where
  wellFormed : WellFormed w'
  live : w'.heap.live = w.heap.live.erase x
  remaining : ∀ y, y ≠ x → w'.remaining y = w.remaining y

theorem exists_delTimer (h : WellFormed w) (hx : x ∈ w.heap.live) :
  ∃ w', w.delTimer (some x) = some w' ∧ Deleted w w' x
  := by
  obtain ⟨L, hholds⟩ := h.slots
  obtain ⟨xs, ys, hsplit⟩ := List.append_of_mem ((hholds.mem_iff _ x).mpr ⟨hx, rfl⟩)
  obtain ⟨w', hdel, hunlinked⟩ := delTimer_spec (hholds.placed hsplit)
  refine ⟨w', hdel, ⟨⟨_, hholds.unlink hsplit hunlinked⟩, ?_, ?_⟩, hunlinked.live, ?_⟩
  · rw [hunlinked.curSlot]
    apply h.curSlot_lt
  · intro y hy
    rw [hunlinked.live, Finset.mem_erase] at hy
    rw [hunlinked.timeSlot hy.1]
    apply h.timeSlot_lt y hy.2
  · intro y hy
    apply remaining_congr hunlinked.curSlot (hunlinked.timeSlot hy) (hunlinked.rotation hy)

end TimingWheel
