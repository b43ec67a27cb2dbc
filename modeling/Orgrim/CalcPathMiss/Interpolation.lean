import Mathlib.Data.List.Range
import Orgrim.Theory.Signed
import Orgrim.Theory.Staircase

/-!
# Points of a path that are missing

`calc_path_miss.cpp` interpolates between two points of a path.  It walks along the axis on which
they are farther apart, one point for each value in between, and moves the other coordinate up in
proportion.  An `int` that overflows has no result.

The path is connected unless the points are equally far apart on both axes, or so far that the
product overflows; `SHRT_MAX` as a coordinate says that there is no last point
(`connects_iff`).
-/

namespace CalcPathMiss

/-! ### The source -/

/-- `SwpCoor`; the degree is not used. -/
structure SwpCoor where
  sCoorX : ℤ
  sCoorY : ℤ
deriving DecidableEq

/-- `SHRT_MAX` -/
def shrtMax : ℤ := 32767

/-- The conversion of an `int` to `short`. -/
def toShort (n : ℤ) : ℤ := n.bmod (2 ^ 16)

/-- The values of the loop variable: between `last` and `new`, in either direction. -/
def between (last new : ℤ) : List ℤ :=
  if last < new then (List.range (new - last - 1).toNat).map (fun k : ℕ => last + 1 + k)
  else (List.range (last - new - 1).toNat).map (fun k : ℕ => last - 1 - k)

/-- The coordinate `v` for the value `u` of the loop variable. -/
def interpolate (absU absV : ℕ) (lastU lastV newV u : ℤ) : Option ℤ := do
  let product ← Signed.eval 32 ((u - lastU).natAbs * ((absV : ℤ) - 1))
  let v := toShort (product.tdiv ((absU : ℤ) - 1))
  if lastV = newV then some lastV
  else if lastV < newV then some (toShort (lastV + 1 + v))
  else some (toShort (lastV - 1 - v))

/-- The loops along one axis; `point` makes a point of its coordinate on this axis and the other
one. -/
def interpolateAll (point : ℤ → ℤ → SwpCoor) (lastU lastV newU newV : ℤ) : Option (List SwpCoor) :=
  (between lastU newU).mapM (fun u =>
    (interpolate (lastU - newU).natAbs (lastV - newV).natAbs lastU lastV newV u).map (point u))

/-- The points that are printed for the last point and a new one. -/
def calcPathMiss (last new : SwpCoor) : Option (List SwpCoor) :=
  if last.sCoorX ≠ shrtMax ∧ last.sCoorY ≠ shrtMax then
    let absX := (last.sCoorX - new.sCoorX).natAbs
    let absY := (last.sCoorY - new.sCoorY).natAbs
    if 1 < absX ∨ 1 < absY then
      if absY ≤ absX then
        interpolateAll (fun x y => ⟨x, y⟩) last.sCoorX last.sCoorY new.sCoorX new.sCoorY
      else
        interpolateAll (fun y x => ⟨x, y⟩) last.sCoorY last.sCoorX new.sCoorY new.sCoorX
    else some []
  else some []

/-! ### Connected paths -/

/-- Two points are neighbours, or the same. -/
def Near (p q : SwpCoor) : Prop :=
  (p.sCoorX - q.sCoorX).natAbs ≤ 1 ∧ (p.sCoorY - q.sCoorY).natAbs ≤ 1

/-- A coordinate is not outside of two others. -/
def Within (last new c : ℤ) : Prop := (last ≤ c ∧ c ≤ new) ∨ (new ≤ c ∧ c ≤ last)

/-- A point is in the box with two opposite corners. -/
def InBox (last new p : SwpCoor) : Prop :=
  Within last.sCoorX new.sCoorX p.sCoorX ∧ Within last.sCoorY new.sCoorY p.sCoorY

/-- The points lead from one point to another. -/
structure Connects (last new : SwpCoor) (points : List SwpCoor) : Prop where
  inBox : ∀ p ∈ points, InBox last new p
  near : (last :: (points ++ [new])).IsChain Near

/-- What `point` does with the coordinates on the two axes. -/
structure IsPoint (point : ℤ → ℤ → SwpCoor) : Prop where
  near : ∀ u v u' v', Near (point u v) (point u' v') ↔ (u - u').natAbs ≤ 1 ∧ (v - v').natAbs ≤ 1
  inBox : ∀ lastU lastV newU newV u v,
    InBox (point lastU lastV) (point newU newV) (point u v) ↔
      Within lastU newU u ∧ Within lastV newV v

theorem isPoint_mk :
  IsPoint (fun x y => ⟨x, y⟩)
  := by
  constructor
  · intro u v u' v'
    rfl
  · intro lastU lastV newU newV u v
    rfl

theorem isPoint_swap :
  IsPoint (fun y x => ⟨x, y⟩)
  := by
  constructor
  · intro u v u' v'
    apply and_comm
  · intro lastU lastV newU newV u v
    apply and_comm

/-! ### The ascent -/

/-- How far the other coordinate has moved after `j` steps. -/
def rise (a b j : ℕ) : ℕ :=
  if j = 0 ∨ b = 0 then 0 else 1 + Staircase.height (b - 1) (a - 1) j

variable {a b j : ℕ}

theorem rise_zero (a b : ℕ) :
  rise a b 0 = 0
  := if_pos (Or.inl rfl)

theorem rise_self (hlt : b < a) :
  rise a b a = b
  := by
  rw [rise]
  split
  · omega
  · have hheight := Staircase.height_succ_self (m := b - 1) (n := a - 1) (by omega)
    rw [Nat.sub_add_cancel (by omega)] at hheight
    rw [hheight]
    omega

theorem rise_step (hlt : b < a) (j : ℕ) :
  rise a b j ≤ rise a b (j + 1) ∧ rise a b (j + 1) ≤ rise a b j + 1
  := by
  by_cases hb : b = 0
  · rw [rise, if_pos (Or.inr hb), rise, if_pos (Or.inr hb)]
    omega
  cases j with
  | zero =>
      rw [rise_zero, rise, if_neg (by omega), Staircase.height_one (by omega)]
      omega
  | succ j =>
      have hup := Staircase.height_mono (b - 1) (a - 1) (Nat.le_add_right (j + 1) 1)
      have hone := Staircase.height_succ_le (m := b - 1) (n := a - 1) (by omega) (by omega) (j + 1)
      rw [rise, if_neg (by omega), rise, if_neg (by omega)]
      omega

theorem rise_le (hj : j < a) :
  rise a b j ≤ b
  := by
  rw [rise]
  split
  · apply Nat.zero_le
  · have hheight := Staircase.height_mono (b - 1) (a - 1) (Nat.le_sub_one_of_lt hj)
    rw [Staircase.height_self (by omega)] at hheight
    omega

/-- With as many heights as steps the first step is two high. -/
theorem rise_one_self (ha : 2 ≤ a) :
  rise a a 1 = 2
  := by
  rw [rise, if_neg (by omega), Staircase.height, Nat.one_mul, Nat.div_self (by omega)]

/-! ### The coordinates -/

/-- The coordinate `j` steps behind `last`, on the way to `new`. -/
def along (last new : ℤ) (j : ℕ) : ℤ :=
  if last = new then last else if last < new then last + j else last - j

variable {last new lastU lastV newU newV : ℤ} {point : ℤ → ℤ → SwpCoor}

theorem along_zero (last new : ℤ) :
  along last new 0 = last
  := by
  rw [along]
  split_ifs
  · rfl
  · apply Int.add_zero
  · apply Int.sub_zero

theorem along_natAbs (last new : ℤ) :
  along last new (last - new).natAbs = new
  := by
  rw [along]
  split_ifs
  · assumption
  · omega
  · omega

theorem within_along (hj : j ≤ (last - new).natAbs) :
  Within last new (along last new j)
  := by
  rw [Within, along]
  split_ifs
  · omega
  · omega
  · omega

/-- A step is not longer than it should be. -/
theorem along_near (last new : ℤ) {k : ℕ} (hle : j ≤ k) (hone : k ≤ j + 1) :
  (along last new j - along last new k).natAbs ≤ 1
  := by
  rw [along, along]
  split_ifs
  · omega
  · omega
  · omega

/-- The loop visits all values in between. -/
theorem between_eq (hne : last ≠ new) :
  between last new
    = (List.range ((last - new).natAbs - 1)).map (fun k => along last new (k + 1))
  := by
  rw [between]
  split
  · rename_i hlt
    have hlength : (new - last - 1).toNat = (last - new).natAbs - 1 := by omega
    rw [hlength]
    apply List.map_congr_left
    intro k _
    rw [along, if_neg hne, if_pos hlt]
    omega
  · rename_i hnot
    have hlength : (last - new - 1).toNat = (last - new).natAbs - 1 := by omega
    rw [hlength]
    apply List.map_congr_left
    intro k _
    rw [along, if_neg hne, if_neg hnot]
    omega

theorem toShort_eq {n : ℤ} (h : Signed.Fits 16 n) :
  toShort n = n
  := by
  rw [Signed.fits_short] at h
  apply (Int.bmod_eq_iff (by decide)).mpr
  omega

/-- The conversion of a term of a sum does not matter. -/
theorem toShort_add (n m : ℤ) :
  toShort (n + toShort m) = toShort (n + m)
  := Int.add_bmod_bmod

theorem toShort_sub (n m : ℤ) :
  toShort (n - toShort m) = toShort (n - m)
  := Int.sub_bmod_bmod

/-- The product overflows if it is too large. -/
theorem eval_product {k : ℕ} (hj : j < 2 ^ 16) (hj' : 0 < j) :
  Signed.eval 32 ((j : ℤ) * ((k : ℤ) - 1)) =
    if j * (k - 1) < 2 ^ 31 then some ((j : ℤ) * ((k : ℤ) - 1)) else none
  := by
  have hfits : Signed.Fits 32 ((j : ℤ) * ((k : ℤ) - 1)) ↔ j * (k - 1) < 2 ^ 31 := by
    rw [Signed.fits_int]
    cases k with
    | zero => omega
    | succ k =>
        have hcast : (j : ℤ) * (((k + 1 : ℕ) : ℤ) - 1) = ((j * k : ℕ) : ℤ) := by
          push_cast
          rw [Int.add_sub_cancel]
        rw [hcast, Nat.add_sub_cancel]
        omega
  simp only [Signed.eval, hfits]

/-- The other coordinate moves as far as `rise` says, unless the product overflows. -/
theorem interpolate_eq (hu : j < (lastU - newU).natAbs) (hbound : j < 2 ^ 16) (hj : 0 < j)
    (hlast : Signed.Fits 16 lastV) (hnew : Signed.Fits 16 newV)
    (hle : rise (lastU - newU).natAbs (lastV - newV).natAbs j ≤ (lastV - newV).natAbs) :
  interpolate (lastU - newU).natAbs (lastV - newV).natAbs lastU lastV newV (along lastU newU j) =
    if j * ((lastV - newV).natAbs - 1) < 2 ^ 31 then
      some (along lastV newV (rise (lastU - newU).natAbs (lastV - newV).natAbs j))
    else none
  := by
  have hsteps : (along lastU newU j - lastU).natAbs = j := by
    rw [along]
    split_ifs
    · omega
    · omega
    · omega
  rw [interpolate, hsteps, eval_product hbound hj]
  split
  · rw [Option.bind_eq_bind, Option.bind_some, along]
    dsimp only
    split
    · rfl
    · rename_i hne
      have hrise : rise (lastU - newU).natAbs (lastV - newV).natAbs j
          = 1 + Staircase.height ((lastV - newV).natAbs - 1) ((lastU - newU).natAbs - 1) j := by
        rw [rise, if_neg (by omega)]
      have hquotient : ((j : ℤ) * (((lastV - newV).natAbs : ℤ) - 1)).tdiv
          (((lastU - newU).natAbs : ℤ) - 1)
          = (Staircase.height ((lastV - newV).natAbs - 1) ((lastU - newU).natAbs - 1) j : ℤ) := by
        rw [Staircase.height, Int.ofNat_tdiv, Int.natCast_mul, Int.natCast_sub (by omega),
          Int.natCast_sub (by omega)]
        rfl
      rw [Signed.fits_short] at hlast hnew
      rw [hrise] at hle ⊢
      rw [hquotient]
      split
      · rw [toShort_add, toShort_eq]
        · push_cast
          rw [Int.add_assoc]
        · rw [Signed.fits_short]
          omega
      · rw [toShort_sub, toShort_eq]
        · push_cast
          rw [Int.sub_sub]
        · rw [Signed.fits_short]
          omega
  · rfl

/-! ### The points along one axis -/

/-- The point after `j` steps. -/
def pointAt (point : ℤ → ℤ → SwpCoor) (lastU lastV newU newV : ℤ) (j : ℕ) : SwpCoor :=
  point (along lastU newU j)
    (along lastV newV (rise (lastU - newU).natAbs (lastV - newV).natAbs j))

theorem mapM_of_forall {α β : Type} {f : α → Option β} {g : α → β} {xs : List α}
    (h : ∀ x ∈ xs, f x = some (g x)) :
  xs.mapM f = some (xs.map g)
  := by
  induction xs with
  | nil => rfl
  | cons x xs ih =>
      rw [List.forall_mem_cons] at h
      rw [List.mapM_cons, h.1, ih h.2]
      rfl

theorem mapM_of_mem {α β : Type} {f : α → Option β} {xs : List α} {x : α} (hx : x ∈ xs)
    (h : f x = none) :
  xs.mapM f = none
  := by
  induction xs with
  | nil => cases hx
  | cons y xs ih =>
      rw [List.mapM_cons]
      rcases List.mem_cons.mp hx with rfl | hx
      · rw [h]
        rfl
      · rw [ih hx]
        cases f y with
        | none => rfl
        | some z => rfl

/-- The points are far apart on one axis, and not farther on the other one. -/
structure Spans (lastU lastV newU newV : ℤ) : Prop where
  shortU : Signed.Fits 16 lastU ∧ Signed.Fits 16 newU
  shortV : Signed.Fits 16 lastV ∧ Signed.Fits 16 newV
  two : 2 ≤ (lastU - newU).natAbs
  le : (lastV - newV).natAbs ≤ (lastU - newU).natAbs

/-- The largest product. -/
def largest (lastU lastV newU newV : ℤ) : ℕ :=
  ((lastU - newU).natAbs - 1) * ((lastV - newV).natAbs - 1)

theorem Spans.interpolate_eq (h : Spans lastU lastV newU newV) (hj : 0 < j)
    (hlt : j < (lastU - newU).natAbs) :
  (interpolate (lastU - newU).natAbs (lastV - newV).natAbs lastU lastV newV
      (along lastU newU j)).map (point (along lastU newU j)) =
    if j * ((lastV - newV).natAbs - 1) < 2 ^ 31 then
      some (pointAt point lastU lastV newU newV j)
    else none
  := by
  have hshort := h.shortU
  rw [Signed.fits_short, Signed.fits_short] at hshort
  rw [CalcPathMiss.interpolate_eq hlt (by omega) hj h.shortV.1 h.shortV.2 (rise_le hlt)]
  split
  · rfl
  · rfl

/-- The points, unless a product overflows. -/
theorem Spans.interpolateAll_eq (h : Spans lastU lastV newU newV)
    (point : ℤ → ℤ → SwpCoor) :
  interpolateAll point lastU lastV newU newV =
    if largest lastU lastV newU newV < 2 ^ 31 then
      some ((List.range ((lastU - newU).natAbs - 1)).map
        (fun k => pointAt point lastU lastV newU newV (k + 1)))
    else none
  := by
  have htwo := h.two
  have hne : lastU ≠ newU := by omega
  rw [interpolateAll, between_eq hne, List.mapM_map]
  split
  · rename_i hlargest
    apply mapM_of_forall
    intro k hk
    rw [List.mem_range] at hk
    dsimp only [Function.comp]
    rw [h.interpolate_eq (Nat.succ_pos k) (by omega), if_pos]
    apply Nat.lt_of_le_of_lt (Nat.mul_le_mul_right _ _) hlargest
    omega
  · rename_i hlargest
    have hlast : (lastU - newU).natAbs - 2 ∈ List.range ((lastU - newU).natAbs - 1) := by
      rw [List.mem_range]
      omega
    apply mapM_of_mem hlast
    dsimp only [Function.comp]
    have hj : (lastU - newU).natAbs - 2 + 1 = (lastU - newU).natAbs - 1 := by omega
    rw [hj, h.interpolate_eq (by omega) (by omega)]
    apply if_neg hlargest

theorem pointAt_zero :
  pointAt point lastU lastV newU newV 0 = point lastU lastV
  := by
  rw [pointAt, rise_zero, along_zero, along_zero]

theorem pointAt_last (hlt : (lastV - newV).natAbs < (lastU - newU).natAbs) :
  pointAt point lastU lastV newU newV (lastU - newU).natAbs = point newU newV
  := by
  rw [pointAt, rise_self hlt, along_natAbs, along_natAbs]

/-- A step leads to a neighbour. -/
theorem near_pointAt (hpoint : IsPoint point)
    (hlt : (lastV - newV).natAbs < (lastU - newU).natAbs) (j : ℕ) :
  Near (pointAt point lastU lastV newU newV j) (pointAt point lastU lastV newU newV (j + 1))
  := by
  have hstep := rise_step hlt j
  apply (hpoint.near _ _ _ _).mpr
  constructor
  · apply along_near _ _ (Nat.le_succ j) (Nat.le_refl _)
  · apply along_near _ _ hstep.1 hstep.2

theorem inBox_pointAt (hpoint : IsPoint point) (hj : j < (lastU - newU).natAbs) :
  InBox (point lastU lastV) (point newU newV) (pointAt point lastU lastV newU newV j)
  := by
  apply (hpoint.inBox _ _ _ _ _ _).mpr
  constructor
  · apply within_along (Nat.le_of_lt hj)
  · apply within_along (rise_le hj)

/-- The path from the last point to the new one. -/
theorem path_eq (f : ℕ → SwpCoor) (n : ℕ) :
  f 0 :: ((List.range n).map (fun k => f (k + 1)) ++ [f (n + 1)]) = (List.range (n + 2)).map f
  := by
  rw [List.range_succ_eq_map, List.range_succ, List.map_cons, List.map_append, List.map_append,
    List.map_map]
  rfl

/-- The points along an axis connect exactly if the other axis is shorter. -/
theorem Spans.connects_map_iff (h : Spans lastU lastV newU newV) (hpoint : IsPoint point) :
  Connects (point lastU lastV) (point newU newV)
      ((List.range ((lastU - newU).natAbs - 1)).map
        (fun k => pointAt point lastU lastV newU newV (k + 1)))
    ↔ (lastV - newV).natAbs ≠ (lastU - newU).natAbs
  := by
  have htwo := h.two
  have hle := h.le
  constructor
  · intro hconnects heq
    have hrange : List.range ((lastU - newU).natAbs - 1)
        = 0 :: (List.range ((lastU - newU).natAbs - 2)).map Nat.succ := by
      rw [← List.range_succ_eq_map]
      congr 1
      omega
    have hnear := hconnects.near
    rw [hrange, List.map_cons, List.cons_append, List.isChain_cons_cons] at hnear
    have hfirst := ((hpoint.near _ _ _ _).mp hnear.1).2
    -- the first step is two high
    rw [heq, rise_one_self htwo, along] at hfirst
    split_ifs at hfirst
    · omega
    · omega
    · omega
  · intro hne
    have hlt := Nat.lt_of_le_of_ne hle hne
    constructor
    · intro p hp
      obtain ⟨k, hk, rfl⟩ := List.mem_map.mp hp
      rw [List.mem_range] at hk
      apply inBox_pointAt hpoint
      omega
    · have hpath := path_eq (pointAt point lastU lastV newU newV) ((lastU - newU).natAbs - 1)
      rw [Nat.sub_add_cancel (by omega), pointAt_zero, pointAt_last hlt] at hpath
      rw [hpath, List.isChain_map, List.isChain_range_succ]
      intro j _
      apply near_pointAt hpoint hlt

theorem Spans.exists_connects_iff (h : Spans lastU lastV newU newV) (hpoint : IsPoint point) :
  (∃ points, interpolateAll point lastU lastV newU newV = some points ∧
      Connects (point lastU lastV) (point newU newV) points) ↔
    (lastV - newV).natAbs ≠ (lastU - newU).natAbs ∧ largest lastU lastV newU newV < 2 ^ 31
  := by
  rw [h.interpolateAll_eq point, ← h.connects_map_iff hpoint]
  split
  · rename_i hlargest
    simp only [Option.some_inj, exists_eq_left', hlargest, and_true]
  · rename_i hlargest
    simp only [reduceCtorEq, false_and, exists_false, hlargest, and_false]

/-! ### The interpolation -/

/-- The interpolation connects two points that are far apart exactly if there is a last point, and
they are not equally far apart on both axes, nor so far that a product overflows. -/
theorem connects_iff {last new : SwpCoor}
    (hlast : Signed.Fits 16 last.sCoorX ∧ Signed.Fits 16 last.sCoorY)
    (hnew : Signed.Fits 16 new.sCoorX ∧ Signed.Fits 16 new.sCoorY)
    (hfar : 1 < (last.sCoorX - new.sCoorX).natAbs ∨ 1 < (last.sCoorY - new.sCoorY).natAbs) :
  (∃ points, calcPathMiss last new = some points ∧ Connects last new points) ↔
    last.sCoorX ≠ shrtMax ∧ last.sCoorY ≠ shrtMax ∧
      (last.sCoorX - new.sCoorX).natAbs ≠ (last.sCoorY - new.sCoorY).natAbs ∧
      ((last.sCoorX - new.sCoorX).natAbs - 1) * ((last.sCoorY - new.sCoorY).natAbs - 1) < 2 ^ 31
  := by
  rw [calcPathMiss, ← and_assoc]
  split
  · rename_i hpoint
    rw [if_pos hfar]
    simp only [hpoint, ne_eq, not_false_eq_true, and_self, true_and]
    split
    · rename_i hle
      have hspans : Spans last.sCoorX last.sCoorY new.sCoorX new.sCoorY := by
        constructor
        · apply And.intro hlast.1 hnew.1
        · apply And.intro hlast.2 hnew.2
        · omega
        · apply hle
      rw [hspans.exists_connects_iff isPoint_mk, ne_comm]
      rfl
    · rename_i hlt
      have hspans : Spans last.sCoorY last.sCoorX new.sCoorY new.sCoorX := by
        constructor
        · apply And.intro hlast.2 hnew.2
        · apply And.intro hlast.1 hnew.1
        · omega
        · omega
      have hlargest : largest last.sCoorY last.sCoorX new.sCoorY new.sCoorX
          = ((last.sCoorX - new.sCoorX).natAbs - 1) * ((last.sCoorY - new.sCoorY).natAbs - 1) :=
        Nat.mul_comm _ _
      rw [hspans.exists_connects_iff isPoint_swap, hlargest]
  · rename_i hnone
    simp only [Option.some_inj, exists_eq_left', hnone, false_and, iff_false]
    intro hconnects
    have hnear := hconnects.near
    rw [List.nil_append, List.isChain_pair] at hnear
    have hboth := hnear
    rw [Near] at hboth
    omega

/-- From one point to a distant one. -/
theorem connects_three :
  ∃ points, calcPathMiss ⟨20, 100⟩ ⟨21, 130⟩ = some points ∧ Connects ⟨20, 100⟩ ⟨21, 130⟩ points
  := by
  apply (connects_iff _ _ _).mpr
  · decide
  · decide
  · decide
  · decide

/-- On a diagonal the first point is `(1, 2)`, which is no neighbour of `(0, 0)`. -/
theorem not_connects_diagonal :
  calcPathMiss ⟨0, 0⟩ ⟨3, 3⟩ = some [⟨1, 2⟩, ⟨2, 3⟩] ∧
    ¬ ∃ points, calcPathMiss ⟨0, 0⟩ ⟨3, 3⟩ = some points ∧ Connects ⟨0, 0⟩ ⟨3, 3⟩ points
  := by
  have hpoints : calcPathMiss ⟨0, 0⟩ ⟨3, 3⟩ = some [⟨1, 2⟩, ⟨2, 3⟩] := by decide
  use hpoints
  rintro ⟨points, hsome, hconnects⟩
  rw [hpoints, Option.some_inj] at hsome
  subst hsome
  have hnear := (List.isChain_cons_cons.mp hconnects.near).1
  apply absurd hnear.2
  decide

end CalcPathMiss
