import Mathlib.Logic.Function.Basic
import Orgrim.Theory.Chain

/-!
# Links in both directions

Several chains are given by their heads and a function `next`; `Reached` are their nodes.  A
second function `pre` mirrors the links: `pre` of a head points to nothing, `pre` of the node
after `x` points to `x`, and no node is the head of two chains.  Since `pre` is determined, a node
is reached in one way only.

What is done to the links of mirrored chains is one of a few edits: a node is put in front, behind
or in between, it is taken off the front or from between, links are dropped (`Mirrored.mono`), or
one chain takes the place of another.  For each there is a lemma that the links are mirrored again
and no other nodes are reached.
-/

namespace Links

variable {ι α : Type*}

/-- The nodes of the chains with the given heads. -/
def Reached (heads : ι → Option α) (next : α → Option α) (x : α) : Prop :=
  ∃ l, Reaches next (heads l) x

/-- Every link of the chains is mirrored by `pre`. -/
structure Mirrored (heads : ι → Option α) (next pre : α → Option α) : Prop where
  head : ∀ l x, heads l = some x → pre x = none
  link : ∀ x y, Reached heads next x → next x = some y → pre y = some x
  inj : ∀ l l' x, heads l = some x → heads l' = some x → l = l'

variable {heads heads' : ι → Option α} {next next' pre pre' : α → Option α} {l : ι} {x y t : α}

/-! ### Nodes that are reached -/

theorem Reached.of_head (h : heads l = some x) :
  Reached heads next x
  := ⟨l, Reaches.here h⟩

theorem Reached.of_link (h : Reached heads next x) (hnext : next x = some y) :
  Reached heads next y
  := by
  obtain ⟨l, h⟩ := h
  exact ⟨l, h.there hnext⟩

theorem Reached.induct {P : α → Prop} (h : Reached heads next x)
    (hhead : ∀ l x, heads l = some x → P x)
    (hlink : ∀ x y, Reached heads next x → P x → next x = some y → P y) :
  P x
  := by
  obtain ⟨l, h⟩ := h
  induction h with
  | here hx => apply hhead l _ hx
  | there hx hy ih => apply hlink _ _ ⟨l, hx⟩ ih hy

/-- A node is reached since it is a head, or since a link of a node leads there. -/
theorem Reached.cases (h : Reached heads next x) :
  (∃ l, heads l = some x) ∨ ∃ y, Reached heads next y ∧ next y = some x
  := by
  obtain ⟨l, h⟩ := h
  cases h with
  | here hx => apply Or.inl ⟨l, hx⟩
  | there hy hx => apply Or.inr ⟨_, ⟨l, hy⟩, hx⟩

/-- What one can tell from `pre` of a node. -/
theorem Mirrored.cases (h : Mirrored heads next pre) (hx : Reached heads next x) :
  (∃ l, heads l = some x) ∧ pre x = none ∨
    ∃ y, Reached heads next y ∧ next y = some x ∧ pre x = some y
  := by
  rcases hx.cases with ⟨l, hl⟩ | ⟨y, hy, hnext⟩
  · apply Or.inl ⟨⟨l, hl⟩, h.head l x hl⟩
  · apply Or.inr ⟨y, hy, hnext, h.link y x hy hnext⟩

theorem Mirrored.pre_ne_self (h : Mirrored heads next pre) (hx : Reached heads next x) :
  pre x ≠ some x
  := by
  apply hx.induct
  · intro l x hl
    rw [h.head l x hl]
    exact (Option.some_ne_none x).symm
  · intro y x hy ih hnext heq
    rw [h.link y x hy hnext] at heq
    obtain rfl := Option.some.inj heq
    apply ih (h.link y y hy hnext)

/-- A node without a `pre` cannot be reached if it is no head. -/
theorem Mirrored.not_reached_of_head (h : Mirrored heads next pre) (hpre : pre x = none)
    (hheads : ∀ l, heads l ≠ some x) :
  ¬ Reached heads next x
  := by
  intro hx
  rcases h.cases hx with ⟨⟨l, hl⟩, -⟩ | ⟨y, -, -, hy⟩
  · apply hheads l hl
  · rw [hpre] at hy
    apply Option.some_ne_none y hy.symm

/-- A node cannot be reached if its `pre` does not link to it. -/
theorem Mirrored.not_reached_of_link (h : Mirrored heads next pre) (hpre : pre x = some t)
    (hnext : next t ≠ some x) :
  ¬ Reached heads next x
  := by
  intro hx
  rcases h.cases hx with ⟨-, hnone⟩ | ⟨y, -, hyx, hy⟩
  · rw [hpre] at hnone
    apply Option.some_ne_none t hnone
  · rw [hpre] at hy
    obtain rfl := Option.some.inj hy
    apply hnext hyx

/-- A node that cannot be reached, and whose links are mirrored, leads to no node that can be
reached. -/
theorem Mirrored.not_reached {p : Option α} (h : Mirrored heads next pre)
    (hp : ∀ x, p = some x → ¬ Reached heads next x)
    (hlink : ∀ x y, Reaches next p x → next x = some y → pre y = some x)
    (hx : Reaches next p x) :
  ¬ Reached heads next x
  := by
  induction hx with
  | here hx => apply hp _ hx
  | @there x y hx hnext ih =>
      intro hy
      have hpre := hlink x y hx hnext
      rcases h.cases hy with ⟨-, hnone⟩ | ⟨z, hz, -, hpre'⟩
      · rw [hpre] at hnone
        apply Option.some_ne_none x hnone
      · rw [hpre] at hpre'
        obtain rfl := Option.some.inj hpre'
        apply ih hz

/-- A link that is left when one is dropped. -/
theorem update_none_eq_some {β : Type*} [DecidableEq β] {f : β → Option α} {a b : β} :
  Function.update f a none b = some x ↔ b ≠ a ∧ f b = some x
  := by
  by_cases hb : b = a
  · rw [hb, Function.update_self]
    apply iff_of_false (Option.some_ne_none x).symm (fun h => h.1 rfl)
  · rw [Function.update_of_ne hb]
    exact (and_iff_right hb).symm

/-! ### Edits -/

/-- The heads may change places, and links may be dropped. -/
theorem Mirrored.rearrange (h : Mirrored heads next pre)
    (hheads : ∀ l x, heads' l = some x → ∃ k, heads k = some x)
    (hinj : ∀ l l' x, heads' l = some x → heads' l' = some x → l = l')
    (hnext : ∀ x y, Reached heads next x → next' x = some y → next x = some y)
    (hpre : ∀ x, Reached heads next x → pre' x = pre x) :
  Mirrored heads' next' pre' ∧ ∀ x, Reached heads' next' x → Reached heads next x
  := by
  have hreach : ∀ x, Reached heads' next' x → Reached heads next x := by
    intro x hx
    apply hx.induct
    · intro l x hl
      obtain ⟨k, hk⟩ := hheads l x hl
      apply Reached.of_head hk
    · intro x y _ hx hy
      apply hx.of_link (hnext x y hx hy)
  refine ⟨⟨?_, ?_, hinj⟩, hreach⟩
  · intro l x hl
    obtain ⟨k, hk⟩ := hheads l x hl
    rw [hpre x (Reached.of_head hk)]
    apply h.head k x hk
  · intro x y hx hy
    have hx' := hreach x hx
    have hy' := hnext x y hx' hy
    rw [hpre y (hx'.of_link hy')]
    apply h.link x y hx' hy'

/-- Heads and links may be dropped. -/
theorem Mirrored.mono (h : Mirrored heads next pre)
    (hheads : ∀ l x, heads' l = some x → heads l = some x)
    (hnext : ∀ x y, Reached heads next x → next' x = some y → next x = some y)
    (hpre : ∀ x, Reached heads next x → pre' x = pre x) :
  Mirrored heads' next' pre' ∧ ∀ x, Reached heads' next' x → Reached heads next x
  := by
  apply h.rearrange _ _ hnext hpre
  · intro l x hl
    exact ⟨l, hheads l x hl⟩
  · intro l l' x hl hl'
    apply h.inj l l' x (hheads l x hl) (hheads l' x hl')

/-- A node is put behind the node `t`; the links from there on may be dropped. -/
theorem Mirrored.insert {v : Option α} (h : Mirrored heads next pre)
    (hx : ¬ Reached heads next x) (hv : ∀ y, v = some y → Reached heads next t ∧ next t = some y)
    (ht : next' t = some x) (hxv : t ≠ x → next' x = v)
    (hnext : ∀ y, y ≠ t → y ≠ x → next' y = next y)
    (hpre : pre' x = some t) (hafter : ∀ y, v = some y → pre' y = some x)
    (hothers : ∀ y, y ≠ x → v ≠ some y → pre' y = pre y) :
  Mirrored heads next' pre' ∧ ∀ y, Reached heads next' y → y = x ∨ Reached heads next y
  := by
  have hne : ∀ y, Reached heads next y → y ≠ x := by
    rintro y hy rfl
    apply hx hy
  have hreach : ∀ y, Reached heads next' y →
      y = x ∧ Reached heads next t ∨ Reached heads next y := by
    intro y hy
    apply hy.induct
    · intro l y hl
      apply Or.inr (Reached.of_head hl)
    · rintro z y - (⟨rfl, hz⟩ | hz) hy
      · rw [hxv (hne t hz)] at hy
        apply Or.inr (hz.of_link (hv y hy).2)
      · by_cases hzt : z = t
        · rw [hzt, ht] at hy
          apply Or.inl ⟨(Option.some.inj hy).symm, hzt ▸ hz⟩
        · rw [hnext z hzt (hne z hz)] at hy
          apply Or.inr (hz.of_link hy)
  refine ⟨⟨?_, ?_, h.inj⟩, fun y hy => (hreach y hy).imp_left And.left⟩
  · intro l y hl
    have hnone := h.head l y hl
    rw [hothers y (hne y (Reached.of_head hl)), hnone]
    intro heq
    obtain ⟨ht, hty⟩ := hv y heq
    rw [h.link t y ht hty] at hnone
    apply Option.some_ne_none t hnone
  · intro z y hz hy
    rcases hreach z hz with ⟨rfl, hz⟩ | hz
    · rw [hxv (hne t hz)] at hy
      apply hafter y hy
    · by_cases hzt : z = t
      · rw [hzt, ht] at hy
        obtain rfl := Option.some.inj hy
        rw [hpre, hzt]
      · rw [hnext z hzt (hne z hz)] at hy
        have hlink := h.link z y hz hy
        rw [hothers y (hne y (hz.of_link hy)), hlink]
        intro heq
        obtain ⟨ht, hty⟩ := hv y heq
        rw [h.link t y ht hty] at hlink
        apply hzt (Option.some.inj hlink).symm

variable [DecidableEq ι] [DecidableEq α]

/-- A node is put before the head of a chain. -/
theorem Mirrored.push {v : Option α} (h : Mirrored heads next pre) (hv : heads l = v)
    (hx : ¬ Reached heads next x) (hpre : pre' x = none)
    (hfirst : ∀ y, v = some y → pre' y = some x)
    (hothers : ∀ y, y ≠ x → v ≠ some y → pre' y = pre y) :
  Mirrored (Function.update heads l (some x)) (Function.update next x v) pre' ∧
    ∀ y, Reached (Function.update heads l (some x)) (Function.update next x v) y →
      y = x ∨ Reached heads next y
  := by
  obtain rfl := hv
  have hne : ∀ y, Reached heads next y → y ≠ x := by
    rintro y hy rfl
    apply hx hy
  have hheads : ∀ l' y, Function.update heads l (some x) l' = some y →
      l' = l ∧ y = x ∨ l' ≠ l ∧ heads l' = some y := by
    intro l' y hl
    by_cases hl' : l' = l
    · rw [hl', Function.update_self] at hl
      apply Or.inl ⟨hl', (Option.some.inj hl).symm⟩
    · rw [Function.update_of_ne hl'] at hl
      apply Or.inr ⟨hl', hl⟩
  have hreach : ∀ y,
      Reached (Function.update heads l (some x)) (Function.update next x (heads l)) y →
        y = x ∨ Reached heads next y := by
    intro y hy
    apply hy.induct
    · intro l' y hl
      rcases hheads l' y hl with ⟨-, heq⟩ | ⟨-, hl⟩
      · apply Or.inl heq
      · apply Or.inr (Reached.of_head hl)
    · rintro z y - (rfl | hz) hnext
      · rw [Function.update_self] at hnext
        apply Or.inr (Reached.of_head hnext)
      · rw [Function.update_of_ne (hne z hz)] at hnext
        apply Or.inr (hz.of_link hnext)
  refine ⟨⟨?_, ?_, ?_⟩, hreach⟩
  · intro l' y hl
    rcases hheads l' y hl with ⟨-, rfl⟩ | ⟨hl', hl⟩
    · exact hpre
    · rw [hothers y (hne y (Reached.of_head hl)) (fun heq => hl' (h.inj l' l y hl heq))]
      apply h.head l' y hl
  · intro z y hz hnext
    rcases hreach z hz with rfl | hz
    · rw [Function.update_self] at hnext
      apply hfirst y hnext
    · rw [Function.update_of_ne (hne z hz)] at hnext
      have hlink := h.link z y hz hnext
      rw [hothers y (hne y (hz.of_link hnext)), hlink]
      intro heq
      rw [h.head l y heq] at hlink
      apply Option.some_ne_none z hlink.symm
  · intro l₁ l₂ y hl₁ hl₂
    rcases hheads l₁ y hl₁ with ⟨hl, rfl⟩ | ⟨-, hl⟩
    · rcases hheads l₂ y hl₂ with ⟨hl', -⟩ | ⟨-, hl'⟩
      · rw [hl, hl']
      · exact absurd (Reached.of_head hl') hx
    · rcases hheads l₂ y hl₂ with ⟨-, rfl⟩ | ⟨-, hl'⟩
      · exact absurd (Reached.of_head hl) hx
      · apply h.inj l₁ l₂ y hl hl'

/-- The head of a chain is taken off. -/
theorem Mirrored.pop {v : Option α} (h : Mirrored heads next pre) (hx : heads l = some x)
    (hv : next x = v) (hfirst : ∀ y, v = some y → pre' y = none)
    (hothers : ∀ y, v ≠ some y → pre' y = pre y) :
  Mirrored (Function.update heads l v) (Function.update next x none) pre' ∧
    ∀ y, Reached (Function.update heads l v) (Function.update next x none) y →
      Reached heads next y
  := by
  obtain rfl := hv
  have hreached : Reached heads next x := Reached.of_head hx
  have hheads : ∀ l' y, Function.update heads l (next x) l' = some y →
      l' = l ∧ next x = some y ∨ l' ≠ l ∧ heads l' = some y ∧ next x ≠ some y := by
    intro l' y hl
    by_cases hl' : l' = l
    · rw [hl', Function.update_self] at hl
      apply Or.inl ⟨hl', hl⟩
    · rw [Function.update_of_ne hl'] at hl
      refine Or.inr ⟨hl', hl, ?_⟩
      intro hnext
      have hnone := h.head l' y hl
      rw [h.link x y hreached hnext] at hnone
      apply Option.some_ne_none x hnone
  have hreach : ∀ y,
      Reached (Function.update heads l (next x)) (Function.update next x none) y →
        Reached heads next y := by
    intro y hy
    apply hy.induct
    · intro l' y hl
      rcases hheads l' y hl with ⟨-, hnext⟩ | ⟨-, hl, -⟩
      · apply hreached.of_link hnext
      · apply Reached.of_head hl
    · intro z y _ hz hy
      apply hz.of_link (update_none_eq_some.mp hy).2
  refine ⟨⟨?_, ?_, ?_⟩, hreach⟩
  · intro l' y hl
    rcases hheads l' y hl with ⟨-, hnext⟩ | ⟨-, hl, hnot⟩
    · apply hfirst y hnext
    · rw [hothers y hnot]
      apply h.head l' y hl
  · intro z y hz hy
    obtain ⟨hzx, hy⟩ := update_none_eq_some.mp hy
    have hpre := h.link z y (hreach z hz) hy
    rw [hothers y, hpre]
    intro hnext
    rw [h.link x y hreached hnext] at hpre
    apply hzx (Option.some.inj hpre).symm
  · intro l₁ l₂ y hl₁ hl₂
    rcases hheads l₁ y hl₁ with ⟨hl, hnext⟩ | ⟨-, hl, hnot⟩
    · rcases hheads l₂ y hl₂ with ⟨hl', -⟩ | ⟨-, -, hnot⟩
      · rw [hl, hl']
      · exact absurd hnext hnot
    · rcases hheads l₂ y hl₂ with ⟨-, hnext⟩ | ⟨-, hl', -⟩
      · exact absurd hnext hnot
      · apply h.inj l₁ l₂ y hl hl'

omit [DecidableEq ι] in
/-- A node is taken from between two others. -/
theorem Mirrored.bypass (h : Mirrored heads next pre) (hx : Reached heads next x)
    (hpre : pre x = some t) (hnext : next x = some y) :
  (Mirrored heads (Function.update next t (next x)) (Function.update pre y (pre x)) ∧
    ∀ z, Reached heads (Function.update next t (next x)) z → Reached heads next z) ∧
    ¬ Reached heads (Function.update next t (next x)) x
  := by
  have hyx : y ≠ x := by
    rintro rfl
    apply h.pre_ne_self hx (h.link y y hx hnext)
  have hpreY : pre y = some x := h.link x y hx hnext
  have hlink : ∀ z w, Function.update next t (next x) z = some w →
      z = t ∧ w = y ∨ z ≠ t ∧ next z = some w := by
    intro z w hz
    by_cases hzt : z = t
    · rw [hzt, Function.update_self, hnext] at hz
      apply Or.inl ⟨hzt, (Option.some.inj hz).symm⟩
    · rw [Function.update_of_ne hzt] at hz
      apply Or.inr ⟨hzt, hz⟩
  have hreach : ∀ z, Reached heads (Function.update next t (next x)) z →
      Reached heads next z := by
    intro z hz
    apply hz.induct
    · intro l z hl
      apply Reached.of_head hl
    · intro z w _ hz hw
      rcases hlink z w hw with ⟨-, rfl⟩ | ⟨-, hw⟩
      · apply hx.of_link hnext
      · apply hz.of_link hw
  have hnot : ¬ Reached heads (Function.update next t (next x)) x := by
    intro hx'
    rcases hx'.cases with ⟨l, hl⟩ | ⟨z, hz, hzx⟩
    · rw [h.head l x hl] at hpre
      apply Option.some_ne_none t hpre.symm
    · rcases hlink z x hzx with ⟨-, heq⟩ | ⟨hzt, hzx⟩
      · apply hyx heq.symm
      · rw [h.link z x (hreach z hz) hzx] at hpre
        apply hzt (Option.some.inj hpre)
  refine ⟨⟨⟨?_, ?_, h.inj⟩, hreach⟩, hnot⟩
  · intro l z hl
    have hnone := h.head l z hl
    have hzy : z ≠ y := by
      rintro rfl
      rw [hpreY] at hnone
      apply Option.some_ne_none x hnone
    rw [Function.update_of_ne hzy, hnone]
  · intro z w hz hw
    rcases hlink z w hw with ⟨rfl, rfl⟩ | ⟨-, hw⟩
    · rw [Function.update_self, hpre]
    · have hpreW := h.link z w (hreach z hz) hw
      have hwy : w ≠ y := by
        rintro rfl
        rw [hpreY] at hpreW
        obtain rfl := Option.some.inj hpreW
        apply hnot hz
      rw [Function.update_of_ne hwy, hpreW]

omit [DecidableEq α] in
/-- The chain of `src` takes the place of that of `dst`, and links may be dropped. -/
theorem Mirrored.replace {dst : ι} (h : Mirrored heads next pre) (src : ι)
    (hnext : ∀ x y, Reached (Function.update heads dst none) next x → next' x = some y →
      next x = some y) :
  Mirrored (Function.update (Function.update heads dst (heads src)) src none) next' pre ∧
    ∀ x, Reached (Function.update (Function.update heads dst (heads src)) src none) next' x →
      Reached (Function.update heads dst none) next x
  := by
  have h₁ : Mirrored (Function.update heads dst none) next pre :=
    (h.mono (fun _ _ hl => (update_none_eq_some.mp hl).2) (fun _ _ _ => id) (fun _ _ => rfl)).1
  have hheads : ∀ l x,
      Function.update (Function.update heads dst (heads src)) src none l = some x →
        l ≠ src ∧ (l = dst ∧ heads src = some x ∨ l ≠ dst ∧ heads l = some x) := by
    intro l x hl
    obtain ⟨hsrc, hl⟩ := update_none_eq_some.mp hl
    use hsrc
    by_cases hdst : l = dst
    · rw [hdst, Function.update_self] at hl
      apply Or.inl ⟨hdst, hl⟩
    · rw [Function.update_of_ne hdst] at hl
      apply Or.inr ⟨hdst, hl⟩
  refine h₁.rearrange ?_ ?_ hnext (fun _ _ => rfl)
  · intro l x hl
    obtain ⟨hne, ⟨rfl, hsrc⟩ | ⟨hdst, hkept⟩⟩ := hheads l x hl
    · use src
      rw [Function.update_of_ne hne.symm, hsrc]
    · use l
      rw [Function.update_of_ne hdst, hkept]
  · intro l₁ l₂ x hl₁ hl₂
    obtain ⟨hsrc₁, hl₁⟩ := hheads l₁ x hl₁
    obtain ⟨hsrc₂, hl₂⟩ := hheads l₂ x hl₂
    rcases hl₁ with ⟨hdst₁, hl₁⟩ | ⟨-, hl₁⟩
    · rcases hl₂ with ⟨hdst₂, -⟩ | ⟨-, hl₂⟩
      · rw [hdst₁, hdst₂]
      · exact absurd (h.inj l₂ src x hl₂ hl₁) hsrc₂
    · rcases hl₂ with ⟨-, hl₂⟩ | ⟨-, hl₂⟩
      · exact absurd (h.inj l₁ src x hl₁ hl₂) hsrc₁
      · apply h.inj l₁ l₂ x hl₁ hl₂

end Links
