import Orgrim.Frlist.TwoWay

/-!
# Following the lists backward

`pre` of a head points to nothing, and `pre` of the node after `x` points to `x`.  The calls keep
this with two exceptions, and break it whenever they meet one of them: `frlist_merge_header_top`
does not set `pre` of the node where two lists meet, and `frlist_node_free` and
`frlist_node_apart` do not set `pre` of the node that becomes the head.
-/

namespace Frlist

open Links Frlist.Lists

variable {ι α : Type} {s s' : Lists ι α} {l : ι} {x : α}

/-- The links of the lists are mirrored by `pre`. -/
def Lists.Backward [DecidableEq α] (s : Lists ι α) : Prop :=
  ∀ l, (∀ x ∈ s.head l, s.pre x = none) ∧
    ∀ x ∈ s.members l, ∀ y ∈ s.next x, s.pre y = some x

/-- Where the functions keep the back links. -/
def Lists.KeepsBack [DecidableEq α] (s : Lists ι α) : Call ι α → Prop
  | .mergeHeaderTop dst src => ¬ s.Severs dst src
  | .nodeFree l x delList => delList = 0 → s.head l = some x → s.next x = none
  | .nodeApart l x => s.head l = some x → s.next x = none
  | _ => True

instance [DecidableEq α] [Fintype ι] (s : Lists ι α) : Decidable s.Backward :=
  inferInstanceAs (Decidable (∀ _, _ ∧ ∀ _ ∈ _, _))

instance [DecidableEq ι] [DecidableEq α] [Fintype ι] (s : Lists ι α) (dst src : ι) :
    Decidable (s.Severs dst src) :=
  inferInstanceAs (Decidable (_ ∧ _ ∧ _ ∧ ∃ k ≠ dst, ∃ last ∈ s.members k, _))

instance [DecidableEq ι] [DecidableEq α] [Fintype ι] (s : Lists ι α) :
    (c : Call ι α) → Decidable (s.KeepsBack c)
  | .mergeHeaderTop dst src => inferInstanceAs (Decidable (¬ s.Severs dst src))
  | .nodeFree _ _ _ => inferInstanceAs (Decidable (_ → _ → _))
  | .nodeApart _ _ => inferInstanceAs (Decidable (_ → _))
  | .nodeCreate _ _ => .isTrue trivial
  | .addTail _ _ => .isTrue trivial
  | .addHeader _ _ => .isTrue trivial
  | .addSort _ _ _ => .isTrue trivial
  | .shallowCopy _ _ _ => .isTrue trivial
  | .removeHead _ => .isTrue trivial
  | .removeFromIdx _ _ => .isTrue trivial

theorem twoWay_start (live : Finset α) (pre next : α → Option α) (data : α → Option ℕ) :
  TwoWay (start (ι := ι) live pre next data)
  := by
  have hnone : ∀ x, ¬ Reached (start (ι := ι) live pre next data).head next x := by
    rintro x ⟨l, hx⟩
    apply not_reaches_none hx
  refine ⟨⟨?_, ?_, ?_⟩, ?_⟩
  · rintro l x ⟨⟩
  · intro x y hx
    exact absurd hx (hnone x)
  · rintro l l' x ⟨⟩
  · intro x hx
    exact absurd hx (hnone x)

variable [DecidableEq α]

theorem TwoWay.backward (h : TwoWay s) :
  s.Backward
  := by
  intro l
  use h.mirrored.head l
  intro x hx y hy
  apply h.mirrored.link x y ⟨l, h.mem_members_iff.mp hx⟩ hy

theorem TwoWay.reached (h : TwoWay s) (hx : x ∈ s.members l) :
  Reached s.head s.next x
  := ⟨l, h.mem_members_iff.mp hx⟩

variable [DecidableEq ι]

theorem TwoWay.nodeFree {delList : ℤ} (h : TwoWay s)
    (hpermits : if delList = 0 then x ∈ s.members l else s.Fresh x)
    (hkeeps : delList = 0 → s.head l = some x → s.next x = none)
    (hfree : s.nodeFree (some l) (some x) delList = some s') :
  TwoWay s'
  := by
  by_cases hdel : delList = 0
  · rw [if_pos hdel] at hpermits
    simp only [Lists.nodeFree, if_pos hdel] at hfree
    split at hfree
    · obtain rfl := Option.some.inj hfree
      exact h
    · rw [Option.bind_eq_bind, Option.bind_eq_some_iff] at hfree
      obtain ⟨s₁, hunlink, hfree⟩ := hfree
      obtain ⟨h₁, hnot⟩ := h.unlink (h.reached hpermits) (hkeeps hdel) hunlink
      apply h₁.free hnot hfree
  · rw [if_neg hdel] at hpermits
    simp only [Lists.nodeFree, if_neg hdel] at hfree
    apply h.free (h.not_reached hpermits) hfree

/-- The calls keep the back links. -/
theorem TwoWay.step {c : Call ι α} (h : TwoWay s) (hpermits : s.Permits c)
    (hkeeps : s.KeepsBack c) (hstep : frlist.step s c = some s') :
  TwoWay s'
  := by
  cases c with
  | nodeCreate answer data =>
      obtain rfl := Option.some.inj hstep
      exact (h.nodeCreate answer data).1
  | addTail l x => apply h.addTail (h.not_reached hpermits) hstep
  | addHeader l x => apply h.addHeader (h.not_reached hpermits) hstep
  | addSort l x compare => apply h.addSort (h.not_reached hpermits) hstep
  | mergeHeaderTop dst src => apply h.mergeHeaderTop hkeeps hstep
  | shallowCopy dst src answers => apply h.copyNodes hstep
  | removeHead l => apply h.removeHead hstep
  | removeFromIdx l idx => apply h.removeFromIdx hstep
  | nodeFree l x delList => apply h.nodeFree hpermits hkeeps hstep
  | nodeApart l x =>
      simp only [frlist, Lists.nodeApart] at hstep
      split at hstep
      · obtain rfl := Option.some.inj hstep
        exact h
      · exact (h.unlink (h.reached hpermits) hkeeps hstep).1

/-- Where a list is put before another, `pre` of the node where they meet is wrong. -/
theorem TwoWay.severs {dst src : ι} (h : TwoWay s) (hsevers : s.Severs dst src) :
  ∃ s', s.mergeHeaderTop (some dst) (some src) = some s' ∧ ¬ s'.Backward
  := by
  obtain ⟨hsrc, hdst, hhead, k, hk, last, hlast, htail⟩ := hsevers
  obtain ⟨first, hfirst⟩ := Option.ne_none_iff_exists'.mp hhead
  refine ⟨_, mergeHeaderTop_eq_some.mpr
    (Or.inr (Or.inr ⟨hsrc, hdst, last, htail, h.live last (h.reached hlast), rfl⟩)), ?_⟩
  intro hback
  have hfrom : ∀ l x,
      Function.update (Function.update s.head dst (s.head src)) src none l = some x →
        Reached s.head s.next x := by
    intro l x hl
    obtain ⟨-, hl⟩ := update_none_eq_some.mp hl
    by_cases hl' : l = dst
    · rw [hl', Function.update_self] at hl
      apply Reached.of_head hl
    · rw [Function.update_of_ne hl'] at hl
      apply Reached.of_head hl
  have hlive : ∀ x, Reached (Function.update (Function.update s.head dst (s.head src)) src none)
      (Function.update s.next last (s.head dst)) x → Reached s.head s.next x := by
    intro x hx
    apply hx.induct hfrom
    intro y z _ hy hz
    by_cases hyl : y = last
    · rw [hyl, Function.update_self] at hz
      apply Reached.of_head hz
    · rw [Function.update_of_ne hyl] at hz
      apply hy.of_link hz
  -- the list that the tail is in may be the first one, and is then that of `dst`
  obtain ⟨k', hk'⟩ : ∃ k', Function.update (Function.update s.head dst (s.head src)) src none k'
      = s.head k := by
    by_cases hks : k = src
    · use dst
      rw [Function.update_of_ne (hks ▸ hk.symm), Function.update_self, hks]
    · use k
      rw [Function.update_of_ne hks, Function.update_of_ne hk]
  have hreach := (h.mem_members_iff.mp hlast).update_self (s.head dst)
  rw [← hk'] at hreach
  have hmem := (mem_follow_iff (fun x hx => h.live x (hlive x ⟨k', hx⟩))).mpr hreach
  have hpre := (hback k').2 last hmem first
    ((Function.update_self ..).trans hfirst)
  have hnone := h.mirrored.head dst first hfirst
  rw [hpre] at hnone
  apply Option.some_ne_none last hnone

/-- When the head is taken off a longer list, `pre` of the next node is wrong. -/
theorem TwoWay.behead (h : TwoWay s) (hhead : s.head l = some x) (hnext : s.next x ≠ none) :
  ∃ s', s.unlink l x = some s' ∧ x ∈ s'.live ∧
    ∃ y, s'.head l = some y ∧ s'.pre y ≠ none
  := by
  have hx : Reached s.head s.next x := Reached.of_head hhead
  have hlive := h.live x hx
  obtain ⟨y, hy⟩ := Option.ne_none_iff_exists'.mp hnext
  refine ⟨_, unlink_eq_some.mpr ⟨hlive, Or.inl ⟨hhead, rfl⟩⟩, hlive, y, ?_, ?_⟩
  · rw [← hy]
    apply Function.update_self ..
  · rw [h.mirrored.link x y hx hy]
    apply Option.some_ne_none x

/-- The calls break the back links where they do not keep them. -/
theorem TwoWay.step_fails {c : Call ι α} (h : TwoWay s) (hkeeps : ¬ s.KeepsBack c) :
  ∃ s', frlist.step s c = some s' ∧ ¬ s'.Backward
  := by
  cases c with
  | mergeHeaderTop dst src => apply h.severs (not_not.mp hkeeps)
  | nodeFree l x delList =>
      obtain ⟨hdel, hkeeps⟩ := Classical.not_imp.mp hkeeps
      obtain ⟨hhead, hnext⟩ := Classical.not_imp.mp hkeeps
      obtain ⟨s₁, hunlink, hlive, y, hy, hpre⟩ := h.behead hhead hnext
      refine ⟨{ s₁ with live := s₁.live.erase x }, ?_, ?_⟩
      · simp only [frlist, Lists.nodeFree, if_pos hdel]
        rw [if_neg (by rw [hhead]; exact Option.some_ne_none x), hunlink, Option.bind_eq_bind,
          Option.bind_some]
        apply free_eq_some.mpr ⟨hlive, rfl⟩
      · intro hback
        apply hpre ((hback l).1 y hy)
  | nodeApart l x =>
      obtain ⟨hhead, hnext⟩ := Classical.not_imp.mp hkeeps
      obtain ⟨s', hunlink, -, y, hy, hpre⟩ := h.behead hhead hnext
      refine ⟨s', ?_, fun hback => hpre ((hback l).1 y hy)⟩
      rw [← hunlink]
      apply if_neg
      rw [hhead]
      apply Option.some_ne_none x
  | nodeCreate _ _ => exact absurd trivial hkeeps
  | addTail _ _ => exact absurd trivial hkeeps
  | addHeader _ _ => exact absurd trivial hkeeps
  | addSort _ _ _ => exact absurd trivial hkeeps
  | shallowCopy _ _ _ => exact absurd trivial hkeeps
  | removeHead _ => exact absurd trivial hkeeps
  | removeFromIdx _ _ => exact absurd trivial hkeeps

/-- Every back link is right throughout exactly those runs in which `frlist_merge_header_top` does
not put a list before another, and `frlist_node_free` and `frlist_node_apart` do not take the
head off a longer list. -/
theorem backward_iff_along {live : Finset α} {pre next : α → Option α} {data : α → Option ℕ}
    {calls : List (Call ι α)}
    (hcalls : frlist.Along Lists.Permits (start live pre next data) calls) :
  frlist.Throughout Lists.Backward (start live pre next data) calls ↔
    frlist.Along Lists.KeepsBack (start live pre next data) calls
  := by
  apply Machine.throughout_iff_of_invariant TwoWay _ _ _ (twoWay_start live pre next data) hcalls
  · intro s h
    apply h.backward
  · intro s c h hpermits hkeeps s' hstep
    apply h.step hpermits hkeeps hstep
  · intro s c h _ hkeeps
    apply h.step_fails hkeeps

/-- Two lists, and four nodes that are in neither. -/
def fourNodes : Lists Bool (Fin 4) :=
  start {0, 1, 2, 3} (fun _ => none) (fun _ => none) (fun _ => none)

/-- Calls that keep the back links. -/
def keptCalls : List (Call Bool (Fin 4)) :=
  [.addTail true 0, .addHeader true 1, .addSort true 2 (some (fun _ y => if y = 1 then 1 else -1)),
    .mergeHeaderTop false true, .addTail false 3, .nodeApart false 2, .removeHead false,
    .removeFromIdx false 1, .nodeFree false 0 0]

theorem backward_keptCalls :
  frlist.Throughout Lists.Backward fourNodes keptCalls
  := by
  apply (backward_iff_along _).mpr
  · decide +kernel
  · decide +kernel

/-- The head is taken off a list of two nodes. -/
def apartHead : List (Call Bool (Fin 4)) := [.addTail true 0, .addTail true 1, .nodeApart true 0]

/-- A list is put before another. -/
def mergeTwo : List (Call Bool (Fin 4)) :=
  [.addTail false 0, .addTail true 1, .mergeHeaderTop true false]

theorem backward_fails :
  (frlist.Along Lists.Permits fourNodes apartHead ∧
    ∃ s, frlist.final fourNodes apartHead = some s ∧ ¬ s.Backward) ∧
  (frlist.Along Lists.Permits fourNodes mergeTwo ∧
    ∃ s, frlist.final fourNodes mergeTwo = some s ∧ ¬ s.Backward)
  := by
  constructor
  · constructor
    · decide +kernel
    · apply Machine.exists_final
      · decide +kernel
      · decide +kernel
  · constructor
    · decide +kernel
    · apply Machine.exists_final
      · decide +kernel
      · decide +kernel

end Frlist
