import Orgrim.Theory.Mirror
import Orgrim.Frlist.Calls

/-!
# Back links

`TwoWay s`: the links of the lists are mirrored by `pre`, and their nodes are allocated.  Here
nothing is asked of `size` and `tail`: whatever a header has there, all functions that add or
take out nodes keep the back links, with two exceptions.  When one list is put before another,
`frlist_merge_header_top` does not set `pre` of the node where they meet; and when the head is
taken out, `frlist_node_free` and `frlist_node_apart` do not set `pre` of the next one.
-/

namespace Frlist

open Links Frlist.Lists

variable {ι α : Type} {s s' : Lists ι α} {l : ι} {x : α}

/-- The links of the lists are mirrored, and their nodes are allocated. -/
structure TwoWay (s : Lists ι α) : Prop where
  mirrored : Mirrored s.head s.next s.pre
  live : ∀ x, Reached s.head s.next x → x ∈ s.live

theorem TwoWay.mem_members_iff [DecidableEq α] (h : TwoWay s) :
  x ∈ s.members l ↔ Reaches s.next (s.head l) x
  := by
  apply mem_follow_iff
  intro y hy
  apply h.live y ⟨l, hy⟩

theorem TwoWay.not_reached [DecidableEq α] (h : TwoWay s) (hx : s.Fresh x) :
  ¬ Reached s.head s.next x
  := by
  rintro ⟨l, hl⟩
  exact hx.2 l (h.mem_members_iff.mpr hl)

/-- Nodes that cannot be reached are created and freed. -/
theorem TwoWay.congr (h : TwoWay s) (hhead : s'.head = s.head)
    (hnext : ∀ x, Reached s.head s.next x → s'.next x = s.next x)
    (hpre : ∀ x, Reached s.head s.next x → s'.pre x = s.pre x)
    (hlive : ∀ x, Reached s.head s.next x → x ∈ s'.live) :
  TwoWay s' ∧ ∀ x, Reached s'.head s'.next x → Reached s.head s.next x
  := by
  obtain ⟨hmirrored, hreach⟩ : Mirrored s'.head s'.next s'.pre ∧
      ∀ x, Reached s'.head s'.next x → Reached s.head s.next x := by
    rw [hhead]
    apply h.mirrored.mono (fun _ _ => id) _ hpre
    intro x y hx hy
    rw [← hnext x hx, hy]
  exact ⟨⟨hmirrored, fun x hx => hlive x (hreach x hx)⟩, hreach⟩

/-- Afterwards the links are mirrored, and only `x` was not reached before. -/
theorem TwoWay.grow (h : TwoWay s) (hx : x ∈ s.live)
    (hs' : Mirrored s'.head s'.next s'.pre ∧
      ∀ y, Reached s'.head s'.next y → y = x ∨ Reached s.head s.next y)
    (hlive : s'.live = s.live) :
  TwoWay s'
  := by
  use hs'.1
  intro y hy
  rw [hlive]
  rcases hs'.2 y hy with rfl | hy
  · exact hx
  · apply h.live y hy

/-- Afterwards the links are mirrored, and no more nodes are reached. -/
theorem TwoWay.shrink (h : TwoWay s)
    (hs' : Mirrored s'.head s'.next s'.pre ∧
      ∀ y, Reached s'.head s'.next y → Reached s.head s.next y)
    (hlive : s'.live = s.live) :
  TwoWay s'
  := by
  use hs'.1
  intro y hy
  rw [hlive]
  apply h.live y (hs'.2 y hy)

variable [DecidableEq α]

theorem TwoWay.nodeCreate (h : TwoWay s) (answer : Option α) (data : Option ℕ) :
  TwoWay (s.nodeCreate answer data).2 ∧
    ∀ x, Reached (s.nodeCreate answer data).2.head (s.nodeCreate answer data).2.next x →
      Reached s.head s.next x
  := by
  cases answer with
  | none => exact ⟨h, fun _ => id⟩
  | some x =>
      by_cases hx : x ∈ s.live
      · rw [nodeCreate_live hx]
        exact ⟨h, fun _ => id⟩
      · rw [nodeCreate_fresh hx]
        have hne : ∀ y, Reached s.head s.next y → y ≠ x := by
          rintro y hy rfl
          apply hx (h.live y hy)
        refine h.congr rfl ?_ ?_ ?_
        · intro y hy
          apply Function.update_of_ne (hne y hy) ..
        · intro y hy
          apply Function.update_of_ne (hne y hy) ..
        · intro y hy
          apply Finset.mem_insert_of_mem (h.live y hy)

/-- A node that cannot be reached is freed. -/
theorem TwoWay.free (h : TwoWay s) (hx : ¬ Reached s.head s.next x) (hfree : s.free x = some s') :
  TwoWay s'
  := by
  obtain ⟨-, rfl⟩ := free_eq_some.mp hfree
  use h.mirrored
  intro y hy
  apply Finset.mem_erase.mpr
  refine ⟨?_, h.live y hy⟩
  rintro rfl
  apply hx hy

variable [DecidableEq ι]

/-! ### Adding -/

/-- A node is added to an empty list. -/
theorem TwoWay.addFirst (h : TwoWay s) (hlive : x ∈ s.live) (hx : ¬ Reached s.head s.next x)
    (hhead : s.head l = none) (size : ι → BitVec 32) (tail : ι → Option α) :
  TwoWay { s with
    pre := Function.update s.pre x none
    next := Function.update s.next x none
    size := size
    head := Function.update s.head l (some x)
    tail := tail }
  := by
  refine h.grow hlive (h.mirrored.push hhead hx ?_ ?_ ?_) rfl
  · apply Function.update_self ..
  · rintro y ⟨⟩
  · intro y hy _
    apply Function.update_of_ne hy ..

theorem TwoWay.addTail (h : TwoWay s) (hx : ¬ Reached s.head s.next x)
    (hadd : s.addTail (some l) (some x) = some s') :
  TwoWay s'
  := by
  obtain ⟨hlive, ⟨hhead, rfl⟩ | ⟨first, last, hhead, htail, -, rfl⟩⟩ := addTail_eq_some.mp hadd
  · apply h.addFirst hlive hx hhead _ _
  · refine h.grow hlive ?_ rfl
    refine h.mirrored.insert (t := last) (v := none) hx ?_ ?_ ?_ ?_ ?_ ?_ ?_
    · rintro y ⟨⟩
    · apply Function.update_self ..
    · intro hne
      exact (Function.update_of_ne hne.symm ..).trans (Function.update_self ..)
    · intro y hyt hyx
      exact (Function.update_of_ne hyt ..).trans (Function.update_of_ne hyx ..)
    · rw [← htail]
      apply Function.update_self ..
    · rintro y ⟨⟩
    · intro y hy _
      apply Function.update_of_ne hy ..

theorem TwoWay.addHeader (h : TwoWay s) (hx : ¬ Reached s.head s.next x)
    (hadd : s.addHeader (some l) (some x) = some s') :
  TwoWay s'
  := by
  obtain ⟨hlive, ⟨hhead, rfl⟩ | ⟨first, hhead, -, rfl⟩⟩ := addHeader_eq_some.mp hadd
  · apply h.addFirst hlive hx hhead _ _
  · refine h.grow hlive ?_ rfl
    refine h.mirrored.push rfl hx ?_ ?_ ?_
    · apply Function.update_self ..
    · intro y hy
      have hyx : y ≠ x := by
        rintro rfl
        apply hx (Reached.of_head hy)
      obtain rfl := Option.some.inj (hhead.symm.trans hy)
      exact (Function.update_of_ne hyx ..).trans (Function.update_self ..)
    · intro y hyx hy
      have hne : y ≠ first := by
        rintro rfl
        apply hy hhead
      exact (Function.update_of_ne hyx ..).trans (Function.update_of_ne hne ..)

omit [DecidableEq ι] in
/-- `frlist_add_sort` finds a node of the list. -/
theorem sortPre_reaches {compare : α → ℤ} {n : ℕ} {p pre r : Option α}
    (hsort : s.sortPre compare n p pre = some r) {y : α} (hy : r = some y) :
  pre = some y ∨ Reaches s.next p y
  := by
  subst hy
  induction n generalizing p pre with
  | zero =>
      cases p with
      | none => apply Or.inl (Option.some.inj hsort)
      | some tmp => cases hsort
  | succ n ih =>
      cases p with
      | none => apply Or.inl (Option.some.inj hsort)
      | some tmp =>
          rw [sortPre, Option.bind_eq_bind, Option.bind_eq_some_iff] at hsort
          obtain ⟨_, hload, hsort⟩ := hsort
          obtain ⟨-, rfl⟩ := loadNext_eq_some.mp hload
          split at hsort
          · apply Or.inl (Option.some.inj hsort)
          · right
            rcases ih hsort with hy | hy
            · apply Reaches.here hy
            · exact (Reaches.here rfl).trans hy

theorem TwoWay.addSort {compare : Option (α → α → ℤ)} (h : TwoWay s)
    (hx : ¬ Reached s.head s.next x) (hadd : s.addSort (some l) (some x) compare = some s') :
  TwoWay s'
  := by
  cases compare with
  | none => apply h.addTail hx hadd
  | some compare =>
      by_cases hsize : s.size l < 1
      · rw [Lists.addSort, if_pos hsize] at hadd
        apply h.addTail hx hadd
      · obtain ⟨pre, hsort, hlive, hcases⟩ := (addSort_eq_some hsize).mp hadd
        rcases hcases with ⟨rfl, first, hhead, -, rfl⟩ | ⟨y, rfl, -, hnext⟩
        · have hfirst : first ≠ x := by
            rintro rfl
            apply hx (Reached.of_head hhead)
          refine h.grow hlive ?_ rfl
          refine h.mirrored.push rfl hx ?_ ?_ ?_
          · exact (Function.update_of_ne hfirst.symm ..).trans (Function.update_self ..)
          · intro y hy
            obtain rfl := Option.some.inj (hhead.symm.trans hy)
            apply Function.update_self ..
          · intro y hyx hy
            have hne : y ≠ first := by
              rintro rfl
              apply hy hhead
            exact (Function.update_of_ne hne ..).trans (Function.update_of_ne hyx ..)
        · have hy : Reached s.head s.next y := by
            rcases sortPre_reaches hsort rfl with hnone | hy
            · exact absurd hnone (Option.some_ne_none y).symm
            · exact ⟨l, hy⟩
          have hyx : y ≠ x := by
            rintro rfl
            apply hx hy
          have hlink : Function.update (Function.update s.next y (some x)) x (s.next y) y
              = some x :=
            (Function.update_of_ne hyx ..).trans (Function.update_self ..)
          have hothers : ∀ w, w ≠ y → w ≠ x →
              Function.update (Function.update s.next y (some x)) x (s.next y) w = s.next w :=
            fun w hwy hwx => (Function.update_of_ne hwx ..).trans (Function.update_of_ne hwy ..)
          have hself : y ≠ x →
              Function.update (Function.update s.next y (some x)) x (s.next y) x = s.next y :=
            fun _ => Function.update_self ..
          rcases hnext with ⟨hnext, rfl⟩ | ⟨z, hnext, -, rfl⟩
          · refine h.grow hlive (h.mirrored.insert hx (fun w hw => ⟨hy, hw⟩) hlink hself hothers
              ?_ ?_ ?_) rfl
            · apply Function.update_self ..
            · rw [hnext]
              rintro w ⟨⟩
            · intro w hw _
              apply Function.update_of_ne hw ..
          · have hzx : z ≠ x := by
              rintro rfl
              apply hx (hy.of_link hnext)
            refine h.grow hlive (h.mirrored.insert hx (fun w hw => ⟨hy, hw⟩) hlink hself hothers
              ?_ ?_ ?_) rfl
            · exact (Function.update_of_ne hzx.symm ..).trans (Function.update_self ..)
            · intro w hw
              obtain rfl := Option.some.inj (hnext.symm.trans hw)
              apply Function.update_self ..
            · intro w hwx hw
              have hwz : w ≠ z := by
                rintro rfl
                apply hw hnext
              exact (Function.update_of_ne hwz ..).trans (Function.update_of_ne hwx ..)

/-! ### Merging and copying -/

/-- Where `frlist_merge_header_top` leaves a back link behind: both lists have nodes, and the
tail of the first is in a list that remains. -/
def Lists.Severs (s : Lists ι α) (dst src : ι) : Prop :=
  s.size src ≠ 0 ∧ s.size dst ≠ 0 ∧ s.head dst ≠ none ∧
    ∃ k ≠ dst, ∃ last ∈ s.members k, s.tail src = some last

theorem TwoWay.mergeHeaderTop {dst src : ι} (h : TwoWay s) (hkeeps : ¬ s.Severs dst src)
    (hmerge : s.mergeHeaderTop (some dst) (some src) = some s') :
  TwoWay s'
  := by
  have hdropped : ∀ x, Reached (Function.update s.head dst none) s.next x →
      ∃ k ≠ dst, Reaches s.next (s.head k) x := by
    rintro x ⟨k, hx⟩
    by_cases hk : k = dst
    · rw [hk, Function.update_self] at hx
      exact absurd hx not_reaches_none
    · rw [Function.update_of_ne hk] at hx
      exact ⟨k, hk, hx⟩
  have hreach : ∀ x, Reached (Function.update s.head dst none) s.next x →
      Reached s.head s.next x := by
    intro x hx
    obtain ⟨k, -, hx⟩ := hdropped x hx
    exact ⟨k, hx⟩
  rcases mergeHeaderTop_eq_some.mp hmerge with ⟨-, rfl⟩ | ⟨-, -, rfl⟩ |
    ⟨hsrc, hdst, last, htail, -, rfl⟩
  · exact h
  · have hkept : ∀ x y, Reached (Function.update s.head dst none) s.next x →
        s.next x = some y → s.next x = some y := fun _ _ _ => id
    obtain ⟨hmirrored, hsub⟩ := h.mirrored.replace src hkept
    exact h.shrink ⟨hmirrored, fun x hx => hreach x (hsub x hx)⟩ rfl
  · have hkept : ∀ x y, Reached (Function.update s.head dst none) s.next x →
        Function.update s.next last (s.head dst) x = some y → s.next x = some y := by
      intro x y hx hy
      by_cases hxl : x = last
      · exfalso
        rw [hxl, Function.update_self] at hy
        rw [hxl] at hx
        obtain ⟨k, hk, hx⟩ := hdropped last hx
        apply hkeeps
        refine ⟨hsrc, hdst, ?_, k, hk, last, h.mem_members_iff.mpr hx, htail⟩
        rw [hy]
        apply Option.some_ne_none y
      · rw [Function.update_of_ne hxl] at hy
        exact hy
    obtain ⟨hmirrored, hsub⟩ := h.mirrored.replace src hkept
    exact h.shrink ⟨hmirrored, fun x hx => hreach x (hsub x hx)⟩ rfl

theorem TwoWay.copyNodes {dst : ι} {n : ℕ} {answers : List (Option α)} {p : Option α}
    (h : TwoWay s) (hcopy : copyNodes dst n answers p s = some s') :
  TwoWay s'
  := by
  induction n generalizing answers p s with
  | zero =>
      cases p with
      | none =>
          obtain rfl := Option.some.inj hcopy
          exact h
      | some x => cases hcopy
  | succ n ih =>
      cases p with
      | none =>
          obtain rfl := Option.some.inj hcopy
          exact h
      | some x =>
          rw [Lists.copyNodes, Option.bind_eq_bind, Option.bind_eq_some_iff] at hcopy
          obtain ⟨tmp, -, hcopy⟩ := hcopy
          rw [Option.bind_eq_bind, Option.bind_eq_some_iff] at hcopy
          obtain ⟨value, -, hcopy⟩ := hcopy
          cases value with
          | none => apply ih h hcopy
          | some value =>
              cases hanswer : answers.headD none with
              | none =>
                  rw [hanswer] at hcopy
                  apply ih h hcopy
              | some new =>
                  rw [hanswer] at hcopy
                  dsimp only at hcopy
                  have hcreate := h.nodeCreate (some new) (some value)
                  by_cases hnew : new ∈ s.live
                  · rw [nodeCreate_live hnew] at hcopy
                    apply ih h hcopy
                  · rw [nodeCreate_fresh hnew] at hcopy hcreate
                    simp only [Option.bind_eq_bind, Option.bind_eq_some_iff] at hcopy
                    obtain ⟨s₁, hadd, hcopy⟩ := hcopy
                    apply ih (hcreate.1.addTail _ hadd) hcopy
                    intro hreached
                    apply hnew (h.live new (hcreate.2 new hreached))

/-! ### Taking out -/

theorem TwoWay.removeHead (h : TwoWay s)
    (hremove : (s.removeHead (some l)).map Prod.snd = some s') :
  TwoWay s'
  := by
  rcases removeHead_eq_some.mp hremove with ⟨-, rfl⟩ |
    ⟨x, hhead, -, ⟨hnext, rfl⟩ | ⟨first, hnext, -, rfl⟩⟩
  · exact h
  · refine h.shrink (h.mirrored.pop hhead hnext ?_ ?_) rfl
    · rintro y ⟨⟩
    · intro y _
      rfl
  · refine h.shrink (h.mirrored.pop hhead rfl ?_ ?_) rfl
    · intro y hy
      obtain rfl := Option.some.inj (hnext.symm.trans hy)
      apply Function.update_self ..
    · intro y hy
      have hne : y ≠ first := by
        rintro rfl
        apply hy hnext
      apply Function.update_of_ne hne ..

/-- `frlist_node_free` and `frlist_node_apart`, unless they take the head off a longer list. -/
theorem TwoWay.unlink (h : TwoWay s) (hx : Reached s.head s.next x)
    (hhead : s.head l = some x → s.next x = none) (hunlink : s.unlink l x = some s') :
  TwoWay s' ∧ ¬ Reached s'.head s'.next x
  := by
  obtain ⟨-, ⟨hfirst, rfl⟩ | ⟨-, -, before, hpre, -, rfl⟩ |
    ⟨-, -, before, after, hpre, -, hnext, -, rfl⟩⟩ := unlink_eq_some.mp hunlink
  · rw [hhead hfirst]
    have hmono : Mirrored (Function.update s.head l none) s.next s.pre ∧
        ∀ y, Reached (Function.update s.head l none) s.next y → Reached s.head s.next y :=
      h.mirrored.mono (fun _ _ hk => (update_none_eq_some.mp hk).2) (fun _ _ _ => id)
        (fun _ _ => rfl)
    refine ⟨h.shrink hmono rfl, ?_⟩
    apply hmono.1.not_reached_of_head (h.mirrored.head l x hfirst)
    intro k hk
    obtain ⟨hkl, hk⟩ := update_none_eq_some.mp hk
    apply hkl (h.mirrored.inj k l x hk hfirst)
  · have hmono : Mirrored s.head (Function.update s.next before none) s.pre ∧
        ∀ y, Reached s.head (Function.update s.next before none) y → Reached s.head s.next y :=
      h.mirrored.mono (fun _ _ => id) (fun _ _ _ hy => (update_none_eq_some.mp hy).2)
        (fun _ _ => rfl)
    refine ⟨h.shrink hmono rfl, ?_⟩
    apply hmono.1.not_reached_of_link hpre
    intro hnext
    exact (update_none_eq_some.mp hnext).1 rfl
  · obtain ⟨hbypass, hnot⟩ := h.mirrored.bypass hx hpre hnext
    exact ⟨h.shrink hbypass rfl, hnot⟩

/-- The first loop of `frlist_remove_from_idx` leaves the tail before the node it comes to. -/
theorem seek_spec {n : ℕ} {p q : Option α} (hseek : seek l n p s = some (q, s')) :
  (∃ tail, s' = { s with tail := tail }) ∧ (n = 0 → q = p) ∧
    (n ≠ 0 → ∀ x, q = some x → ∃ last, s'.tail l = some last ∧ Reaches s.next p last ∧
      s.next last = some x)
  := by
  induction n generalizing p s with
  | zero =>
      obtain ⟨rfl, rfl⟩ := Prod.mk.inj (Option.some.inj hseek)
      exact ⟨⟨s.tail, rfl⟩, fun _ => rfl, fun hn => absurd rfl hn⟩
  | succ n ih =>
      cases p with
      | none =>
          obtain ⟨rfl, rfl⟩ := Prod.mk.inj (Option.some.inj hseek)
          exact ⟨⟨s.tail, rfl⟩, fun _ => rfl, fun _ x hx => absurd hx (Option.some_ne_none x).symm⟩
      | some y =>
          rw [seek, Option.bind_eq_bind, Option.bind_eq_some_iff] at hseek
          obtain ⟨_, hload, hseek⟩ := hseek
          obtain ⟨-, rfl⟩ := loadNext_eq_some.mp hload
          obtain ⟨⟨tail, htail⟩, -, hlast⟩ := ih hseek
          refine ⟨⟨tail, htail⟩, fun hn => absurd hn (Nat.succ_ne_zero n), ?_⟩
          intro _ x hx
          cases n with
          | zero =>
              obtain ⟨rfl, rfl⟩ := Prod.mk.inj (Option.some.inj hseek)
              exact ⟨y, Function.update_self .., Reaches.here rfl, hx⟩
          | succ n =>
              obtain ⟨last, hlast, hreach, hnext⟩ := hlast (Nat.succ_ne_zero n) x hx
              exact ⟨last, hlast, (Reaches.here rfl).trans hreach, hnext⟩

/-- The second loop of `frlist_remove_from_idx` frees only nodes it comes to. -/
theorem freeNodes_spec {n : ℕ} {p : Option α} (hfree : freeNodes l n p s = some s') :
  s'.head = s.head ∧ s'.next = s.next ∧ s'.pre = s.pre ∧
    ∀ x ∈ s.live, ¬ Reaches s.next p x → x ∈ s'.live
  := by
  induction n generalizing p s with
  | zero =>
      cases p with
      | none =>
          obtain rfl := Option.some.inj hfree
          exact ⟨rfl, rfl, rfl, fun _ hx _ => hx⟩
      | some x => cases hfree
  | succ n ih =>
      cases p with
      | none =>
          obtain rfl := Option.some.inj hfree
          exact ⟨rfl, rfl, rfl, fun _ hx _ => hx⟩
      | some y =>
          rw [Lists.freeNodes, Option.bind_eq_bind, Option.bind_eq_some_iff] at hfree
          obtain ⟨_, hload, hfree⟩ := hfree
          obtain ⟨-, rfl⟩ := loadNext_eq_some.mp hload
          rw [Option.bind_eq_bind, Option.bind_eq_some_iff] at hfree
          obtain ⟨s₁, hfreed, hfree⟩ := hfree
          obtain ⟨-, rfl⟩ := free_eq_some.mp hfreed
          obtain ⟨hhead, hnext, hpre, hlive⟩ := ih hfree
          refine ⟨hhead, hnext, hpre, ?_⟩
          intro x hx hnot
          apply hlive x
          · apply Finset.mem_erase.mpr
            refine ⟨?_, hx⟩
            rintro rfl
            apply hnot (Reaches.here rfl)
          · intro hreach
            apply hnot ((Reaches.here rfl).trans hreach)

/-- A list has been cut behind the node `last`, and the nodes from `x` on are freed. -/
theorem TwoWay.freeNodes {cut : Lists ι α} {last : α} {n : ℕ} (h : TwoWay s)
    (hfree : freeNodes l n (some x) cut = some s')
    (hhead : ∀ k y, cut.head k = some y → s.head k = some y)
    (hnext : cut.next = Function.update s.next last none) (hpre : cut.pre = s.pre)
    (hlive : cut.live = s.live) (hx : Reached s.head s.next x)
    (hcut : Mirrored cut.head cut.next s.pre → ¬ Reached cut.head cut.next x) :
  TwoWay s'
  := by
  have hlink : ∀ y z, cut.next y = some z → s.next y = some z := by
    rw [hnext]
    intro y z hy
    exact (update_none_eq_some.mp hy).2
  obtain ⟨hmirrored, hreach⟩ : Mirrored cut.head cut.next s.pre ∧
      ∀ y, Reached cut.head cut.next y → Reached s.head s.next y :=
    h.mirrored.mono hhead (fun y z _ => hlink y z) (fun _ _ => rfl)
  have hfrom : ∀ y, Reaches cut.next (some x) y → Reached s.head s.next y := by
    intro y hy
    induction hy with
    | here hy => apply Option.some.inj hy ▸ hx
    | there _ hy ih => apply ih.of_link (hlink _ _ hy)
  obtain ⟨hhead', hnext', hpre', hlive'⟩ := freeNodes_spec hfree
  constructor
  · rw [hhead', hnext', hpre', hpre]
    exact hmirrored
  · rw [hhead', hnext']
    intro y hy
    apply hlive' y
    · rw [hlive]
      apply h.live y (hreach y hy)
    · intro hy'
      refine hmirrored.not_reached ?_ ?_ hy' hy
      · rintro _ ⟨⟩
        apply hcut hmirrored
      · intro z w hz hw
        apply h.mirrored.link z w (hfrom z hz) (hlink z w hw)

theorem TwoWay.removeFromIdx {idx : BitVec 32} (h : TwoWay s)
    (hremove : s.removeFromIdx idx (some l) = some s') :
  TwoWay s'
  := by
  rw [Lists.removeFromIdx] at hremove
  split at hremove
  · obtain rfl := Option.some.inj hremove
    exact h
  · rw [Option.bind_eq_bind, Option.bind_eq_some_iff] at hremove
    obtain ⟨⟨q, s₁⟩, hseek, hremove⟩ := hremove
    obtain ⟨⟨tail, rfl⟩, hfirst, hlast⟩ := seek_spec hseek
    cases q with
    | none =>
        obtain rfl := Option.some.inj hremove
        exact ⟨h.mirrored, h.live⟩
    | some x =>
        dsimp only at hremove
        rw [Option.bind_eq_bind, Option.bind_eq_some_iff] at hremove
        obtain ⟨last, htail, hremove⟩ := hremove
        rw [Option.bind_eq_bind, Option.bind_eq_some_iff] at hremove
        obtain ⟨s₂, hstore, hremove⟩ := hremove
        obtain ⟨-, rfl⟩ := storeNext_eq_some.mp hstore
        by_cases hidx : freeIdx idx = 0
        · have hhead : s.head l = some x := (hfirst hidx).symm
          simp only [hidx, if_true] at hremove
          refine h.freeNodes hremove ?_ rfl rfl rfl (Reached.of_head hhead) ?_
          · intro k y hk
            exact (update_none_eq_some.mp hk).2
          · intro hmirrored
            apply hmirrored.not_reached_of_head (h.mirrored.head l x hhead)
            intro k hk
            obtain ⟨hkl, hk⟩ := update_none_eq_some.mp hk
            apply hkl (h.mirrored.inj k l x hk hhead)
        · obtain ⟨before, hbefore, hreach, hnext⟩ := hlast hidx x rfl
          obtain rfl := Option.some.inj (hbefore.symm.trans htail)
          have hreached : Reached s.head s.next before := ⟨l, hreach⟩
          have hpre := h.mirrored.link before x hreached hnext
          simp only [hidx, if_false] at hremove
          refine h.freeNodes hremove (fun _ _ => id) rfl rfl rfl (hreached.of_link hnext) ?_
          intro hmirrored
          apply hmirrored.not_reached_of_link hpre
          intro hlink
          exact (update_none_eq_some.mp hlink).1 rfl

end Frlist
