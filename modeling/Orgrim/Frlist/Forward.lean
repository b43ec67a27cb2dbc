import Orgrim.Frlist.Linked

/-!
# Following the lists forward

From the head of a list one visits `size` nodes on the way to `tail`, and no node is lost that
was added: `Call.effect` says what a call should do to the nodes of the lists, and does it in
every run along which `Lists.Keeps` holds.  There are three exceptions.  `frlist_add_sort` does
not move `tail` when it inserts behind the last node; `frlist_node_free` and `frlist_node_apart`
go by `pre`, which is wrong in the first node of the rear list after `frlist_merge_header_top`;
and `size` overflows.
-/

namespace Frlist

open Links Frlist.Lists

variable {ι α : Type} {s s' : Lists ι α} {ns : ι → List α} {l : ι} {x : α}

/-! ### What the calls should do -/

/-- What a call should do to the nodes `ns` of the lists. -/
def Call.effect [DecidableEq ι] [DecidableEq α] (s : Lists ι α) (ns : ι → List α) :
    Call ι α → ι → List α
  | .nodeCreate _ _ => ns
  | .addTail l x => Function.update ns l (ns l ++ [x])
  | .addHeader l x => Function.update ns l (x :: ns l)
  | .addSort l x none => Function.update ns l (ns l ++ [x])
  | .addSort l x (some compare) => Function.update ns l (insertSorted compare x (ns l))
  | .mergeHeaderTop dst src =>
      Function.update (Function.update ns dst (ns src ++ ns dst)) src []
  | .shallowCopy dst src answers =>
      Function.update ns dst (ns dst ++ copies s.data s.live answers (ns src))
  | .removeHead l => Function.update ns l (ns l).tail
  | .removeFromIdx l idx => Function.update ns l (takeFromIdx idx (ns l))
  | .nodeFree l x delList =>
      if delList = 0 then Function.update ns l ((ns l).erase x) else ns
  | .nodeApart l x => Function.update ns l ((ns l).erase x)

/-- Merging and copying is for two lists. -/
def Call.Distinct : Call ι α → Prop
  | .mergeHeaderTop dst src => dst ≠ src
  | .shallowCopy dst src _ => dst ≠ src
  | _ => True

/-- From the head of a list one visits `size` nodes on the way to `tail`. -/
def Lists.Forward (s : Lists ι α) : Prop :=
  ∀ l, Chain s.next (s.head l) (s.members l) ∧ (s.members l).length = (s.size l).toNat ∧
    (s.members l).getLast? = s.tail l ∧ (s.head l = none ↔ s.size l = 0) ∧
    (s.tail l = none ↔ s.size l = 0)

/-- A node that is to be taken out is the head, or `pre` is the node before it. -/
def Lists.Found (s : Lists ι α) (l : ι) (x : α) : Prop :=
  s.head l = some x ∨ ∃ y ∈ s.members l, s.next y = some x ∧ s.pre x = some y

/-- No node is inserted behind the last one by `frlist_add_sort`, and a node that is taken out is
found. -/
def Lists.Apt (s : Lists ι α) : Call ι α → Prop
  | .addSort l x (some compare) => s.members l = [] ∨ ∃ z ∈ s.members l, compare x z ≤ 0
  | .nodeFree l x delList => delList = 0 → s.Found l x
  | .nodeApart l x => s.Found l x
  | _ => True

/-- Where the functions do what they should: there no `size` overflows, either. -/
def Lists.Keeps [DecidableEq ι] [DecidableEq α] (s : Lists ι α) (c : Call ι α) : Prop :=
  s.Apt c ∧ ∀ l, (c.effect s s.members l).length < 2 ^ 32

instance [DecidableEq α] [Fintype ι] (s : Lists ι α) : Decidable s.Forward :=
  inferInstanceAs (Decidable (∀ _, _))

instance [DecidableEq α] (s : Lists ι α) (l : ι) (x : α) : Decidable (s.Found l x) :=
  inferInstanceAs (Decidable (_ ∨ _))

instance [DecidableEq α] (s : Lists ι α) : (c : Call ι α) → Decidable (s.Apt c)
  | .addSort _ _ (some _) => inferInstanceAs (Decidable (_ ∨ _))
  | .nodeFree _ _ _ => inferInstanceAs (Decidable (_ → _))
  | .nodeApart _ _ => inferInstanceAs (Decidable (Lists.Found ..))
  | .addSort _ _ none => .isTrue trivial
  | .nodeCreate _ _ => .isTrue trivial
  | .addTail _ _ => .isTrue trivial
  | .addHeader _ _ => .isTrue trivial
  | .mergeHeaderTop _ _ => .isTrue trivial
  | .shallowCopy _ _ _ => .isTrue trivial
  | .removeHead _ => .isTrue trivial
  | .removeFromIdx _ _ => .isTrue trivial

instance [DecidableEq ι] [Fintype ι] [DecidableEq α] (s : Lists ι α) (c : Call ι α) :
    Decidable (s.Keeps c) :=
  inferInstanceAs (Decidable (_ ∧ ∀ _, _))

instance [DecidableEq ι] : (c : Call ι α) → Decidable c.Distinct
  | .mergeHeaderTop _ _ => inferInstanceAs (Decidable (_ ≠ _))
  | .shallowCopy _ _ _ => inferInstanceAs (Decidable (_ ≠ _))
  | .nodeCreate _ _ => .isTrue trivial
  | .addTail _ _ => .isTrue trivial
  | .addHeader _ _ => .isTrue trivial
  | .addSort _ _ _ => .isTrue trivial
  | .removeHead _ => .isTrue trivial
  | .removeFromIdx _ _ => .isTrue trivial
  | .nodeFree _ _ _ => .isTrue trivial
  | .nodeApart _ _ => .isTrue trivial

/-! ### The invariant -/

theorem linked_start (live : Finset α) (pre next : α → Option α) (data : α → Option ℕ) :
  Linked (start (ι := ι) live pre next data) (fun _ => [])
  := by
  constructor
  · intro l
    rfl
  · intro l
    rfl
  · intro l
    rfl
  · intro l x hx
    exact absurd hx List.not_mem_nil
  · intro l l' x hx
    exact absurd hx List.not_mem_nil

theorem Linked.forward (h : Linked s ns) :
  s.Forward
  := by
  obtain rfl := h.members_eq
  intro l
  have hempty := eq_nil_iff_size (h.size l)
  use h.chain l, (h.size l).symm, (h.tail l).symm
  rw [h.head_eq, h.tail, List.head?_eq_none_iff, List.getLast?_eq_none_iff, hempty]
  exact ⟨Iff.rfl, Iff.rfl⟩

theorem Linked.head_ne_none (h : Linked s ns) (hx : x ∈ s.members l) :
  s.head l ≠ none
  := by
  obtain rfl := h.members_eq
  rw [h.head_eq, ne_eq, List.head?_eq_none_iff]
  apply List.ne_nil_of_mem hx

variable [DecidableEq ι] [DecidableEq α]

/-- Taking out a node that is found. -/
theorem Linked.unlink (h : Linked s ns) (hfound : s.Found l x) :
  ∃ ys zs s', ns l = ys ++ x :: zs ∧ s.unlink l x = some s' ∧
    Linked s' (Function.update ns l (ys ++ zs)) ∧ s'.live = s.live
  := by
  obtain rfl := h.members_eq
  rcases hfound with hhead | ⟨y, hy, hnext, hpre⟩
  · rw [h.head_eq] at hhead
    obtain ⟨zs, hns⟩ := List.head?_eq_some_iff.mp hhead
    exact ⟨[], zs, _, hns, (h.unlinkHead hns).choose_spec⟩
  · obtain ⟨front, rest, hsplit⟩ := List.append_of_mem hy
    have hchain := h.chain l
    rw [hsplit] at hchain
    have hrest := hchain.after.head_eq
    rw [hnext] at hrest
    obtain ⟨zs, rfl⟩ := List.head?_eq_some_iff.mp hrest.symm
    obtain ⟨s', hunlink, hlinked, hlive⟩ := h.unlinkBehind hsplit hpre
    use front ++ [y], zs, s'
    rw [List.append_assoc, List.append_assoc, List.singleton_append, List.singleton_append]
    exact ⟨hsplit, hunlink, hlinked, hlive⟩

/-- It is in no list then. -/
theorem Linked.erase (h : Linked s ns) (hfound : s.Found l x) :
  ∃ s', s.unlink l x = some s' ∧ Linked s' (Function.update ns l ((ns l).erase x)) ∧
    x ∈ s'.live ∧ ∀ l', x ∉ Function.update ns l ((ns l).erase x) l'
  := by
  obtain ⟨ys, zs, s', hns, hunlink, hlinked, hlive⟩ := h.unlink hfound
  have hx : x ∈ ns l := by
    rw [hns]
    apply List.mem_append_right ys List.mem_cons_self
  have hnot := h.nodup l
  rw [hns] at hnot
  have hnot := (List.nodup_cons.mp (List.nodup_middle.mp hnot)).1
  have herase : (ns l).erase x = ys ++ zs := by
    rw [hns, List.erase_append_right, List.erase_cons_head]
    intro hmem
    apply hnot (List.mem_append_left zs hmem)
  rw [herase]
  refine ⟨s', hunlink, hlinked, ?_, ?_⟩
  · rw [hlive]
    apply h.live l x hx
  · intro l'
    by_cases hl : l' = l
    · rw [hl, Function.update_self]
      exact hnot
    · rw [Function.update_of_ne hl]
      intro hmem
      apply hl (h.disjoint l' l x hmem hx)

/-- Every function does what it should. -/
theorem Linked.step {c : Call ι α} (h : Linked s ns) (hpermits : s.Permits c)
    (hdistinct : c.Distinct) (hkeeps : s.Keeps c) :
  ∃ s', frlist.step s c = some s' ∧ Linked s' (c.effect s ns)
  := by
  obtain rfl := h.members_eq
  obtain ⟨hapt, hbound⟩ := hkeeps
  cases c with
  | nodeCreate answer data => exact ⟨_, rfl, h.nodeCreate answer data⟩
  | addTail l x =>
      have hlength := hbound l
      simp only [Call.effect, Function.update_self, List.length_append] at hlength
      obtain ⟨s', hadd, hlinked, -, -⟩ := h.addTail hpermits.1 hpermits.2 hlength
      exact ⟨s', hadd, hlinked⟩
  | addHeader l x =>
      have hlength := hbound l
      simp only [Call.effect, Function.update_self, List.length_cons] at hlength
      apply h.addHeader hpermits.1 hpermits.2 hlength
  | addSort l x compare =>
      have hlength := hbound l
      cases compare with
      | none =>
          simp only [Call.effect, Function.update_self, List.length_append] at hlength
          obtain ⟨s', hadd, hlinked, -, -⟩ := h.addTail hpermits.1 hpermits.2 hlength
          exact ⟨s', hadd, hlinked⟩
      | some compare =>
          simp only [Call.effect, Function.update_self, length_insertSorted] at hlength
          rcases hapt with hnil | hinside
          · obtain ⟨s', hadd, hlinked, -, -⟩ := h.addTail hpermits.1 hpermits.2 hlength
            refine ⟨s', ?_, ?_⟩
            · rw [← hadd]
              apply addSort_eq_addTail ((eq_nil_iff_size (h.size l)).mp hnil)
            · rw [hnil] at hlinked
              rw [Call.effect, hnil]
              exact hlinked
          · apply h.addSort hpermits.1 hpermits.2 hlength hinside
  | mergeHeaderTop dst src =>
      apply h.mergeHeaderTop hdistinct
      have hlength := hbound dst
      simp only [Call.effect, Function.update_of_ne hdistinct, Function.update_self] at hlength
      exact hlength
  | shallowCopy dst src answers =>
      have hlength := hbound dst
      simp only [Call.effect, Function.update_self] at hlength
      have hfuel := (h.chain src).length_le_card (h.live src)
      exact h.copyNodes hdistinct (List.nil_append _).symm (h.head_eq src)
        (Nat.le_add_right_of_le hfuel) (fun _ _ => rfl) hlength
  | removeHead l => apply h.removeHead l
  | removeFromIdx l idx =>
      obtain ⟨s', hstep, hlinked, -⟩ := h.removeFromIdx l idx
      exact ⟨s', hstep, hlinked⟩
  | nodeFree l x delList =>
      by_cases hdel : delList = 0
      · rw [Permits, if_pos hdel] at hpermits
        obtain ⟨s₁, hunlink, hlinked, hlive, hfresh⟩ := h.erase (hapt hdel)
        obtain ⟨s', hfree, hlinked'⟩ := hlinked.free hlive hfresh
        refine ⟨s', ?_, ?_⟩
        · simp only [frlist, Lists.nodeFree, if_pos hdel, if_neg (h.head_ne_none hpermits),
            Option.bind_eq_bind, hunlink, Option.bind_some]
          exact hfree
        · rw [Call.effect, if_pos hdel]
          exact hlinked'
      · rw [Permits, if_neg hdel] at hpermits
        obtain ⟨s', hfree, hlinked⟩ := h.free hpermits.1 hpermits.2
        refine ⟨s', ?_, ?_⟩
        · simp only [frlist, Lists.nodeFree, if_neg hdel]
          exact hfree
        · rw [Call.effect, if_neg hdel]
          exact hlinked
  | nodeApart l x =>
      obtain ⟨s', hunlink, hlinked, -, -⟩ := h.erase hapt
      refine ⟨s', ?_, hlinked⟩
      rw [← hunlink]
      exact if_neg (h.head_ne_none hpermits)

/-- In a run along which the condition holds every call does what it should, so in every state
that is reached one visits `size` nodes on the way from the head of a list to its tail. -/
theorem forward_along {live : Finset α} {pre next : α → Option α} {data : α → Option ℕ}
    {calls : List (Call ι α)}
    (hcalls : frlist.Along (fun s c => s.Permits c ∧ c.Distinct ∧ s.Keeps c)
      (start live pre next data) calls) :
  ∃ s, frlist.final (start live pre next data) calls = some s ∧ s.Forward ∧
    ∀ c, s.Permits c → c.Distinct → s.Keeps c →
      ∃ s', frlist.step s c = some s' ∧ s'.Forward ∧ s'.members = c.effect s s.members
  := by
  obtain ⟨s, hfinal, ns, hlinked⟩ := Machine.exists_final_of_invariant
    (fun s : Lists ι α => ∃ ns, Linked s ns)
    (by
      rintro s c ⟨ns, h⟩ ⟨hpermits, hdistinct, hkeeps⟩
      obtain ⟨s', hstep, hlinked⟩ := h.step hpermits hdistinct hkeeps
      exact ⟨s', hstep, _, hlinked⟩)
    ⟨_, linked_start live pre next data⟩ hcalls
  refine ⟨s, hfinal, hlinked.forward, ?_⟩
  intro c hpermits hdistinct hkeeps
  obtain ⟨s', hstep, hlinked'⟩ := hlinked.step hpermits hdistinct hkeeps
  refine ⟨s', hstep, hlinked'.forward, ?_⟩
  rw [hlinked'.members_eq, hlinked.members_eq]

/-- Two lists, and no nodes. -/
def noNodes : Lists Bool (Fin 5) := start ∅ (fun _ => none) (fun _ => none) (fun _ => none)

/-- The calls that create the nodes. -/
def creations : List (Call Bool (Fin 5)) :=
  [.nodeCreate (some 0) (some 7), .nodeCreate (some 1) none, .nodeCreate (some 2) (some 8),
    .nodeCreate (some 3) (some 9)]

/-- Adding, copying, merging and taking out. -/
def allCalls : List (Call Bool (Fin 5)) :=
  creations ++ [.addTail false 0, .addHeader false 1,
    .addSort false 2 (some (fun _ y => if y = 1 then 1 else -1)),
    .shallowCopy true false [some 4, none], .addSort true 3 none, .nodeApart false 2,
    .mergeHeaderTop true false, .removeHead true, .removeFromIdx true 2, .nodeFree true 0 0]

theorem forward_along_allCalls :
  ∃ s, frlist.final noNodes allCalls = some s ∧ s.Forward ∧
    ∀ c, s.Permits c → c.Distinct → s.Keeps c →
      ∃ s', frlist.step s c = some s' ∧ s'.Forward ∧ s'.members = c.effect s s.members
  := by
  apply forward_along
  decide +kernel

/-- The second node is inserted behind the first, and `tail` is not moved. -/
def sortBehind : List (Call Bool (Fin 5)) :=
  creations ++ [.addTail false 0, .addSort false 1 (some (fun _ _ => 1))]

/-- A list is put before another whose head has a `pre` that was left when its first node was
taken out. -/
def apartAfterMerge : List (Call Bool (Fin 5)) :=
  creations ++ [.addTail true 0, .addTail true 1, .addTail true 2, .nodeApart true 0,
    .addTail false 3, .mergeHeaderTop true false, .nodeApart true 1]

theorem forward_fails :
  (frlist.Along (fun s c => s.Permits c ∧ c.Distinct) noNodes sortBehind ∧
    ∃ s, frlist.final noNodes sortBehind = some s ∧ ¬ s.Forward) ∧
  (frlist.Along (fun s c => s.Permits c ∧ c.Distinct) noNodes apartAfterMerge ∧
    ∃ s, frlist.final noNodes apartAfterMerge = some s ∧ ¬ s.Forward)
  := by
  constructor
  · constructor
    · decide +kernel
    · apply Machine.exists_final
      · decide +kernel
      · decide +kernel
  · constructor
    · decide +kernel
    · apply Machine.exists_final
      · decide +kernel
      · decide +kernel

end Frlist
