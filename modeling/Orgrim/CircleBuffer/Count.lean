import Mathlib.Data.Finset.Card
import Orgrim.CircleBuffer.Order

/-!
# The number of messages

`uiCurrMsgDataNum` is meant to be the number of messages that somebody still has to read.
`Read` keeps it so.  `UnSub` does not when a message was only awaited by who leaves, `Sub` and
`Write` do not when they turn to a message that is not where they take it to be; otherwise
they do (`counted_throughout_iff`).
-/

namespace CircleBuffer

/-- The positions of the messages that somebody still has to read. -/
def MsgDataPool.awaited (pool : MsgDataPool) : Finset ℕ :=
  (Finset.range msgPoolSize).filter (fun pos => (pool.arrMsgData pos).bs ≠ ∅)

/-- `uiCurrMsgDataNum` is the number of messages awaited, and zero without subscribers. -/
def Counted (pool : MsgDataPool) : Prop :=
  pool.currMsgDataNum = pool.awaited.card ∧
    (pool.bsSubscribers = ∅ → pool.currMsgDataNum = 0)

instance : DecidablePred Counted :=
  fun _ => inferInstanceAs (Decidable (_ ∧ (_ → _)))

/-- `Sub` sets its bit only on messages that somebody awaits, `UnSub` resets it on none that
nobody else awaits, and `Write` stores in a place that is free, unless the pool is full. -/
def KeepsCount (pool : MsgDataPool) : Call → Prop
  | .sub =>
      pool.bsSubscribers = Finset.univ ∨ ∀ pos ∈ pool.backlog, (pool.arrMsgData pos).bs ≠ ∅
  | .unSub b => ∀ pos < msgPoolSize, (pool.arrMsgData pos).bs ≠ {b}
  | .write pData =>
      pool.refuses pData ∨ pool.currMsgDataNum = msgPoolSize ∨
        (pool.arrMsgData pool.endPosition).bs = ∅
  | .read _ => True

instance (pool : MsgDataPool) : ∀ c : Call, Decidable (KeepsCount pool c)
  | .sub => inferInstanceAs (Decidable (_ ∨ ∀ pos ∈ pool.backlog, _))
  | .unSub _ => inferInstanceAs (Decidable (∀ pos < msgPoolSize, _))
  | .write _ => inferInstanceAs (Decidable (_ ∨ _))
  | .read _ => inferInstanceAs (Decidable True)

/-! ### Positions awaited -/

section

variable {pool : MsgDataPool}

theorem mem_awaited {pos : ℕ} :
  pos ∈ pool.awaited ↔ pos < msgPoolSize ∧ (pool.arrMsgData pos).bs ≠ ∅
  := by
  rw [MsgDataPool.awaited, Finset.mem_filter, Finset.mem_range]

/-- Without subscribers nothing is awaited. -/
theorem Subscribed.counted_iff (h : Subscribed pool) :
  Counted pool ↔ pool.currMsgDataNum = pool.awaited.card
  := by
  constructor
  · intro hcounted
    exact hcounted.1
  · intro hnum
    use hnum
    intro hnone
    rw [hnum, Finset.card_eq_zero]
    apply Finset.eq_empty_of_forall_notMem
    intro pos hpos
    obtain ⟨hlt, hne⟩ := mem_awaited.mp hpos
    have hsub := h pos hlt
    rw [hnone] at hsub
    apply hne (Finset.subset_empty.mp hsub)

/-- `Sub` adds the positions that its loop goes through. -/
theorem awaited_sub {b : BitsetPos} {bs : Bitset} {arrSubPos : BitsetPos → ℕ}
    (h : InRange pool) :
  MsgDataPool.awaited { pool with
      bsSubscribers := bs
      arrMsgData := pool.backlog.foldl (setPending b) pool.arrMsgData
      arrSubPos := arrSubPos }
    = pool.awaited ∪ pool.backlog.toFinset
  := by
  ext pos
  rw [Finset.mem_union, List.mem_toFinset, mem_awaited, mem_awaited]
  simp only [foldl_setPending]
  split
  · rename_i hmem
    have hlt := h.positions .sub pos hmem
    simp [hmem, hlt]
  · rename_i hmem
    simp [hmem]

/-- `UnSub` removes those of the messages that only the subscriber has awaited. -/
theorem awaited_unSub (b : BitsetPos) :
  (pool.unSub b).awaited = pool.awaited.filter (fun pos => (pool.arrMsgData pos).bs ≠ {b})
  := by
  ext pos
  rw [Finset.mem_filter, mem_awaited, mem_awaited]
  by_cases hpos : pos < msgPoolSize
  · simp only [MsgDataPool.unSub, foldl_resetPending, List.mem_range, if_pos hpos, ne_eq,
      Finset.erase_eq_empty_iff]
    tauto
  · tauto

/-- `Write` adds the position where it stores. -/
theorem awaited_write (h : InRange pool) {pData : Option (List UInt8)}
    (haccepts : ¬ pool.refuses pData) :
  (pool.write pData).2.awaited = insert pool.endPosition pool.awaited
  := by
  have hend := h.positions (.write pData) pool.endPosition (List.mem_singleton_self _)
  have hsubscribers : pool.bsSubscribers ≠ ∅ := by
    intro hnone
    apply haccepts
    right; right
    exact hnone
  ext pos
  rw [Finset.mem_insert, mem_awaited, mem_awaited, MsgDataPool.write, if_neg haccepts]
  by_cases hpos : pos = pool.endPosition
  · subst hpos
    simp [hend, hsubscribers]
  · simp [hpos]

/-- `Read` removes the position of a message that nobody else awaits. -/
theorem awaited_readMsg (b : BitsetPos) :
  (pool.readMsg b).awaited
    = if (pool.arrMsgData (pool.arrSubPos b)).bs.erase b = ∅ then
        pool.awaited.erase (pool.arrSubPos b)
      else pool.awaited
  := by
  ext pos
  by_cases hpos : pos = pool.arrSubPos b
  · subst hpos
    split
    · rename_i hlast
      simp [mem_awaited, MsgDataPool.readMsg, hlast]
    · rename_i hrest
      have hne : (pool.arrMsgData (pool.arrSubPos b)).bs ≠ ∅ := by
        intro hnone
        apply hrest
        rw [hnone]
        rfl
      simp [mem_awaited, MsgDataPool.readMsg, hrest, hne]
  · split
    · simp [mem_awaited, MsgDataPool.readMsg, hpos]
    · simp [mem_awaited, MsgDataPool.readMsg, hpos]

end

/-! ### What a call does to the number -/

section

variable {pool : MsgDataPool} (hrange : InRange pool) (hsubscribed : Subscribed pool)
  (hnum : pool.currMsgDataNum = pool.awaited.card)

include hrange hsubscribed hnum

theorem counted_sub :
  Counted pool.sub.2 ↔ KeepsCount pool .sub
  := by
  have hafter := hsubscribed.call (c := .sub) rfl
  rw [hafter.counted_iff]
  rcases sub_cases pool with ⟨hfull, hsub⟩ | ⟨b, hb, hsub⟩
  · rw [hsub]
    apply iff_of_true hnum
    left
    exact hfull
  · have hroom : pool.bsSubscribers ≠ Finset.univ := by
      intro hfull
      rw [hfull] at hb
      exact hb (Finset.mem_univ b)
    rw [hsub, awaited_sub hrange, KeepsCount, or_iff_right hroom]
    simp only [hnum]
    constructor
    · intro hcard pos hpos
      have hsubset : pool.awaited ⊆ pool.awaited ∪ pool.backlog.toFinset :=
        Finset.subset_union_left
      have hunion := Finset.eq_of_subset_of_card_le hsubset hcard.ge
      have hmem : pos ∈ pool.awaited := by
        rw [hunion]
        exact Finset.mem_union_right _ (List.mem_toFinset.mpr hpos)
      exact (mem_awaited.mp hmem).2
    · intro hall
      congr 1
      apply (Finset.union_eq_left.mpr _).symm
      intro pos hpos
      have hmem := List.mem_toFinset.mp hpos
      exact mem_awaited.mpr ⟨hrange.positions .sub pos hmem, hall pos hmem⟩

omit hrange in
theorem counted_unSub (b : BitsetPos) :
  Counted (pool.unSub b) ↔ KeepsCount pool (.unSub b)
  := by
  have hafter := hsubscribed.call (c := .unSub b) rfl
  have hsame : (pool.unSub b).currMsgDataNum = pool.currMsgDataNum := rfl
  rw [hafter.counted_iff, awaited_unSub, hsame, hnum, eq_comm, Finset.card_filter_eq_iff]
  constructor
  · intro hall pos hpos heq
    have hne : (pool.arrMsgData pos).bs ≠ ∅ := by
      rw [heq]
      apply Finset.singleton_ne_empty
    apply hall pos (mem_awaited.mpr ⟨hpos, hne⟩) heq
  · intro hall pos hpos
    apply hall pos (mem_awaited.mp hpos).1

theorem counted_write (pData : Option (List UInt8)) :
  Counted (pool.write pData).2 ↔ KeepsCount pool (.write pData)
  := by
  have hafter := hsubscribed.call (c := .write pData) rfl
  have hend := hrange.positions (.write pData) pool.endPosition (List.mem_singleton_self _)
  rw [hafter.counted_iff, KeepsCount]
  by_cases hrefuses : pool.refuses pData
  · apply iff_of_true _ (.inl hrefuses)
    rw [MsgDataPool.write, if_pos hrefuses]
    exact hnum
  · rw [awaited_write hrange hrefuses, MsgDataPool.write, if_neg hrefuses]
    simp only [or_iff_right hrefuses]
    by_cases hfull : pool.currMsgDataNum = msgPoolSize
    · apply iff_of_true _ (.inl hfull)
      have hall : pool.awaited = Finset.range msgPoolSize := by
        have hsubset : pool.awaited ⊆ Finset.range msgPoolSize := Finset.filter_subset _ _
        apply Finset.eq_of_subset_of_card_le hsubset
        rw [Finset.card_range, ← hnum, hfull]
      rw [if_pos hfull, Finset.insert_eq_of_mem, hnum]
      rw [hall]
      exact Finset.mem_range.mpr hend
    · rw [if_neg hfull, or_iff_right hfull, increment_eq hrange.dataNum, hnum]
      by_cases hfree : (pool.arrMsgData pool.endPosition).bs = ∅
      · have hnot : pool.endPosition ∉ pool.awaited := by
          intro hmem
          exact (mem_awaited.mp hmem).2 hfree
        rw [Finset.card_insert_of_notMem hnot]
        exact iff_of_true rfl hfree
      · rw [Finset.insert_eq_of_mem (mem_awaited.mpr ⟨hend, hfree⟩)]
        apply iff_of_false _ hfree
        omega

theorem counted_read {b : BitsetPos} (hunreleased : Unreleased pool) (hwaits : ¬ pool.waits b) :
  Counted (pool.readMsg b)
  := by
  have hread : pool.readMsg b ∈ pool.call (.read b) := by
    simp [MsgDataPool.call, MsgDataPool.read, hwaits]
  have hafter := hsubscribed.call hread
  have hpending : b ∈ (pool.arrMsgData (pool.arrSubPos b)).bs := by
    by_contra hb
    apply hwaits
    right
    exact ⟨.inl hb, hunreleased _⟩
  have hmem : pool.arrSubPos b ∈ pool.awaited := by
    apply mem_awaited.mpr
    exact ⟨hrange.subPos b, Finset.ne_empty_of_mem hpending⟩
  have hpos := Finset.card_pos.mpr ⟨_, hmem⟩
  rw [hafter.counted_iff, awaited_readMsg, MsgDataPool.readMsg]
  simp only
  split
  · rw [Finset.card_erase_of_mem hmem, decrement_eq (by omega) hrange.dataNum, hnum]
  · exact hnum

end

/-! ### The count -/

/-- In every run, `uiCurrMsgDataNum` is the number of messages awaited throughout exactly if
every call keeps it so. -/
theorem counted_throughout_iff (calls : List Call) :
  circleBuffer.Throughout Counted .start calls
    ↔ circleBuffer.Along KeepsCount .start calls
  := by
  have hstart : Counted .start := ⟨rfl, fun _ => rfl⟩
  rw [Machine.throughout_iff_along (M := circleBuffer) (Q := KeepsCount)
    (fun pool => InRange pool ∧ Subscribed pool ∧ Unreleased pool) _ _ _
    ⟨.start, .start, .start⟩, and_iff_right hstart]
  · rintro pool c ⟨hrange, hsubscribed, hunreleased⟩ ⟨hnum, -⟩ pool' hcall
    cases c with
    | sub =>
        obtain rfl := Option.some.inj hcall
        apply counted_sub hrange hsubscribed hnum
    | unSub b =>
        obtain rfl := Option.some.inj hcall
        apply counted_unSub hsubscribed hnum
    | write pData =>
        obtain rfl := Option.some.inj hcall
        apply counted_write hrange hsubscribed hnum
    | read b =>
        obtain ⟨⟨data, pool''⟩, hread, rfl⟩ := Option.map_eq_some_iff.mp hcall
        obtain ⟨hwaits, -, rfl⟩ := read_eq_some hread
        apply iff_of_true _ trivial
        apply counted_read hrange hsubscribed hnum hunreleased hwaits
  · intro pool c _ _ hnone
    cases c with
    | read b => trivial
    | sub => cases hnone
    | unSub b => cases hnone
    | write pData => cases hnone
  · rintro pool c ⟨hrange, hsubscribed, hunreleased⟩ pool' hcall
    exact ⟨hrange.call hcall, hsubscribed.call hcall, hunreleased.call hcall⟩

/-- The only subscriber, `b`, leaves with a message unread. -/
def leftRun (b : BitsetPos) : List Call := [.sub, writeByte 0, .unSub b]

/-- The message still counts. -/
theorem counted_fails :
  ¬ ∀ calls, circleBuffer.Throughout Counted .start calls
  := by
  intro hall
  have hrun := hall (leftRun 0)
  revert hrun
  decide +kernel

end CircleBuffer
