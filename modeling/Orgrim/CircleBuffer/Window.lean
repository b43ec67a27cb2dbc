import Mathlib.Order.Interval.Finset.Nat
import Orgrim.CircleBuffer.Pool
import Orgrim.Theory.Broadcast

/-!
# The window

What the pool stores of a `Broadcast`: the messages from some `first` one on, at most eight,
message `n` at position `n` modulo eight, each with the set of those who await it (`Stores`).
`Write`, `Read`, `Sub` and `UnSub` do to the pool what `write`, `read`, `joinAt` and `leave` do
to the broadcast, unless the window is full, or the loop of `Sub` stops before its end.

While nobody leaves, the first message stored is the base of the log (`Represents`).
-/

namespace CircleBuffer

/-- The log of messages, and how far the subscribers have read it. -/
abbrev Log : Type := Broadcast BitsetPos (List UInt8)

/-- The pool stores the messages of the log that somebody awaits. -/
structure Represents (pool : MsgDataPool) (x : Log) : Prop where
  inRange : InRange pool
  subscribers : pool.bsSubscribers = x.readers
  subPos : ∀ b ∈ x.readers, pool.arrSubPos b = x.cursor b % msgPoolSize
  writePos : pool.currWritePos = x.base % msgPoolSize
  dataNum : pool.currMsgDataNum = x.log.length - x.base
  bs : ∀ n, x.base ≤ n → n < x.base + msgPoolSize →
    (pool.arrMsgData (n % msgPoolSize)).bs = x.pending n
  pData : ∀ n, x.base ≤ n → n < x.log.length →
    (pool.arrMsgData (n % msgPoolSize)).pData = x.log[n]?
  nonempty : ∀ data ∈ x.log, data ≠ []
  release : ∀ pos, (pool.arrMsgData pos).release = false

/-- The pool stores the messages of the log from `first` on; nobody awaits earlier ones. -/
structure Stores (pool : MsgDataPool) (x : Log) (first : ℕ) : Prop where
  inRange : InRange pool
  subscribers : pool.bsSubscribers = x.readers
  subPos : ∀ b ∈ x.readers, pool.arrSubPos b = x.cursor b % msgPoolSize
  first_le : first ≤ x.base
  writePos : pool.currWritePos = first % msgPoolSize
  dataNum : pool.currMsgDataNum = x.log.length - first
  bs : ∀ n, first ≤ n → n < first + msgPoolSize →
    (pool.arrMsgData (n % msgPoolSize)).bs = x.pending n
  pData : ∀ n, first ≤ n → n < x.log.length →
    (pool.arrMsgData (n % msgPoolSize)).pData = x.log[n]?
  nonempty : ∀ data ∈ x.log, data ≠ []
  release : ∀ pos, (pool.arrMsgData pos).release = false

/-- Nothing has been written. -/
theorem Represents.start : Represents .start .empty where
  inRange := .start
  subscribers := rfl
  subPos _ h := absurd h (Finset.notMem_empty _)
  writePos := rfl
  dataNum := rfl
  bs _ _ _ := (Broadcast.pending_eq_empty (Nat.zero_le _)).symm
  pData _ _ h := absurd h (Nat.not_lt_zero _)
  nonempty _ h := absurd h List.not_mem_nil
  release _ := rfl

/-! ### Positions of the window -/

/-- Every position holds a message of the window. -/
theorem exists_mod_eq (base : ℕ) {pos : ℕ} (hpos : pos < msgPoolSize) :
  ∃ n, base ≤ n ∧ n < base + msgPoolSize ∧ n % msgPoolSize = pos
  := by
  rw [← Finset.mem_range, ← Nat.image_Ico_mod base msgPoolSize] at hpos
  obtain ⟨n, hn, hmod⟩ := Finset.mem_image.mp hpos
  obtain ⟨hle, hlt⟩ := Finset.mem_Ico.mp hn
  use n

/-- Different messages of the window have different positions. -/
theorem eq_of_mod_eq {base m n : ℕ} (hm : base ≤ m ∧ m < base + msgPoolSize)
    (hn : base ≤ n ∧ n < base + msgPoolSize) (h : m % msgPoolSize = n % msgPoolSize) :
  m = n
  := Nat.mod_injOn_Ico base msgPoolSize (by simpa using hm) (by simpa using hn) h

section

variable {pool : MsgDataPool} {x : Log} {first : ℕ} (h : Stores pool x first)

include h

theorem Stores.first_le_length :
  first ≤ x.log.length
  := h.first_le.trans x.base_le_length

theorem Stores.length_le :
  x.log.length ≤ first + msgPoolSize
  := by
  have hnum := h.inRange.dataNum
  have hle := h.first_le_length
  rw [h.dataNum] at hnum
  omega

theorem Stores.first_le_cursor {b : BitsetPos} (hb : b ∈ x.readers) :
  first ≤ x.cursor b
  := h.first_le.trans (x.base_le_cursor hb)

/-! ### Reading -/

/-- `Read` waits exactly if the subscriber has read everything. -/
theorem Stores.waits_iff (b : BitsetPos) :
  pool.waits b ↔ ¬ (b ∈ x.readers ∧ x.cursor b < x.log.length)
  := by
  have hlen := h.length_le
  constructor
  · rintro hwaits ⟨hb, hlt⟩
    have hfirst := h.first_le_cursor hb
    have hmsg := h.pData _ hfirst hlt
    have hbs := h.bs _ hfirst (by omega)
    rw [← h.subPos b hb] at hmsg hbs
    have hdata := List.getElem?_eq_getElem hlt
    have hnonempty := h.nonempty _ (List.getElem_mem hlt)
    rcases hwaits with ⟨hnum, -⟩ | ⟨hb' | hnull | hsize, -⟩
    · rw [h.dataNum] at hnum
      omega
    · apply hb'
      rw [hbs, Broadcast.mem_pending]
      exact ⟨hlt, hb, le_rfl⟩
    · rw [hmsg, hdata] at hnull
      cases hnull
    · rw [MsgData.nSize, hmsg, hdata] at hsize
      apply hnonempty (List.eq_nil_of_length_eq_zero (Nat.le_zero.mp hsize))
  · intro hnone
    right
    constructor
    · left
      intro hmem
      obtain ⟨n, hle, hlt, hpos⟩ := exists_mod_eq first (h.inRange.subPos b)
      rw [← hpos, h.bs n hle hlt, Broadcast.mem_pending] at hmem
      obtain ⟨hn, hb, hcursor⟩ := hmem
      apply hnone ⟨hb, by omega⟩
    · apply h.release

/-- The message that `Read` has copied. -/
theorem Stores.bs_readMsg {b : BitsetPos} (hb : b ∈ x.readers)
    (hlt : x.cursor b < x.log.length) {n : ℕ} (hle : first ≤ n)
    (hn : n < first + msgPoolSize) :
  ((pool.readMsg b).arrMsgData (n % msgPoolSize)).bs = (x.read b hlt).pending n
  := by
  have hlen := h.length_le
  have hfirst := h.first_le_cursor hb
  have hpos := h.subPos b hb
  rw [MsgDataPool.readMsg]
  simp only [hpos]
  by_cases hcursor : n = x.cursor b
  · subst hcursor
    rw [Function.update_self, Broadcast.pending_read_cursor hlt hb]
    simp only [h.bs _ hle hn]
  · have hother : n % msgPoolSize ≠ x.cursor b % msgPoolSize := by
      intro hmod
      apply hcursor
      apply eq_of_mod_eq ⟨hle, hn⟩ ⟨hfirst, by omega⟩ hmod
    rw [Function.update_of_ne hother, Broadcast.pending_read_of_ne hlt hcursor, h.bs n hle hn]

theorem Stores.bs_cursor {b : BitsetPos} (hb : b ∈ x.readers)
    (hlt : x.cursor b < x.log.length) :
  (pool.arrMsgData (pool.arrSubPos b)).bs = x.pending (x.cursor b)
  := by
  have hlen := h.length_le
  rw [h.subPos b hb]
  apply h.bs _ (h.first_le_cursor hb)
  omega

omit h in
/-- The first message that is stored after a subscriber has read its next one. -/
def firstAfterRead (x : Log) (first : ℕ) (b : BitsetPos) : ℕ :=
  if (x.pending (x.cursor b)).erase b = ∅ then first + 1 else first

theorem Stores.firstAfterRead_le {b : BitsetPos} (hb : b ∈ x.readers)
    (hlt : x.cursor b < x.log.length) :
  firstAfterRead x first b ≤ (x.read b hlt).base
  := by
  have hfirst := h.first_le
  rw [firstAfterRead]
  rcases Broadcast.base_read_cases hlt hb with ⟨hrest, hbase⟩ | ⟨hlast, -, hbase⟩
  · rw [if_neg hrest, hbase]
    exact hfirst
  · rw [if_pos hlast, hbase]
    omega

omit h in
theorem le_firstAfterRead (x : Log) (first : ℕ) (b : BitsetPos) :
  first ≤ firstAfterRead x first b
  := by
  rw [firstAfterRead]
  split
  · apply Nat.le_succ
  · exact le_rfl

/-- When the window has moved on, the position it has left is free. -/
theorem Stores.bs_read {b : BitsetPos} (hb : b ∈ x.readers)
    (hlt : x.cursor b < x.log.length) {n : ℕ} (hle : firstAfterRead x first b ≤ n)
    (hn : n < firstAfterRead x first b + msgPoolSize) :
  ((pool.readMsg b).arrMsgData (n % msgPoolSize)).bs = (x.read b hlt).pending n
  := by
  have hbase := h.firstAfterRead_le hb hlt
  by_cases hold : n < first + msgPoolSize
  · apply h.bs_readMsg hb hlt _ hold
    exact (le_firstAfterRead x first b).trans hle
  · rw [firstAfterRead] at hle hn hbase
    split at hn
    · rename_i hlast
      rw [if_pos hlast] at hle hbase
      obtain rfl : n = first + msgPoolSize := by
        omega
      have hfree := h.bs_readMsg hb hlt le_rfl (Nat.lt_add_of_pos_right (Nat.succ_pos 7))
      rw [Broadcast.pending_of_lt_base hbase] at hfree
      have hnone := Broadcast.pending_eq_empty (x := x.read b hlt) h.length_le
      rw [Nat.add_mod_right, hfree, hnone]
    · exact absurd hn hold

theorem Stores.writePos_read {b : BitsetPos} (hb : b ∈ x.readers)
    (hlt : x.cursor b < x.log.length) :
  (pool.readMsg b).currWritePos = firstAfterRead x first b % msgPoolSize
  := by
  have hbs := h.bs_cursor hb hlt
  rw [MsgDataPool.readMsg, firstAfterRead]
  simp only [hbs]
  split
  · rw [h.writePos]
    apply wrap_mod_add (by decide)
  · exact h.writePos

theorem Stores.dataNum_read {b : BitsetPos} (hb : b ∈ x.readers)
    (hlt : x.cursor b < x.log.length) :
  (pool.readMsg b).currMsgDataNum = x.log.length - firstAfterRead x first b
  := by
  have hbs := h.bs_cursor hb hlt
  have hfirst := h.first_le_cursor hb
  have hnum := h.dataNum
  rw [MsgDataPool.readMsg, firstAfterRead]
  simp only [hbs]
  split
  · rw [decrement_eq (by omega) h.inRange.dataNum]
    omega
  · exact hnum

omit h in
theorem pData_readMsg (pool : MsgDataPool) (b : BitsetPos) (pos : ℕ) :
  ((pool.readMsg b).arrMsgData pos).pData = (pool.arrMsgData pos).pData
  := by
  rw [MsgDataPool.readMsg]
  by_cases hpos : pos = pool.arrSubPos b
  · subst hpos
    simp only [Function.update_self]
  · simp only [Function.update_of_ne hpos]

omit h in
theorem release_readMsg (pool : MsgDataPool) (b : BitsetPos) (pos : ℕ) :
  ((pool.readMsg b).arrMsgData pos).release = (pool.arrMsgData pos).release
  := by
  rw [MsgDataPool.readMsg]
  by_cases hpos : pos = pool.arrSubPos b
  · subst hpos
    simp only [Function.update_self]
  · simp only [Function.update_of_ne hpos]

/-- `Read` returns the next message of the subscriber. -/
theorem Stores.read {b : BitsetPos} {data : List UInt8} {pool' : MsgDataPool}
    (hread : pool.read b = some (data, pool')) :
  ∃ _ : b ∈ x.readers, ∃ hlt : x.cursor b < x.log.length,
    data = x.log[x.cursor b] ∧ Stores pool' (x.read b hlt) (firstAfterRead x first b)
  := by
  obtain ⟨hwaits, rfl, rfl⟩ := read_eq_some hread
  have hrange := h.inRange.read hwaits
  rw [h.waits_iff, not_not] at hwaits
  obtain ⟨hb, hlt⟩ := hwaits
  have hpos := h.subPos b hb
  use hb, hlt
  constructor
  · rw [hpos, h.pData _ (h.first_le_cursor hb) hlt, List.getElem?_eq_getElem hlt,
      Option.getD_some]
  · constructor
    · exact hrange
    · apply h.subscribers
    · intro b' hb'
      rw [MsgDataPool.readMsg]
      by_cases hbb : b' = b
      · subst hbb
        simp only [Function.update_self, Broadcast.cursor_read_self, hpos]
        apply wrap_mod_add (by decide)
      · simp only [Function.update_of_ne hbb, Broadcast.cursor_read_of_ne hlt hbb]
        apply h.subPos b' hb'
    · apply h.firstAfterRead_le hb hlt
    · apply h.writePos_read hb hlt
    · apply h.dataNum_read hb hlt
    · intro n hle hn
      apply h.bs_read hb hlt hle hn
    · intro n hle hn
      rw [pData_readMsg]
      apply h.pData n _ hn
      exact (le_firstAfterRead x first b).trans hle
    · apply h.nonempty
    · intro pos
      rw [release_readMsg]
      apply h.release

/-! ### Writing -/

theorem Stores.readers_nonempty {pData : Option (List UInt8)} (hdata : ¬ pool.refuses pData) :
  x.readers.Nonempty
  := by
  rw [Finset.nonempty_iff_ne_empty, ← h.subscribers]
  intro hnone
  apply hdata
  right; right
  exact hnone

/-- `Write` stores at the end of the window. -/
theorem Stores.endPosition (hnum : pool.currMsgDataNum < msgPoolSize) :
  pool.endPosition = x.log.length % msgPoolSize
  := by
  have hle := h.first_le_length
  have hdata := h.dataNum
  rw [h.inRange.endPosition, h.writePos, Nat.add_comm, wrap_mod_add hnum.le, hdata]
  congr 1
  omega

/-- `Write` writes to the log, unless the window is full. -/
theorem Stores.write {data : List UInt8} (hdata : ¬ pool.refuses (some data))
    (hnum : pool.currMsgDataNum < msgPoolSize) :
  Stores (pool.write (some data)).2 (x.write data) first
  := by
  have hrange := h.inRange.write (some data)
  have hlen := h.dataNum
  have hle := h.first_le_length
  have hpos := h.endPosition hnum
  have hbase := Broadcast.base_write data (h.readers_nonempty hdata)
  have hother : ∀ n, first ≤ n → n < first + msgPoolSize → n ≠ x.log.length →
      n % msgPoolSize ≠ x.log.length % msgPoolSize := by
    intro n hn hlt hne hmod
    apply hne
    apply eq_of_mod_eq ⟨hn, hlt⟩ ⟨hle, by omega⟩ hmod
  rw [MsgDataPool.write, if_neg hdata] at hrange ⊢
  simp only [hpos] at hrange ⊢
  constructor
  · exact hrange
  · apply h.subscribers
  · apply h.subPos
  · rw [hbase]
    apply h.first_le
  · apply h.writePos
  · simp only [if_neg hnum.ne, increment_eq hnum.le]
    rw [hlen, Broadcast.log_write, List.length_append, List.length_singleton]
    omega
  · intro n hn hlt
    by_cases hnew : n = x.log.length
    · subst hnew
      simp only [Function.update_self, Broadcast.pending_write_length]
      apply h.subscribers
    · simp only [Function.update_of_ne (hother n hn hlt hnew),
        Broadcast.pending_write_of_ne x data hnew]
      apply h.bs n hn hlt
  · intro n hn hlt
    rw [Broadcast.log_write, List.length_append, List.length_singleton] at hlt
    by_cases hnew : n = x.log.length
    · subst hnew
      simp only [Function.update_self, Broadcast.log_write, List.getElem?_concat_length]
    · have hold : n < x.log.length := by
        omega
      simp only [Function.update_of_ne (hother n hn (by omega) hnew), Broadcast.log_write,
        List.getElem?_append_left hold]
      apply h.pData n hn hold
  · intro data' hmem
    rcases List.mem_append.mp hmem with hmem | hmem
    · apply h.nonempty data' hmem
    · obtain rfl := List.mem_singleton.mp hmem
      rintro rfl
      apply hdata
      right; left
      rfl
  · intro pos
    by_cases hnew : pos = x.log.length % msgPoolSize
    · subst hnew
      simp only [Function.update_self]
      apply h.release
    · simp only [Function.update_of_ne hnew]
      apply h.release

/-! ### Joining -/

omit h in
/-- The positions that the loop of `Sub` goes through. -/
theorem InRange.mem_backlog (hrange : InRange pool) {pos : ℕ} :
  pos ∈ pool.backlog ↔ pool.currWritePos ≤ pos ∧ pos < pool.currMsgDataNum
  := by
  have hnum := hrange.dataNum
  have hwrap : ∀ i < pool.currMsgDataNum, wrap i = i := by
    intro i hi
    apply if_neg
    omega
  rw [MsgDataPool.backlog, List.mem_map]
  constructor
  · rintro ⟨i, hi, rfl⟩
    obtain ⟨hle, hlt⟩ := List.mem_range'_1.mp hi
    rw [hwrap i (by omega)]
    omega
  · rintro ⟨hle, hlt⟩
    use pos
    exact ⟨List.mem_range'_1.mpr (by omega), hwrap pos hlt⟩

/-- The loop of `Sub` goes through the whole window if it is empty or starts at position
zero. -/
theorem Stores.mem_backlog (hwhole : pool.currMsgDataNum = 0 ∨ pool.currWritePos = 0)
    {n : ℕ} (hle : first ≤ n) (hn : n < first + msgPoolSize) :
  n % msgPoolSize ∈ pool.backlog ↔ n < x.log.length
  := by
  have hnum := h.dataNum
  have hpos := h.writePos
  have hlen := h.length_le
  rw [h.inRange.mem_backlog]
  simp only [msgPoolSize] at *
  omega

/-- `Sub` joins at the first message stored, if its loop goes through the whole window. -/
theorem Stores.sub {b : BitsetPos} {pool' : MsgDataPool}
    (hwhole : pool.currMsgDataNum = 0 ∨ pool.currWritePos = 0)
    (hsub : pool.sub = (some b, pool')) :
  b ∉ x.readers ∧ Stores pool' (x.joinAt b first h.first_le_length) first
  := by
  have hrange := h.inRange.sub
  rcases sub_cases pool with ⟨-, hfull⟩ | ⟨b', hb, hfree⟩
  · rw [hfull] at hsub
    cases hsub
  · rw [hfree] at hsub
    cases hsub
    rw [hfree] at hrange
    rw [h.subscribers] at hb
    use hb
    constructor
    · exact hrange
    · simp only [h.subscribers, Broadcast.readers_joinAt]
    · intro b' hb'
      by_cases hbb : b' = b
      · subst hbb
        simp only [Function.update_self, Broadcast.cursor_joinAt_self]
        apply h.writePos
      · simp only [Function.update_of_ne hbb, Broadcast.cursor_joinAt_of_ne x _ hbb]
        apply h.subPos b' (Finset.mem_of_mem_insert_of_ne hb' hbb)
    · rw [x.base_joinAt hb h.first_le]
    · apply h.writePos
    · apply h.dataNum
    · intro n hle hn
      simp only [foldl_setPending, h.mem_backlog hwhole hle hn]
      by_cases hlt : n < x.log.length
      · rw [if_pos hlt, Broadcast.pending_joinAt x hb _ hle hlt, ← h.bs n hle hn]
      · have hnone : (x.joinAt b first h.first_le_length).pending n = ∅ := if_neg hlt
        have hnone' : x.pending n = ∅ := if_neg hlt
        rw [if_neg hlt, h.bs n hle hn, hnone, hnone']
    · intro n hle hlt
      simp only [foldl_setPending]
      split
      · apply h.pData n hle hlt
      · apply h.pData n hle hlt
    · apply h.nonempty
    · intro pos
      simp only [foldl_setPending]
      split
      · apply h.release
      · apply h.release

/-- `UnSub` leaves; the messages stored remain. -/
theorem Stores.unSub (b : BitsetPos) :
  Stores (pool.unSub b) (x.leave b) first
  := by
  constructor
  · exact ⟨h.inRange.subPos, h.inRange.writePos, h.inRange.dataNum, h.inRange.release⟩
  · rw [MsgDataPool.unSub, h.subscribers, Broadcast.readers_leave]
  · intro b' hb'
    apply h.subPos b' (Finset.mem_of_mem_erase hb')
  · exact h.first_le.trans (x.base_le_base_leave b)
  · apply h.writePos
  · apply h.dataNum
  · intro n hle hn
    have hpos : n % msgPoolSize < msgPoolSize := Nat.mod_lt _ (Nat.succ_pos 7)
    rw [MsgDataPool.unSub, Broadcast.pending_leave, ← h.bs n hle hn]
    simp only [foldl_resetPending, List.mem_range, if_pos hpos]
  · intro n hle hlt
    rw [MsgDataPool.unSub]
    simp only [foldl_resetPending]
    split
    · apply h.pData n hle hlt
    · apply h.pData n hle hlt
  · apply h.nonempty
  · intro pos
    rw [MsgDataPool.unSub]
    simp only [foldl_resetPending]
    split
    · apply h.release
    · apply h.release

end

/-! ### While nobody leaves -/

section

variable {pool : MsgDataPool} {x : Log}

theorem Represents.stores (h : Represents pool x) :
  Stores pool x x.base
  := ⟨h.inRange, h.subscribers, h.subPos, le_rfl, h.writePos, h.dataNum, h.bs, h.pData,
    h.nonempty, h.release⟩

theorem Stores.represents {first : ℕ} (h : Stores pool x first) (hfirst : first = x.base) :
  Represents pool x
  := by
  subst hfirst
  exact ⟨h.inRange, h.subscribers, h.subPos, h.writePos, h.dataNum, h.bs, h.pData, h.nonempty,
    h.release⟩

variable (h : Represents pool x)

include h

/-- `uiCurrMsgDataNum` is the number of messages that somebody awaits. -/
theorem Represents.card_pending :
  ((Finset.range msgPoolSize).filter (fun pos => (pool.arrMsgData pos).bs ≠ ∅)).card
    = pool.currMsgDataNum
  := by
  have hlen := h.stores.length_le
  have hwindow : (Finset.range msgPoolSize).filter (fun pos => (pool.arrMsgData pos).bs ≠ ∅)
      = (Finset.Ico x.base x.log.length).image (· % msgPoolSize) := by
    ext pos
    rw [Finset.mem_filter, Finset.mem_range, Finset.mem_image]
    constructor
    · rintro ⟨hpos, hne⟩
      obtain ⟨n, hle, hlt, rfl⟩ := exists_mod_eq x.base hpos
      use n
      rw [h.bs n hle hlt] at hne
      have hn : n < x.log.length := by
        by_contra hge
        apply hne (Broadcast.pending_eq_empty (Nat.not_lt.mp hge))
      exact ⟨Finset.mem_Ico.mpr ⟨hle, hn⟩, rfl⟩
    · rintro ⟨n, hn, rfl⟩
      obtain ⟨hle, hlt⟩ := Finset.mem_Ico.mp hn
      constructor
      · apply Nat.mod_lt _ (Nat.succ_pos 7)
      · rw [h.bs n hle (by omega)]
        apply (Broadcast.pending_nonempty hle hlt).ne_empty
  rw [hwindow, Finset.card_image_of_injOn, Nat.card_Ico, h.dataNum]
  apply (Nat.mod_injOn_Ico x.base msgPoolSize).mono
  intro n hn
  simp only [Finset.coe_Ico, Set.mem_Ico] at hn ⊢
  omega

/-- `Read` waits exactly if the subscriber has read everything. -/
theorem Represents.waits_iff (b : BitsetPos) :
  pool.waits b ↔ ¬ (b ∈ x.readers ∧ x.cursor b < x.log.length)
  := h.stores.waits_iff b

/-- `Read` returns the next message of the subscriber. -/
theorem Represents.read {b : BitsetPos} {data : List UInt8} {pool' : MsgDataPool}
    (hread : pool.read b = some (data, pool')) :
  ∃ _ : b ∈ x.readers, ∃ hlt : x.cursor b < x.log.length,
    data = x.log[x.cursor b] ∧ Represents pool' (x.read b hlt)
  := by
  obtain ⟨hb, hlt, hdata, hstores⟩ := h.stores.read hread
  use hb, hlt, hdata
  apply hstores.represents
  rw [firstAfterRead]
  rcases Broadcast.base_read_cases hlt hb with ⟨hrest, hbase⟩ | ⟨hlast, -, hbase⟩
  · rw [if_neg hrest, hbase]
  · rw [if_pos hlast, hbase]

/-- `Write` writes to the log, unless the window is full. -/
theorem Represents.write {data : List UInt8} (hdata : ¬ pool.refuses (some data))
    (hnum : pool.currMsgDataNum < msgPoolSize) :
  Represents (pool.write (some data)).2 (x.write data)
  := by
  apply (h.stores.write hdata hnum).represents
  rw [Broadcast.base_write data (h.stores.readers_nonempty hdata)]

/-- `Sub` joins at the base of the log, if its loop goes through the whole window. -/
theorem Represents.sub {b : BitsetPos} {pool' : MsgDataPool}
    (hwhole : pool.currMsgDataNum = 0 ∨ pool.currWritePos = 0)
    (hsub : pool.sub = (some b, pool')) :
  b ∉ x.readers ∧ Represents pool' (x.join b)
  := by
  obtain ⟨hb, hstores⟩ := h.stores.sub hwhole hsub
  use hb
  apply hstores.represents
  exact (x.base_join b hb).symm

end

end CircleBuffer
