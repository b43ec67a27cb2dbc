import Mathlib.Data.Finset.Fold
import Mathlib.Data.Finset.Insert
import Mathlib.Data.List.TakeDrop
import Mathlib.Logic.Function.Basic

/-!
# Broadcasts

A `Broadcast` is a log that several readers read, each at its own pace.  A reader joins at
`base`, behind everything that all the others have read; from there on it receives the log
without gaps and in order (`received`, `received_read`).  The messages from `base` on are
awaited by somebody (`pending_nonempty`), so whoever stores the log has to keep these and no
others.
-/

/-- A log, its readers, where each of them joined and how far it has read. -/
structure Broadcast (ι α : Type*) where
  log : List α
  readers : Finset ι
  start : ι → ℕ
  cursor : ι → ℕ
  start_le : ∀ i ∈ readers, start i ≤ cursor i
  cursor_le : ∀ i ∈ readers, cursor i ≤ log.length

namespace Broadcast

variable {ι α : Type*}

/-- The empty log without readers. -/
def empty : Broadcast ι α where
  log := []
  readers := ∅
  start _ := 0
  cursor _ := 0
  start_le _ h := absurd h (Finset.notMem_empty _)
  cursor_le _ h := absurd h (Finset.notMem_empty _)

/-- What a reader has received: the log from where it joined to where it is. -/
def received (x : Broadcast ι α) (i : ι) : List α :=
  (x.log.take (x.cursor i)).drop (x.start i)

/-- Where the slowest reader is; at the end of the log if there are none. -/
def base (x : Broadcast ι α) : ℕ :=
  x.readers.fold min x.log.length x.cursor

/-- The readers that still await the message `n`, if it has been written. -/
def pending (x : Broadcast ι α) (n : ℕ) : Finset ι :=
  if n < x.log.length then x.readers.filter (fun i => x.cursor i ≤ n) else ∅

/-- A message is written. -/
def write (x : Broadcast ι α) (a : α) : Broadcast ι α where
  log := x.log ++ [a]
  readers := x.readers
  start := x.start
  cursor := x.cursor
  start_le := x.start_le
  cursor_le i hi := by
    rw [List.length_append]
    apply Nat.le_add_right_of_le (x.cursor_le i hi)

@[simp] theorem log_write (x : Broadcast ι α) (a : α) : (x.write a).log = x.log ++ [a] := rfl
@[simp] theorem readers_write (x : Broadcast ι α) (a : α) : (x.write a).readers = x.readers := rfl
@[simp] theorem start_write (x : Broadcast ι α) (a : α) : (x.write a).start = x.start := rfl
@[simp] theorem cursor_write (x : Broadcast ι α) (a : α) : (x.write a).cursor = x.cursor := rfl

/-! ### The base -/

theorem base_le_length (x : Broadcast ι α) :
  x.base ≤ x.log.length
  := (Finset.le_fold_min x.base).mp le_rfl |>.1

theorem base_le_cursor (x : Broadcast ι α) {i : ι} (hi : i ∈ x.readers) :
  x.base ≤ x.cursor i
  := ((Finset.le_fold_min x.base).mp le_rfl).2 i hi

theorem le_base_iff {x : Broadcast ι α} {n : ℕ} :
  n ≤ x.base ↔ n ≤ x.log.length ∧ ∀ i ∈ x.readers, n ≤ x.cursor i
  := Finset.le_fold_min n

/-- The slowest reader. -/
theorem exists_cursor_eq_base {x : Broadcast ι α} (h : x.base < x.log.length) :
  ∃ i ∈ x.readers, x.cursor i = x.base
  := by
  rcases (Finset.fold_min_le x.base).mp le_rfl with hlen | ⟨i, hi, hcursor⟩
  · omega
  · use i, hi
    apply Nat.le_antisymm hcursor (x.base_le_cursor hi)

/-- What determines the base. -/
theorem base_eq {x : Broadcast ι α} {b : ℕ} (hlen : b ≤ x.log.length)
    (hcursor : ∀ i ∈ x.readers, b ≤ x.cursor i)
    (h : b = x.log.length ∨ ∃ i ∈ x.readers, x.cursor i = b) :
  x.base = b
  := by
  apply Nat.le_antisymm
  · rcases h with rfl | ⟨i, hi, rfl⟩
    · apply base_le_length
    · apply x.base_le_cursor hi
  · apply (Finset.le_fold_min b).mpr
    exact ⟨hlen, hcursor⟩

/-- Either everything has been read by everybody, or there is a slowest reader. -/
theorem base_cases (x : Broadcast ι α) :
  x.base = x.log.length ∨ ∃ i ∈ x.readers, x.cursor i = x.base
  := by
  rcases Nat.lt_or_eq_of_le x.base_le_length with hlt | heq
  · right
    apply exists_cursor_eq_base hlt
  · left
    exact heq

/-! ### Messages that are awaited -/

theorem mem_pending {x : Broadcast ι α} {n : ℕ} {i : ι} :
  i ∈ x.pending n ↔ n < x.log.length ∧ i ∈ x.readers ∧ x.cursor i ≤ n
  := by
  rw [pending]
  split
  · rename_i hn
    simp [hn]
  · rename_i hn
    simp [hn]

theorem pending_eq_empty {x : Broadcast ι α} {n : ℕ} (h : x.log.length ≤ n) :
  x.pending n = ∅
  := if_neg (Nat.not_lt.mpr h)

/-- Nobody awaits a message before the base. -/
theorem pending_of_lt_base {x : Broadcast ι α} {n : ℕ} (h : n < x.base) :
  x.pending n = ∅
  := by
  apply Finset.eq_empty_of_forall_notMem
  intro i hi
  obtain ⟨-, hi, hle⟩ := mem_pending.mp hi
  have hge := x.base_le_cursor hi
  omega

/-- Somebody awaits every message from the base on. -/
theorem pending_nonempty {x : Broadcast ι α} {n : ℕ} (hbase : x.base ≤ n)
    (hn : n < x.log.length) :
  (x.pending n).Nonempty
  := by
  obtain ⟨i, hi, hcursor⟩ := exists_cursor_eq_base (Nat.lt_of_le_of_lt hbase hn)
  use i
  rw [mem_pending, hcursor]
  exact ⟨hn, hi, hbase⟩

/-! ### Writing -/

theorem base_write {x : Broadcast ι α} (a : α) (h : x.readers.Nonempty) :
  (x.write a).base = x.base
  := by
  apply base_eq
  · rw [log_write, List.length_append]
    apply Nat.le_add_right_of_le x.base_le_length
  · intro i hi
    apply x.base_le_cursor hi
  · right
    rcases x.base_cases with hbase | hslow
    · obtain ⟨i, hi⟩ := h
      use i, hi
      have hge := x.base_le_cursor hi
      have hle := x.cursor_le i hi
      rw [cursor_write]
      omega
    · exact hslow

/-- Every reader awaits a new message. -/
theorem pending_write_length (x : Broadcast ι α) (a : α) :
  (x.write a).pending x.log.length = x.readers
  := by
  ext i
  rw [mem_pending]
  constructor
  · rintro ⟨-, hi, -⟩
    exact hi
  · intro hi
    and_intros
    · rw [log_write, List.length_append]
      apply Nat.lt_succ_self
    · exact hi
    · apply x.cursor_le i hi

theorem pending_write_of_ne (x : Broadcast ι α) (a : α) {n : ℕ} (hn : n ≠ x.log.length) :
  (x.write a).pending n = x.pending n
  := by
  ext i
  rw [mem_pending, mem_pending, log_write, readers_write, cursor_write, List.length_append,
    List.length_singleton]
  have hlt : n < x.log.length + 1 ↔ n < x.log.length := by
    omega
  rw [hlt]

theorem received_write {x : Broadcast ι α} (a : α) {i : ι} (hi : i ∈ x.readers) :
  (x.write a).received i = x.received i
  := by
  have hle := x.cursor_le i hi
  rw [received, received, log_write, cursor_write, start_write,
    List.take_append_of_le_length hle]

/-! ### Reading -/

section

variable [DecidableEq ι]

/-- A reader reads the next message. -/
def read (x : Broadcast ι α) (i : ι) (h : x.cursor i < x.log.length) : Broadcast ι α where
  log := x.log
  readers := x.readers
  start := x.start
  cursor := Function.update x.cursor i (x.cursor i + 1)
  start_le j hj := by
    have hle := x.start_le j hj
    by_cases hji : j = i
    · subst hji
      rw [Function.update_self]
      apply Nat.le_succ_of_le hle
    · rw [Function.update_of_ne hji]
      exact hle
  cursor_le j hj := by
    by_cases hji : j = i
    · subst hji
      rw [Function.update_self]
      exact h
    · rw [Function.update_of_ne hji]
      apply x.cursor_le j hj

/-- A reader joins at some place of the log. -/
def joinAt (x : Broadcast ι α) (i : ι) (n : ℕ) (h : n ≤ x.log.length) : Broadcast ι α where
  log := x.log
  readers := insert i x.readers
  start := Function.update x.start i n
  cursor := Function.update x.cursor i n
  start_le j hj := by
    by_cases hji : j = i
    · subst hji
      rw [Function.update_self, Function.update_self]
    · rw [Function.update_of_ne hji, Function.update_of_ne hji]
      apply x.start_le j (Finset.mem_of_mem_insert_of_ne hj hji)
  cursor_le j hj := by
    by_cases hji : j = i
    · subst hji
      rw [Function.update_self]
      exact h
    · rw [Function.update_of_ne hji]
      apply x.cursor_le j (Finset.mem_of_mem_insert_of_ne hj hji)

/-- A reader leaves. -/
def leave (x : Broadcast ι α) (i : ι) : Broadcast ι α where
  log := x.log
  readers := x.readers.erase i
  start := x.start
  cursor := x.cursor
  start_le j hj := x.start_le j (Finset.mem_of_mem_erase hj)
  cursor_le j hj := x.cursor_le j (Finset.mem_of_mem_erase hj)

/-- A reader joins at the base. -/
def join (x : Broadcast ι α) (i : ι) : Broadcast ι α where
  log := x.log
  readers := insert i x.readers
  start := Function.update x.start i x.base
  cursor := Function.update x.cursor i x.base
  start_le j hj := by
    by_cases hji : j = i
    · subst hji
      rw [Function.update_self, Function.update_self]
    · rw [Function.update_of_ne hji, Function.update_of_ne hji]
      apply x.start_le j (Finset.mem_of_mem_insert_of_ne hj hji)
  cursor_le j hj := by
    by_cases hji : j = i
    · subst hji
      rw [Function.update_self]
      apply base_le_length
    · rw [Function.update_of_ne hji]
      apply x.cursor_le j (Finset.mem_of_mem_insert_of_ne hj hji)

section

variable (x : Broadcast ι α) {i : ι} {n : ℕ} (h : n ≤ x.log.length)

@[simp] theorem log_joinAt : (x.joinAt i n h).log = x.log := rfl
@[simp] theorem readers_joinAt : (x.joinAt i n h).readers = insert i x.readers := rfl

@[simp]
theorem cursor_joinAt_self :
  (x.joinAt i n h).cursor i = n
  := Function.update_self ..

theorem cursor_joinAt_of_ne {j : ι} (hji : j ≠ i) :
  (x.joinAt i n h).cursor j = x.cursor j
  := Function.update_of_ne hji ..

@[simp]
theorem start_joinAt_self :
  (x.joinAt i n h).start i = n
  := Function.update_self ..

theorem start_joinAt_of_ne {j : ι} (hji : j ≠ i) :
  (x.joinAt i n h).start j = x.start j
  := Function.update_of_ne hji ..

@[simp] theorem log_leave (i : ι) : (x.leave i).log = x.log := rfl
@[simp] theorem readers_leave (i : ι) : (x.leave i).readers = x.readers.erase i := rfl
@[simp] theorem start_leave (i : ι) : (x.leave i).start = x.start := rfl
@[simp] theorem cursor_leave (i : ι) : (x.leave i).cursor = x.cursor := rfl

end

@[simp] theorem log_join (x : Broadcast ι α) (i : ι) : (x.join i).log = x.log := rfl

@[simp]
theorem readers_join (x : Broadcast ι α) (i : ι) :
  (x.join i).readers = insert i x.readers
  := rfl

theorem start_join_self (x : Broadcast ι α) (i : ι) :
  (x.join i).start i = x.base
  := Function.update_self ..

theorem start_join_of_ne (x : Broadcast ι α) {i j : ι} (hji : j ≠ i) :
  (x.join i).start j = x.start j
  := Function.update_of_ne hji ..

variable {x : Broadcast ι α} {i : ι} (h : x.cursor i < x.log.length)

@[simp] theorem log_read : (x.read i h).log = x.log := rfl
@[simp] theorem readers_read : (x.read i h).readers = x.readers := rfl
@[simp] theorem start_read : (x.read i h).start = x.start := rfl

@[simp]
theorem cursor_read_self :
  (x.read i h).cursor i = x.cursor i + 1
  := Function.update_self ..

theorem cursor_read_of_ne {j : ι} (hji : j ≠ i) :
  (x.read i h).cursor j = x.cursor j
  := Function.update_of_ne hji ..

/-- The reader no longer awaits the message it has read. -/
theorem pending_read_cursor (hi : i ∈ x.readers) :
  (x.read i h).pending (x.cursor i) = (x.pending (x.cursor i)).erase i
  := by
  ext j
  rw [Finset.mem_erase, mem_pending, mem_pending]
  by_cases hji : j = i
  · subst hji
    rw [cursor_read_self]
    simp
  · rw [cursor_read_of_ne h hji]
    simp [hji]

theorem pending_read_of_ne {n : ℕ} (hn : n ≠ x.cursor i) :
  (x.read i h).pending n = x.pending n
  := by
  ext j
  rw [mem_pending, mem_pending]
  by_cases hji : j = i
  · subst hji
    rw [cursor_read_self]
    have hlt : x.cursor j + 1 ≤ n ↔ x.cursor j ≤ n := by
      omega
    rw [hlt, log_read, readers_read]
  · rw [cursor_read_of_ne h hji, log_read, readers_read]

/-- While somebody awaits the message, the base stays. -/
theorem base_read_of_nonempty (hi : i ∈ x.readers)
    (hrest : ((x.pending (x.cursor i)).erase i).Nonempty) :
  (x.read i h).base = x.base
  := by
  have hbase := x.base_le_cursor hi
  apply base_eq
  · apply base_le_length
  · intro j hj
    by_cases hji : j = i
    · subst hji
      rw [cursor_read_self]
      omega
    · rw [cursor_read_of_ne h hji]
      apply x.base_le_cursor hj
  · right
    obtain ⟨j, hj⟩ := hrest
    obtain ⟨hji, hj⟩ := Finset.mem_erase.mp hj
    obtain ⟨-, hjreads, hjle⟩ := mem_pending.mp hj
    obtain ⟨k, hk, hslow⟩ := exists_cursor_eq_base (Nat.lt_of_le_of_lt hbase h)
    by_cases hki : k = i
    · subst hki
      use j, hjreads
      have hge := x.base_le_cursor hjreads
      rw [cursor_read_of_ne h hji]
      omega
    · use k, hk
      rw [cursor_read_of_ne h hki, hslow]

/-- The last reader of a message reads the message at the base, and the base moves on. -/
theorem base_read_last (hi : i ∈ x.readers) (hlast : (x.pending (x.cursor i)).erase i = ∅) :
  x.cursor i = x.base ∧ (x.read i h).base = x.base + 1
  := by
  have hbase := x.base_le_cursor hi
  have hlt := Nat.lt_of_le_of_lt hbase h
  have hothers : ∀ j ∈ x.readers, j ≠ i → x.cursor i < x.cursor j := by
    intro j hj hji
    by_contra hle
    have hmem : j ∈ (x.pending (x.cursor i)).erase i := by
      rw [Finset.mem_erase, mem_pending]
      exact ⟨hji, h, hj, Nat.not_lt.mp hle⟩
    rw [hlast] at hmem
    apply Finset.notMem_empty j hmem
  have hslow : x.cursor i = x.base := by
    obtain ⟨k, hk, hslow⟩ := exists_cursor_eq_base hlt
    by_cases hki : k = i
    · rw [← hki, hslow]
    · have hgt := hothers k hk hki
      omega
  use hslow
  apply base_eq
  · exact hlt
  · intro j hj
    by_cases hji : j = i
    · subst hji
      rw [cursor_read_self, hslow]
    · have hgt := hothers j hj hji
      rw [cursor_read_of_ne h hji]
      omega
  · right
    use i, hi
    rw [cursor_read_self, hslow]

/-- The base moves on with the last reader of a message. -/
theorem base_read_cases (hi : i ∈ x.readers) :
  ((x.pending (x.cursor i)).erase i ≠ ∅ ∧ (x.read i h).base = x.base) ∨
    ((x.pending (x.cursor i)).erase i = ∅ ∧ x.cursor i = x.base ∧
      (x.read i h).base = x.base + 1)
  := by
  by_cases hlast : (x.pending (x.cursor i)).erase i = ∅
  · right
    use hlast
    apply base_read_last h hi hlast
  · left
    use hlast
    apply base_read_of_nonempty h hi (Finset.nonempty_iff_ne_empty.mpr hlast)

/-- The reader receives the next message of the log. -/
theorem received_read (hi : i ∈ x.readers) :
  (x.read i h).received i = x.received i ++ [x.log[x.cursor i]]
  := by
  have hstart := x.start_le i hi
  rw [received, cursor_read_self, log_read, start_read, received,
    List.take_succ_eq_append_getElem h]
  apply List.drop_append_of_le_length
  rw [List.length_take]
  omega

theorem received_read_of_ne {j : ι} (hji : j ≠ i) :
  (x.read i h).received j = x.received j
  := by
  rw [received, cursor_read_of_ne h hji, log_read, start_read, received]

/-! ### Joining and leaving -/

/-- Who joins behind all others becomes the slowest. -/
theorem base_joinAt (x : Broadcast ι α) {i : ι} (hi : i ∉ x.readers) {n : ℕ} (hn : n ≤ x.base) :
  (x.joinAt i n (hn.trans x.base_le_length)).base = n
  := by
  apply base_eq
  · exact hn.trans x.base_le_length
  · intro j hj
    rcases Finset.mem_insert.mp hj with rfl | hj'
    · rw [cursor_joinAt_self]
    · have hji : j ≠ i := by
        rintro rfl
        apply hi hj'
      rw [cursor_joinAt_of_ne x _ hji]
      exact hn.trans (x.base_le_cursor hj')
  · right
    use i, Finset.mem_insert_self ..
    apply cursor_joinAt_self

/-- A new reader awaits every message from where it joins. -/
theorem pending_joinAt (x : Broadcast ι α) {i : ι} (hi : i ∉ x.readers) {n k : ℕ}
    (hn : n ≤ x.log.length) (hk : n ≤ k) (hlt : k < x.log.length) :
  (x.joinAt i n hn).pending k = insert i (x.pending k)
  := by
  ext j
  rw [Finset.mem_insert, mem_pending, mem_pending]
  by_cases hji : j = i
  · subst hji
    simp [hk, hlt]
  · rw [cursor_joinAt_of_ne x hn hji]
    simp [hji]

theorem received_joinAt (x : Broadcast ι α) {i : ι} {n : ℕ} (hn : n ≤ x.log.length) :
  (x.joinAt i n hn).received i = []
  := by
  rw [received, cursor_joinAt_self, start_joinAt_self]
  apply List.drop_eq_nil_of_le
  apply List.length_take_le

theorem received_joinAt_of_ne (x : Broadcast ι α) {i j : ι} {n : ℕ} (hn : n ≤ x.log.length)
    (hji : j ≠ i) :
  (x.joinAt i n hn).received j = x.received j
  := by
  rw [received, cursor_joinAt_of_ne x hn hji, start_joinAt_of_ne x hn hji, log_joinAt, received]

theorem base_join (x : Broadcast ι α) (i : ι) (hi : i ∉ x.readers) :
  (x.join i).base = x.base
  := base_joinAt x hi le_rfl

theorem received_join (x : Broadcast ι α) (i : ι) :
  (x.join i).received i = []
  := received_joinAt x x.base_le_length

theorem received_join_of_ne (x : Broadcast ι α) {i j : ι} (hji : j ≠ i) :
  (x.join i).received j = x.received j
  := received_joinAt_of_ne x x.base_le_length hji

theorem base_le_base_leave (x : Broadcast ι α) (i : ι) :
  x.base ≤ (x.leave i).base
  := by
  apply le_base_iff.mpr
  constructor
  · apply base_le_length
  · intro j hj
    apply x.base_le_cursor (Finset.mem_of_mem_erase hj)

/-- Who leaves awaits no message any more. -/
theorem pending_leave (x : Broadcast ι α) (i : ι) (n : ℕ) :
  (x.leave i).pending n = (x.pending n).erase i
  := by
  ext j
  rw [Finset.mem_erase, mem_pending, mem_pending, readers_leave, Finset.mem_erase]
  tauto

end

/-! ### What is received -/

/-- Whatever a reader has received stands in the log in this order. -/
theorem received_sublist (x : Broadcast ι α) (i : ι) :
  (x.received i).Sublist x.log
  := (List.drop_sublist ..).trans (List.take_sublist ..)

/-- A reader has received the first messages of the log from where it joined. -/
theorem received_prefix_drop (x : Broadcast ι α) (i : ι) :
  x.received i <+: x.log.drop (x.start i)
  := by
  rw [received, List.drop_take]
  apply List.take_prefix

theorem received_eq_drop (x : Broadcast ι α) {i : ι} (hi : i ∈ x.readers) :
  x.received i = x.log.drop (x.start i) ↔ x.cursor i = x.log.length
  := by
  have hstart := x.start_le i hi
  have hcursor := x.cursor_le i hi
  constructor
  · intro heq
    have hlen := congrArg List.length heq
    rw [received, List.length_drop, List.length_drop, List.length_take_of_le hcursor] at hlen
    omega
  · intro heq
    rw [received, heq, List.take_length]

/-- A reader that was there from the beginning has received the first messages of the log. -/
theorem received_prefix {x : Broadcast ι α} {i : ι} (h : x.start i = 0) :
  x.received i <+: x.log
  := by
  rw [received, h, List.drop_zero]
  apply List.take_prefix

theorem length_received {x : Broadcast ι α} {i : ι} (hi : i ∈ x.readers) (h : x.start i = 0) :
  (x.received i).length = x.cursor i
  := by
  rw [received, h, List.drop_zero, List.length_take_of_le (x.cursor_le i hi)]

/-- It has received everything when it is at the end. -/
theorem received_eq_log {x : Broadcast ι α} {i : ι} (hi : i ∈ x.readers) (h : x.start i = 0) :
  x.received i = x.log ↔ x.cursor i = x.log.length
  := by
  constructor
  · intro heq
    rw [← length_received hi h, heq]
  · intro heq
    rw [received, h, heq, List.drop_zero, List.take_length]

end Broadcast
