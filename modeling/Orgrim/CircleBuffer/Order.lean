import Mathlib.Data.Finset.Dedup
import Orgrim.CircleBuffer.Window

/-!
# Order of the messages

As long as no message is written into a full pool and no subscriber comes when the window is
wrapped, the pool with its history follows a `Broadcast` (`follows_call`).  Then the messages
are returned in the order in which they were written (`received_in_order`), and all of them
to those who subscribe before the first one (`delivers_in_order`).  Into a full pool a message
is written in front of the older ones: `overflow_reorders`.
-/

namespace CircleBuffer

/-- The pool stores the log, and the history is that of the log. -/
structure Follows (y : MsgDataPool × History) (x : Log) : Prop where
  represents : Represents y.1 x
  written : y.2.written = x.log
  received : ∀ b ∈ x.readers, y.2.received b = x.received b
  silent : ∀ b ∉ x.readers, y.2.received b = []

theorem Follows.start : Follows (.start, .start) .empty where
  represents := .start
  written := rfl
  received _ h := absurd h (Finset.notMem_empty _)
  silent _ _ := rfl

/-! ### Conditions on calls -/

/-- No subscriber leaves, no message is written into a full pool, and the window starts at
position zero when a subscriber comes, unless it is empty. -/
def KeepsOrder (y : MsgDataPool × History) : Call → Prop
  | .sub =>
      y.1.bsSubscribers = Finset.univ ∨ y.1.currMsgDataNum = 0 ∨ y.1.currWritePos = 0
  | .unSub _ => False
  | .write pData => y.1.refuses pData ∨ y.1.currMsgDataNum < msgPoolSize
  | .read _ => True

instance (y : MsgDataPool × History) : ∀ c : Call, Decidable (KeepsOrder y c)
  | .sub => inferInstanceAs (Decidable (_ ∨ _ ∨ _))
  | .unSub _ => inferInstanceAs (Decidable False)
  | .write _ => inferInstanceAs (Decidable (_ ∨ _))
  | .read _ => inferInstanceAs (Decidable True)

/-- The subscribers come before the first message, none leaves, and a message is written only
while the slowest of them has less than `msgPoolSize` messages to read. -/
def FixedSubscribers (y : MsgDataPool × History) : Call → Prop
  | .sub => y.2.written = []
  | .unSub _ => False
  | .write pData =>
      ¬ y.1.refuses pData →
        ∀ b ∈ y.1.bsSubscribers, y.2.written.length < (y.2.received b).length + msgPoolSize
  | .read _ => True

instance (y : MsgDataPool × History) : ∀ c : Call, Decidable (FixedSubscribers y c)
  | .sub => inferInstanceAs (Decidable (_ = _))
  | .unSub _ => inferInstanceAs (Decidable False)
  | .write _ => inferInstanceAs (Decidable (_ → ∀ b ∈ y.1.bsSubscribers, _))
  | .read _ => inferInstanceAs (Decidable True)

/-! ### One call -/

/-- What a call can do. -/
theorem recorded_cases {pool : MsgDataPool} {g : History} {y' : MsgDataPool × History}
    {c : Call} (hstep : y' ∈ recorded.step (pool, g) c) :
  (∃ b, c = .unSub b) ∨
    ((c = .sub ∧ pool.bsSubscribers = Finset.univ ∨ ∃ pData, c = .write pData ∧
        pool.refuses pData) ∧ y' = (pool, g)) ∨
    (c = .sub ∧ ∃ b pool', pool.sub = (some b, pool') ∧ y' = (pool', g)) ∨
    (∃ data, c = .write (some data) ∧ ¬ pool.refuses (some data) ∧
      y' = ((pool.write (some data)).2, { g with written := g.written ++ [data] })) ∨
    ∃ b data pool', c = .read b ∧ pool.read b = some (data, pool') ∧
      y' = (pool', { g with
        received := Function.update g.received b (g.received b ++ [data]) })
  := by
  obtain ⟨pool', hcall, rfl⟩ := Option.map_eq_some_iff.mp hstep
  cases c with
  | sub =>
      obtain rfl := Option.some.inj hcall
      right
      rcases sub_cases pool with ⟨hfull, hsub⟩ | ⟨b, -, hsub⟩
      · left
        rw [hsub]
        exact ⟨.inl ⟨rfl, hfull⟩, rfl⟩
      · right; left
        rw [hsub]
        exact ⟨rfl, b, _, rfl, rfl⟩
  | unSub b =>
      left
      use b
  | write pData =>
      obtain rfl := Option.some.inj hcall
      right
      by_cases hrefuses : pool.refuses pData
      · left
        use .inr ⟨pData, rfl, hrefuses⟩
        simp [History.after, MsgDataPool.write, hrefuses]
      · right; right; left
        cases pData with
        | none => exact absurd (.inl rfl) hrefuses
        | some data =>
            use data, rfl, hrefuses
            simp [History.after, MsgDataPool.write, hrefuses]
  | read b =>
      obtain ⟨⟨data, pool''⟩, hread, rfl⟩ := Option.map_eq_some_iff.mp hcall
      right; right; right; right
      use b, data, pool'', rfl, hread
      simp only [History.after, hread]

section

variable {pool : MsgDataPool} {g : History} {x : Log} (h : Follows (pool, g) x)

include h

theorem Follows.sub {b : BitsetPos} {pool' : MsgDataPool}
    (hwhole : pool.currMsgDataNum = 0 ∨ pool.currWritePos = 0)
    (hsub : pool.sub = (some b, pool')) :
  Follows (pool', g) (x.join b)
  := by
  obtain ⟨hb, hrepresents⟩ := h.represents.sub hwhole hsub
  constructor
  · exact hrepresents
  · apply h.written
  · intro b' hb'
    by_cases hbb : b' = b
    · subst hbb
      rw [Broadcast.received_join]
      apply h.silent b' hb
    · rw [Broadcast.received_join_of_ne x hbb]
      apply h.received b' (Finset.mem_of_mem_insert_of_ne hb' hbb)
  · intro b' hb'
    apply h.silent b'
    intro hmem
    apply hb' (Finset.mem_insert_of_mem hmem)

theorem Follows.write {data : List UInt8} (hdata : ¬ pool.refuses (some data))
    (hnum : pool.currMsgDataNum < msgPoolSize) :
  Follows ((pool.write (some data)).2, { g with written := g.written ++ [data] })
    (x.write data)
  := by
  constructor
  · apply h.represents.write hdata hnum
  · rw [h.written, Broadcast.log_write]
  · intro b hb
    rw [Broadcast.received_write (x := x) data hb]
    apply h.received b hb
  · apply h.silent

theorem Follows.read {b : BitsetPos} {data : List UInt8} {pool' : MsgDataPool}
    (hread : pool.read b = some (data, pool')) :
  ∃ _ : b ∈ x.readers, ∃ hlt : x.cursor b < x.log.length,
    Follows (pool', { g with
      received := Function.update g.received b (g.received b ++ [data]) }) (x.read b hlt)
  := by
  obtain ⟨hb, hlt, rfl, hrepresents⟩ := h.represents.read hread
  use hb, hlt
  constructor
  · exact hrepresents
  · apply h.written
  · intro b' hb'
    by_cases hbb : b' = b
    · subst hbb
      simp only [Function.update_self]
      rw [Broadcast.received_read hlt hb, ← h.received b' hb]
    · simp only [Function.update_of_ne hbb]
      rw [Broadcast.received_read_of_ne hlt hbb]
      apply h.received b' hb'
  · intro b' hb'
    have hbb : b' ≠ b := by
      rintro rfl
      apply hb' hb
    simp only [Function.update_of_ne hbb]
    apply h.silent b' hb'

end

/-- A call that keeps the order is one on the log; who subscribes joins at the base. -/
theorem follows_call {y y' : MsgDataPool × History} {x : Log} {c : Call} (h : Follows y x)
    (hkeeps : KeepsOrder y c) (hstep : y' ∈ recorded.step y c) :
  ∃ x', Follows y' x' ∧ ∀ b ∈ x'.readers,
    (b ∈ x.readers ∧ x'.start b = x.start b) ∨ (c = .sub ∧ x'.start b = x.base)
  := by
  obtain ⟨pool, g⟩ := y
  rcases recorded_cases hstep with ⟨b, rfl⟩ | ⟨-, rfl⟩ | ⟨rfl, b, pool', hsub, rfl⟩
    | ⟨data, rfl, haccepts, rfl⟩ | ⟨b, data, pool', rfl, hread, rfl⟩
  · exact absurd hkeeps id
  · use x, h
    intro b hb
    left
    exact ⟨hb, rfl⟩
  · have hwhole : pool.currMsgDataNum = 0 ∨ pool.currWritePos = 0 := by
      rcases hkeeps with hfull | hwhole
      · rcases sub_cases pool with ⟨-, hsub'⟩ | ⟨b', hb', -⟩
        · rw [hsub'] at hsub
          cases hsub
        · rw [hfull] at hb'
          exact absurd (Finset.mem_univ b') hb'
      · exact hwhole
    use x.join b, h.sub hwhole hsub
    intro b' hb'
    by_cases hbb : b' = b
    · right
      subst hbb
      exact ⟨rfl, x.start_join_self b'⟩
    · left
      exact ⟨Finset.mem_of_mem_insert_of_ne hb' hbb, x.start_join_of_ne hbb⟩
  · use x.write data, h.write haccepts (hkeeps.resolve_left haccepts)
    intro b hb
    left
    exact ⟨hb, rfl⟩
  · obtain ⟨hb, hlt, hfollows⟩ := h.read hread
    use x.read b hlt, hfollows
    intro b' hb'
    left
    exact ⟨hb', rfl⟩

/-! ### Order -/

/-- In every run in which no subscriber leaves, no message is written into a full pool and the
window starts at position zero, or is empty, when a subscriber comes, the messages returned
to a subscriber are some of those written, in the order in which they were written. -/
theorem received_in_order {calls : List Call} {pool : MsgDataPool} {g : History}
    (hcalls : recorded.Along KeepsOrder (.start, .start) calls)
    (hrun : recorded.final (.start, .start) calls = some (pool, g)) (b : BitsetPos) :
  (g.received b).Sublist g.written
  := by
  obtain ⟨x, h⟩ := Machine.final_of_invariant (fun y => ∃ x, Follows y x) (by
    rintro y c ⟨x, h⟩ hkeeps y' hstep
    obtain ⟨x', h', -⟩ := follows_call h hkeeps hstep
    use x') ⟨_, Follows.start⟩ hcalls hrun
  by_cases hb : b ∈ x.readers
  · rw [h.received b hb, h.written]
    apply x.received_sublist
  · rw [h.silent b hb]
    apply List.nil_sublist

/-- A message of one byte is written. -/
def writeByte (n : ℕ) : Call := .write (some [UInt8.ofNat n])

/-- A subscriber comes when the pool is full. -/
def fullRun : List Call :=
  [.sub] ++ (List.range 8).map writeByte ++ [.sub, .read 0, .read 1, .read 1]

theorem received_in_order_full :
  ∃ y, recorded.final (.start, .start) fullRun = some y ∧
    (y.2.received 1).Sublist y.2.written
  := by
  have hcalls : recorded.Along KeepsOrder (.start, .start) fullRun := by
    decide +kernel
  have hrun : (recorded.final (.start, .start) fullRun).isSome := by
    decide +kernel
  obtain ⟨y, hrun⟩ := Option.isSome_iff_exists.mp hrun
  use y, hrun
  apply received_in_order hcalls hrun

/-- A ninth message is written before the first one is read. -/
def overflowRun : List Call :=
  [.sub] ++ (List.range 9).map writeByte ++ [.read 0, .read 0]

/-- The ninth message is returned before the second one. -/
theorem overflow_reorders :
  ∃ y, recorded.final (.start, .start) overflowRun = some y ∧
    y.2.received 0 = [[8], [1]] ∧ ¬ (y.2.received 0).Sublist y.2.written
  := ⟨_, rfl, by decide, by decide⟩

/-! ### Fixed subscribers -/

/-- The subscribers have been there from the beginning. -/
def FromStart (y : MsgDataPool × History) (x : Log) : Prop :=
  Follows y x ∧ ∀ b ∈ x.readers, x.start b = 0

theorem FromStart.keepsOrder {y : MsgDataPool × History} {x : Log} {c : Call}
    (h : FromStart y x) (hfixed : FixedSubscribers y c) :
  KeepsOrder y c
  := by
  obtain ⟨hfollows, hstart⟩ := h
  have hnum := hfollows.represents.dataNum
  cases c with
  | sub =>
      have hnone : x.log = [] := by
        rw [← hfollows.written]
        exact hfixed
      right; left
      rw [hnum, hnone, List.length_nil, Nat.zero_sub]
  | unSub b => exact hfixed
  | write pData =>
      by_cases hrefuses : y.1.refuses pData
      · left
        exact hrefuses
      · right
        rcases x.base_cases with hbase | ⟨b, hb, hslow⟩
        · rw [hnum, hbase, Nat.sub_self]
          apply Nat.succ_pos
        · have hroom := hfixed hrefuses b (by rwa [hfollows.represents.subscribers])
          rw [hfollows.written, hfollows.received b hb,
            Broadcast.length_received hb (hstart b hb), hslow] at hroom
          have hle := x.base_le_length
          rw [hnum]
          omega
  | read b => trivial

theorem FromStart.call {y y' : MsgDataPool × History} {x : Log} {c : Call}
    (h : FromStart y x) (hfixed : FixedSubscribers y c) (hstep : y' ∈ recorded.step y c) :
  ∃ x', FromStart y' x'
  := by
  obtain ⟨x', hfollows, hstart⟩ := follows_call h.1 (h.keepsOrder hfixed) hstep
  use x', hfollows
  intro b hb
  rcases hstart b hb with ⟨hold, heq⟩ | ⟨rfl, heq⟩
  · rw [heq]
    apply h.2 b hold
  · have hbase := x.base_le_length
    have hnone : x.log = [] := by
      rw [← h.1.written]
      exact hfixed
    rw [hnone, List.length_nil] at hbase
    rw [heq]
    apply Nat.le_zero.mp hbase

/-- In every run in which all subscribers come before the first message and none leaves, and
a message is written only while the slowest has less than `msgPoolSize` messages to read,
every subscriber has received the first messages in order; it waits exactly when it has
received all of them, and otherwise receives the next one; and `uiCurrMsgDataNum` is the
number of messages that somebody still has to read. -/
theorem delivers_in_order {calls : List Call} {pool : MsgDataPool} {g : History}
    (hcalls : recorded.Along FixedSubscribers (.start, .start) calls)
    (hrun : recorded.final (.start, .start) calls = some (pool, g)) :
  (∀ b ∈ pool.bsSubscribers, g.received b <+: g.written ∧
      (pool.read b = none ↔ g.received b = g.written) ∧
      ∀ data pool', pool.read b = some (data, pool') → g.received b ++ [data] <+: g.written) ∧
    pool.currMsgDataNum
      = ((Finset.range msgPoolSize).filter (fun pos => (pool.arrMsgData pos).bs ≠ ∅)).card
  := by
  obtain ⟨x, h, hstart⟩ := Machine.final_of_invariant (fun y => ∃ x, FromStart y x) (by
    rintro y c ⟨x, h⟩ hfixed y' hstep
    apply h.call hfixed hstep) ⟨_, Follows.start, by simp [Broadcast.empty]⟩ hcalls hrun
  constructor
  · intro b hb
    rw [h.represents.subscribers] at hb
    have hcursor := x.cursor_le b hb
    have hreceived : g.received b = x.received b := h.received b hb
    have hwritten : g.written = x.log := h.written
    and_intros
    · rw [hreceived, hwritten]
      apply Broadcast.received_prefix (hstart b hb)
    · rw [hreceived, hwritten, Broadcast.received_eq_log hb (hstart b hb), read_eq_none,
        h.represents.waits_iff]
      constructor
      · intro hnone
        by_contra hlt
        apply hnone ⟨hb, by omega⟩
      · rintro heq ⟨-, hlt⟩
        omega
    · intro data pool' hread
      obtain ⟨-, hlt, hfollows⟩ := h.read hread
      have hnext := hfollows.received b hb
      simp only [Function.update_self] at hnext
      have hprefix := Broadcast.received_prefix (x := x.read b hlt) (hstart b hb)
      rw [hnext, hwritten]
      apply hprefix
  · apply h.represents.card_pending.symm

/-- Two subscribers read at their own pace; the second one waits at last. -/
def pacedRun : List Call :=
  [.sub, .sub, writeByte 0, .read 0, writeByte 1, writeByte 2, .read 1, .read 0, .read 1,
    .read 1]

theorem delivers_in_order_paced :
  ∃ y, recorded.final (.start, .start) pacedRun = some y ∧
    (y.1.read 1 = none ↔ y.2.received 1 = y.2.written)
  := by
  have hcalls : recorded.Along FixedSubscribers (.start, .start) pacedRun := by
    decide +kernel
  have hrun : (recorded.final (.start, .start) pacedRun).isSome := by
    decide +kernel
  have hsubscribed : ∀ y ∈ recorded.final (.start, .start) pacedRun,
      1 ∈ y.1.bsSubscribers := by
    decide +kernel
  obtain ⟨y, hrun⟩ := Option.isSome_iff_exists.mp hrun
  use y, hrun
  apply ((delivers_in_order hcalls hrun).1 1 (hsubscribed y hrun)).2.1

end CircleBuffer
