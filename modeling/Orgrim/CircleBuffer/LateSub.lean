import Orgrim.CircleBuffer.Order

/-!
# Late subscribers

What `Sub` gives to a subscriber that comes when messages are stored: the loop over the
messages runs from `uiCurrWritePos` to `uiCurrMsgDataNum`, a number it takes for a position.  It
goes through the window if the window is empty or starts at position zero, and only then
(`late_sub`); a subscriber that comes then receives the messages of the window and after them
those that are written later, also when others leave.
-/

namespace CircleBuffer

/-- The positions of the window: `uiCurrMsgDataNum` of them, from `uiCurrWritePos` on. -/
def MsgDataPool.window (pool : MsgDataPool) : List ℕ :=
  (List.range pool.currMsgDataNum).map (fun k => (pool.currWritePos + k) % msgPoolSize)

/-- The messages of the window. -/
def MsgDataPool.windowData (pool : MsgDataPool) : List (List UInt8) :=
  pool.window.map (fun pos => (pool.arrMsgData pos).pData.getD [])

/-- The window is empty or starts at position zero. -/
def WholeWindow (pool : MsgDataPool) : Prop :=
  pool.currMsgDataNum = 0 ∨ pool.currWritePos = 0

instance (pool : MsgDataPool) : Decidable (WholeWindow pool) :=
  inferInstanceAs (Decidable (_ ∨ _))

/-- A subscriber comes only when the window is empty or starts at position zero, and no message
is written into a full pool. -/
def KeepsWindow (y : MsgDataPool × History) : Call → Prop
  | .sub => y.1.bsSubscribers = Finset.univ ∨ WholeWindow y.1
  | .unSub _ => True
  | .write pData => y.1.refuses pData ∨ y.1.currMsgDataNum < msgPoolSize
  | .read _ => True

instance (y : MsgDataPool × History) : ∀ c : Call, Decidable (KeepsWindow y c)
  | .sub => inferInstanceAs (Decidable (_ ∨ _))
  | .unSub _ => inferInstanceAs (Decidable True)
  | .write _ => inferInstanceAs (Decidable (_ ∨ _))
  | .read _ => inferInstanceAs (Decidable True)

/-! ### The bits that Sub sets -/

theorem mem_window {pool : MsgDataPool} {pos : ℕ} :
  pos ∈ pool.window
    ↔ ∃ k < pool.currMsgDataNum, (pool.currWritePos + k) % msgPoolSize = pos
  := by
  simp only [MsgDataPool.window, List.mem_map, List.mem_range]

/-- The loop of `Sub` goes through the window exactly if the window is empty or starts at
position zero: otherwise it leaves out the last message. -/
theorem InRange.backlog_eq_window_iff {pool : MsgDataPool} (h : InRange pool) :
  (∀ pos < msgPoolSize, pos ∈ pool.backlog ↔ pos ∈ pool.window) ↔ WholeWindow pool
  := by
  have hwrite := h.writePos
  have hnum := h.dataNum
  simp only [msgPoolSize] at hwrite hnum
  constructor
  · intro hall
    by_contra hwhole
    simp only [WholeWindow, not_or] at hwhole
    have hlast : (pool.currWritePos + (pool.currMsgDataNum - 1)) % msgPoolSize
        ∈ pool.window := by
      apply mem_window.mpr
      use pool.currMsgDataNum - 1
      exact ⟨by omega, rfl⟩
    have hmem := (hall _ (Nat.mod_lt _ (Nat.succ_pos 7))).mpr hlast
    rw [h.mem_backlog] at hmem
    simp only [msgPoolSize] at hmem
    omega
  · intro hwhole pos hpos
    rw [h.mem_backlog, mem_window]
    simp only [msgPoolSize] at hpos ⊢
    rcases hwhole with hnone | hzero
    · rw [hnone]
      simp
    · constructor
      · rintro ⟨-, hlt⟩
        use pos, hlt
        omega
      · rintro ⟨k, hk, rfl⟩
        omega

/-- `Sub` sets the bit on the messages that its loop goes through, and on no others. -/
theorem mem_bs_sub {pool pool' : MsgDataPool} {b : BitsetPos} (h : Subscribed pool)
    (hsub : pool.sub = (some b, pool')) {pos : ℕ} (hpos : pos < msgPoolSize) :
  b ∈ (pool'.arrMsgData pos).bs ↔ pos ∈ pool.backlog
  := by
  rcases sub_cases pool with ⟨-, hfull⟩ | ⟨b', hb, hfree⟩
  · rw [hfull] at hsub
    cases hsub
  · rw [hfree] at hsub
    cases hsub
    simp only [foldl_setPending]
    split
    · rename_i hmem
      apply iff_of_true (Finset.mem_insert_self ..) hmem
    · rename_i hmem
      apply iff_of_false _ hmem
      intro hbs
      apply hb (h pos hpos hbs)

/-! ### What a subscriber receives -/

/-- The pool stores the log from `first` on, and the log is what has been written. -/
structure Serves (y : MsgDataPool × History) (x : Log) (first : ℕ) : Prop where
  stores : Stores y.1 x first
  written : y.2.written = x.log

/-- A subscriber joined the log at `joined`, when it had received `old`, and has read the log
from there. -/
structure Served (b : BitsetPos) (joined : ℕ) (old : List (List UInt8))
    (y : MsgDataPool × History) (x : Log) : Prop where
  reads : b ∈ x.readers
  start : x.start b = joined
  received : y.2.received b = old ++ x.received b

theorem Serves.start : Serves (.start, .start) .empty 0 where
  stores := Represents.start.stores
  written := rfl

section

variable {pool : MsgDataPool} {g : History} {x : Log} {b : BitsetPos} {joined : ℕ}
  {old : List (List UInt8)} (h : Served b joined old (pool, g) x)

include h

theorem Served.joinAt {b' : BitsetPos} {n : ℕ} (hn : n ≤ x.log.length) (hb' : b' ∉ x.readers)
    (pool' : MsgDataPool) :
  Served b joined old (pool', g) (x.joinAt b' n hn)
  := by
  have hbb : b ≠ b' := by
    rintro rfl
    apply hb' h.reads
  constructor
  · apply Finset.mem_insert_of_mem h.reads
  · rw [x.start_joinAt_of_ne hn hbb, h.start]
  · rw [x.received_joinAt_of_ne hn hbb, ← h.received]

theorem Served.write (pool' : MsgDataPool) (written : List (List UInt8)) (data : List UInt8) :
  Served b joined old (pool', { g with written := written }) (x.write data)
  := by
  constructor
  · apply h.reads
  · apply h.start
  · rw [Broadcast.received_write data h.reads, ← h.received]

theorem Served.read {b' : BitsetPos} (hb' : b' ∈ x.readers)
    (hlt : x.cursor b' < x.log.length) (pool' : MsgDataPool) :
  Served b joined old (pool', { g with
      received := Function.update g.received b' (g.received b' ++ [x.log[x.cursor b']]) })
    (x.read b' hlt)
  := by
  constructor
  · apply h.reads
  · apply h.start
  · by_cases hbb : b = b'
    · subst hbb
      have hold : g.received b = old ++ x.received b := h.received
      simp only [Function.update_self]
      rw [Broadcast.received_read hlt hb', hold, List.append_assoc]
    · simp only [Function.update_of_ne hbb]
      rw [Broadcast.received_read_of_ne hlt hbb, ← h.received]

theorem Served.leave {b' : BitsetPos} (hbb : b ≠ b') (pool' : MsgDataPool) :
  Served b joined old (pool', g) (x.leave b')
  := by
  constructor
  · exact Finset.mem_erase.mpr ⟨hbb, h.reads⟩
  · apply h.start
  · apply h.received

end

/-- A call is one on the log, and all who stay are served. -/
theorem serves_call {y y' : MsgDataPool × History} {x : Log} {first : ℕ} {c : Call}
    (h : Serves y x first) (hkeeps : KeepsWindow y c) (hstep : y' ∈ recorded.step y c) :
  ∃ x' first', Serves y' x' first' ∧ x.log <+: x'.log ∧
    ∀ b joined old, c ≠ .unSub b → Served b joined old y x → Served b joined old y' x'
  := by
  obtain ⟨pool, g⟩ := y
  rcases recorded_cases hstep with ⟨b, rfl⟩ | ⟨-, rfl⟩ | ⟨rfl, b, pool', hsub, rfl⟩
    | ⟨data, rfl, haccepts, rfl⟩ | ⟨b, data, pool', rfl, hread, rfl⟩
  · obtain rfl := Option.some.inj hstep
    use x.leave b, first, ⟨h.stores.unSub b, h.written⟩, List.prefix_rfl
    intro b' joined old hne hserved
    apply hserved.leave
    rintro rfl
    apply hne rfl
  · use x, first, h, List.prefix_rfl
    intro b joined old _ hserved
    exact hserved
  · have hwhole : WholeWindow pool := by
      apply hkeeps.resolve_left
      intro hfull
      rcases sub_cases pool with ⟨-, hnone⟩ | ⟨b', hb', -⟩
      · rw [hnone] at hsub
        cases hsub
      · rw [hfull] at hb'
        exact hb' (Finset.mem_univ b')
    obtain ⟨hb, hstores⟩ := h.stores.sub hwhole hsub
    use x.joinAt b first h.stores.first_le_length, first, ⟨hstores, h.written⟩,
      List.prefix_rfl
    intro b' joined old _ hserved
    apply hserved.joinAt _ hb
  · use x.write data, first
    constructor
    · constructor
      · apply h.stores.write haccepts (hkeeps.resolve_left haccepts)
      · rw [Broadcast.log_write, ← h.written]
    · use List.prefix_append ..
      intro b joined old _ hserved
      apply hserved.write
  · obtain ⟨hb, hlt, rfl, hstores⟩ := h.stores.read hread
    use x.read b hlt, firstAfterRead x first b, ⟨hstores, h.written⟩, List.prefix_rfl
    intro b' joined old _ hserved
    apply hserved.read hb

/-- The messages of the window are the log from its first message on. -/
theorem Stores.windowData_eq {pool : MsgDataPool} {x : Log} {first : ℕ}
    (h : Stores pool x first) :
  pool.windowData = x.log.drop first
  := by
  have hnum := h.dataNum
  have hfirst := h.first_le_length
  apply List.ext_getElem
  · simp only [MsgDataPool.windowData, MsgDataPool.window, List.length_map, List.length_range,
      List.length_drop, hnum]
  · intro k hk hk'
    rw [List.length_drop] at hk'
    have hlt : first + k < x.log.length := by omega
    have hdata := h.pData (first + k) (Nat.le_add_right ..) hlt
    simp only [MsgDataPool.windowData, MsgDataPool.window, List.map_map, List.getElem_map,
      List.getElem_range, Function.comp_apply, h.writePos, Nat.mod_add_mod, hdata,
      List.getElem?_eq_getElem hlt, Option.getD_some, List.getElem_drop]

/-- What a subscriber has received since it joined, and what it receives next. -/
theorem Served.received_prefix {pool : MsgDataPool} {g : History} {x : Log} {first : ℕ}
    {b : BitsetPos} {joined : ℕ} {old : List (List UInt8)}
    (h : Served b joined old (pool, g) x) (hserves : Serves (pool, g) x first) :
  ∃ news, g.received b = old ++ news ∧ news <+: x.log.drop joined ∧
    (pool.read b = none ↔ news = x.log.drop joined) ∧
    ∀ data pool', pool.read b = some (data, pool') → news ++ [data] <+: x.log.drop joined
  := by
  have hstart := x.start_le b h.reads
  have hcursor := x.cursor_le b h.reads
  rw [h.start] at hstart
  use x.received b, h.received
  and_intros
  · rw [← h.start]
    apply x.received_prefix_drop
  · rw [read_eq_none, hserves.stores.waits_iff, ← h.start, x.received_eq_drop h.reads]
    have hreads := h.reads
    constructor
    · intro hnone
      by_contra hlt
      apply hnone ⟨hreads, by omega⟩
    · rintro heq ⟨-, hlt⟩
      omega
  · intro data pool' hread
    obtain ⟨-, hlt, rfl, -⟩ := hserves.stores.read hread
    rw [← Broadcast.received_read hlt h.reads, ← h.start]
    apply (x.read b hlt).received_prefix_drop

/-- In every state reached, the positions are in range and only subscribers are awaited. -/
theorem reachable {calls : List Call} {y : MsgDataPool × History}
    (hrun : recorded.final (.start, .start) calls = some y) :
  InRange y.1 ∧ Subscribed y.1
  := by
  apply Machine.final_of_invariant (Q := fun _ _ => True) (fun y => InRange y.1 ∧ Subscribed y.1)
    _ ⟨.start, .start⟩ (Machine.along_of_forall (fun _ _ => trivial)) hrun
  rintro y c ⟨hrange, hsubscribed⟩ - y' hstep
  obtain ⟨pool', hcall, rfl⟩ := Option.map_eq_some_iff.mp hstep
  exact ⟨hrange.call hcall, hsubscribed.call hcall⟩

theorem serves_run {calls : List Call} {y : MsgDataPool × History}
    (hcalls : recorded.Along KeepsWindow (.start, .start) calls)
    (hrun : recorded.final (.start, .start) calls = some y) :
  ∃ x first, Serves y x first
  := by
  apply Machine.final_of_invariant (fun y => ∃ x first, Serves y x first) _ ⟨_, _, Serves.start⟩
    hcalls hrun
  rintro y c ⟨x, first, h⟩ hkeeps y' hstep
  obtain ⟨x', first', h', -⟩ := serves_call h hkeeps hstep
  use x', first'

/-- While it stays, a subscriber is served. -/
theorem served_run {calls : List Call} {y y' : MsgDataPool × History} {x : Log} {first : ℕ}
    {b : BitsetPos} {joined : ℕ} {old : List (List UInt8)} (h : Serves y x first)
    (hserved : Served b joined old y x)
    (hcalls : recorded.Along (fun y c => KeepsWindow y c ∧ c ≠ .unSub b) y calls)
    (hrun : recorded.final y calls = some y') :
  ∃ x' first', Serves y' x' first' ∧ x.log <+: x'.log ∧ Served b joined old y' x'
  := by
  apply Machine.final_of_invariant
    (fun y' => ∃ x' first', Serves y' x' first' ∧ x.log <+: x'.log ∧ Served b joined old y' x')
    _ ⟨x, first, h, List.prefix_rfl, hserved⟩ hcalls hrun
  rintro y₁ c ⟨x₁, first₁, h₁, hgrown, hserved₁⟩ ⟨hkeeps, hne⟩ y₂ hstep
  obtain ⟨x₂, first₂, h₂, hlog, hall⟩ := serves_call h₁ hkeeps hstep
  use x₂, first₂, h₂, hgrown.trans hlog
  apply hall b joined old hne hserved₁

/-- `Sub` sets the bit on exactly the messages of the window if and only if the window is
empty or starts at position zero.  If that is so for every subscriber, and no message is
written into a full pool, a subscriber receives from then on, in order, the messages of the
window and those written later: it waits exactly when it has received all of them, and
otherwise receives the next one. -/
theorem late_sub {calls : List Call} {pool pool' : MsgDataPool} {g : History} {b : BitsetPos}
    (hrun : recorded.final (.start, .start) calls = some (pool, g))
    (hsub : pool.sub = (some b, pool')) :
  ((∀ pos < msgPoolSize, b ∈ (pool'.arrMsgData pos).bs ↔ pos ∈ pool.window)
      ↔ WholeWindow pool) ∧
    (recorded.Along KeepsWindow (.start, .start) calls → WholeWindow pool →
      ∀ rest later g',
        recorded.Along (fun y c => KeepsWindow y c ∧ c ≠ .unSub b) (pool', g) rest →
        recorded.final (pool', g) rest = some (later, g') →
        ∃ news written, g'.received b = g.received b ++ news ∧
          g'.written = g.written ++ written ∧
          news <+: pool.windowData ++ written ∧
          (later.read b = none ↔ news = pool.windowData ++ written) ∧
          ∀ data next, later.read b = some (data, next) →
            news ++ [data] <+: pool.windowData ++ written)
  := by
  constructor
  · obtain ⟨hrange, hsubscribed⟩ := reachable hrun
    rw [← hrange.backlog_eq_window_iff]
    apply forall₂_congr
    intro pos hpos
    rw [mem_bs_sub hsubscribed hsub hpos]
  · intro hcalls hwhole rest later g' hrest hfinal
    obtain ⟨x, first, h⟩ := serves_run hcalls hrun
    obtain ⟨hb, hstores⟩ := h.stores.sub hwhole hsub
    have hfirst := h.stores.first_le_length
    have hserved : Served b first (g.received b) (pool', g) (x.joinAt b first hfirst) := by
      constructor
      · apply Finset.mem_insert_self
      · apply Broadcast.start_joinAt_self
      · rw [Broadcast.received_joinAt, List.append_nil]
    have hserves : Serves (pool', g) (x.joinAt b first hfirst) first := ⟨hstores, h.written⟩
    obtain ⟨x', first', h', ⟨written, hlog⟩, hserved'⟩ :=
      served_run hserves hserved hrest hfinal
    obtain ⟨news, hnews, hreceived, hwaits, hnext⟩ := hserved'.received_prefix h'
    have hall : x'.log.drop first = pool.windowData ++ written := by
      rw [h.stores.windowData_eq, ← hlog, Broadcast.log_joinAt,
        List.drop_append_of_le_length hfirst]
    rw [hall] at hreceived hwaits hnext
    use news, written, hnews
    constructor
    · have hwritten : g.written = x.log := h.written
      have hwritten' : g'.written = x'.log := h'.written
      rw [hwritten, hwritten', ← hlog, Broadcast.log_joinAt]
    · exact ⟨hreceived, hwaits, hnext⟩

/-- Two messages are stored when the second subscriber comes. -/
def lateRun : List Call := [.sub, writeByte 0, writeByte 1]

/-- It, `b`, reads them and a later one, and the first subscriber, `b'`, leaves. -/
def servedRun (b b' : BitsetPos) : List Call :=
  [.read b, .unSub b', writeByte 2, .read b, .read b]

theorem late_sub_two :
  ∃ y ∈ recorded.final (.start, .start) lateRun,
    (∀ pos < msgPoolSize, 1 ∈ (y.1.sub.2.arrMsgData pos).bs ↔ pos ∈ y.1.window) ∧
    ∃ y' ∈ recorded.final (y.1.sub.2, y.2) (servedRun 1 0), ∃ news written,
      y'.2.received 1 = y.2.received 1 ++ news ∧ y'.2.written = y.2.written ++ written ∧
      (y'.1.read 1 = none ↔ news = y.1.windowData ++ written)
  := by
  have hcalls : recorded.Along KeepsWindow (.start, .start) lateRun := by
    decide +kernel
  have hrun : (recorded.final (.start, .start) lateRun).isSome := by
    decide +kernel
  have hsub : ∀ y ∈ recorded.final (.start, .start) lateRun,
      y.1.sub.1 = some 1 ∧ WholeWindow y.1 ∧
        recorded.Along (fun y c => KeepsWindow y c ∧ c ≠ .unSub 1) (y.1.sub.2, y.2)
          (servedRun 1 0) ∧
        (recorded.final (y.1.sub.2, y.2) (servedRun 1 0)).isSome := by
    decide +kernel
  obtain ⟨y, hrun⟩ := Option.isSome_iff_exists.mp hrun
  obtain ⟨hfound, hwhole, hserved, hrest⟩ := hsub y hrun
  obtain ⟨y', hrest⟩ := Option.isSome_iff_exists.mp hrest
  obtain ⟨hbits, hdelivers⟩ := late_sub hrun (Prod.ext hfound rfl)
  obtain ⟨news, written, hnews, hwritten, -, hwaits, -⟩ :=
    hdelivers hcalls hwhole (servedRun 1 0) y'.1 y'.2 hserved hrest
  use y, hrun, hbits.mpr hwhole, y', hrest, news, written

/-- The first message has been read by `b` when the second subscriber comes. -/
def wrappedRun (b : BitsetPos) : List Call := [.sub, writeByte 0, writeByte 1, .read b]

/-- The second message, at position one, is left out. -/
theorem late_sub_misses :
  ¬ ∀ calls pool pool' g b, recorded.final (.start, .start) calls = some (pool, g) →
      pool.sub = (some b, pool') →
      ∀ pos < msgPoolSize, b ∈ (pool'.arrMsgData pos).bs ↔ pos ∈ pool.window
  := by
  intro hall
  have hrun : (recorded.final (.start, .start) (wrappedRun 0)).isSome := by
    decide +kernel
  have hmissed : ∀ y ∈ recorded.final (.start, .start) (wrappedRun 0), y.1.sub.1 = some 1 ∧
      ¬ (1 ∈ (y.1.sub.2.arrMsgData 1).bs ↔ 1 ∈ y.1.window) := by
    decide +kernel
  obtain ⟨y, hrun⟩ := Option.isSome_iff_exists.mp hrun
  obtain ⟨hfound, hmissed⟩ := hmissed y hrun
  apply hmissed
  apply hall (wrappedRun 0) y.1 y.1.sub.2 y.2 1 hrun (Prod.ext hfound rfl) 1 (by decide)

end CircleBuffer
