import Orgrim.SerialPort.Frame

/-!
# Lost frames

`RecvCallBack` of `McuComm.cpp` numbers the frames that are missing between those it gets, by
their `id`.  It takes the value 0 of its variable `id` for the start, and `totalLost` has 16
bits.

Over frames with increasing ids it adds up the gaps (`run_totalLost`), except for the gap behind
a first id of 0; the total is right as long as it fits (`totalLost_eq_missing_iff`).
-/

namespace McuComm

open SerialPort

/-! ### The source -/

/-- The field `command`. -/
def command (pFrame : UartFrame) : UInt8 := pFrame 8

/-- The first byte of the field `data`. -/
def data0 (pFrame : UartFrame) : UInt8 := pFrame uartFrameHeaderSize

/-- The static variables of `RecvCallBack`, and those of `McuComm.cpp` that it sets. -/
structure Statics where
  id : UInt32
  totalLost : UInt16
  totalFrame : UInt32
  bReplies : UInt8 → Bool
  replyCodes : UInt8 → UInt8

/-- Before the first frame. -/
def Statics.initial : Statics := ⟨0, 0, 0, fun _ => false, fun _ => 0⟩

/-- `RecvCallBack`, without what it prints. -/
def Statics.recvCallBack (s : Statics) (pFrame : UartFrame) : Statics :=
  let frameId := UInt32.ofNat pFrame.id
  let totalLost :=
    if s.id ≠ 0 ∧ s.id + 1 ≠ frameId then
      (s.totalLost.toUInt32 + (frameId - s.id - 1)).toUInt16
    else s.totalLost
  { id := frameId
    totalLost := totalLost
    totalFrame := s.totalFrame + 1
    bReplies := Function.update s.bReplies (command pFrame) true
    replyCodes := Function.update s.replyCodes (command pFrame) (data0 pFrame) }

/-- The calls of `RecvCallBack` with the frames one after the other. -/
def Statics.run (s : Statics) (frames : List UartFrame) : Statics :=
  frames.foldl Statics.recvCallBack s

/-! ### Gaps -/

/-- How many numbers lie between neighbours of the list. -/
def gaps : List ℕ → ℕ
  | a :: b :: ids => (b - a - 1) + gaps (b :: ids)
  | _ => 0

/-- The number of ids from the first to the last one, less the number of frames. -/
def missing (ids : List ℕ) : ℕ :=
  (ids.getLastD 0 - ids.headD 0 + 1) - ids.length

theorem add_gaps_eq_getLastD {a : ℕ} {ids : List ℕ} (h : (a :: ids).IsChain (· < ·)) :
  a + gaps (a :: ids) + ids.length = (a :: ids).getLastD 0
  := by
  induction ids generalizing a with
  | nil => rfl
  | cons b ids ih =>
      obtain ⟨hlt, hchain⟩ := List.isChain_cons_cons.mp h
      have hlast := ih hchain
      simp only [gaps, List.length_cons, List.getLastD_cons] at hlast ⊢
      omega

/-- Between increasing ids the missing ones are those in the gaps. -/
theorem missing_eq_gaps {a : ℕ} {ids : List ℕ} (h : (a :: ids).IsChain (· < ·)) :
  missing (a :: ids) = gaps (a :: ids)
  := by
  have hlast := add_gaps_eq_getLastD h
  simp only [missing, List.headD_cons, List.length_cons]
  omega

/-! ### Frames with increasing ids -/

theorem id_lt (pFrame : UartFrame) :
  pFrame.id < 2 ^ 32
  := by
  have h4 := (pFrame 4).toNat_lt
  have h5 := (pFrame 5).toNat_lt
  have h6 := (pFrame 6).toNat_lt
  have h7 := (pFrame 7).toNat_lt
  simp only [UartFrame.id, UartFrame.field16, Nat.reduceAdd]
  omega

theorem recvCallBack_id (s : Statics) (pFrame : UartFrame) :
  (s.recvCallBack pFrame).id.toNat = pFrame.id
  := by
  simp only [Statics.recvCallBack, UInt32.toNat_ofNat']
  apply Nat.mod_eq_of_lt (id_lt pFrame)

/-- With the sentinel nothing is counted. -/
theorem recvCallBack_zero {s : Statics} (h : s.id = 0) (pFrame : UartFrame) :
  (s.recvCallBack pFrame).totalLost = s.totalLost
  := by
  simp [Statics.recvCallBack, h]

/-- A frame with a larger id adds the gap in front of it. -/
theorem recvCallBack_totalLost {s : Statics} (h : s.id ≠ 0) {pFrame : UartFrame}
    (hlt : s.id.toNat < pFrame.id) :
  (s.recvCallBack pFrame).totalLost.toNat
    = (s.totalLost.toNat + (pFrame.id - s.id.toNat - 1)) % 2 ^ 16
  := by
  have hid := id_lt pFrame
  have hlost := s.totalLost.toNat_lt
  simp only [Statics.recvCallBack]
  split
  · simp only [UInt32.toNat_toUInt16, UInt32.toNat_add, UInt32.toNat_sub, UInt32.toNat_ofNat',
      UInt16.toNat_toUInt32, UInt32.reduceToNat]
    omega
  · rename_i hnext
    have heq : s.id + 1 = UInt32.ofNat pFrame.id := by
      by_contra hne
      apply hnext
      use h
    have hnat := congrArg UInt32.toNat heq
    simp only [UInt32.toNat_add, UInt32.toNat_ofNat', UInt32.reduceToNat] at hnat
    omega

/-- From an id on, frames with increasing ids add the gaps between them. -/
theorem run_totalLost {s : Statics} (h : s.id ≠ 0) {frames : List UartFrame}
    (hchain : (s.id.toNat :: frames.map UartFrame.id).IsChain (· < ·)) :
  (s.run frames).totalLost.toNat
    = (s.totalLost.toNat + gaps (s.id.toNat :: frames.map UartFrame.id)) % 2 ^ 16
  := by
  induction frames generalizing s with
  | nil =>
      symm
      apply Nat.mod_eq_of_lt s.totalLost.toNat_lt
  | cons pFrame frames ih =>
      rw [List.map_cons] at hchain ⊢
      obtain ⟨hlt, hchain⟩ := List.isChain_cons_cons.mp hchain
      have hid := recvCallBack_id s pFrame
      have hne : (s.recvCallBack pFrame).id ≠ 0 := by
        intro hzero
        rw [hzero] at hid
        simp only [UInt32.toNat_zero] at hid
        omega
      have hrun := ih hne (by rwa [hid])
      rw [hid, recvCallBack_totalLost h hlt] at hrun
      simp only [Statics.run, List.foldl_cons, gaps] at hrun ⊢
      rw [hrun]
      omega

/-- The law of the accounting holds exactly if the total has 16 bits and nothing is missing
behind a first id of 0. -/
theorem totalLost_eq_missing_iff {first : UartFrame} {frames : List UartFrame}
    (hchain : ((first :: frames).map UartFrame.id).IsChain (· < ·)) :
  (Statics.initial.run (first :: frames)).totalLost.toNat
      = missing ((first :: frames).map UartFrame.id) ↔
    missing ((first :: frames).map UartFrame.id) < 2 ^ 16 ∧
      (first.id ≠ 0 ∨ ∀ second ∈ frames.head?, second.id = 1)
  := by
  have hid := recvCallBack_id Statics.initial first
  have hlost := recvCallBack_zero (s := Statics.initial) rfl first
  have hrun : Statics.initial.run (first :: frames)
      = (Statics.initial.recvCallBack first).run frames := rfl
  have hzero : Statics.initial.totalLost.toNat = 0 := rfl
  rw [List.map_cons] at hchain ⊢
  rw [missing_eq_gaps hchain, hrun]
  by_cases hfirst : first.id = 0
  · rw [hfirst] at hid hchain ⊢
    have hsentinel : (Statics.initial.recvCallBack first).id = 0 := UInt32.toNat_inj.mp hid
    cases frames with
    | nil => simp [Statics.run, hlost, hzero, gaps]
    | cons second frames =>
        rw [List.map_cons] at hchain ⊢
        obtain ⟨hlt, hchain⟩ := List.isChain_cons_cons.mp hchain
        have hid' := recvCallBack_id (Statics.initial.recvCallBack first) second
        have hne : ((Statics.initial.recvCallBack first).recvCallBack second).id ≠ 0 := by
          intro h
          rw [h] at hid'
          simp only [UInt32.toNat_zero] at hid'
          omega
        have htotal := run_totalLost hne (by rwa [hid'])
        have hrun' : (Statics.initial.recvCallBack first).run (second :: frames)
            = ((Statics.initial.recvCallBack first).recvCallBack second).run frames := rfl
        rw [hid', recvCallBack_zero hsentinel, hlost, hzero] at htotal
        simp only [hrun', htotal, gaps, List.head?_cons, Option.mem_def, Option.some.injEq,
          forall_eq']
        omega
  · have hne : (Statics.initial.recvCallBack first).id ≠ 0 := by
      intro h
      rw [h] at hid
      apply hfirst hid.symm
    have htotal := run_totalLost hne (by rwa [hid])
    rw [hid, hlost, hzero] at htotal
    rw [htotal]
    omega

/-- A frame with the given id. -/
def frameWithId (id : ℕ) : UartFrame := UartFrame.setId (fun _ => 0) id

/-- Of the frames 3 to 9 two are lost here. -/
theorem totalLost_eq_missing_two :
  (Statics.initial.run ([3, 4, 6, 7, 9].map frameWithId)).totalLost.toNat
    = missing (([3, 4, 6, 7, 9].map frameWithId).map UartFrame.id)
  := by
  have hids : ((frameWithId 3 :: [4, 6, 7, 9].map frameWithId).map UartFrame.id).IsChain
      (· < ·) := by
    decide
  apply (totalLost_eq_missing_iff hids).mpr
  decide

/-- Of the frames 0 to 5 four are lost, and none is counted; the 69998 frames lost between 1 and
70000 do not fit into 16 bits. -/
theorem totalLost_ne_missing :
  (Statics.initial.run ([0, 5].map frameWithId)).totalLost.toNat
      ≠ missing (([0, 5].map frameWithId).map UartFrame.id) ∧
    (Statics.initial.run ([1, 70000].map frameWithId)).totalLost.toNat
      ≠ missing (([1, 70000].map frameWithId).map UartFrame.id)
  := by
  decide

end McuComm
