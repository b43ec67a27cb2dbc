import Mathlib.Algebra.BigOperators.Group.List.Basic
import Mathlib.Data.UInt
import Orgrim.Theory.Memory
import Orgrim.Uart.Crc

/-!
# The baud test

`baud_test_sender.c` sends frames that `EncodeBigBuffer` makes, `baud_test_receiver.c` checks
them in `DecodeBigBuffer`.  The loop over the payload ends four bytes early, so the last three
bytes of a payload are seen by the checksum only.  The receiver accepts exactly the frames of
the sender and those with changes there that cancel in the sum
(`accepts_only_frame_iff_not_undetected`).
-/

namespace Uart.BaudTest

/-! ### The sender -/

/-- `EncodeBigBuffer`: the buffer, from what `malloc` returned; `iBuffLen` is at least 5. -/
def encodeBigBuffer (pBuff : Memory UInt8) (iBuffLen : ℕ) : Memory UInt8 :=
  let usUartLen := (iBuffLen - 4) % 2 ^ 16
  let pBuff := pBuff.write 0
    [0xAA, UInt8.ofNat (usUartLen >>> 8), UInt8.ofNat (usUartLen &&& 0xFF), 0xBB]
  let pBuff := pBuff.write 4 ((List.range usUartLen).map UInt8.ofNat)
  pBuff.write (iBuffLen - 1) [calcChecksum (pBuff.slice 3 usUartLen)]

/-! ### The receiver -/

/-- The static variables of `baud_test_receiver.c` that `DecodeBigBuffer` uses. -/
structure Receiver where
  senderBuffLen : ℤ
  totalRecvCount : UInt64
  totalErrRecvCount : UInt64

/-- `g_ullTotalErrRecvCount++` -/
def Receiver.countError (s : Receiver) : Receiver :=
  { s with totalErrRecvCount := s.totalErrRecvCount + 1 }

/-- The loop of `DecodeBigBuffer` runs to its end. -/
def payloadMatches (pBuff : Memory UInt8) (usUartLen : ℕ) : Bool :=
  (List.range' 4 (usUartLen - 4)).all (fun i => pBuff i == UInt8.ofNat ((i - 4) &&& 0xFF))

/-- `DecodeBigBuffer`, without the line that it prints. -/
def Receiver.decodeBigBuffer (s : Receiver) (pBuff : Memory UInt8) (iBuffLen : ℕ) : Receiver :=
  let usUartLen := ((s.senderBuffLen - 4) % 2 ^ 16).toNat
  let s := { s with totalRecvCount := s.totalRecvCount + 1 }
  if iBuffLen < 6 ∨ pBuff 0 ≠ 0xAA ∨ (pBuff 1).toNat ≠ usUartLen >>> 8
      ∨ (pBuff 2).toNat ≠ usUartLen &&& 0xFF ∨ pBuff 3 ≠ 0xBB then
    s.countError
  else if ¬ payloadMatches pBuff usUartLen then
    s.countError
  else if pBuff (iBuffLen - 1) ≠ calcChecksum (pBuff.slice 3 usUartLen) then
    s.countError
  else
    s

/-- `DecodeBigBuffer` leaves `g_ullTotalErrRecvCount` unchanged. -/
def Receiver.Accepts (s : Receiver) (pBuff : Memory UInt8) (iBuffLen : ℕ) : Prop :=
  (s.decodeBigBuffer pBuff iBuffLen).totalErrRecvCount = s.totalErrRecvCount

instance (s : Receiver) (pBuff : Memory UInt8) (iBuffLen : ℕ) :
    Decidable (s.Accepts pBuff iBuffLen) :=
  inferInstanceAs (Decidable (_ = _))

section

variable {n : ℕ}

/-! ### What the receiver compares -/

/-- The number of bytes from the start that the receiver compares one by one. -/
def compared (n : ℕ) : ℕ := max 4 (n - 4)

/-- What `DecodeBigBuffer` asks of a buffer of the announced length. -/
theorem accepts_iff (s : Receiver) (pBuff : Memory UInt8) (hn : 6 ≤ n) (hmax : n < 2 ^ 16)
    (hs : s.senderBuffLen = n) :
  s.Accepts pBuff n ↔
    (pBuff 0 = 0xAA ∧ (pBuff 1).toNat = (n - 4) >>> 8 ∧ (pBuff 2).toNat = (n - 4) &&& 0xFF
      ∧ pBuff 3 = 0xBB)
    ∧ payloadMatches pBuff (n - 4)
    ∧ pBuff (n - 1) = calcChecksum (pBuff.slice 3 (n - 4))
  := by
  have hlen : ((s.senderBuffLen - 4) % 2 ^ 16).toNat = n - 4 := by omega
  simp only [Receiver.Accepts, Receiver.decodeBigBuffer, hlen]
  split
  · rename_i hheader
    simp only [Receiver.countError]
    constructor
    · intro h
      simp at h
    · rintro ⟨⟨h0, h1, h2, h3⟩, -⟩
      simp only [h0, h1, h2, h3, ne_eq, not_true_eq_false, or_false] at hheader
      omega
  · rename_i hheader
    split
    · rename_i hpayload
      simp [Receiver.countError, hpayload]
    · rename_i hpayload
      split
      · rename_i hsum
        simp [Receiver.countError, hsum]
      · rename_i hsum
        simp only [true_iff]
        simp only [not_or, not_not] at hheader hpayload hsum
        use hheader.2, hpayload, hsum

theorem payloadMatches_iff (pBuff : Memory UInt8) :
  payloadMatches pBuff (n - 4) ↔ ∀ i, 4 ≤ i → i < n - 4 → pBuff i = UInt8.ofNat (i - 4)
  := by
  have hmask : ∀ i, UInt8.ofNat (i &&& 0xFF) = UInt8.ofNat i := by
    intro i
    apply UInt8.toNat.inj
    simp only [UInt8.toNat_ofNat', Nat.and_two_pow_sub_one_eq_mod i 8, Nat.mod_mod]
  simp only [payloadMatches, hmask, List.all_eq_true, List.mem_range'_1, beq_iff_eq, and_imp]
  constructor
  · intro h i h4 hi
    apply h i h4
    omega
  · intro h i h4 hi
    apply h i h4
    omega

/-! ### The frames of the sender -/

/-- The bytes of a frame of `n` bytes. -/
structure IsFrame (n : ℕ) (pBuff : Memory UInt8) : Prop where
  magic : pBuff 0 = 0xAA
  high : pBuff 1 = UInt8.ofNat ((n - 4) >>> 8)
  low : pBuff 2 = UInt8.ofNat ((n - 4) &&& 0xFF)
  command : pBuff 3 = 0xBB
  payload : ∀ i, 4 ≤ i → i < n - 1 → pBuff i = UInt8.ofNat (i - 4)
  checksum : pBuff (n - 1) = calcChecksum (pBuff.slice 3 (n - 4))

theorem encodeBigBuffer_isFrame (pBuff : Memory UInt8) (hn : 6 ≤ n) (hmax : n < 2 ^ 16) :
  IsFrame n (encodeBigBuffer pBuff n)
  := by
  have hlen : (n - 4) % 2 ^ 16 = n - 4 := Nat.mod_eq_of_lt (by omega)
  simp only [encodeBigBuffer, hlen]
  constructor
  · rw [Memory.write_apply_of_lt _ _ (by omega), Memory.write_apply_of_lt _ _ (by omega)]
    rfl
  · rw [Memory.write_apply_of_lt _ _ (by omega), Memory.write_apply_of_lt _ _ (by omega)]
    rfl
  · rw [Memory.write_apply_of_lt _ _ (by omega), Memory.write_apply_of_lt _ _ (by omega)]
    rfl
  · rw [Memory.write_apply_of_lt _ _ (by omega), Memory.write_apply_of_lt _ _ (by omega)]
    rfl
  · intro i h4 hi
    rw [Memory.write_apply_of_lt _ _ hi,
      Memory.write_apply_of_mem _ _ h4 (by simp only [List.length_map, List.length_range]; omega)]
    simp only [List.getElem_map, List.getElem_range]
  · rw [Memory.write_cons_self, Memory.slice_write_of_le (w := n - 1) _ _ (by omega)]

/-! ### The sum -/

theorem calcChecksum_append (bs cs : List UInt8) :
  calcChecksum (bs ++ cs) = calcChecksum bs + calcChecksum cs
  := by
  simp only [calcChecksum, ← List.sum_eq_foldl, List.sum_append]

/-- The checksum of the bytes that are compared one by one and of those that are not. -/
theorem calcChecksum_slice (pBuff : Memory UInt8) (hn : 6 ≤ n) :
  calcChecksum (pBuff.slice 3 (n - 4))
    = calcChecksum (pBuff.slice 3 (compared n - 3))
      + calcChecksum (pBuff.slice (compared n) (n - 1 - compared n))
  := by
  have hcount : n - 4 = (compared n - 3) + (n - 1 - compared n) := by
    rw [compared]
    omega
  have hoff : 3 + (compared n - 3) = compared n := by
    rw [compared]
    omega
  rw [hcount, Memory.slice_add, calcChecksum_append, hoff]

/-! ### Frames with changes -/

/-- The receiver takes `pBuff` for the frame `frame` of `n` bytes: the two differ, but not among
the bytes that are compared one by one, and the differences cancel in the sum. -/
structure Undetected (n : ℕ) (pBuff frame : Memory UInt8) : Prop where
  differ : pBuff.slice 0 n ≠ frame.slice 0 n
  agree : pBuff.slice 0 (compared n) = frame.slice 0 (compared n)
  cancel : pBuff (n - 1) - frame (n - 1)
    = calcChecksum (pBuff.slice (compared n) (n - 1 - compared n))
      - calcChecksum (frame.slice (compared n) (n - 1 - compared n))

theorem slice_eq_iff {pBuff frame : Memory UInt8} {k : ℕ} :
  pBuff.slice 0 k = frame.slice 0 k ↔ ∀ i, i < k → pBuff i = frame i
  := by
  constructor
  · intro h i hi
    have hcell := Memory.apply_of_slice_eq h hi
    rw [Memory.apply_of_slice_eq rfl hi] at hcell
    symm
    apply Option.some.inj hcell
  · intro h
    apply Memory.slice_congr
    intro i _ hi
    apply h
    omega

/-- What the receiver compares byte by byte are the bytes of the frame, up to `compared n`. -/
theorem agree_iff {frame : Memory UInt8} (hframe : IsFrame n frame) (pBuff : Memory UInt8)
    (hn : 6 ≤ n) (hmax : n < 2 ^ 16) :
  pBuff.slice 0 (compared n) = frame.slice 0 (compared n) ↔
    (pBuff 0 = 0xAA ∧ (pBuff 1).toNat = (n - 4) >>> 8 ∧ (pBuff 2).toNat = (n - 4) &&& 0xFF
      ∧ pBuff 3 = 0xBB)
    ∧ payloadMatches pBuff (n - 4)
  := by
  have hhigh : (frame 1).toNat = (n - 4) >>> 8 := by
    rw [hframe.high, UInt8.toNat_ofNat', Nat.shiftRight_eq_div_pow]
    omega
  have hlow : (frame 2).toNat = (n - 4) &&& 0xFF := by
    rw [hframe.low, UInt8.toNat_ofNat', Nat.and_two_pow_sub_one_eq_mod _ 8, Nat.mod_mod]
  rw [slice_eq_iff, payloadMatches_iff, ← hhigh, ← hlow, UInt8.toNat_inj, UInt8.toNat_inj,
    ← hframe.magic, ← hframe.command, compared]
  constructor
  · intro h
    constructor
    · use h 0 (by omega), h 1 (by omega), h 2 (by omega), h 3 (by omega)
    · intro i h4 hi
      rw [h i (by omega), hframe.payload i h4 (by omega)]
  · rintro ⟨⟨h0, h1, h2, h3⟩, hpayload⟩ i hi
    by_cases h4 : 4 ≤ i
    · rw [hpayload i h4 (by omega), hframe.payload i h4 (by omega)]
    · obtain rfl | rfl | rfl | rfl : i = 0 ∨ i = 1 ∨ i = 2 ∨ i = 3 := by omega
      · apply h0
      · apply h1
      · apply h2
      · apply h3

/-- Between buffers that agree in the compared bytes the differences cancel in the sum exactly
if the last byte of `pBuff` is its checksum. -/
theorem cancel_iff {pBuff frame : Memory UInt8} (hframe : IsFrame n frame) (hn : 6 ≤ n)
    (hagree : pBuff.slice 0 (compared n) = frame.slice 0 (compared n)) :
  pBuff (n - 1) = calcChecksum (pBuff.slice 3 (n - 4)) ↔
    pBuff (n - 1) - frame (n - 1)
      = calcChecksum (pBuff.slice (compared n) (n - 1 - compared n))
        - calcChecksum (frame.slice (compared n) (n - 1 - compared n))
  := by
  have hfront : pBuff.slice 3 (compared n - 3) = frame.slice 3 (compared n - 3) := by
    apply Memory.slice_congr
    intro i _ hi
    apply slice_eq_iff.mp hagree
    rw [compared] at hi ⊢
    omega
  rw [hframe.checksum, calcChecksum_slice pBuff hn, calcChecksum_slice frame hn, hfront,
    sub_eq_iff_eq_add, sub_add_add_cancel, add_comm (calcChecksum (frame.slice 3 _))]

/-- The receiver accepts the frames of the sender. -/
theorem accepts_iff_of_isFrame (s : Receiver) {pBuff frame : Memory UInt8}
    (hframe : IsFrame n frame) (hn : 6 ≤ n) (hmax : n < 2 ^ 16) (hs : s.senderBuffLen = n) :
  s.Accepts pBuff n ↔
    pBuff.slice 0 n = frame.slice 0 n ∨ Undetected n pBuff frame
  := by
  have hle : compared n ≤ n := by
    rw [compared]
    omega
  rw [accepts_iff s pBuff hn hmax hs, ← and_assoc, ← agree_iff hframe pBuff hn hmax]
  constructor
  · rintro ⟨hagree, hsum⟩
    by_cases hsame : pBuff.slice 0 n = frame.slice 0 n
    · left
      apply hsame
    · right
      constructor
      · apply hsame
      · apply hagree
      · apply (cancel_iff hframe hn hagree).mp hsum
  · rintro (hsame | hundetected)
    · have hcell := slice_eq_iff.mp hsame
      have hagree : pBuff.slice 0 (compared n) = frame.slice 0 (compared n) := by
        apply slice_eq_iff.mpr
        intro i hi
        apply hcell
        omega
      have hslice : pBuff.slice 3 (n - 4) = frame.slice 3 (n - 4) := by
        apply Memory.slice_congr
        intro i _ hi
        apply hcell
        omega
      use hagree
      rw [hcell _ (by omega), hslice]
      apply hframe.checksum
    · use hundetected.agree
      apply (cancel_iff hframe hn hundetected.agree).mpr hundetected.cancel

/-- The receiver accepts the frame of the sender and nothing else, unless the buffer differs
from the frame only where the differences are not compared and cancel in the sum. -/
theorem accepts_only_frame_iff_not_undetected (hn : 6 ≤ n) (hmax : n ≤ 1680) (s : Receiver)
    (hs : s.senderBuffLen = n) (sent pBuff : Memory UInt8) :
  (s.Accepts pBuff n ↔ pBuff.slice 0 n = (encodeBigBuffer sent n).slice 0 n) ↔
    ¬ Undetected n pBuff (encodeBigBuffer sent n)
  := by
  have hframe := encodeBigBuffer_isFrame sent hn (by omega)
  rw [accepts_iff_of_isFrame s hframe hn (by omega) hs]
  constructor
  · intro h hundetected
    apply hundetected.differ
    apply h.mp
    right
    apply hundetected
  · intro h
    constructor
    · rintro (hsame | hundetected)
      · apply hsame
      · apply absurd hundetected h
    · intro hsame
      left
      apply hsame

end

/-- A receiver that expects frames of six bytes. -/
def receiverOfSix : Receiver := ⟨6, 0, 0⟩

/-- The frame of six bytes is `AA 00 02 BB 00 BB`. -/
theorem accepts_only_frame_of_six :
  receiverOfSix.Accepts (encodeBigBuffer (fun _ => 0) 6) 6 ↔
    (encodeBigBuffer (fun _ => 0) 6).slice 0 6 = (encodeBigBuffer (fun _ => 0) 6).slice 0 6
  := by
  apply (accepts_only_frame_iff_not_undetected (by decide) (by decide) receiverOfSix rfl _ _).mpr
  intro h
  apply h.differ rfl

/-- `AA 00 02 BB 01 BC` is accepted as well. -/
theorem accepts_changed_frame :
  ¬ (receiverOfSix.Accepts (Memory.write (fun _ => 0) 0 [0xAA, 0x00, 0x02, 0xBB, 0x01, 0xBC]) 6 ↔
    Memory.slice (Memory.write (fun _ => 0) 0 [0xAA, 0x00, 0x02, 0xBB, 0x01, 0xBC]) 0 6
      = (encodeBigBuffer (fun _ => 0) 6).slice 0 6)
  := by
  decide

end Uart.BaudTest
