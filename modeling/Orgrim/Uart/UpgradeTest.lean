import Orgrim.Uart.Receiver

/-!
# The receiver of the upgrade test

`upgrade_test.c`: its `RecvThread` computes the length without the masks that the other copies
have.  A `char` is signed, so a second length byte from `0x80` on counts 256 less.  A frame is
published with its length exactly if that byte is below `0x80` (`published_iff`).
-/

namespace Uart

namespace UpgradeTest

/-- `UART_BUFF_MEX_LEN` -/
def uartBuffMexLen : ℕ := 1680

/-- `(c << 8)` -/
def highSigned (c : UInt8) : ℤ := (charToInt c <<< 8).toInt

/-- `c + 1` -/
def lowSigned (c : UInt8) : ℤ := (charToInt c + 1#32).toInt

end UpgradeTest

open UpgradeTest in
/-- `RecvThread` of `upgrade_test.c` -/
def upgradeTest : Variant where
  bufLen := uartBuffMexLen
  clears := true
  lenFirst := highSigned
  lenBoth hi lo := highSigned hi + lowSigned lo
  lenSecond := lowSigned

namespace UpgradeTest

/-- The ways in which the header of a frame of length `L` is delivered. -/
def headers (L : ℕ) : List (List (List UInt8)) :=
  let hi := UInt8.ofNat (L >>> 8)
  let lo := UInt8.ofNat L
  [[[magicNumber], [hi, lo]], [[magicNumber], [hi], [lo]]]

/-- What a `read` of size `n` returns when the bytes `lump` are there: as many of them as it asks
for; or an error, if `n` is more than a `ssize_t` can hold. -/
def Answers (lump : List UInt8) (n : ℕ) (r : ReadResult UInt8) : Prop :=
  r = .data (lump.take n) ∨ (2 ^ 63 ≤ n ∧ r = .error)

/-! ### The length bytes -/

theorem highSigned_eq {c : UInt8} (hc : c.toNat < 2 ^ 7) :
  highSigned c = 2 ^ 8 * c.toNat
  := by
  have hall : ∀ i : Fin (2 ^ 7), highSigned (UInt8.ofNat i) = 2 ^ 8 * (i.val : ℤ) := by
    decide +kernel
  have hbyte := hall ⟨c.toNat, hc⟩
  rwa [UInt8.ofNat_toNat] at hbyte

/-- From `0x80` on the low byte counts 256 less. -/
theorem lowSigned_eq (c : UInt8) :
  lowSigned c = if c.toNat < 2 ^ 7 then (c.toNat : ℤ) + 1 else (c.toNat : ℤ) + 1 - 2 ^ 8
  := by
  have hall : ∀ i : Fin (2 ^ 8), lowSigned (UInt8.ofFin i)
      = if i.val < 2 ^ 7 then (i.val : ℤ) + 1 else (i.val : ℤ) + 1 - 2 ^ 8 := by
    decide +kernel
  apply hall c.toFin

/-- `len_temp` for a frame of length `L`: the number of bytes that follow the length, or 256
less. -/
def lenTemp (L : ℕ) : ℤ := if L % 2 ^ 8 < 2 ^ 7 then (L : ℤ) + 1 else (L : ℤ) + 1 - 2 ^ 8

theorem lenBoth_eq {L : ℕ} (hL : L + 4 ≤ uartBuffMexLen) :
  highSigned (UInt8.ofNat (L >>> 8)) + lowSigned (UInt8.ofNat L) = lenTemp L
  := by
  rw [uartBuffMexLen] at hL
  have hhi : (UInt8.ofNat (L >>> 8)).toNat = L / 2 ^ 8 := by
    rw [UInt8.toNat_ofNat', Nat.shiftRight_eq_div_pow]
    omega
  rw [highSigned_eq (by omega), lowSigned_eq, hhi, UInt8.toNat_ofNat', lenTemp]
  split_ifs
  all_goals omega

/-! ### The header -/

/-- The rest of a frame of length `L` is expected. -/
structure Expects (s : RecvThread) (L : ℕ) : Prop where
  state : s.state = .rest
  recvLen : s.recvLen = 3
  last : s.last = 0
  lenTemp : s.lenTemp = lenTemp L

/-- With the header, however it is delivered, the rest of the frame is expected and nothing has
been published. -/
theorem expects_of_header (buf : Memory UInt8) {L : ℕ} (hL : L + 4 ≤ uartBuffMexLen)
    {header : List (List UInt8)} (hheader : header ∈ headers L) :
  Expects (upgradeTest.recvThread.final (.start buf) (header.map .data)) L ∧
    upgradeTest.recvThread.output (.start buf) (header.map .data) = []
  := by
  have hmagic := Variant.iterate_magic (V := upgradeTest) (s := .start buf) rfl magicNumber
  rw [if_pos rfl] at hmagic
  simp only [headers, List.mem_cons, List.not_mem_nil, or_false] at hheader
  rcases hheader with rfl | rfl
  · simp only [List.map_cons, List.map_nil, Reader.final, Reader.output, Variant.recvThread_step,
      hmagic, Variant.iterate_length_two, List.append_nil, and_true]
    constructor
    · rfl
    · rfl
    · simp only [Variant.received, Variant.top_last]
      rfl
    · simp only [upgradeTest, lenBoth_eq hL]
  · simp only [List.map_cons, List.map_nil, Reader.final, Reader.output, Variant.recvThread_step,
      hmagic, Variant.iterate_length_one, Variant.iterate_lengthSecondByte, List.append_nil,
      and_true]
    constructor
    · rfl
    · rfl
    · simp only [Variant.received, Variant.top_last]
      rfl
    · simp only [upgradeTest, lenBoth_eq hL]

/-! ### The rest of the frame -/

/-- With what the next `read` returns, the frame is published with the length computed. -/
theorem output_rest {s : RecvThread} {L : ℕ} (hL : L + 4 ≤ uartBuffMexLen) (hs : Expects s L)
    {payload : List UInt8} (hpayload : payload.length = L + 1) {r : ReadResult UInt8}
    (hr : Answers payload (Variant.request s) r) :
  (upgradeTest.recvThread.output s [r]).map Reception.recvLen = [3 + lenTemp L]
  := by
  have hover : ¬ (r.len < s.lenTemp - s.last ∧ r.len > 0) := by
    rintro ⟨hlt, hpos⟩
    rw [uartBuffMexLen] at hL
    rcases hr with rfl | ⟨-, rfl⟩
    · simp only [Variant.request, hs.state, hs.last, hs.lenTemp, ReadResult.len_data,
        List.length_take, hpayload, lenTemp] at hlt
      split_ifs at hlt
      · omega
      · omega
    · cases hpos
  have hiter := Variant.iterate_rest_over (V := upgradeTest) hs.state hover
  simp only [Reader.output, Variant.recvThread_step, hiter, List.append_nil, List.map_cons,
    List.map_nil, hs.recvLen, hs.lenTemp]
  rfl

/-- For every length `L` with `L + 4 ≤ 1680` and every payload of `L + 1` bytes, however the
header is delivered and whatever the `read` for the rest returns: the frame is published with the
length `L + 4` exactly if the second length byte is below `0x80`. -/
theorem published_iff (buf : Memory UInt8) {L : ℕ} (hL : L + 4 ≤ uartBuffMexLen)
    {payload : List UInt8} (hpayload : payload.length = L + 1) {header : List (List UInt8)}
    (hheader : header ∈ headers L) {r : ReadResult UInt8}
    (hr : Answers payload
      (Variant.request (upgradeTest.recvThread.final (.start buf) (header.map .data))) r) :
  (upgradeTest.recvThread.output (.start buf) (header.map .data ++ [r])).map Reception.recvLen
      = [(L : ℤ) + 4]
    ↔ L % 2 ^ 8 < 2 ^ 7
  := by
  obtain ⟨hexpects, hnone⟩ := expects_of_header buf hL hheader
  rw [Reader.output_append, hnone, List.nil_append, output_rest hL hexpects hpayload hr,
    List.singleton_inj, lenTemp]
  split_ifs with h
  · apply iff_of_true _ h
    omega
  · apply iff_of_false _ h
    omega

/-- A frame with 128 bytes, the last one among those that are published with their length in the
first block of 256. -/
theorem published_iff_short :
  (upgradeTest.recvThread.output (.start (fun _ => 0))
      [.data [magicNumber], .data [0x00, 0x7F], .data (List.replicate 128 0)]).map
        Reception.recvLen
      = [(0x7F : ℤ) + 4]
    ↔ 0x7F % 2 ^ 8 < 2 ^ 7
  := @published_iff (fun _ => 0) 0x7F (by decide) (List.replicate 128 0) List.length_replicate
    [[magicNumber], [0x00, 0x7F]] (by decide +kernel) (.data (List.replicate 128 0))
    (Or.inl (by decide +kernel))

/-- The frame of length `0x0180` is published with the length 132. -/
theorem not_published :
  ¬ ∀ (buf : Memory UInt8) (L : ℕ) (payload : List UInt8) (header : List (List UInt8))
      (r : ReadResult UInt8), L + 4 ≤ uartBuffMexLen → payload.length = L + 1 →
      header ∈ headers L →
      Answers payload
        (Variant.request (upgradeTest.recvThread.final (.start buf) (header.map .data))) r →
      (upgradeTest.recvThread.output (.start buf) (header.map .data ++ [r])).map
        Reception.recvLen = [(L : ℤ) + 4]
  := by
  intro h
  have hwrong := h (fun _ => 0) 0x0180 (List.replicate 385 0) [[magicNumber], [0x01, 0x80]]
    (.data (List.replicate 129 0)) (by decide) List.length_replicate (by decide +kernel)
    (Or.inl (by decide +kernel))
  revert hwrong
  decide +kernel

end UpgradeTest

end Uart
