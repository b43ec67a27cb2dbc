import Orgrim.Uart.BigBuffer
import Orgrim.Uart.ImuTest

/-!
# The firmware receiver

`serial_test2.c`, the peer of `am_bigbuffer_sender.c`: its `RecvThread` and
`ProcessRecvBuffer`.  This copy of `RecvThread` clears its buffer at the top of every
iteration, and with it the bytes that earlier reads of the same frame have stored: only those
of the last read survive (`received_last`).
-/

namespace Uart

/-- `RecvThread` of `serial_test2.c` -/
def serialTest2 : Variant where
  bufLen := maxLen
  clears := true
  lenFirst := highMasked
  lenBoth hi lo := highMasked hi + lowMasked lo
  lenSecond := lowMasked

namespace SerialTest2

/-- `g_SendBuffer` and `g_SendBufferCount` -/
structure SendBuffer where
  bytes : Memory UInt8
  count : ℕ

/-- The buffer when the program starts. -/
def SendBuffer.start : SendBuffer where
  bytes := fun _ => 0
  count := 0

/-- The reply prepared. -/
def SendBuffer.reply (s : SendBuffer) : List UInt8 := s.bytes.slice 0 s.count

/-- `iCRCRecv` -/
def crcRecv (pBuff : List UInt8) : ℕ :=
  2 ^ 8 * (pBuff[pBuff.length - 3]?.getD 0).toNat + (pBuff[pBuff.length - 2]?.getD 0).toNat

/-- `iCRCCalc`, for a frame that is at least as long as its fields. -/
def crcCalc (pBuff : List UInt8) : ℕ := genCRC ((pBuff.drop 6).take (pBuff.length - 9))

/-- The bytes of the reply from its third byte on, for the commands that are known. -/
def replyTail (cCmd : UInt8) (pBuff : List UInt8) : List UInt8 :=
  if cCmd = 0x83 then [0x02, 0x83, 0x00, 0x83]
  else if cCmd = 0x84 then [0x01, 0x84, 0x84]
  else if cCmd = 0x85 then [0x02, 0x85, if crcCalc pBuff ≠ crcRecv pBuff then 0x01 else 0x00, 0x85]
  else if cCmd = 0x86 then [0x02, 0x86, 0x00, 0x86]
  else []

/-- `ProcessRecvBuffer`, on the bytes of the frame received. -/
def processRecvBuffer (s : SendBuffer) (pBuff : List UInt8) : SendBuffer :=
  if pBuff.length < 5 then s
  else
    let tail := replyTail (pBuff[3]?.getD 0) pBuff
    let bytes := (s.bytes.write 0 [0xAA, 0x00]).write 2 tail
    if tail.length > 0 then ⟨bytes, 2 + tail.length⟩ else ⟨bytes, s.count⟩

/-- The buffer after the frames received, one after the other. -/
def processed (receptions : List Reception) : SendBuffer :=
  receptions.foldl (fun s x => processRecvBuffer s x.bytes) .start

end SerialTest2

/-! ### What a copy that clears its buffer receives -/

section

variable {V : Variant} (hclears : V.clears = true)

include hclears

/-- With the last read of a frame that fits into the buffer, the rest of the buffer is
zero. -/
theorem slice_received {s : RecvThread} {p : List UInt8}
    (hfits : Variant.target s + p.length ≤ V.bufLen) :
  (V.received s (.data p)).buf.slice 0 (Variant.target s + p.length)
    = List.replicate (Variant.target s) 0 ++ p
  := by
  have hzero : (s.buf.write 0 (List.replicate V.bufLen 0)).slice 0 (Variant.target s)
      = List.replicate (Variant.target s) 0 := by
    have hslice : (s.buf.write 0 (List.replicate V.bufLen 0)).slice (0 + 0) (Variant.target s)
        = ((List.replicate V.bufLen 0).drop 0).take (Variant.target s) := by
      apply Memory.slice_write_of_mem
      rw [List.length_replicate]
      omega
    rw [Nat.add_zero, List.drop_zero, List.take_replicate] at hslice
    rw [hslice]
    congr 1
    omega
  have happend := Memory.slice_write_append (s.buf.write 0 (List.replicate V.bufLen 0)) 0
    (Variant.target s) p
  rw [hzero, Nat.zero_add] at happend
  simp only [Variant.received, Variant.top, hclears, if_true, ReadResult.bytes_data]
  apply happend

/-- However the rest of a frame is cut into reads, it is received with the bytes of the last
read alone. -/
theorem output_rest :
  ∀ {pieces : List (List UInt8)} {s : RecvThread}, s.state = .rest →
    s.lenTemp = s.last + pieces.flatten.length → pieces.flatten ≠ [] →
    s.lenTemp < 2 ^ 64 → s.recvLen + s.lenTemp ≤ V.bufLen →
    V.recvThread.Cuts s pieces →
    ∃ p, pieces.getLast? = some p ∧ p.length ≤ s.lenTemp ∧
      (V.recvThread.output s (pieces.map .data)).map Reception.bytes
        = [List.replicate ((s.recvLen + s.lenTemp).toNat - p.length) 0 ++ p]
  | [], _, _, _, hne, _, _, _ => absurd rfl hne
  | p :: ps, s, state, hlen, hne, hbig, hfits, ⟨⟨hle, hnil⟩, hps⟩ => by
      rw [List.flatten_cons, List.length_append] at hlen
      have hrequest : Variant.request s = p.length + ps.flatten.length := by
        simp only [Variant.request, state]
        omega
      simp only [Variant.recvThread_request] at hle hnil
      have hp : p ≠ [] := by
        intro hp
        apply hne
        have hzero := hnil hp
        apply List.eq_nil_of_length_eq_zero
        rw [List.flatten_cons, List.length_append]
        omega
      have htarget : Variant.target s = s.recvLen + s.last := by
        simp only [Variant.target, state]
      simp only [List.map_cons, Reader.output, Variant.recvThread_step] at hps ⊢
      by_cases hlast : ps.flatten = []
      · have hover : ¬ ((ReadResult.data p).len < s.lenTemp - s.last
            ∧ (ReadResult.data p).len > 0) := by
          simp only [ReadResult.len_data, hlen, hlast, List.length_nil]
          omega
        rw [Variant.iterate_rest_over state hover] at hps ⊢
        obtain rfl : ps = [] := by
          cases ps with
          | nil => rfl
          | cons q qs =>
              have hq : q = [] := by
                simp only [List.flatten_cons, List.append_eq_nil_iff] at hlast
                exact hlast.1
              exact absurd (hps.1.2 hq) (by simp [Variant.request])
        have hslice := slice_received hclears (s := s) (p := p) (by
          simp only [List.flatten_nil, List.length_nil] at hlen
          omega)
        have htotal : (s.recvLen + s.lenTemp).toNat = Variant.target s + p.length := by
          simp only [List.flatten_nil, List.length_nil] at hlen
          omega
        use p, rfl
        constructor
        · omega
        · simp only [List.map_nil, Reader.output, List.append_nil, List.map_cons,
            Reception.bytes, htotal, hslice, Nat.add_sub_cancel]
      · have hpos := List.length_pos_iff.mpr hlast
        rw [Variant.iterate_rest_short state hp (by omega)] at hps ⊢
        obtain ⟨q, hq, hqlen, hout⟩ := output_rest
          (s := { V.received s (.data p) with last := s.last + p.length })
          (by simp [Variant.received, state])
          (by
            simp only [Variant.received, Variant.top_lenTemp, hlen]
            omega)
          hlast (by simpa [Variant.received] using hbig)
          (by simpa [Variant.received] using hfits) hps
        simp only [Variant.received, Variant.top_lenTemp, Variant.top_recvLen] at hqlen hout
        use q
        and_intros
        · rw [List.getLast?_cons, hq]
          rfl
        · exact hqlen
        · simp only [Variant.received, Variant.top_lenTemp, Variant.top_recvLen,
            List.nil_append]
          exact hout

/-- What is received of a frame with the payload `payload`: zeros, and the bytes of the last
read. -/
def ReceivesLast (V : Variant) (s : RecvThread) (pieces : List (List UInt8))
    (payload : List UInt8) : Prop :=
  ∃ p, pieces.getLast? = some p ∧ p.length ≤ payload.length ∧
    (V.recvThread.output s (pieces.map .data)).map Reception.bytes
      = [List.replicate (payload.length + 3 - p.length) 0 ++ p]

omit hclears in
/-- An iteration that completes no frame leaves what is received of it to the others. -/
theorem receivesLast_cons {s s' : RecvThread} {p : List UInt8} {ps : List (List UInt8)}
    {payload : List UInt8} (hiter : V.iterate s (.data p) = (s', []))
    (h : ReceivesLast V s' ps payload) :
  ReceivesLast V s (p :: ps) payload
  := by
  obtain ⟨q, hq, hle, hout⟩ := h
  use q
  and_intros
  · rw [List.getLast?_cons, hq]
    rfl
  · exact hle
  · simp only [List.map_cons, Reader.output, Variant.recvThread_step, hiter, List.nil_append]
    exact hout

section

variable {hi lo : UInt8} {payload : List UInt8}
  (hpayload : payload.length = 2 ^ 8 * hi.toNat + lo.toNat + 1)
  (hfits : payload.length + 3 ≤ V.bufLen)

include hpayload hfits

theorem receivesLast_rest {s : RecvThread} {pieces : List (List UInt8)}
    (state : s.state = .rest) (recvLen : s.recvLen = 3) (last : s.last = 0)
    (lenTemp : s.lenTemp = 2 ^ 8 * hi.toNat + lo.toNat + 1)
    (hstream : pieces.flatten = payload) (hcuts : V.recvThread.Cuts s pieces) :
  ReceivesLast V s pieces payload
  := by
  have hhi := hi.toNat_lt
  have hlo := lo.toNat_lt
  have hne : payload ≠ [] := by
    rintro rfl
    simp at hpayload
  obtain ⟨p, hp, hle, hout⟩ := output_rest hclears state
    (by rw [hstream, last]; omega) (by rwa [hstream]) (by omega) (by omega) hcuts
  have htotal : (s.recvLen + s.lenTemp).toNat = payload.length + 3 := by
    omega
  rw [htotal] at hout
  use p, hp
  constructor
  · omega
  · exact hout

theorem receivesLast_lengthSecondByte (hmasked : V.Masked) {s : RecvThread}
    {pieces : List (List UInt8)} (state : s.state = .lengthSecondByte)
    (recvLen : s.recvLen = 2) (last : s.last = 0) (lenTemp : s.lenTemp = V.lenFirst hi)
    (hstream : pieces.flatten = lo :: payload) (hcuts : V.recvThread.Cuts s pieces) :
  ReceivesLast V s pieces payload
  := by
  obtain _ | ⟨p, ps⟩ := pieces
  · cases hstream
  obtain ⟨⟨hle, hnil⟩, hps⟩ := hcuts
  have hrequest : V.recvThread.request s = 1 := by
    simp only [Variant.recvThread_request, Variant.request, state]
  rw [hrequest] at hle hnil
  have hp : p ≠ [] := by
    intro hp
    cases hnil hp
  obtain ⟨a, rfl⟩ := eq_singleton hp hle
  obtain ⟨rfl, hflat⟩ := List.cons.inj hstream
  have hiter := Variant.iterate_lengthSecondByte (V := V) state a
  simp only [Variant.recvThread_step, hiter] at hps
  apply receivesLast_cons hiter
  apply receivesLast_rest hclears hpayload hfits _ _ _ _ hflat hps
  · rfl
  · simp only [recvLen]
  · simp only [Variant.received, Variant.top_last, last]
  · simp only [lenTemp, hmasked.split]

theorem receivesLast_length (hmasked : V.Masked) {s : RecvThread}
    {pieces : List (List UInt8)} (state : s.state = .length)
    (recvLen : s.recvLen = 1) (last : s.last = 0)
    (hstream : pieces.flatten = hi :: lo :: payload) (hcuts : V.recvThread.Cuts s pieces) :
  ReceivesLast V s pieces payload
  := by
  obtain _ | ⟨p, ps⟩ := pieces
  · cases hstream
  obtain ⟨⟨hle, hnil⟩, hps⟩ := hcuts
  have hrequest : V.recvThread.request s = 2 := by
    simp only [Variant.recvThread_request, Variant.request, state]
  rw [hrequest] at hle hnil
  have hp : p ≠ [] := by
    intro hp
    cases hnil hp
  rcases eq_one_or_two hp hle with ⟨a, rfl⟩ | ⟨a, b, rfl⟩
  · obtain ⟨rfl, hflat⟩ := List.cons.inj hstream
    have hiter := Variant.iterate_length_one (V := V) state a
    simp only [Variant.recvThread_step, hiter] at hps
    apply receivesLast_cons hiter
    apply receivesLast_lengthSecondByte hclears hpayload hfits hmasked _ _ _ _ hflat hps
    · rfl
    · simp only [recvLen]
    · simp only [Variant.received, Variant.top_last, last]
    · rfl
  · obtain ⟨rfl, htail⟩ := List.cons.inj hstream
    obtain ⟨rfl, hflat⟩ := List.cons.inj htail
    have hiter := Variant.iterate_length_two (V := V) state a b
    simp only [Variant.recvThread_step, hiter] at hps
    apply receivesLast_cons hiter
    apply receivesLast_rest hclears hpayload hfits _ _ _ _ hflat hps
    · rfl
    · simp only [recvLen]
    · simp only [Variant.received, Variant.top_last, last]
    · simp only [hmasked.both]

end

/-- However a frame that fits into the buffer is cut into reads, it is received with the bytes
of the last read alone. -/
theorem receivesLast_frame (hmasked : V.Masked) {buf : Memory UInt8}
    {pieces : List (List UInt8)} (f : uartFraming.Frame) (hfits : f.bytes.length ≤ V.bufLen)
    (hstream : pieces.flatten = f.bytes) (hcuts : V.recvThread.Cuts (.start buf) pieces) :
  ReceivesLast V (.start buf) pieces f.payload
  := by
  have hpayload := (Option.some.inj f.sized).symm
  simp only [frame_bytes, List.length_cons] at hstream hfits
  obtain _ | ⟨p, ps⟩ := pieces
  · cases hstream
  obtain ⟨⟨hle, hnil⟩, hps⟩ := hcuts
  have hrequest : V.recvThread.request (.start buf) = 1 := rfl
  rw [hrequest] at hle hnil
  have hp : p ≠ [] := by
    intro hp
    cases hnil hp
  obtain ⟨a, rfl⟩ := eq_singleton hp hle
  obtain ⟨rfl, hflat⟩ := List.cons.inj hstream
  have hiter := Variant.iterate_magic (V := V) (s := .start buf) rfl magicNumber
  rw [if_pos rfl] at hiter
  simp only [Variant.recvThread_step, hiter] at hps
  apply receivesLast_cons hiter
  apply receivesLast_length hclears hpayload (by omega) hmasked _ _ _ hflat hps
  · rfl
  · rfl
  · simp only [Variant.received, Variant.top_last]
    rfl

end

/-! ### The firmware frames -/

/-- A big buffer, as a frame on the wire. -/
def bigWire (n : ℕ) (hn : 15 ≤ n) (hmax : n < 2 ^ 16) : uartFraming.Frame where
  len₁ := UInt8.ofNat ((n - 4) >>> 8)
  len₂ := UInt8.ofNat (n - 4)
  payload := (bigFrame n).drop 3
  sized := by
    rw [List.length_drop, length_bigFrame hn]
    simp only [uartFraming]
    rw [toNat_bigEndian16 (by omega)]
    congr 1
    omega

theorem bytes_bigWire {n : ℕ} (hn : 15 ≤ n) (hmax : n < 2 ^ 16) :
  (bigWire n hn hmax).bytes = bigFrame n
  := rfl

namespace SerialTest2

theorem masked : serialTest2.Masked
  := by
  constructor
  · intro hi lo
    simp only [serialTest2, highMasked_eq, lowMasked_eq]
    omega
  · intro hi lo
    simp only [serialTest2, highMasked_eq, lowMasked_eq]
    omega

/-- The CRC of a packet is found where the sender puts it, whatever stands before the
packet. -/
theorem crc_eq (head packet : List UInt8) (c : UInt8) (hhead : head.length = 6) :
  crcCalc (head ++ (packet ++ (bigEndian16 (genCRC packet) ++ [c])))
    = crcRecv (head ++ (packet ++ (bigEndian16 (genCRC packet) ++ [c])))
  := by
  have hlen : (head ++ (packet ++ (bigEndian16 (genCRC packet) ++ [c]))).length
      = packet.length + 9 := by
    simp [bigEndian16, hhead]
    omega
  have hdrop : (head ++ (packet ++ (bigEndian16 (genCRC packet) ++ [c]))).drop 6
      = packet ++ (bigEndian16 (genCRC packet) ++ [c]) := by
    rw [← hhead, List.drop_left]
  have hbyte : ∀ k, 6 + packet.length ≤ k →
      (head ++ (packet ++ (bigEndian16 (genCRC packet) ++ [c])))[k]?
        = (bigEndian16 (genCRC packet) ++ [c])[k - 6 - packet.length]? := by
    intro k hk
    rw [List.getElem?_append_right (by omega), hhead, List.getElem?_append_right (by omega)]
  have hcalc : crcCalc (head ++ (packet ++ (bigEndian16 (genCRC packet) ++ [c])))
      = genCRC packet := by
    rw [crcCalc, hdrop, hlen, Nat.add_sub_cancel, List.take_left]
  have hhigh : packet.length + 9 - 3 - 6 - packet.length = 0 := by
    omega
  have hlow : packet.length + 9 - 2 - 6 - packet.length = 1 := by
    omega
  rw [hcalc, crcRecv, hlen, hbyte _ (by omega), hbyte _ (by omega), hhigh, hlow]
  apply (toNat_bigEndian16 (genCRC_lt packet)).symm

/-- The reply to a command that is known. -/
theorem reply_of_tail {pBuff : List UInt8} {a : UInt8} {tail : List UInt8}
    (hlen : 5 ≤ pBuff.length) (htail : replyTail (pBuff[3]?.getD 0) pBuff = a :: tail) :
  (processRecvBuffer .start pBuff).reply = 0xAA :: 0x00 :: a :: tail
  := by
  have hshort : ¬ pBuff.length < 5 := by
    omega
  have hslice := Memory.slice_write_append (Memory.write (fun _ => 0) 0 [0xAA, 0x00]) 0 2
    (a :: tail)
  simp only [processRecvBuffer, if_neg hshort, htail, List.length_cons, Nat.zero_lt_succ,
    if_true, SendBuffer.reply]
  apply hslice

theorem replyTail_of_crc {pBuff : List UInt8} (h : crcCalc pBuff = crcRecv pBuff) :
  replyTail 0x85 pBuff = [0x02, 0x85, 0x00, 0x85]
  := by
  simp [replyTail, h]

/-- A frame whose rest is received in one read is answered as a whole one is. -/
theorem reply_payload {n : ℕ} :
  (processRecvBuffer .start (List.replicate 3 0 ++ (bigFrame n).drop 3)).reply
    = [0xAA, 0x00, 0x02, 0x85, 0x00, 0x85]
  := by
  have hfields : List.replicate 3 0 ++ (bigFrame n).drop 3
      = [0x00, 0x00, 0x00, 0x85, 0x00, 0x01] ++ (bigPacket n ++
        (bigEndian16 (genCRC (bigPacket n)) ++ [calcChecksum ((bigSummed n).drop 3)])) := by
    simp only [bigFrame, bigSummed, bigHead, List.append_assoc]
    rfl
  rw [hfields]
  apply reply_of_tail
  · simp
  · have hcrc := crc_eq [0x00, 0x00, 0x00, 0x85, 0x00, 0x01] (bigPacket n)
      (calcChecksum ((bigSummed n).drop 3)) rfl
    apply replyTail_of_crc hcrc

/-- A frame whose command has been cleared is not answered. -/
theorem reply_cleared {k : ℕ} (p : List UInt8) (hk : 4 ≤ k) :
  (processRecvBuffer .start (List.replicate k 0 ++ p)).reply = []
  := by
  have hcommand : (List.replicate k 0 ++ p)[3]?.getD 0 = 0 := by
    rw [List.getElem?_append_left (by rwa [List.length_replicate]),
      List.getElem?_replicate_of_lt hk,
      Option.getD_some]
  have htail : ∀ pBuff, replyTail 0 pBuff = [] := fun _ => rfl
  rw [processRecvBuffer, hcommand]
  split
  · rfl
  · simp only [htail, List.length_nil, Nat.lt_irrefl, gt_iff_lt, if_false]
    rfl

/-- The bytes of a big buffer never arrive whole, however they are cut into reads: the first
of them is received as zero.  They are nevertheless answered with a success exactly when all
bytes behind the length are read at once. -/
theorem never_received_whole {n : ℕ} (hn : 15 ≤ n) (hmax : n ≤ maxLen)
    {pBuff buf : Memory UInt8} {pieces : List (List UInt8)}
    (hstream : pieces.flatten = (encodeBigBuffer pBuff n).slice 0 n)
    (hcuts : serialTest2.recvThread.Cuts (.start buf) pieces) :
  (serialTest2.recvThread.output (.start buf) (pieces.map .data)).map Reception.bytes
      ≠ [(encodeBigBuffer pBuff n).slice 0 n] ∧
    ((processed (serialTest2.recvThread.output (.start buf) (pieces.map .data))).reply
        = [0xAA, 0x00, 0x02, 0x85, 0x00, 0x85]
      ↔ pieces.getLast? = some (((encodeBigBuffer pBuff n).slice 0 n).drop 3))
  := by
  have hbig : maxLen = 1680 := rfl
  have hlt : n < 2 ^ 16 := by
    omega
  rw [slice_encodeBigBuffer pBuff hn hlt] at hstream ⊢
  obtain ⟨p, hp, hle, hout⟩ := receivesLast_frame rfl masked (bigWire n hn hlt)
    (by rwa [bytes_bigWire, length_bigFrame hn]) hstream hcuts
  have hpayload : (bigWire n hn hlt).payload.length = n - 3 := by
    rw [bigWire, List.length_drop, length_bigFrame hn]
  have hzeros : (bigWire n hn hlt).payload.length + 3 - p.length = n - p.length := by
    omega
  rw [hzeros] at hout
  constructor
  · rw [hout]
    intro hwhole
    have hfirst := congrArg List.head? (List.cons.inj hwhole).1
    obtain ⟨k, hk⟩ : ∃ k, n - p.length = k + 1 := ⟨n - p.length - 1, by omega⟩
    rw [hk, List.replicate_succ] at hfirst
    cases hfirst
  · have hprocessed : processed (serialTest2.recvThread.output (.start buf) (pieces.map .data))
        = processRecvBuffer .start (List.replicate (n - p.length) 0 ++ p) := by
      rw [processed, ← List.foldl_map (f := Reception.bytes) (g := processRecvBuffer), hout]
      rfl
    rw [hprocessed, hp, Option.some.injEq]
    by_cases hwhole : p.length = n - 3
    · have hthree : n - p.length = 3 := by
        omega
      have hsuffix : p = (bigFrame n).drop 3 := by
        obtain ⟨front, rfl⟩ := List.getLast?_eq_some_iff.mp hp
        rw [List.flatten_append, List.flatten_singleton] at hstream
        have hfront : front.flatten.length = 3 := by
          have hlen := congrArg List.length hstream
          rw [List.length_append, length_bigFrame hn] at hlen
          omega
        rw [← hstream, ← hfront, List.drop_left]
      rw [hthree]
      constructor
      · exact fun _ => hsuffix
      · intro _
        rw [hsuffix, reply_payload]
    · rw [reply_cleared p (by omega)]
      constructor
      · exact fun h => absurd h (by decide)
      · rintro rfl
        rw [List.length_drop, length_bigFrame hn] at hwhole
        exact absurd rfl hwhole

/-- The shortest big buffer, as three reads return it. -/
def shortestReads : List (List UInt8) :=
  [[0xAA], [0x00, 0x0B],
    [0x85, 0x00, 0x01, 0x00, 0x00, 0x00, 0x00, 0x00, 0x0A, 0x00, 0x3C, 0xCC]]

theorem never_received_whole_shortest :
  (serialTest2.recvThread.output (.start fun _ => 0) (shortestReads.map .data)).map
      Reception.bytes ≠ [(encodeBigBuffer (fun _ => 0) 15).slice 0 15]
  := (never_received_whole (by decide) (by decide) (by decide +kernel) (by decide)).1

/-- Its first three bytes are received as zeros. -/
theorem shortest_received :
  shortestReads.flatten = (encodeBigBuffer (fun _ => 0) 15).slice 0 15 ∧
    serialTest2.recvThread.Cuts (.start fun _ => 0) shortestReads ∧
    (serialTest2.recvThread.output (.start fun _ => 0) (shortestReads.map .data)).map
      Reception.bytes ≠ [shortestReads.flatten]
  := ⟨by decide +kernel, by decide, by decide +kernel⟩

end SerialTest2

end Uart
