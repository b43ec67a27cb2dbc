import Mathlib.Data.List.Destutter
import Orgrim.Theory.Reader
import Orgrim.Uart.MapFrame

/-!
# The sender of the map

`SendThread` of `map_send_test.c`: it sends the map in numbered frames of at most 200 bytes and
goes on to the next frame when `ReadDataFromUart` reports success.  `mapSender` is its loop,
fed with what `malloc` and `ReadDataFromUart` return in each turn; it outputs what it
transmits.  The variables after `k` acknowledged frames are always `sent k`.
-/

namespace Uart

/-- `recv_err_t` -/
inductive RecvErr where
  | eok
  | egeneric
  | etimedout
deriving DecidableEq

/-- `SendThread`: in its loop, or exited. -/
inductive Sender where
  | sending (s : MapSend)
  | exited (code : ℕ)
deriving DecidableEq

/-- What a turn of the loop meets: `malloc` fails, or returns a buffer, and then
`ReadDataFromUart` returns. -/
inductive Turn where
  | mallocFailed
  | transmitted (pBuff : Memory UInt8) (err : RecvErr)

/-- The condition of the loop: the next turn, or the end. -/
def MapSend.again (s : MapSend) : Sender :=
  if s.left > 0 then .sending s else .exited 0

/-- The sender after `ReadDataFromUart` has returned. -/
def MapSend.answered (s : MapSend) : RecvErr → Sender
  | .eok => s.advance.again
  | .egeneric => .exited 2
  | .etimedout => s.again

/-- One turn of the loop. -/
def mapTurn (map : Memory UInt8) : Sender → Turn → Sender × List Transmission
  | .exited code, _ => (.exited code, [])
  | .sending _, .mallocFailed => (.exited 1, [])
  | .sending s, .transmitted pBuff err => (s.answered err, [⟨s, s.encode map pBuff⟩])

/-- `SendThread` -/
def mapSender (map : Memory UInt8) : Scanner Sender Turn Transmission where
  feed := mapTurn map

/-! ### The loop -/

/-- The variables after `k` acknowledged frames. -/
def sent (k : ℕ) : MapSend where
  frameNo := UInt8.ofNat (k + 1)
  left := mapBytes - mapFrameMaxBytes * k
  offset := mapFrameMaxBytes * k

/-- The number of frames. -/
def frameCount : ℕ := 41

/-- The transmission of frame `k + 1`. -/
def mapTransmission (map : Memory UInt8) (k : ℕ) : Transmission :=
  ⟨sent k, mapFrame (sent k) (map.slice (mapFrameMaxBytes * k) (sent k).dataLen)⟩

/-- All frames but the last one are full. -/
theorem dataLen_sent {k : ℕ} (hk : k + 1 < frameCount) :
  (sent k).dataLen = mapFrameMaxBytes
  := by
  apply if_pos
  simp only [frameCount] at hk
  simp only [sent, mapFrameMaxBytes, mapBytes]
  omega

/-- The last frame holds the rest of the map. -/
theorem dataLen_sent_last {k : ℕ} (hk : k + 1 = frameCount) :
  (sent k).dataLen = (sent k).left
  := by
  apply if_neg
  simp only [frameCount] at hk
  simp only [sent, mapFrameMaxBytes, mapBytes]
  omega

/-- An acknowledged frame leads to the next one. -/
theorem advance_sent {k : ℕ} (hk : k + 1 < frameCount) :
  (sent k).advance = sent (k + 1)
  := by
  rw [MapSend.advance, dataLen_sent hk]
  simp only [frameCount] at hk
  simp only [sent, mapFrameMaxBytes, mapBytes, MapSend.mk.injEq]
  and_intros
  · apply (UInt8.ofNat_add (k + 1) 1).symm
  · omega
  · omega

theorem again_sent {k : ℕ} (hk : k < frameCount) :
  (sent k).again = .sending (sent k)
  := by
  apply if_pos
  simp only [frameCount] at hk
  simp only [sent, mapFrameMaxBytes, mapBytes]
  omega

theorem answered_sent {k : ℕ} (hk : k < frameCount) :
  (sent k).answered .eok
    = if k + 1 < frameCount then .sending (sent (k + 1)) else .exited 0
  := by
  by_cases hnext : k + 1 < frameCount
  · rw [MapSend.answered, advance_sent hnext, again_sent hnext, if_pos hnext]
  · have hleft : ¬ (sent k).advance.left > 0 := by
      rw [MapSend.advance, dataLen_sent_last (by omega), Nat.sub_self]
      apply Nat.lt_irrefl
    rw [MapSend.answered, MapSend.again, if_neg hleft, if_neg hnext]

theorem feed_sent (map pBuff : Memory UInt8) (k : ℕ) (err : RecvErr) :
  (mapSender map).feed (.sending (sent k)) (.transmitted pBuff err)
    = ((sent k).answered err, [mapTransmission map k])
  := by
  simp only [mapSender, mapTurn, encode_eq]
  rfl

theorem output_exited {map : Memory UInt8} {code : ℕ} : ∀ turns : List Turn,
    (mapSender map).output (.exited code) turns = [] ∧
      (mapSender map).final (.exited code) turns = .exited code
  | [] => ⟨rfl, rfl⟩
  | _ :: turns => output_exited turns

/-- What is transmitted is one of the frames of the map. -/
theorem mem_output_mapSender {map : Memory UInt8} {x : Transmission} :
  ∀ {turns : List Turn} {k : ℕ}, k < frameCount →
    x ∈ (mapSender map).output (.sending (sent k)) turns →
    ∃ j, k ≤ j ∧ j < frameCount ∧ x = mapTransmission map j
  | [], _, _, hx => by
      cases hx
  | .mallocFailed :: turns, k, hk, hx => by
      have hnone : (mapSender map).output (.sending (sent k)) (.mallocFailed :: turns) = [] :=
        (output_exited turns).1
      rw [hnone] at hx
      cases hx
  | .transmitted pBuff err :: turns, k, hk, hx => by
      rw [Scanner.output, feed_sent] at hx
      rcases List.mem_append.mp hx with hx | hx
      · obtain rfl := List.mem_singleton.mp hx
        use k
      · cases err with
        | eok =>
            simp only [answered_sent hk] at hx
            split at hx
            · rename_i hnext
              obtain ⟨j, hle, hj, rfl⟩ := mem_output_mapSender hnext hx
              use j
              and_intros
              · omega
              · exact hj
              · rfl
            · rw [(output_exited turns).1] at hx
              cases hx
        | egeneric =>
            have hnone : (mapSender map).output (.exited 2) turns = [] := (output_exited turns).1
            simp only [MapSend.answered, hnone] at hx
            cases hx
        | etimedout =>
            rw [MapSend.answered, again_sent hk] at hx
            apply mem_output_mapSender hk hx

/-- Two transmissions carry different frames. -/
def Differ (x y : Transmission) : Prop := x.number ≠ y.number

instance : DecidableRel Differ :=
  fun x y => inferInstanceAs (Decidable (x.number ≠ y.number))

theorem number_mapTransmission (map : Memory UInt8) {k : ℕ} (hk : k < frameCount) :
  (mapTransmission map k).number = k + 1
  := by
  rw [mapTransmission, number_mapFrame, sent, UInt8.toNat_ofNat']
  simp only [frameCount] at hk
  omega

theorem head?_destutter' (x : Transmission) : ∀ xs : List Transmission,
    (xs.destutter' Differ x).head? = some x
  | [] => rfl
  | y :: xs => by
      rw [List.destutter'_cons]
      split
      · rfl
      · apply head?_destutter' x xs

theorem head?_destutter : ∀ xs : List Transmission, (xs.destutter Differ).head? = xs.head?
  | [] => rfl
  | x :: xs => head?_destutter' x xs

/-- A frame that is transmitted again collapses with its first transmission. -/
theorem destutter_cons_same {x : Transmission} {xs : List Transmission}
    (h : xs.head? = some x) :
  (x :: xs).destutter Differ = xs.destutter Differ
  := by
  obtain ⟨tail, rfl⟩ := List.head?_eq_some_iff.mp h
  rw [List.destutter_cons_cons, if_neg (fun h => h rfl)]
  rfl

/-- A frame stays before a different one. -/
theorem destutter_cons_differ {x y : Transmission} {xs : List Transmission}
    (h : xs.head? = some y) (hxy : Differ x y) :
  (x :: xs).destutter Differ = x :: xs.destutter Differ
  := by
  obtain ⟨tail, rfl⟩ := List.head?_eq_some_iff.mp h
  rw [List.destutter_cons_cons, if_pos hxy]
  rfl

theorem range'_frames {k : ℕ} (hk : k < frameCount) :
  List.range' k (frameCount - k) = k :: List.range' (k + 1) (frameCount - (k + 1))
  := by
  obtain ⟨n, hn⟩ : ∃ n, frameCount - k = n + 1 := ⟨frameCount - k - 1, by omega⟩
  have hn' : frameCount - (k + 1) = n := by
    omega
  rw [hn, hn', List.range'_succ]

/-- In a run that reports success, the frames transmitted, retransmissions collapsed, are all
frames of the map from the present one on. -/
theorem destutter_output {map : Memory UInt8} :
  ∀ {turns : List Turn} {k : ℕ}, k < frameCount →
    (mapSender map).final (.sending (sent k)) turns = .exited 0 →
    ((mapSender map).output (.sending (sent k)) turns).destutter Differ
      = (List.range' k (frameCount - k)).map (mapTransmission map)
  | [], _, _, h => by
      cases h
  | .mallocFailed :: turns, k, _, h => by
      have hexit : (mapSender map).final (.sending (sent k)) (.mallocFailed :: turns)
          = .exited 1 := (output_exited turns).2
      rw [hexit] at h
      cases h
  | .transmitted pBuff err :: turns, k, hk, h => by
      have hhead : ∀ {xs : List Transmission} {k : ℕ}, k < frameCount → xs.destutter Differ
          = (List.range' k (frameCount - k)).map (mapTransmission map) →
          xs.head? = some (mapTransmission map k) := by
        intro xs k hk hxs
        rw [← head?_destutter, hxs, range'_frames hk]
        rfl
      rw [Scanner.output, feed_sent, List.singleton_append]
      rw [Scanner.final, feed_sent] at h
      cases err with
      | eok =>
          rw [answered_sent hk] at h ⊢
          by_cases hnext : k + 1 < frameCount
          · rw [if_pos hnext] at h ⊢
            have ih := destutter_output hnext h
            have hdiffer : Differ (mapTransmission map k) (mapTransmission map (k + 1)) := by
              rw [Differ, number_mapTransmission map hk, number_mapTransmission map hnext]
              omega
            rw [destutter_cons_differ (hhead hnext ih) hdiffer, ih, range'_frames hk]
            rfl
          · have hlast : frameCount - (k + 1) = 0 := by
              omega
            rw [if_neg hnext, (output_exited turns).1, range'_frames hk, hlast]
            rfl
      | egeneric =>
          simp only [MapSend.answered, (output_exited turns).2] at h
          cases h
      | etimedout =>
          rw [MapSend.answered, again_sent hk] at h ⊢
          have ih := destutter_output hk h
          rw [destutter_cons_same (hhead hk ih), ih]

theorem payload_mapTransmission (map : Memory UInt8) (k : ℕ) :
  (mapTransmission map k).payload = map.slice (mapFrameMaxBytes * k) (sent k).dataLen
  := payload_mapFrame (Memory.length_slice ..)

/-- The payloads of the last `n` frames are the end of the map. -/
theorem flatMap_payload (map : Memory UInt8) : ∀ {n k : ℕ}, k + n = frameCount →
    ((List.range' k n).map (mapTransmission map)).flatMap Transmission.payload
      = map.slice (mapFrameMaxBytes * k) (mapBytes - mapFrameMaxBytes * k)
  | 0, k, hk => by
      have hnone : mapBytes - mapFrameMaxBytes * k = 0 := by
        simp only [frameCount] at hk
        simp only [mapBytes, mapFrameMaxBytes]
        omega
      rw [hnone]
      rfl
  | n + 1, k, hk => by
      have hrest := flatMap_payload map (n := n) (k := k + 1) (by omega)
      rw [List.range'_succ, List.map_cons, List.flatMap_cons, payload_mapTransmission, hrest]
      by_cases hnext : k + 1 < frameCount
      · have hsplit : mapBytes - mapFrameMaxBytes * k
            = mapFrameMaxBytes + (mapBytes - mapFrameMaxBytes * (k + 1)) := by
          simp only [frameCount] at hnext
          simp only [mapBytes, mapFrameMaxBytes]
          omega
        rw [dataLen_sent hnext, hsplit, Memory.slice_add]
        rfl
      · have hnone : mapBytes - mapFrameMaxBytes * (k + 1) = 0 := by
          simp only [frameCount] at hnext
          simp only [mapBytes, mapFrameMaxBytes]
          omega
        rw [dataLen_sent_last (by omega), hnone, Memory.slice_zero, List.append_nil]
        rfl

/-- The frame that is transmitted after `k` acknowledged ones. -/
theorem wellFormed_mapTransmission (map : Memory UInt8) {k : ℕ} (hk : k < frameCount) :
  (mapTransmission map k).vars.offset + (mapTransmission map k).vars.left = mapBytes ∧
    1 ≤ (mapTransmission map k).number ∧
    (mapTransmission map k).number ≤ ucFrameTotal.toNat ∧
    (mapTransmission map k).payload
      = map.slice (mapFrameMaxBytes * ((mapTransmission map k).number - 1))
        (min (mapFrameMaxBytes * (mapTransmission map k).number) mapBytes
          - mapFrameMaxBytes * ((mapTransmission map k).number - 1)) ∧
    isChecksumError (mapTransmission map k).bytes = 0 ∧
    (mapTransmission map k).crcField = genCRC (mapTransmission map k).crcCovered
  := by
  have hdata := Memory.length_slice map (mapFrameMaxBytes * k) (sent k).dataLen
  have htotal : ucFrameTotal.toNat = frameCount := rfl
  rw [number_mapTransmission map hk, htotal]
  and_intros
  · simp only [frameCount] at hk
    simp only [mapTransmission, sent, mapBytes, mapFrameMaxBytes]
    omega
  · omega
  · omega
  · rw [payload_mapTransmission, Nat.add_sub_cancel]
    congr 1
    by_cases hnext : k + 1 < frameCount
    · rw [dataLen_sent hnext]
      simp only [frameCount] at hnext
      simp only [mapBytes, mapFrameMaxBytes]
      omega
    · rw [dataLen_sent_last (by omega)]
      simp only [frameCount] at hnext hk
      simp only [sent, mapBytes, mapFrameMaxBytes]
      omega
  · apply isChecksumError_mapFrame hdata
  · rw [mapTransmission, crcField_mapFrame hdata, crcCovered_mapFrame hdata]

/-- Whatever `malloc` and `ReadDataFromUart` return in whatever order: offset and rest of the
map add up at every transmission, frame `k` carries exactly its part of the map, and its
checksum and CRC are right; and in a run that reports success the payloads of the frames,
retransmissions collapsed, are the map. -/
theorem covers_map (map : Memory UInt8) (turns : List Turn) :
  (∀ x ∈ (mapSender map).output (.sending .start) turns,
      x.vars.offset + x.vars.left = mapBytes ∧
      1 ≤ x.number ∧ x.number ≤ ucFrameTotal.toNat ∧
      x.payload = map.slice (mapFrameMaxBytes * (x.number - 1))
        (min (mapFrameMaxBytes * x.number) mapBytes - mapFrameMaxBytes * (x.number - 1)) ∧
      isChecksumError x.bytes = 0 ∧ x.crcField = genCRC x.crcCovered) ∧
    ((mapSender map).final (.sending .start) turns = .exited 0 →
      (((mapSender map).output (.sending .start) turns).destutter Differ).map
          Transmission.number = List.range' 1 ucFrameTotal.toNat ∧
        (((mapSender map).output (.sending .start) turns).destutter Differ).flatMap
          Transmission.payload = map.slice 0 mapBytes)
  := by
  have hstart : MapSend.start = sent 0 := rfl
  have hcount : 0 < frameCount := by decide
  rw [hstart]
  constructor
  · intro x hx
    obtain ⟨k, -, hk, rfl⟩ := mem_output_mapSender hcount hx
    apply wellFormed_mapTransmission map hk
  · intro hexit
    rw [destutter_output hcount hexit]
    constructor
    · have hnumbers : ((List.range' 0 (frameCount - 0)).map (mapTransmission map)).map
          Transmission.number = (List.range' 0 (frameCount - 0)).map (· + 1) := by
        rw [List.map_map]
        apply List.map_congr_left
        intro k hk
        apply number_mapTransmission
        have hlt := (List.mem_range'_1.mp hk).2
        omega
      rw [hnumbers]
      rfl
    · apply flatMap_payload map
      rfl

/-- The run in which every frame is acknowledged. -/
theorem covers_map_acknowledged :
  (((mapSender fun i => UInt8.ofNat i).output (.sending .start)
      (List.replicate 41 (.transmitted (fun _ => 0xFF) .eok))).destutter Differ).flatMap
        Transmission.payload = Memory.slice (fun i => UInt8.ofNat i) 0 mapBytes
  := ((covers_map (fun i => UInt8.ofNat i)
    (List.replicate 41 (.transmitted (fun _ => 0xFF) .eok))).2 (by decide +kernel)).2

end Uart
