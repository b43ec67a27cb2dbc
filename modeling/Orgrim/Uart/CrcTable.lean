import Mathlib.Data.Nat.Bitwise
import Orgrim.Theory.ShiftRegister
import Orgrim.Uart.Crc

/-!
# The table of the CRC

`BlockCRC16TableFor8813` takes a message byte by byte, with a table that
`BuildCRC16TableFor8813` has filled for a generator polynomial.  It never reads outside of the
table, and returns what a shift register of 16 bits makes of the message bit by bit
(`blockCRC16With_eq`).  For `CRC_GEN_POLY`, `GenCRC` tells apart any two messages that differ
in a burst of at most 16 bits, and vanishes on a message followed by its own value
(`genCRC_detects`).
-/

open ShiftRegister

namespace Uart

/-- The next value of `CRC` in `BlockCRC16TableFor8813`, with `m_CRCTable` as it has been
filled; there is none if the table is read past its end. -/
def crcLookup (table : List ℕ) (dataCmpl : Bool) (crc : ℕ) (data : UInt8) : Option ℕ :=
  let data := if dataCmpl then ~~~data else data
  (table[(crc >>> 8) ^^^ data.toNat]?).map (fun entry => ((crc <<< 8) &&& 0xFFFF) ^^^ entry)

/-- `BlockCRC16TableFor8813`, with `m_CRCTable` as it has been filled. -/
def blockCRC16With (table : List ℕ) (block : List UInt8) (seed : ℕ) (dataCmpl : Bool) :
    Option ℕ :=
  block.foldlM (crcLookup table dataCmpl) seed

/-- The bits of a byte, most significant first. -/
def byteBits (data : UInt8) : List Bool := topBits 8 data.toBitVec

/-- The bits of a message, whose bytes are complemented if `data_cmpl` is set. -/
def messageBits (dataCmpl : Bool) (block : List UInt8) : List Bool :=
  block.flatMap (fun data => byteBits (if dataCmpl then ~~~data else data))

/-! ### The table -/

theorem and_mask_eq (n : ℕ) :
  n &&& 0xFFFF = (BitVec.ofNat 16 n).toNat
  := by
  rw [BitVec.toNat_ofNat]
  exact Nat.and_two_pow_sub_one_eq_mod n 16

theorem ofNat_shiftLeft (n k : ℕ) :
  BitVec.ofNat 16 (n <<< k) = BitVec.ofNat 16 n <<< k
  := by
  apply BitVec.eq_of_toNat_eq
  simp [Nat.shiftLeft_eq, Nat.mod_mul_mod]

/-- The test in the inner loop compares the bits that leave the two registers. -/
theorem and_highBit_ne_zero_iff (n crc : ℕ) :
  (n ^^^ crc) &&& 0x8000 ≠ 0
    ↔ ((BitVec.ofNat 16 crc).msb ^^ (BitVec.ofNat 16 n).msb) = true
  := by
  have hpow : (0x8000 : ℕ) = 2 ^ 15 := rfl
  rw [hpow, Nat.and_two_pow, Nat.testBit_xor, BitVec.msb_eq_getLsbD_last,
    BitVec.msb_eq_getLsbD_last]
  simp only [BitVec.getLsbD_ofNat]
  cases n.testBit 15 <;> cases crc.testBit 15 <;> simp

/-- A turn of the inner loop feeds the register one bit of `nData`. -/
theorem crcTurn_eq (genPoly : ℕ) (x : ℕ × ℕ) :
  BitVec.ofNat 16 (crcTurn genPoly x).1 = BitVec.ofNat 16 x.1 <<< 1
    ∧ BitVec.ofNat 16 (crcTurn genPoly x).2
      = feed (BitVec.ofNat 16 genPoly) (BitVec.ofNat 16 x.2) (BitVec.ofNat 16 x.1).msb
  := by
  constructor
  · apply ofNat_shiftLeft
  · rw [crcTurn, feed]
    by_cases hbit : (x.1 ^^^ x.2) &&& 0x8000 ≠ 0
    · rw [if_pos hbit, if_pos ((and_highBit_ne_zero_iff _ _).mp hbit), ← ofNat_shiftLeft,
        BitVec.ofNat_xor]
    · rw [if_neg hbit, if_neg (mt (and_highBit_ne_zero_iff _ _).mpr hbit), ofNat_shiftLeft]

theorem iterate_crcTurn (genPoly n : ℕ) (x : ℕ × ℕ) :
  BitVec.ofNat 16 ((crcTurn genPoly)^[n] x).2
    = remainder (BitVec.ofNat 16 genPoly) (BitVec.ofNat 16 x.2)
        (topBits n (BitVec.ofNat 16 x.1))
  := by
  induction n generalizing x with
  | zero => rfl
  | succ n ih =>
      obtain ⟨hdata, hcrc⟩ := crcTurn_eq genPoly x
      rw [Function.iterate_succ_apply, ih, hdata, hcrc, topBits, remainder_cons]

/-- An entry of the table is the remainder of its index. -/
theorem crcEntry_eq (genPoly : ℕ) (data : BitVec 8) :
  crcEntry genPoly data.toNat
    = (remainder (BitVec.ofNat 16 genPoly) 0#16 (topBits 8 data)).toNat
  := by
  have hdata : topBits 8 (BitVec.ofNat 16 (data.toNat <<< 8)) = topBits 8 data := by
    rw [← topBits_extractLsb' (by decide)]
    congr 1
    apply BitVec.eq_of_toNat_eq
    have hlt := data.isLt
    simp only [BitVec.extractLsb'_toNat, BitVec.toNat_ofNat, Nat.shiftLeft_eq,
      Nat.shiftRight_eq_div_pow]
    omega
  rw [crcEntry, and_mask_eq, iterate_crcTurn, hdata]

theorem getElem?_table (genPoly : ℕ) (data : BitVec 8) :
  (buildCRC16TableFor8813 genPoly)[data.toNat]?
    = some (remainder (BitVec.ofNat 16 genPoly) 0#16 (topBits 8 data)).toNat
  := by
  have hlt : data.toNat < crcTableSize := data.isLt
  rw [buildCRC16TableFor8813, List.getElem?_map, List.getElem?_range hlt, Option.map_some,
    crcEntry_eq]

/-! ### The message -/

section

variable (genPoly : ℕ)

/-- One byte by the table, and its eight bits. -/
theorem crcLookup_eq (dataCmpl : Bool) (crc : BitVec 16) (data : UInt8) :
  crcLookup (buildCRC16TableFor8813 genPoly) dataCmpl crc.toNat data
    = some (remainder (BitVec.ofNat 16 genPoly) crc
        (byteBits (if dataCmpl then ~~~data else data))).toNat
  := by
  rw [crcLookup]
  generalize (if dataCmpl then ~~~data else data) = data
  have hindex : (crc.toNat >>> 8) ^^^ data.toNat
      = (crc.extractLsb' 8 8 ^^^ data.toBitVec).toNat := by
    have hlt := crc.isLt
    rw [BitVec.toNat_xor, BitVec.extractLsb'_toNat, UInt8.toNat_toBitVec,
      Nat.mod_eq_of_lt (by rw [Nat.shiftRight_eq_div_pow]; omega)]
  have hshift : (crc.toNat <<< 8) &&& 0xFFFF = (crc <<< 8).toNat := by
    rw [and_mask_eq, ofNat_shiftLeft, BitVec.ofNat_toNat, BitVec.setWidth_eq]
  have hbits : difference (topBits 8 crc) (topBits 8 data.toBitVec)
      = topBits 8 (crc.extractLsb' 8 8 ^^^ data.toBitVec) := by
    rw [topBits_xor, ← topBits_extractLsb' (by decide) crc]
  rw [hindex, getElem?_table, Option.map_some, hshift, ← BitVec.toNat_xor,
    remainder_eq_shift_xor _ crc, byteBits, length_topBits, hbits]

theorem messageBits_cons (dataCmpl : Bool) (data : UInt8) (block : List UInt8) :
  messageBits dataCmpl (data :: block)
    = byteBits (if dataCmpl then ~~~data else data) ++ messageBits dataCmpl block
  := List.flatMap_cons

theorem blockCRC16With_toNat (dataCmpl : Bool) (block : List UInt8) (crc : BitVec 16) :
  blockCRC16With (buildCRC16TableFor8813 genPoly) block crc.toNat dataCmpl
    = some (remainder (BitVec.ofNat 16 genPoly) crc (messageBits dataCmpl block)).toNat
  := by
  induction block generalizing crc with
  | nil => rfl
  | cons data block ih =>
      rw [messageBits_cons, remainder_append, ← ih, blockCRC16With, List.foldlM_cons,
        crcLookup_eq]
      rfl

/-- For every generator polynomial and every seed of 16 bits, the table is only read inside
its 256 entries, and the result is the bit-at-a-time CRC of the message. -/
theorem blockCRC16With_eq {seed : ℕ} (hseed : seed < 2 ^ 16) (dataCmpl : Bool)
    (block : List UInt8) :
  (buildCRC16TableFor8813 genPoly).length = crcTableSize
    ∧ blockCRC16With (buildCRC16TableFor8813 genPoly) block seed dataCmpl
      = some (remainder (BitVec.ofNat 16 genPoly) (BitVec.ofNat 16 seed)
          (messageBits dataCmpl block)).toNat
  := by
  constructor
  · rw [buildCRC16TableFor8813, List.length_map, List.length_range]
  · rw [← blockCRC16With_toNat, BitVec.toNat_ofNat, Nat.mod_eq_of_lt hseed]

theorem blockCRC16With_letters :
  (buildCRC16TableFor8813 0x1021).length = crcTableSize
    ∧ blockCRC16With (buildCRC16TableFor8813 0x1021) [0x31, 0x32] 0xFFFF false
      = some (remainder (BitVec.ofNat 16 0x1021) (BitVec.ofNat 16 0xFFFF)
          (messageBits false [0x31, 0x32])).toNat
  := blockCRC16With_eq 0x1021 (by decide) false [0x31, 0x32]

end

/-! ### The CRC of the programs -/

/-- Where the table is not read past its end, `crcStep` is the step of the loop. -/
theorem crcStep_of_crcLookup {dataCmpl : Bool} {crc crc' : ℕ} {data : UInt8}
    (h : crcLookup crcTable dataCmpl crc data = some crc') :
  crcStep dataCmpl crc data = crc'
  := by
  obtain ⟨entry, hentry, rfl⟩ := Option.map_eq_some_iff.mp h
  simp only [crcStep, hentry, Option.getD_some]

theorem blockCRC16_of_with {dataCmpl : Bool} {block : List UInt8} {seed crc : ℕ}
    (h : blockCRC16With crcTable block seed dataCmpl = some crc) :
  blockCRC16TableFor8813 block seed dataCmpl = crc
  := by
  induction block generalizing seed with
  | nil => exact Option.some.inj h
  | cons data block ih =>
      rw [blockCRC16With, List.foldlM_cons] at h
      obtain ⟨seed', hstep, hrest⟩ := Option.bind_eq_some_iff.mp h
      have htail := ih hrest
      rw [← crcStep_of_crcLookup hstep] at htail
      apply htail

/-- The polynomial of the programs. -/
def crcPoly : BitVec 16 := BitVec.ofNat 16 crcGenPoly

theorem genCRC_eq (block : List UInt8) :
  genCRC block = (remainder crcPoly 0#16 (messageBits false block)).toNat
  := blockCRC16_of_with (blockCRC16With_eq crcGenPoly (by decide) false block).2

theorem length_messageBits (dataCmpl : Bool) (block : List UInt8) :
  (messageBits dataCmpl block).length = 8 * block.length
  := by
  induction block with
  | nil => rfl
  | cons data block ih =>
      rw [messageBits_cons, List.length_append, ih, byteBits, length_topBits, List.length_cons]
      omega

theorem messageBits_append (dataCmpl : Bool) (block block' : List UInt8) :
  messageBits dataCmpl (block ++ block')
    = messageBits dataCmpl block ++ messageBits dataCmpl block'
  := List.flatMap_append

/-- A message is determined by its bits. -/
theorem messageBits_injective {block block' : List UInt8}
    (hlen : block.length = block'.length)
    (h : messageBits false block = messageBits false block') :
  block = block'
  := by
  induction block generalizing block' with
  | nil => exact (List.eq_nil_of_length_eq_zero hlen.symm).symm
  | cons data block ih =>
      obtain ⟨data', block', rfl⟩ := List.exists_cons_of_length_eq_add_one hlen.symm
      rw [messageBits_cons, messageBits_cons] at h
      obtain ⟨hdata, hblock⟩ := List.append_inj h (by simp [byteBits])
      obtain rfl := ih (Nat.succ.inj hlen) hblock
      obtain rfl := UInt8.toBitVec_inj.mp (topBits_injective hdata)
      rfl

theorem bits_bigEndian16 (crc : BitVec 16) :
  messageBits false (bigEndian16 crc.toNat) = topBits 16 crc
  := by
  have hlow : (crc <<< 8).extractLsb' 8 8 = BitVec.ofNat 8 crc.toNat := by
    apply BitVec.eq_of_toNat_eq
    simp only [BitVec.extractLsb'_toNat, BitVec.toNat_shiftLeft, BitVec.toNat_ofNat,
      Nat.shiftLeft_eq, Nat.shiftRight_eq_div_pow]
    omega
  have hsplit : topBits 8 crc ++ topBits 8 (crc <<< 8) = topBits 16 crc := topBits_append 8 8 crc
  rw [← topBits_extractLsb' (by decide) crc, ← topBits_extractLsb' (by decide) (crc <<< 8),
    hlow] at hsplit
  rw [← hsplit, bigEndian16, messageBits_cons, messageBits_cons, messageBits, List.flatMap_nil,
    List.append_nil]
  rfl

/-- Two messages of one length that differ, but only in 16 consecutive bits, have different
values of `GenCRC`; and a message followed by its value, high byte first, has the value 0. -/
theorem genCRC_detects :
  (∀ (block block' : List UInt8) (i : ℕ), block.length = block'.length → block ≠ block' →
      (∀ j, j < i ∨ i + 16 ≤ j →
        (messageBits false block)[j]? = (messageBits false block')[j]?) →
      genCRC block ≠ genCRC block')
    ∧ ∀ block : List UInt8, genCRC (block ++ bigEndian16 (genCRC block)) = 0
  := by
  constructor
  · intro block block' i hlen hne hburst heq
    rw [genCRC_eq, genCRC_eq] at heq
    have hodd : crcPoly.getLsbD 0 = true := by decide
    apply remainder_ne_of_burst hodd 0#16 _ _ i hburst (BitVec.eq_of_toNat_eq heq)
    · rw [length_messageBits, length_messageBits, hlen]
    · intro hbits
      apply hne
      apply messageBits_injective hlen hbits
  · intro block
    rw [genCRC_eq, messageBits_append, genCRC_eq, remainder_append, bits_bigEndian16,
      remainder_topBits, BitVec.shiftLeft_eq_zero (by decide)]
    rfl

theorem genCRC_detects_bit :
  genCRC [0x01, 0x00] ≠ genCRC [0x00, 0x80]
  := genCRC_detects.1 [0x01, 0x00] [0x00, 0x80] 0 rfl (by decide) (by
    intro j hj
    rw [List.getElem?_eq_none, List.getElem?_eq_none]
    · rw [length_messageBits]
      simp
      omega
    · rw [length_messageBits]
      simp
      omega)

end Uart
