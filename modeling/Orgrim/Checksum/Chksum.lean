import Orgrim.SerialPort.Frame
import Orgrim.Theory.EndAround

/-!
# The Internet checksum

`chksum` of `tcp_checksum.c`, on the memory at `dataptr`; `SysUtil::CalcChecksum` has the same
body (`chksum_eq_calcChecksum`).  For a buffer of at most 65535 bytes the accumulator does not
overflow, two foldings make it a word, and the result is the complement of the sum of the
big-endian words with end-around carry (`chksum_correct`).
-/

namespace Checksum

open EndAround SerialPort

/-- The loop of `chksum`: `octetptr`, `len` and `acc` when it ends. -/
def chksumLoop (dataptr : Memory UInt8) : ℕ → ℕ → ℕ → ℕ × ℕ × ℕ
  | octetptr, len + 2, acc =>
      let src := ((dataptr octetptr).toNat <<< 8) ||| (dataptr (octetptr + 1)).toNat
      chksumLoop dataptr (octetptr + 2) len ((acc + src) % 2 ^ 32)
  | octetptr, len, acc => (octetptr, len, acc)

/-- `acc` when all bytes have been added. -/
def accumulate (dataptr : Memory UInt8) (len : ℕ) : ℕ :=
  let (octetptr, len, acc) := chksumLoop dataptr 0 len 0
  if len > 0 then (acc + ((dataptr octetptr).toNat <<< 8)) % 2 ^ 32 else acc

/-- The foldings of `acc`; the second is made only if there is something to fold. -/
def foldTwice (acc : ℕ) : ℕ :=
  let acc := foldWord acc
  if acc &&& 0xFFFF0000 ≠ 0 then foldWord acc else acc

/-- `chksum` -/
def chksum (dataptr : Memory UInt8) (len : ℕ) : ℕ :=
  (foldTwice (accumulate dataptr len) % 2 ^ 16) ^^^ 0xFFFF

/-- No addition to `acc` overflows its 32 bits, from the given values of `octetptr`, `len` and
`acc` on. -/
def NoOverflow (dataptr : Memory UInt8) : ℕ → ℕ → ℕ → Prop
  | octetptr, len + 2, acc =>
      let src := ((dataptr octetptr).toNat <<< 8) ||| (dataptr (octetptr + 1)).toNat
      acc + src < 2 ^ 32 ∧ NoOverflow dataptr (octetptr + 2) len ((acc + src) % 2 ^ 32)
  | octetptr, 1, acc => acc + ((dataptr octetptr).toNat <<< 8) < 2 ^ 32
  | _, 0, _ => True

/-! ### Words and foldings -/

/-- Two bytes put together are a big-endian word. -/
theorem shiftLeft_or (hi lo : UInt8) :
  (hi.toNat <<< 8) ||| lo.toNat = 2 ^ 8 * hi.toNat + lo.toNat
  := by
  rw [← Nat.shiftLeft_add_eq_or_of_lt lo.toNat_lt, Nat.shiftLeft_eq, Nat.mul_comm]

theorem shiftLeft_eight (hi : UInt8) :
  hi.toNat <<< 8 = 2 ^ 8 * hi.toNat
  := by
  rw [Nat.shiftLeft_eq, Nat.mul_comm]

theorem foldWord_eq_fold (acc : ℕ) :
  foldWord acc = fold (2 ^ 16) acc
  := by
  have hmask : acc &&& 0x0000FFFF = acc % 2 ^ 16 := Nat.and_two_pow_sub_one_eq_mod acc 16
  rw [foldWord, fold, hmask, Nat.shiftRight_eq_div_pow]

/-- Nothing above the word: then a number of 32 bits is a word. -/
theorem lt_of_and_eq_zero {acc : ℕ} (hacc : acc < 2 ^ 32) (h : acc &&& 0xFFFF0000 = 0) :
  acc < 2 ^ 16
  := by
  have hhigh : (acc >>> 16) &&& (2 ^ 16 - 1) = 0 := by
    have hshift := congrArg (· >>> 16) h
    simp only [Nat.shiftRight_and_distrib, Nat.zero_shiftRight] at hshift
    exact hshift
  rw [Nat.and_two_pow_sub_one_eq_mod, Nat.shiftRight_eq_div_pow] at hhigh
  omega

theorem fold_lt_two_pow {acc : ℕ} (hacc : acc < 2 ^ 32) :
  fold (2 ^ 16) acc < 2 ^ 32
  := by
  rw [fold]
  omega

/-- The second folding may as well be made always. -/
theorem foldTwice_eq {acc : ℕ} (hacc : acc < 2 ^ 32) :
  foldTwice acc = fold (2 ^ 16) (fold (2 ^ 16) acc)
  := by
  simp only [foldTwice, foldWord_eq_fold]
  split
  · rfl
  · rename_i h
    exact (fold_of_lt (lt_of_and_eq_zero (fold_lt_two_pow hacc) (not_not.mp h))).symm

theorem foldTwice_eq_residue {acc : ℕ} (hacc : acc < 2 ^ 32) :
  foldTwice acc = residue (2 ^ 16) acc
  := by
  rw [foldTwice_eq hacc]
  apply fold_fold_eq_residue (by decide)
  exact hacc

/-- The complement of a word. -/
theorem xor_eq_sub {x : ℕ} (hx : x < 2 ^ 16) :
  x ^^^ 0xFFFF = 2 ^ 16 - 1 - x
  := by
  have hnot : (BitVec.ofNat 16 x ^^^ BitVec.allOnes 16).toNat = 2 ^ 16 - 1 - x := by
    rw [BitVec.xor_allOnes, BitVec.toNat_not, BitVec.toNat_ofNat, Nat.mod_eq_of_lt hx]
  rw [← hnot, BitVec.toNat_xor, BitVec.toNat_ofNat, Nat.mod_eq_of_lt hx]
  rfl

/-! ### The sum -/

/-- A buffer of at most 65535 bytes has a sum of 32 bits. -/
theorem sum_lt {octets : List UInt8} (h : octets.length ≤ 65535) :
  (bigEndianWords octets).sum < 2 ^ 32
  := by
  have hle := sum_bigEndianWords_le octets
  omega

/-- Without an overflow the loop adds up the words exactly. -/
theorem sumWords_eq {octets : List UInt8} {acc : ℕ}
    (h : acc + (bigEndianWords octets).sum < 2 ^ 32) :
  sumWords octets acc = acc + (bigEndianWords octets).sum
  := by
  induction octets using bigEndianWords.induct generalizing acc with
  | case1 hi lo octets ih =>
      simp only [bigEndianWords, List.sum_cons] at h ⊢
      rw [sumWords, shiftLeft_or, Nat.mod_eq_of_lt (by omega), ih (by omega)]
      omega
  | case2 hi =>
      simp only [bigEndianWords, List.sum_cons, List.sum_nil, Nat.add_zero] at h ⊢
      rw [sumWords, shiftLeft_eight, Nat.mod_eq_of_lt h]
  | case3 => rfl

/-- The loop of `chksum` and what follows it add up what `sumWords` does. -/
theorem chksumLoop_eq (dataptr : Memory UInt8) (octetptr len acc : ℕ) :
  (let (octetptr, len, acc) := chksumLoop dataptr octetptr len acc
    if len > 0 then (acc + ((dataptr octetptr).toNat <<< 8)) % 2 ^ 32 else acc)
    = sumWords (dataptr.slice octetptr len) acc
  := by
  induction octetptr, len, acc using chksumLoop.induct dataptr with
  | case1 octetptr len acc src ih =>
      rw [Memory.slice_succ, Memory.slice_succ, sumWords]
      exact ih
  | case2 octetptr len acc hlen =>
      obtain _ | _ | len := len
      · rfl
      · rfl
      · exact absurd rfl (hlen len)

theorem accumulate_eq_sumWords (dataptr : Memory UInt8) (len : ℕ) :
  accumulate dataptr len = sumWords (dataptr.slice 0 len) 0
  := chksumLoop_eq dataptr 0 len 0

/-- `chksum` and `SysUtil::CalcChecksum` are the same function. -/
theorem chksum_eq_calcChecksum (dataptr : Memory UInt8) (len : ℕ) :
  chksum dataptr len = calcChecksum (dataptr.slice 0 len)
  := by
  rw [chksum, foldTwice, accumulate_eq_sumWords]
  rfl

theorem accumulate_eq (dataptr : Memory UInt8) {len : ℕ} (hlen : len ≤ 65535) :
  accumulate dataptr len = (bigEndianWords (dataptr.slice 0 len)).sum
  := by
  have hlength : (dataptr.slice 0 len).length ≤ 65535 := by
    rw [Memory.length_slice]
    exact hlen
  have hsum := sum_lt hlength
  rw [accumulate_eq_sumWords, sumWords_eq (by omega), Nat.zero_add]

/-- The words that are left to add fit into the accumulator: then none of them overflows it. -/
theorem noOverflow_of_sum_lt {dataptr : Memory UInt8} {octetptr len acc : ℕ}
    (h : acc + (bigEndianWords (dataptr.slice octetptr len)).sum < 2 ^ 32) :
  NoOverflow dataptr octetptr len acc
  := by
  induction octetptr, len, acc using NoOverflow.induct dataptr with
  | case1 octetptr len acc src ih =>
      have htwo : octetptr + 1 + 1 = octetptr + 2 := rfl
      simp only [Memory.slice_succ, bigEndianWords, List.sum_cons, htwo] at h
      simp only [src, shiftLeft_or] at ih
      rw [NoOverflow, shiftLeft_or]
      have hadd : acc + (2 ^ 8 * (dataptr octetptr).toNat + (dataptr (octetptr + 1)).toNat)
          < 2 ^ 32 := by
        omega
      use hadd
      apply ih
      rw [Nat.mod_eq_of_lt hadd]
      omega
  | case2 octetptr acc =>
      simp only [Memory.slice_succ, Memory.slice_zero, bigEndianWords, List.sum_cons,
        List.sum_nil] at h
      rw [NoOverflow, shiftLeft_eight]
      exact h
  | case3 octetptr acc => exact trivial

/-- `SysUtil::CalcChecksum` is the complement of the residue of the sum. -/
theorem calcChecksum_eq {octets : List UInt8} (h : octets.length ≤ 65535) :
  calcChecksum octets = 2 ^ 16 - 1 - residue (2 ^ 16) (bigEndianWords octets).sum
  := by
  have hsum := sum_lt h
  have hfold : calcChecksum octets = (foldTwice (sumWords octets 0) % 2 ^ 16) ^^^ 0xFFFF := rfl
  have hword := residue_lt (B := 2 ^ 16) (by decide) (bigEndianWords octets).sum
  rw [hfold, sumWords_eq (by omega), Nat.zero_add, foldTwice_eq_residue hsum,
    Nat.mod_eq_of_lt hword, xor_eq_sub hword]

/-- Another byte gives another checksum. -/
theorem calcChecksum_ne {pre post : List UInt8} {a b : UInt8}
    (hlen : (pre ++ a :: post).length ≤ 65535) (hne : a ≠ b) :
  calcChecksum (pre ++ a :: post) ≠ calcChecksum (pre ++ b :: post)
  := by
  intro heq
  have hlen' : (pre ++ b :: post).length ≤ 65535 := by
    simpa using hlen
  have hlta := residue_lt (B := 2 ^ 16) (by decide) (bigEndianWords (pre ++ a :: post)).sum
  have hltb := residue_lt (B := 2 ^ 16) (by decide) (bigEndianWords (pre ++ b :: post)).sum
  rw [calcChecksum_eq hlen, calcChecksum_eq hlen'] at heq
  have hmod := modEq_of_residue_eq (B := 2 ^ 16) (m := (bigEndianWords (pre ++ a :: post)).sum)
    (n := (bigEndianWords (pre ++ b :: post)).sum) (by omega)
  rw [sum_bigEndianWords pre post a, sum_bigEndianWords pre post b] at hmod
  have hbyte := Nat.ModEq.add_left_cancel' _ hmod
  have ha := a.toNat_lt
  have hb := b.toNat_lt
  apply hne
  apply UInt8.toNat_inj.mp
  unfold weight at hbyte
  split at hbyte
  · have hmul := hbyte.eq_of_lt_of_lt (by omega) (by omega)
    omega
  · have hmul := hbyte.eq_of_lt_of_lt (by omega) (by omega)
    omega

/-! ### The checksum field -/

/-- The two bytes of a number, high byte first. -/
def bigEndian16 (v : ℕ) : List UInt8 := [UInt8.ofNat (v >>> 8), UInt8.ofNat v]

/-- A number stored big-endian in a field of zeros at an even offset is added to the sum. -/
theorem sum_field (pre post : List UInt8) (heven : pre.length % 2 = 0) {v : ℕ}
    (hv : v < 2 ^ 16) :
  (bigEndianWords (pre ++ (bigEndian16 v ++ post))).sum
    = (bigEndianWords (pre ++ 0 :: 0 :: post)).sum + v
  := by
  have hhigh := sum_bigEndianWords pre (UInt8.ofNat v :: post) (UInt8.ofNat (v >>> 8))
  have hlow := sum_bigEndianWords (pre ++ [0]) post (UInt8.ofNat v)
  simp only [List.append_assoc, List.cons_append, List.nil_append] at hlow
  simp only [bigEndian16, List.cons_append, List.nil_append]
  rw [hhigh, hlow, List.length_append, weight, weight, if_pos heven, if_neg (by simp; omega)]
  simp only [UInt8.toNat_ofNat', Nat.shiftRight_eq_div_pow]
  omega

theorem slice_field (m : Memory UInt8) {off len : ℕ} (hoff : off + 1 < len) :
  m.slice 0 len
    = m.slice 0 off ++ m off :: m (off + 1) :: m.slice (off + 2) (len - (off + 2))
  := by
  obtain ⟨k, rfl⟩ := Nat.exists_eq_add_of_lt hoff
  rw [Memory.slice_split m (i := off) (by omega)]
  have hrest : off + 1 + k + 1 - (off + 1) = (off + 1 + k + 1 - (off + 2)) + 1 := by
    omega
  rw [hrest, Memory.slice_succ]

/-- The buffer with the field stored. -/
theorem slice_write_field (m : Memory UInt8) {off len v : ℕ} (hoff : off + 1 < len) :
  (m.write off (bigEndian16 v)).slice 0 len
    = m.slice 0 off ++ (bigEndian16 v ++ m.slice (off + 2) (len - (off + 2)))
  := by
  have hlow : m.write off (bigEndian16 v) (off + 1) = UInt8.ofNat v :=
    Memory.write_apply_add m (bigEndian16 v) off (i := 1) Nat.one_lt_two
  rw [slice_field _ hoff, Memory.slice_write_of_le _ _ (Nat.zero_add off).le,
    Memory.slice_write_of_ge _ _ (by rfl), hlow, bigEndian16, Memory.write_cons_self]
  rfl

/-- With its checksum stored big-endian in a field of zeros at an even offset, a buffer has the
checksum 0. -/
theorem chksum_write {m : Memory UInt8} {len off : ℕ} (hlen : len ≤ 65535)
    (heven : off % 2 = 0) (hoff : off + 1 < len) (hhi : m off = 0) (hlo : m (off + 1) = 0) :
  chksum (m.write off (bigEndian16 (chksum m len))) len = 0
  := by
  have hlength : (m.slice 0 len).length ≤ 65535 := by
    rw [Memory.length_slice]
    exact hlen
  have hword := calcChecksum_eq hlength
  rw [← chksum_eq_calcChecksum] at hword
  have hsum := sum_field (m.slice 0 off) (m.slice (off + 2) (len - (off + 2)))
    (by simpa using heven) (v := chksum m len) (by omega)
  have hzero := slice_field m hoff
  rw [hhi, hlo] at hzero
  rw [← slice_write_field m hoff, ← hzero, hword] at hsum
  rw [chksum_eq_calcChecksum, calcChecksum_eq (by simpa using hlen), hword, hsum,
    residue_add_complement (by decide), Nat.sub_self]

/-! ### The checksum of a buffer -/

/-- For every buffer of at most 65535 bytes, `chksum` and `CalcChecksum` return the complement of
the ones'-complement sum of its big-endian words; no addition overflows, and two foldings make the
sum a word.  Stored in a field of zeros at an even offset, the result makes the checksum 0. -/
theorem chksum_correct (dataptr : Memory UInt8) {len : ℕ} (hlen : len ≤ 65535) :
  chksum dataptr len
      = 0xFFFF - EndAround.sum (2 ^ 16) (bigEndianWords (dataptr.slice 0 len)) ∧
    calcChecksum (dataptr.slice 0 len)
      = 0xFFFF - EndAround.sum (2 ^ 16) (bigEndianWords (dataptr.slice 0 len)) ∧
    NoOverflow dataptr 0 len 0 ∧ foldTwice (accumulate dataptr len) < 2 ^ 16 ∧
    ∀ off, off % 2 = 0 → off + 1 < len → dataptr off = 0 → dataptr (off + 1) = 0 →
      chksum (dataptr.write off (bigEndian16 (chksum dataptr len))) len = 0
  := by
  have hoctets : (dataptr.slice 0 len).length ≤ 65535 := by
    simpa using hlen
  have hsum := sum_lt hoctets
  have hcalc := calcChecksum_eq hoctets
  rw [← sum_eq_residue (by decide) bigEndianWords_lt] at hcalc
  refine ⟨?_, hcalc, ?_, ?_, ?_⟩
  · rw [chksum_eq_calcChecksum]
    exact hcalc
  · apply noOverflow_of_sum_lt
    omega
  · rw [accumulate_eq dataptr hlen, foldTwice_eq_residue hsum]
    apply residue_lt (by decide)
  · intro off heven hoff hhi hlo
    apply chksum_write hlen heven hoff hhi hlo

/-- A buffer with a field of zeros at its start. -/
def withField : Memory UInt8 := Memory.write (fun _ => 0) 2 [0xFF, 0xFE, 0x80]

/-- The checksum of five bytes stored at the start of them. -/
theorem chksum_correct_five :
  chksum (withField.write 0 (bigEndian16 (chksum withField 5))) 5 = 0
  := (@chksum_correct withField 5 (by decide)).2.2.2.2 0 rfl (by decide) rfl rfl

end Checksum
