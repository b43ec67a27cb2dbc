import Orgrim.Checksum.Chksum

/-!
# The checksum of the ping messages

`Compute_cksum` of `ping.c` on a little-endian host: it adds up the words as the host reads them
and folds the sum for as long as there is something to fold.  Of a buffer of even length it
stores the same two bytes as `chksum`, which adds up big-endian words, folds twice and is stored
big-endian.
-/

namespace Ping

open EndAround

/-- `ICMP_LEN` -/
def icmpLen : ℕ := 56 + 8

/-- `*data`: the word at the offset `data`. -/
def word (pIcmp : Memory UInt8) (data : ℕ) : ℕ :=
  (pIcmp data).toNat + 2 ^ 8 * (pIcmp (data + 1)).toNat

/-- The loop that adds up the words: `data`, `len` and `sum` when it ends. -/
def wordLoop (pIcmp : Memory UInt8) : ℕ → ℕ → ℕ → ℕ × ℕ × ℕ
  | data, len + 2, sum => wordLoop pIcmp (data + 2) len ((sum + word pIcmp data) % 2 ^ 32)
  | data, len, sum => (data, len, sum)

/-- `sum` when all words have been added. -/
def wordSum (pIcmp : Memory UInt8) (len : ℕ) : ℕ :=
  let (data, len, sum) := wordLoop pIcmp 0 len 0
  if len = 1 then (sum + (word pIcmp data &&& 0xff00)) % 2 ^ 32 else sum

/-- One round of the loop that adds the carries. -/
def carry (sum : ℕ) : ℕ := (sum >>> 16) + (sum &&& 0x0000ffff)

theorem carry_eq_fold (sum : ℕ) :
  carry sum = fold (2 ^ 16) sum
  := Checksum.foldWord_eq_fold sum

theorem shiftRight_eq_zero {sum : ℕ} :
  sum >>> 16 = 0 ↔ sum < 2 ^ 16
  := by
  rw [Nat.shiftRight_eq_div_pow]
  omega

/-- The loop `while (sum >> 16)`. -/
def carryLoop (sum : ℕ) : ℕ := if sum >>> 16 ≠ 0 then carryLoop (carry sum) else sum
termination_by sum
decreasing_by
  rename_i h
  rw [carry_eq_fold]
  apply fold_lt (by decide)
  rw [ne_eq, shiftRight_eq_zero] at h
  apply Nat.le_of_not_lt h

/-- `Compute_cksum`, for a message of `len` bytes. -/
def computeCksumOf (pIcmp : Memory UInt8) (len : ℕ) : ℕ :=
  (2 ^ 32 - 1 - carryLoop (wordSum pIcmp len)) % 2 ^ 16

/-- `Compute_cksum` -/
def computeCksum (pIcmp : Memory UInt8) : ℕ := computeCksumOf pIcmp icmpLen

/-- The two bytes of a number as a little-endian host stores it. -/
def littleEndian16 (v : ℕ) : List UInt8 := [UInt8.ofNat v, UInt8.ofNat (v >>> 8)]

/-! ### The loop that adds the carries -/

/-- The loop makes `k` rounds and leaves what they have made of the sum. -/
def Rounds (sum k : ℕ) : Prop :=
  carryLoop sum = carry^[k] sum ∧ carry^[k] sum >>> 16 = 0 ∧
    ∀ j < k, carry^[j] sum >>> 16 ≠ 0

theorem carryLoop_eq_iterate {sum k : ℕ} (hlast : carry^[k] sum >>> 16 = 0)
    (hbefore : ∀ j < k, carry^[j] sum >>> 16 ≠ 0) :
  carryLoop sum = carry^[k] sum
  := by
  induction k generalizing sum with
  | zero =>
      rw [Function.iterate_zero_apply] at hlast
      rw [carryLoop, if_neg (not_not.mpr hlast)]
      rfl
  | succ k ih =>
      have hfirst : sum >>> 16 ≠ 0 := hbefore 0 (Nat.succ_pos k)
      rw [Function.iterate_succ_apply] at hlast
      rw [carryLoop, if_pos hfirst, Function.iterate_succ_apply]
      apply ih hlast
      intro j hj
      rw [← Function.iterate_succ_apply]
      apply hbefore
      omega

/-- The loop ends after some rounds, whatever the sum is. -/
theorem exists_rounds (sum : ℕ) :
  ∃ k, Rounds sum k
  := by
  have hcarry : carry = fold (2 ^ 16) := by
    funext n
    apply carry_eq_fold n
  obtain ⟨k, hk, hbefore⟩ := exists_fold_iterate (B := 2 ^ 16) (by decide) sum
  rw [← hcarry] at hk hbefore
  have hlast : carry^[k] sum >>> 16 = 0 := by
    rw [hk, shiftRight_eq_zero]
    apply residue_lt (by decide) sum
  have hrounds : ∀ j < k, carry^[j] sum >>> 16 ≠ 0 := by
    intro j hj
    rw [ne_eq, shiftRight_eq_zero]
    apply Nat.not_lt.mpr (hbefore j hj)
  exact ⟨k, carryLoop_eq_iterate hlast hrounds, hlast, hrounds⟩

/-- The loop computes the residue. -/
theorem carryLoop_eq_residue (sum : ℕ) :
  carryLoop sum = residue (2 ^ 16) sum
  := by
  induction sum using carryLoop.induct with
  | case1 sum h ih =>
      rw [carryLoop, if_pos h, ih, carry_eq_fold, residue_fold (by decide)]
  | case2 sum h =>
      rw [carryLoop, if_neg h]
      exact (residue_of_lt (by decide) (shiftRight_eq_zero.mp (not_not.mp h))).symm

/-! ### The sum -/

/-- A word as the host reads it has the bytes of the big-endian one in the other order. -/
theorem word_eq_swap (pIcmp : Memory UInt8) (data : ℕ) :
  word pIcmp data
    = swap (2 ^ 8) (2 ^ 8 * (pIcmp data).toNat + (pIcmp (data + 1)).toNat)
  := by
  have hhi := (pIcmp data).toNat_lt
  have hlo := (pIcmp (data + 1)).toNat_lt
  rw [word, swap]
  omega

/-- Without an overflow the loop adds up the words exactly. -/
theorem wordLoop_eq {pIcmp : Memory UInt8} {data len sum : ℕ} (heven : len % 2 = 0)
    (hsum : sum + (2 ^ 16 - 1) * (len / 2) < 2 ^ 32) :
  wordLoop pIcmp data len sum
    = (data + len, 0,
        sum + ((bigEndianWords (pIcmp.slice data len)).map (swap (2 ^ 8))).sum)
  := by
  induction data, len, sum using wordLoop.induct pIcmp with
  | case1 data len sum ih =>
      have hhi := (pIcmp data).toNat_lt
      have hlo := (pIcmp (data + 1)).toNat_lt
      have hword : word pIcmp data < 2 ^ 16 := by
        rw [word]
        omega
      have hmod : (sum + word pIcmp data) % 2 ^ 32 = sum + word pIcmp data := by
        apply Nat.mod_eq_of_lt
        omega
      rw [hmod] at ih
      rw [wordLoop, hmod, ih (by omega) (by omega), Memory.slice_succ, Memory.slice_succ,
        bigEndianWords, List.map_cons, List.sum_cons, ← word_eq_swap, Nat.add_assoc data 2 len,
        Nat.add_comm 2 len, Nat.add_assoc sum]
  | case2 data len sum hlen =>
      obtain _ | _ | len := len
      · rfl
      · cases heven
      · exact absurd rfl (hlen len)

/-- The sum of a buffer of even length is the sum of its big-endian words with their bytes
exchanged. -/
theorem wordSum_eq (pIcmp : Memory UInt8) {len : ℕ} (heven : len % 2 = 0)
    (hlen : len ≤ 65534) :
  wordSum pIcmp len = ((bigEndianWords (pIcmp.slice 0 len)).map (swap (2 ^ 8))).sum
  := by
  rw [wordSum, wordLoop_eq heven (by omega)]
  simp only [Nat.zero_ne_one, if_false, Nat.zero_add]

/-- Both results, in terms of the sum of the big-endian words. -/
theorem computeCksumOf_eq (pIcmp : Memory UInt8) {len : ℕ} (heven : len % 2 = 0)
    (hlen : len ≤ 65534) :
  computeCksumOf pIcmp len
    = 2 ^ 16 - 1 - swap (2 ^ 8) (residue (2 ^ 16) (bigEndianWords (pIcmp.slice 0 len)).sum)
  := by
  have hswap := residue_swap (C := 2 ^ 8) (by decide) (bigEndianWords (pIcmp.slice 0 len))
  have hlt := residue_lt (B := 2 ^ 16) (by decide) (wordSum pIcmp len)
  rw [← wordSum_eq pIcmp heven hlen] at hswap
  have hbase : 2 ^ 8 * 2 ^ 8 = 2 ^ 16 := by decide
  rw [hbase] at hswap
  rw [computeCksumOf, carryLoop_eq_residue, ← hswap]
  omega

/-- A number of two bytes is stored in one order as the one with the bytes exchanged is in the
other. -/
theorem littleEndian16_eq {p q : ℕ} (hp : p < 2 ^ 8) (hq : q < 2 ^ 8) :
  littleEndian16 (2 ^ 8 * p + q) = Checksum.bigEndian16 (2 ^ 8 * q + p)
  := by
  have hdiv : ∀ {a b : ℕ}, b < 2 ^ 8 → (2 ^ 8 * a + b) >>> 8 = a := by
    intro a b hb
    rw [Nat.shiftRight_eq_div_pow]
    omega
  have hbyte : ∀ a b : ℕ, UInt8.ofNat (2 ^ 8 * a + b) = UInt8.ofNat b := by
    intro a b
    apply UInt8.toNat_inj.mp
    rw [UInt8.toNat_ofNat', UInt8.toNat_ofNat', Nat.mul_add_mod]
  rw [littleEndian16, Checksum.bigEndian16, hdiv hq, hdiv hp, hbyte, hbyte]

/-- A word and the one with its bytes exchanged have complements whose bytes are exchanged. -/
theorem littleEndian16_complement {x : ℕ} (hx : x < 2 ^ 16) :
  littleEndian16 (2 ^ 16 - 1 - swap (2 ^ 8) x) = Checksum.bigEndian16 (2 ^ 16 - 1 - x)
  := by
  have hmod : x % 2 ^ 8 < 2 ^ 8 := Nat.mod_lt x (by decide)
  have hswap : 2 ^ 16 - 1 - swap (2 ^ 8) x
      = 2 ^ 8 * (2 ^ 8 - 1 - x % 2 ^ 8) + (2 ^ 8 - 1 - x / 2 ^ 8) := by
    rw [swap]
    omega
  have hword : 2 ^ 16 - 1 - x
      = 2 ^ 8 * (2 ^ 8 - 1 - x / 2 ^ 8) + (2 ^ 8 - 1 - x % 2 ^ 8) := by
    omega
  rw [hswap, hword]
  apply littleEndian16_eq
  · omega
  · omega

/-- For every buffer of even length up to 65534 bytes, the result of `Compute_cksum` stored by the
little-endian host and the result of `chksum` stored big-endian are the same two bytes; and the
loop that adds the carries comes to its end. -/
theorem computeCksum_eq_chksum (pIcmp : Memory UInt8) {len : ℕ} (heven : len % 2 = 0)
    (hlen : len ≤ 65534) :
  littleEndian16 (computeCksumOf pIcmp len)
      = Checksum.bigEndian16 (Checksum.chksum pIcmp len) ∧
    ∃ k, Rounds (wordSum pIcmp len) k
  := by
  have hlt := residue_lt (B := 2 ^ 16) (by decide) (bigEndianWords (pIcmp.slice 0 len)).sum
  constructor
  · rw [computeCksumOf_eq pIcmp heven hlen, littleEndian16_complement hlt,
      Checksum.chksum_eq_calcChecksum, Checksum.calcChecksum_eq (by simp; omega)]
  · apply exists_rounds

/-- The message of the program, with the length it has there. -/
theorem computeCksum_eq_chksum_icmp :
  littleEndian16 (computeCksum (fun i => UInt8.ofNat i))
    = Checksum.bigEndian16 (Checksum.chksum (fun i => UInt8.ofNat i) icmpLen)
  := (@computeCksum_eq_chksum (fun i => UInt8.ofNat i) icmpLen (by decide) (by decide)).1

end Ping
