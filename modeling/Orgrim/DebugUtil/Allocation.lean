import Orgrim.DebugUtil.HexCodec
import Orgrim.Theory.Buffer

/-!
# The allocation of hexadecimal strings

`BinToHexString` asks for `3 * n - 1` bytes and prints into them with `snprintf`, which stores a
null character behind what it prints.  All iterations of the loop but the last one stay inside
(`foldlM_printByteIn`); the last null character does not (`not_writesInside`).  With one byte more
the text is the one of `binToHexString` (`binToHexStringIn_one`).
-/

namespace DebugUtil

/-! ### The source -/

/-- One iteration of the loop of `BinToHexString`, on `iOffset` and the memory that `new`
provides. -/
def printByteIn (pData : List UInt8) (state : ℕ × Buffer UInt8) (i : ℕ) :
    Option (ℕ × Buffer UInt8) := do
  let (iOffset, pOutData) ←
    if 0 < state.1 then do
      let pOutData ← state.2.snprintf state.1 2 [32]
      some (state.1 + 1, pOutData)
    else some state
  let pOutData ← pOutData.snprintf iOffset 3 (Hex.digits (pData.getD i 0))
  some (iOffset + 2, pOutData)

/-- `BinToHexString`, without a result where it stores outside of the memory it asked for and the
spare bytes behind it. -/
def binToHexStringIn (spare : ℕ) (fresh : Memory UInt8) (pData : List UInt8) :
    Option (Option (Buffer UInt8)) :=
  let iDataLen := toInt pData.length
  if iDataLen ≤ 0 then some none
  else if 2 ^ 31 ≤ iDataLen * 3 then none
  else do
    let out ← (List.range iDataLen.toNat).foldlM (printByteIn pData)
      (0, ⟨fresh, (iDataLen * 3 - 1).toNat + spare⟩)
    some (some out.2)

/-- Every byte that `BinToHexString` writes has an index below `*pOutDataLen`. -/
def WritesInside (fresh : Memory UInt8) (pData : List UInt8) : Prop :=
  (binToHexStringIn 0 fresh pData).isSome

instance (fresh : Memory UInt8) (pData : List UInt8) : Decidable (WritesInside fresh pData) :=
  inferInstanceAs (Decidable (_ = true))

section

variable {fresh : Memory UInt8} {pData : List UInt8}

/-! ### The loop -/

/-- An iteration writes three bytes behind the blank, if there is room. -/
theorem printByteIn_eq (off size i : ℕ) (m : Memory UInt8) :
  printByteIn pData (off, ⟨m, size⟩) i =
    if (if 0 < off then off + 1 else off) + 3 ≤ size then
      some ((printByte pData (off, m) i).1, ⟨(printByte pData (off, m) i).2, size⟩)
    else none
  := by
  have hdigits : (Hex.digits (pData.getD i 0)).length < 3 := Nat.lt_succ_self 2
  have hone : ([32] : List UInt8).length < 2 := Nat.lt_succ_self 1
  have hthree : (Hex.digits (pData.getD i 0) ++ [0]).length = 3 := rfl
  by_cases hoff : 0 < off
  · simp only [printByteIn, printByte, if_pos hoff, Buffer.snprintf_eq_store hone,
      Buffer.snprintf_eq_store hdigits, Buffer.store, hthree, snprintf, Option.bind_eq_bind]
    by_cases hroom : off + 1 + 3 ≤ size
    · have hblank : off + ([32] ++ [0] : List UInt8).length ≤ size := by
        simp only [List.length_append, List.length_cons, List.length_nil]
        omega
      simp only [if_pos hblank, if_pos hroom, Option.bind_some]
    · split
      · simp only [Option.bind_some, if_neg hroom, Option.bind_none]
      · rfl
  · simp only [printByteIn, printByte, if_neg hoff, Buffer.snprintf_eq_store hdigits,
      Buffer.store, hthree, snprintf, Option.bind_eq_bind, Option.bind_some]
    split
    · rfl
    · rfl

/-- Where the loop prints. -/
theorem printByte_offset (k : ℕ) :
  ((List.range k).foldl (printByte pData) (0, fresh)).1 = 3 * k - 1
  := by
  induction k with
  | zero => rfl
  | succ k ih =>
      rw [List.range_succ, List.foldl_append, List.foldl_cons, List.foldl_nil, printByte]
      simp only [ih]
      split
      · omega
      · omega

/-- The first `k` iterations take `3 * k` bytes, with the last null character. -/
theorem foldlM_printByteIn (size k : ℕ) :
  (List.range k).foldlM (printByteIn pData) (0, ⟨fresh, size⟩) =
    if k = 0 ∨ 3 * k ≤ size then
      some (3 * k - 1, ⟨((List.range k).foldl (printByte pData) (0, fresh)).2, size⟩)
    else none
  := by
  induction k with
  | zero => rfl
  | succ k ih =>
      have hoff : ((List.range k).foldl (printByte pData) (0, fresh)).1 = 3 * k - 1 :=
        printByte_offset k
      have hoff' : ((List.range (k + 1)).foldl (printByte pData) (0, fresh)).1
          = 3 * (k + 1) - 1 := printByte_offset (k + 1)
      rw [List.range_succ, List.foldl_append, List.foldl_cons, List.foldl_nil] at hoff'
      rw [List.range_succ, List.foldlM_append, ih, List.foldl_append, List.foldl_cons,
        List.foldl_nil]
      generalize (List.range k).foldl (printByte pData) (0, fresh) = out at hoff hoff' ⊢
      obtain ⟨off, m⟩ := out
      dsimp only at hoff
      subst hoff
      by_cases hroom : k = 0 ∨ 3 * k ≤ size
      · have hiff : (if 0 < 3 * k - 1 then 3 * k - 1 + 1 else 3 * k - 1) + 3 ≤ size ↔
            k + 1 = 0 ∨ 3 * (k + 1) ≤ size := by
          split
          · omega
          · omega
        simp only [if_pos hroom, List.foldlM_cons, List.foldlM_nil, Option.bind_eq_bind,
          Option.bind_some, printByteIn_eq, hiff, hoff']
        apply Option.bind_fun_some
      · have hnot : ¬ (k + 1 = 0 ∨ 3 * (k + 1) ≤ size) := by omega
        simp only [if_neg hroom, if_neg hnot, Option.bind_eq_bind, Option.bind_none]

/-- One spare byte is enough, and the text is that of `binToHexString`. -/
theorem binToHexStringIn_one (fresh : Memory UInt8) (pData : List UInt8) :
  binToHexStringIn 1 fresh pData =
    (binToHexString fresh pData).map
      (fun out => out.map (fun out => ⟨out.pOutData, out.pOutDataLen + 1⟩))
  := by
  rw [binToHexStringIn, binToHexString]
  by_cases hempty : toInt pData.length ≤ 0
  · rw [if_pos hempty, if_pos hempty]
    rfl
  · rw [if_neg hempty, if_neg hempty]
    by_cases hlarge : 2 ^ 31 ≤ toInt pData.length * 3
    · rw [if_pos hlarge, if_pos hlarge]
      rfl
    · have hroom : (toInt pData.length).toNat = 0 ∨
          3 * (toInt pData.length).toNat ≤ (toInt pData.length * 3 - 1).toNat + 1 := by
        omega
      rw [if_neg hlarge, if_neg hlarge, foldlM_printByteIn, if_pos hroom]
      rfl

/-- `BinToHexString` writes past the memory it asked for, whatever it prints. -/
theorem not_writesInside (hne : pData ≠ []) (hlength : pData.length < 2 ^ 31)
    (fresh : Memory UInt8) :
  ¬ WritesInside fresh pData
  := by
  have hn := toInt_of_lt hlength
  have hpos := List.length_pos_of_ne_nil hne
  rw [WritesInside, binToHexStringIn, hn, if_neg (by omega)]
  split
  · simp
  · rw [foldlM_printByteIn, if_neg (by omega)]
    simp

end

/-- Two bytes need six bytes of memory and get five. -/
theorem not_writesInside_two :
  ¬ WritesInside (fun _ => 0) [65, 66]
  := not_writesInside (by decide) (by decide) _

/-- `41` and a null character do not fit into two bytes. -/
theorem not_writesInside_one :
  ¬ WritesInside (fun _ => 0) [65]
  := by
  decide

end DebugUtil
