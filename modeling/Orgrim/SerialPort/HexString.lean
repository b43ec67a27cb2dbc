import Mathlib.Tactic.Common
import Orgrim.Theory.Memory

/-!
# Printing bytes as a hexadecimal string

`PrintAsHexString` builds one line in the fixed array `arrBuff`: a prefix with the time and
a label, two digits and a blank for each byte, and a suffix.  Nothing in it looks at the size
of `arrBuff`; `printSafe_iff` says which lengths it can be called with.
-/

namespace SerialPort

/-- The argument `type` of `PrintAsHexString`: 0, 1, 2 and 3. -/
inductive PrintType where
  | send
  | recv
  | sendErr
  | recvErr
deriving DecidableEq

/-- `pLabel` -/
def PrintType.label : PrintType → List Char
  | .send => "Send".toList
  | .recv => "Recv".toList
  | .sendErr => "SendErr".toList
  | .recvErr => "RecvErr".toList

/-- `color`: `KMAGENTA`, `KCYAN` and `KRED` -/
def PrintType.color : PrintType → List Char
  | .send => "\x1B[0;35m".toList
  | .recv => "\x1B[0;36m".toList
  | .sendErr => "\x1B[0;31m".toList
  | .recvErr => "\x1B[0;31m".toList

/-- `KRESET` -/
def reset : List Char := "\x1B[0m".toList

/-- `sizeof(arrBuff)` -/
def arrBuffSize : ℕ := 4096 * 2

/-- The characters a call of `snprintf` stores, and where. -/
structure StringWrite where
  offset : ℕ
  chars : List Char

/-- The offset behind the last character stored. -/
def StringWrite.stop (w : StringWrite) : ℕ := w.offset + w.chars.length

/-- `snprintf(arrBuff + offset, size, text)`: at most `size` characters, the last one null. -/
def snprintf (offset size : ℕ) (text : List Char) : StringWrite :=
  ⟨offset, text.take (size - 1) ++ [Char.ofNat 0]⟩

/-- A digit of `%02X`. -/
def hexDigit (n : ℕ) : Char :=
  if n < 10 then Char.ofNat (48 + n) else Char.ofNat (55 + n)

/-- `%02X` -/
def hexByte (b : UInt8) : List Char := [hexDigit (b.toNat / 16), hexDigit (b.toNat % 16)]

/-- The loop over the bytes, from the 16-bit index `i` on: what at most `fuel` iterations
store, and `iBuffOffset` after the loop if it has ended. -/
def hexLoop (pData : Memory UInt8) (len : ℕ) : ℕ → ℕ → ℕ → List StringWrite × Option ℕ
  | 0, _, _ => ([], none)
  | fuel + 1, i, iBuffOffset =>
      if i < len then
        let stored :=
          if i = len - 1 then snprintf iBuffOffset 3 (hexByte (pData i))
          else snprintf iBuffOffset 4 (hexByte (pData i) ++ [' '])
        let iBuffOffset := if i = len - 1 then iBuffOffset + 2 else iBuffOffset + 3
        let rest := hexLoop pData len fuel ((i + 1) % 2 ^ 16) iBuffOffset
        (stored :: rest.1, rest.2)
      else ([], some iBuffOffset)

/-- `iStrLen` of the prefix -/
def prefixLen (type : PrintType) : ℕ := type.label.length + 3 + 29 + type.color.length

/-- `iStrLen` of the suffix -/
def suffixLen : ℕ := 2 + 1 + reset.length

/-- `PrintAsHexString(type, pData, len)` at the time `now`: what it stores into `arrBuff`
with at most `fuel` iterations of its loop. -/
def printAsHexString (type : PrintType) (now : List Char) (pData : Memory UInt8)
    (len fuel : ℕ) : List StringWrite :=
  let opening := snprintf 0 (prefixLen type)
    ('[' :: now ++ ']' :: ' ' :: type.color ++ type.label ++ [':', '['])
  let digits := hexLoop pData len fuel 0 (prefixLen type - 1)
  let closing := digits.2.toList.map
    (fun off => snprintf off suffixLen (']' :: reset ++ ['\n']))
  opening :: digits.1 ++ closing

/-- The call never writes past the end of `arrBuff`, however long it has been running. -/
def PrintSafe (type : PrintType) (pData : Memory UInt8) (len : ℕ) : Prop :=
  ∀ now fuel, ∀ w ∈ printAsHexString type now pData len fuel, w.stop ≤ arrBuffSize

/-- The longest line of error bytes that fits into `arrBuff`. -/
def recvErrMax : ℕ := 2713

/-! ### The extent of the writes -/

theorem stop_snprintf_le (offset size : ℕ) (text : List Char) (h : 0 < size) :
  (snprintf offset size text).stop ≤ offset + size
  := by
  simp only [snprintf, StringWrite.stop, List.length_append, List.length_take,
    List.length_singleton]
  omega

theorem offset_le_stop (w : StringWrite) :
  w.offset ≤ w.stop
  := Nat.le_add_right _ _

section

variable (pData : Memory UInt8) (len : ℕ)

/-- The loop stores three characters for each byte, and its offset ends before the null
character behind the last byte. -/
theorem hexLoop_le (hlen : len < 2 ^ 16) :
  ∀ (fuel i off : ℕ), i < len →
    (∀ w ∈ (hexLoop pData len fuel i off).1, w.stop ≤ off + 3 * (len - i)) ∧
      (∀ end' ∈ (hexLoop pData len fuel i off).2, end' + 1 = off + 3 * (len - i))
  | 0, _, _, _ => by
      simp [hexLoop]
  | fuel + 1, i, off, hi => by
      by_cases hlast : i = len - 1
      · have hmod : (i + 1) % 2 ^ 16 = len := by
          rw [Nat.mod_eq_of_lt (by omega)]
          omega
        have hdone : ∀ off', hexLoop pData len fuel len off'
            = ([], if fuel = 0 then none else some off') := by
          intro off'
          cases fuel with
          | zero => rfl
          | succ fuel => simp [hexLoop]
        have hstored := stop_snprintf_le off 3 (hexByte (pData i))
          (by decide)
        simp only [hexLoop, if_pos hi, if_pos hlast, hmod, hdone]
        constructor
        · intro w hw
          obtain rfl := List.mem_singleton.mp hw
          omega
        · intro end' hend
          split at hend
          · cases hend
          · obtain rfl := Option.mem_some.mp hend
            omega
      · have hmod : (i + 1) % 2 ^ 16 = i + 1 := Nat.mod_eq_of_lt (by omega)
        obtain ⟨hwrites, hend⟩ := hexLoop_le hlen fuel (i + 1) (off + 3) (by omega)
        have hstored := stop_snprintf_le off 4 (hexByte (pData i) ++ [' ']) (by decide)
        simp only [hexLoop, if_pos hi, if_neg hlast, hmod]
        constructor
        · rintro w (_ | ⟨_, hw⟩)
          · omega
          · have hle := hwrites w hw
            omega
        · intro end' hmem
          have heq := hend end' hmem
          omega

/-- With enough iterations the loop ends. -/
theorem hexLoop_ends (hlen : len < 2 ^ 16) :
  ∀ (fuel i off : ℕ), i ≤ len → len - i < fuel → (hexLoop pData len fuel i off).2.isSome
  | fuel + 1, i, off, hi, hfuel => by
      by_cases hlt : i < len
      · have hmod : (i + 1) % 2 ^ 16 = i + 1 := Nat.mod_eq_of_lt (by omega)
        simp only [hexLoop, if_pos hlt, hmod]
        apply hexLoop_ends hlen
        · omega
        · omega
      · simp only [hexLoop, if_neg hlt, Option.isSome_some]

/-- The characters of the byte `k` after `i` are stored `3 * k` characters further. -/
theorem hexLoop_mem :
  ∀ (k fuel i off : ℕ), k < fuel → i + k < len → i + k < 2 ^ 16 →
    ∃ w ∈ (hexLoop pData len fuel i off).1, w.offset = off + 3 * k
  | 0, fuel + 1, i, off, _, hlen, _ => by
      simp only [hexLoop, if_pos (show i < len by omega), List.mem_cons, exists_eq_or_imp]
      left
      split
      · rfl
      · rfl
  | k + 1, fuel + 1, i, off, hfuel, hlen, hbound => by
      have hmod : (i + 1) % 2 ^ 16 = i + 1 := Nat.mod_eq_of_lt (by omega)
      obtain ⟨w, hw, hoff⟩ := hexLoop_mem k fuel (i + 1) (off + 3) (by omega) (by omega)
        (by omega)
      have hlast : i ≠ len - 1 := by
        omega
      simp only [hexLoop, if_pos (show i < len by omega), if_neg hlast, hmod]
      use w, List.mem_cons_of_mem _ hw
      omega

end

theorem prefixLen_recvErr :
  prefixLen .recvErr = 46
  := rfl

theorem stop_suffix (off : ℕ) :
  (snprintf off suffixLen (']' :: reset ++ ['\n'])).stop = off + 7
  := rfl

/-- A line of error bytes fits into `arrBuff` exactly when it has at most `recvErrMax`
bytes. -/
theorem printSafe_iff {pData : Memory UInt8} {len : ℕ} (hpos : 0 < len) :
  PrintSafe .recvErr pData len ↔ len ≤ recvErrMax
  := by
  rw [recvErrMax]
  constructor
  · intro hsafe
    by_contra hlong
    by_cases hfar : 2717 ≤ len
    · obtain ⟨w, hw, hoff⟩ := hexLoop_mem pData len 2716 2717 0
        (prefixLen .recvErr - 1) (by omega) (by omega) (by omega)
      have hle : w.stop ≤ arrBuffSize := by
        apply hsafe [] 2717
        apply List.mem_append_left
        apply List.mem_cons_of_mem _ hw
      have hstop := offset_le_stop w
      simp only [arrBuffSize, prefixLen_recvErr] at hle hoff
      omega
    · have hends := hexLoop_ends pData len (by omega) (len + 1) 0
        (prefixLen .recvErr - 1) (by omega) (by omega)
      obtain ⟨off, hoff⟩ := Option.isSome_iff_exists.mp hends
      have heq := (hexLoop_le pData len (by omega) (len + 1) 0 _ hpos).2 off hoff
      have hle : (snprintf off suffixLen (']' :: reset ++ ['\n'])).stop ≤ arrBuffSize := by
        apply hsafe [] (len + 1)
        apply List.mem_append_right
        rw [hoff]
        apply List.mem_singleton.mpr rfl
      simp only [arrBuffSize, prefixLen_recvErr, stop_suffix] at hle heq
      omega
  · intro hlen now fuel w hw
    obtain ⟨hwrites, hend⟩ := hexLoop_le pData len (by omega) fuel 0
      (prefixLen .recvErr - 1) hpos
    simp only [prefixLen_recvErr] at hwrites hend
    simp only [printAsHexString, prefixLen_recvErr] at hw
    simp only [arrBuffSize]
    rcases List.mem_append.mp hw with (_ | ⟨_, hdigit⟩) | hsuffix
    · have hle := stop_snprintf_le 0 46
        ('[' :: now ++ ']' :: ' ' :: PrintType.recvErr.color ++ PrintType.recvErr.label
          ++ [':', '[']) (by decide)
      omega
    · have hle := hwrites w hdigit
      omega
    · obtain ⟨off, hoff, rfl⟩ := List.mem_map.mp hsuffix
      have heq := hend off (Option.mem_toList.mp hoff)
      rw [stop_suffix]
      omega

end SerialPort
