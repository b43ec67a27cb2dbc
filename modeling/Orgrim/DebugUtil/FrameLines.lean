import Orgrim.Theory.Buffer
import Orgrim.Theory.Hex
import Orgrim.Theory.Printing

/-!
# Printing frames

`PrintAsHexString` of `DebugUtil.h` cuts data into frames, prints each of them as a line of coloured
digits into a buffer of 4096 bytes, and logs the lines.

Reading `pData` past its end, or printing past the end of the buffer, has no result.
-/

namespace DebugUtil

/-! ### The source -/

/-- An escape sequence. -/
def ansi (codes : List UInt8) : List UInt8 := [27, 91] ++ codes ++ [109]

/-- `KRED` -/
def kRed : List UInt8 := ansi [48, 59, 51, 49]

/-- `KLIMEGREEN` -/
def kLimegreen : List UInt8 := ansi [49, 59, 51, 50]

/-- `KYELLOW` -/
def kYellow : List UInt8 := ansi [48, 59, 51, 51]

/-- `KORANGE` -/
def kOrange : List UInt8 := ansi [48, 59, 51, 52]

/-- `KBLUE` -/
def kBlue : List UInt8 := ansi [49, 59, 51, 52]

/-- `KCYAN` -/
def kCyan : List UInt8 := ansi [48, 59, 51, 54]

/-- `KRESET` -/
def kReset : List UInt8 := ansi [48]

/-- `arrBuff`, `iBuffOffset` and `cChecksum` -/
structure Printing where
  arrBuff : Buffer UInt8
  iBuffOffset : ℕ
  cChecksum : UInt8

/-- `snprintf` at `iBuffOffset`, with the size `iStrLen`, which is then added to the offset, less
one. -/
def Printing.print (st : Printing) (iStrLen : ℕ) (chars : List UInt8) : Option Printing := do
  let arrBuff ← st.arrBuff.snprintf st.iBuffOffset iStrLen chars
  some { st with arrBuff := arrBuff, iBuffOffset := st.iBuffOffset + (iStrLen - 1) }

/-- A byte in a colour, with a blank behind it. -/
def Printing.printColoured (st : Printing) (colour : List UInt8) (b : UInt8) : Option Printing :=
  st.print (colour.length + 3 + kReset.length + 1) (colour ++ Hex.digits b ++ kReset ++ [32])

/-- One iteration of the loop over the bytes of a frame. -/
def printFrameByte (pData : List UInt8) (iSkip iOneLen : ℕ) (st : Printing) (i : ℕ) :
    Option Printing := do
  let b ← pData[i + iSkip]?
  let st := if 3 ≤ i ∧ i < iOneLen - 1 then { st with cChecksum := st.cChecksum + b } else st
  if i = iOneLen - 1 then
    let colour := if st.cChecksum ≠ b then kRed else kYellow
    st.print (colour.length + 2 + kReset.length + 1) (colour ++ Hex.digits b ++ kReset)
  else if i = 0 then st.printColoured kLimegreen b
  else if i = 1 ∨ i = 2 then st.printColoured kOrange b
  else if i = 3 then st.printColoured kBlue b
  else if i = 4 then do
    let command ← pData[3]?
    if command = 0x03 then st.printColoured kCyan b else st.print 4 (Hex.digits b ++ [32])
  else st.print 4 (Hex.digits b ++ [32])

/-- The line of a frame. -/
def printLine (pLabel pData : List UInt8) (iSkip iOneLen : ℕ) (st : Printing) : Option Printing :=
  ((({ st with cChecksum := 0 } : Printing).print (pLabel.length + 3) (pLabel ++ [58, 91])).bind
    (fun st => (List.range iOneLen).foldlM (printFrameByte pData iSkip iOneLen) st)).bind
    (fun st => st.print 3 [93, 10])

/-- `iOneLen`: the length of a frame, from its two length bytes. -/
def oneLen (lo hi : UInt8) : ℕ := lo.toNat + (hi.toNat <<< 8) + 4

/-- The loop over the frames; `none` is where it returns from the function. -/
def printFrames (pLabel pData : List UInt8) (iSkip : ℕ) (st : Printing) :
    Option (Option Printing) :=
  match pData[1 + iSkip]?, pData[2 + iSkip]? with
  | some lo, some hi =>
      if oneLen lo hi + iSkip ≤ pData.length then
        if pData[iSkip]? ≠ some 0xAA then some none
        else
          match printLine pLabel pData iSkip (oneLen lo hi) st with
          | none => none
          | some st =>
              if oneLen lo hi + iSkip = pData.length then some (some st)
              else printFrames pLabel pData (iSkip + oneLen lo hi) st
      else some (some st)
  | _, _ => none
termination_by pData.length - iSkip
decreasing_by
  simp only [oneLen] at *
  omega

/-- What is logged. -/
inductive Log where
  | nothing
  | tooLong (pLabel : List UInt8) (iDataLen : ℕ)
  | lines (chars : List UInt8)

/-- `PrintAsHexString`; `bCheckIgnore` is not used. -/
def printAsHexString (pLabel pData : List UInt8) : Option Log :=
  if 1024 < pData.length then some (.tooLong pLabel pData.length)
  else do
    match ← printFrames pLabel pData 0 ⟨⟨fun _ => 0, 4096⟩, 0, 0⟩ with
    | none => some .nothing
    | some st =>
        if 0 < st.iBuffOffset then do
          let chars ← st.arrBuff.string
          some (.lines chars)
        else some .nothing

/-! ### Lines -/

/-- The buffer holds the characters that have been printed. -/
structure Printing.Holds (st : Printing) (chars : List UInt8) : Prop where
  size : st.arrBuff.size = 4096
  offset : st.iBuffOffset = chars.length
  string : st.arrBuff.HoldsString chars

/-- How many characters are printed for the byte `i` of a frame. -/
def byteWidth (cyan : Bool) (iOneLen i : ℕ) : ℕ :=
  if i = iOneLen - 1 then 13 else if i ≤ 3 then 14 else if i = 4 ∧ cyan then 14 else 3

/-- The length of a line. -/
def lineLength (pLabel : List UInt8) (cyan : Bool) (iOneLen : ℕ) : ℕ :=
  pLabel.length + 2 + ((List.range iOneLen).map (byteWidth cyan iOneLen)).sum + 2

section

variable {pLabel pData : List UInt8} {iSkip iOneLen i : ℕ}

theorem Printing.Holds.length_lt {st : Printing} {chars : List UInt8} (h : st.Holds chars) :
  chars.length < 4096
  := by
  rw [← h.size]
  apply h.string.fits

theorem Printing.Holds.setChecksum {st : Printing} {chars : List UInt8} (h : st.Holds chars)
    (cChecksum : UInt8) :
  ({ st with cChecksum := cChecksum } : Printing).Holds chars
  := by
  constructor
  · apply h.size
  · apply h.offset
  · apply h.string

/-- Characters are printed in full, as far as there is room. -/
theorem prints_print {more : List UInt8} {n iStrLen : ℕ} (hzero : 0 ∉ more)
    (hn : more.length = n) (hlen : iStrLen = n + 1) :
  Prints Printing.Holds 4096 (fun st => st.print iStrLen more) n
  := by
  have hshort : more.length < iStrLen := by omega
  constructor
  · intro st chars h hfits
    have hroom : st.iBuffOffset + (more ++ [0]).length ≤ st.arrBuff.size := by
      rw [h.size, h.offset, List.length_append, List.length_singleton]
      omega
    simp only [Printing.print, Buffer.snprintf_eq_store hshort, Buffer.store_of_le hroom,
      Option.bind_eq_bind, Option.bind_some]
    refine ⟨_, more, rfl, hn, ?_⟩
    constructor
    · apply h.size
    · rw [List.length_append, h.offset]
      dsimp only
      omega
    · apply Buffer.holdsString_write _ h.offset.symm _ h.string.nonzero hzero
      · rw [h.offset]
        apply h.string.slice
      · rw [h.offset, h.size]
        omega
  · intro st chars h hover
    have hfull : st.arrBuff.size < st.iBuffOffset + (more ++ [0]).length := by
      rw [h.size, h.offset, List.length_append, List.length_singleton]
      omega
    simp only [Printing.print, Buffer.snprintf_eq_store hshort, Buffer.store_of_lt hfull,
      Option.bind_eq_bind, Option.bind_none]

theorem zero_not_mem_digits (b : UInt8) :
  0 ∉ Hex.digits b
  := by
  intro h
  have htext : 0 ∈ Hex.text [b] := h
  apply Hex.ne_zero_of_mem_text 0 htext rfl

theorem prints_plain (b : UInt8) :
  Prints Printing.Holds 4096 (fun st => st.print 4 (Hex.digits b ++ [32])) 3
  := by
  apply prints_print
  · rw [List.mem_append, not_or]
    use zero_not_mem_digits b
    decide
  · rfl
  · rfl

theorem prints_printColoured {colour : List UInt8} (hzero : 0 ∉ colour)
    (hlength : colour.length = 7) (b : UInt8) :
  Prints Printing.Holds 4096 (fun st => st.printColoured colour b) 14
  := by
  have hdigits : (Hex.digits b).length = 2 := rfl
  apply prints_print
  · simp only [List.mem_append, not_or]
    use ⟨⟨hzero, zero_not_mem_digits b⟩, by decide⟩
    decide
  · simp only [List.length_append, hlength, hdigits]
    rfl
  · rw [hlength]
    rfl

theorem prints_withoutBlank {colour : List UInt8} (hzero : 0 ∉ colour)
    (hlength : colour.length = 7) (b : UInt8) :
  Prints Printing.Holds 4096 (fun st =>
    st.print (colour.length + 2 + kReset.length + 1) (colour ++ Hex.digits b ++ kReset)) 13
  := by
  have hdigits : (Hex.digits b).length = 2 := rfl
  apply prints_print
  · simp only [List.mem_append, not_or]
    use ⟨hzero, zero_not_mem_digits b⟩
    decide
  · simp only [List.length_append, hlength, hdigits]
    rfl
  · rw [hlength]
    rfl

/-- The last byte is red or yellow. -/
theorem prints_last (b : UInt8) :
  Prints Printing.Holds 4096 (fun st =>
    let colour := if st.cChecksum ≠ b then kRed else kYellow
    st.print (colour.length + 2 + kReset.length + 1) (colour ++ Hex.digits b ++ kReset)) 13
  := by
  have hred : 0 ∉ kRed := by decide
  have hyellow : 0 ∉ kYellow := by decide
  have hchoice := (prints_withoutBlank hred rfl b).ite (c := fun st => st.cChecksum ≠ b)
    (prints_withoutBlank hyellow rfl b)
  convert hchoice using 2 with st
  split
  · rfl
  · rfl

/-- The sum changes nothing that has been printed. -/
theorem prints_summed {f : Printing → Option Printing} {n : ℕ}
    (hf : Prints Printing.Holds 4096 f n) (i iOneLen : ℕ) (b : UInt8) :
  Prints Printing.Holds 4096 (fun st => f
    (if 3 ≤ i ∧ i < iOneLen - 1 then { st with cChecksum := st.cChecksum + b } else st)) n
  := by
  apply hf.comp
  intro st chars h
  split
  · apply h.setChecksum
  · apply h

/-- What is printed for a byte of a frame. -/
theorem prints_frameByte (hi : i + iSkip < pData.length) (hthree : 3 < pData.length) :
  Prints Printing.Holds 4096 (fun st => printFrameByte pData iSkip iOneLen st i)
    (byteWidth (pData[3] = 0x03) iOneLen i)
  := by
  simp only [printFrameByte, List.getElem?_eq_getElem hi, List.getElem?_eq_getElem hthree,
    Option.bind_eq_bind, Option.bind_some, byteWidth, decide_eq_true_eq]
  by_cases hlast : i = iOneLen - 1
  · simp only [if_pos hlast]
    apply prints_summed (prints_last _)
  simp only [if_neg hlast]
  by_cases hfirst : i = 0
  · simp only [if_pos hfirst, if_pos (show i ≤ 3 by omega)]
    apply prints_summed (prints_printColoured (by decide) rfl _)
  simp only [if_neg hfirst]
  by_cases hlength : i = 1 ∨ i = 2
  · simp only [if_pos hlength, if_pos (show i ≤ 3 by omega)]
    apply prints_summed (prints_printColoured (by decide) rfl _)
  simp only [if_neg hlength]
  by_cases hcommand : i = 3
  · simp only [if_pos hcommand, if_pos (show i ≤ 3 by omega)]
    apply prints_summed (prints_printColoured (by decide) rfl _)
  simp only [if_neg hcommand, if_neg (show ¬ i ≤ 3 by omega)]
  by_cases hfour : i = 4
  · by_cases hcyan : pData[3] = 0x03
    · simp only [if_pos hfour, if_pos hcyan, if_pos (And.intro hfour hcyan)]
      apply prints_summed (prints_printColoured (by decide) rfl _)
    · simp only [if_pos hfour, hcyan, and_false, if_false]
      apply prints_summed (prints_plain _)
  · simp only [hfour, false_and, if_false]
    apply prints_summed (prints_plain _)

/-- The line of a complete frame. -/
theorem prints_line (hlabel : 0 ∉ pLabel) (hfour : 4 ≤ iOneLen)
    (hcomplete : iOneLen + iSkip ≤ pData.length) :
  Prints Printing.Holds 4096 (printLine pLabel pData iSkip iOneLen)
    (lineLength pLabel (pData.getD 3 0 = 0x03) iOneLen)
  := by
  have hthree : 3 < pData.length := by omega
  have hhead : Prints Printing.Holds 4096 (fun st =>
      ({ st with cChecksum := 0 } : Printing).print (pLabel.length + 3) (pLabel ++ [58, 91]))
      (pLabel.length + 2) := by
    have hprint : Prints Printing.Holds 4096 (fun st =>
        st.print (pLabel.length + 3) (pLabel ++ [58, 91])) (pLabel.length + 2) := by
      apply prints_print
      · rw [List.mem_append, not_or]
        use hlabel
        decide
      · rw [List.length_append]
        rfl
      · rfl
    apply hprint.comp
    intro st chars h
    apply h.setChecksum
  have hbyte : ∀ i ∈ List.range iOneLen, Prints Printing.Holds 4096
      (fun st => printFrameByte pData iSkip iOneLen st i) (byteWidth (pData[3] = 0x03) iOneLen i) := by
    intro i hi
    rw [List.mem_range] at hi
    apply prints_frameByte _ hthree
    omega
  have hbytes := Prints.foldlM (fun st chars => Printing.Holds.length_lt) hbyte
  have hend : Prints Printing.Holds 4096 (fun st => st.print 3 [93, 10]) 2 := by
    apply prints_print
    · decide
    · rfl
    · rfl
  have hgetD : pData.getD 3 0 = pData[3] := by
    rw [List.getD_eq_getElem?_getD, List.getElem?_eq_getElem hthree, Option.getD_some]
  rw [lineLength, hgetD]
  apply (hhead.bind hbytes).bind hend

end

/-! ### Cutting the data -/

/-- The length that the header of a frame announces. -/
def announced (data : List UInt8) : ℕ := oneLen (data.getD 1 0) (data.getD 2 0)

/-- The data start with a complete frame. -/
structure StartsFrame (data : List UInt8) : Prop where
  long : 3 ≤ data.length
  magic : data.head? = some 0xAA
  complete : announced data ≤ data.length

/-- The data can be cut into frames of the given lengths, behind which there is nothing or at least
the header of something that is no complete frame. -/
inductive Cut : List UInt8 → List ℕ → Prop
  | rest {data : List UInt8} : 3 ≤ data.length → ¬ StartsFrame data → Cut data []
  | last {data : List UInt8} : StartsFrame data → announced data = data.length →
      Cut data [announced data]
  | more {data : List UInt8} {lengths : List ℕ} : StartsFrame data →
      announced data < data.length → Cut (data.drop (announced data)) lengths →
      Cut data (announced data :: lengths)

/-- How many characters the lines of frames of the given lengths have. -/
def linesLength (pLabel : List UInt8) (cyan : Bool) (lengths : List ℕ) : ℕ :=
  (lengths.map (lineLength pLabel cyan)).sum

section

variable {pLabel pData : List UInt8} {iSkip : ℕ} {st : Printing}

theorem four_le_announced (data : List UInt8) :
  4 ≤ announced data
  := by
  rw [announced, oneLen]
  omega

/-- The loop condition reads two bytes, wherever the data end. -/
theorem printFrames_short (h : (pData.drop iSkip).length < 3) :
  printFrames pLabel pData iSkip st = none
  := by
  rw [List.length_drop] at h
  have hnone : pData[2 + iSkip]? = none := by
    apply List.getElem?_eq_none
    omega
  rw [printFrames, hnone]
  cases pData[1 + iSkip]? with
  | none => rfl
  | some lo => rfl

theorem printFrames_eq (h : 3 ≤ (pData.drop iSkip).length) :
  printFrames pLabel pData iSkip st =
    if announced (pData.drop iSkip) + iSkip ≤ pData.length then
      if (pData.drop iSkip).head? ≠ some 0xAA then some none
      else
        match printLine pLabel pData iSkip (announced (pData.drop iSkip)) st with
        | none => none
        | some st =>
            if announced (pData.drop iSkip) + iSkip = pData.length then some (some st)
            else printFrames pLabel pData (iSkip + announced (pData.drop iSkip)) st
    else some (some st)
  := by
  rw [List.length_drop] at h
  have hlo : pData[1 + iSkip]? = some ((pData.drop iSkip).getD 1 0) := by
    rw [List.getD_eq_getElem?_getD, List.getElem?_drop, Nat.add_comm,
      List.getElem?_eq_getElem (by omega), Option.getD_some]
  have hhi : pData[2 + iSkip]? = some ((pData.drop iSkip).getD 2 0) := by
    rw [List.getD_eq_getElem?_getD, List.getElem?_drop, Nat.add_comm,
      List.getElem?_eq_getElem (by omega), Option.getD_some]
  rw [printFrames, hlo, hhi, List.head?_drop]
  rfl

/-- What is no complete frame ends the loop. -/
theorem printFrames_rest (h : 3 ≤ (pData.drop iSkip).length)
    (hrest : ¬ StartsFrame (pData.drop iSkip)) :
  printFrames pLabel pData iSkip st = some none ∨
    printFrames pLabel pData iSkip st = some (some st)
  := by
  rw [printFrames_eq h]
  split
  · rename_i hcomplete
    split
    · left
      rfl
    · rename_i hmagic
      exfalso
      apply hrest
      constructor
      · apply h
      · rwa [not_not] at hmagic
      · rw [List.length_drop] at h ⊢
        omega
  · right
    rfl

theorem printFrames_frame (h : StartsFrame (pData.drop iSkip)) :
  printFrames pLabel pData iSkip st =
    (printLine pLabel pData iSkip (announced (pData.drop iSkip)) st).bind (fun st =>
      if announced (pData.drop iSkip) = (pData.drop iSkip).length then some (some st)
      else printFrames pLabel pData (iSkip + announced (pData.drop iSkip)) st)
  := by
  have hlong := h.long
  have hcomplete := h.complete
  rw [List.length_drop] at hlong hcomplete
  have hend : announced (pData.drop iSkip) + iSkip = pData.length ↔
      announced (pData.drop iSkip) = (pData.drop iSkip).length := by
    rw [List.length_drop]
    omega
  rw [printFrames_eq h.long, if_pos (by omega), if_neg (not_not.mpr h.magic)]
  simp only [hend]
  cases printLine pLabel pData iSkip (announced (pData.drop iSkip)) st with
  | none => rfl
  | some st => rfl

theorem prints_startsFrame (hlabel : 0 ∉ pLabel) (h : StartsFrame (pData.drop iSkip)) :
  Prints Printing.Holds 4096 (printLine pLabel pData iSkip (announced (pData.drop iSkip)))
    (lineLength pLabel (pData.getD 3 0 = 0x03) (announced (pData.drop iSkip)))
  := by
  have hlong := h.long
  have hcomplete := h.complete
  rw [List.length_drop] at hlong hcomplete
  apply prints_line hlabel (four_le_announced _)
  omega

/-- The frames are printed, if there is room for their lines. -/
theorem exists_printFrames {data chars : List UInt8} {lengths : List ℕ} (hlabel : 0 ∉ pLabel)
    (hcut : Cut data lengths) (hdata : data = pData.drop iSkip) (h : st.Holds chars)
    (hroom : chars.length + linesLength pLabel (pData.getD 3 0 = 0x03) lengths < 4096) :
  ∃ r, printFrames pLabel pData iSkip st = some r ∧ ∀ st' ∈ r, ∃ chars', st'.Holds chars'
  := by
  induction hcut generalizing iSkip st chars with
  | rest hlong hrest =>
      rw [hdata] at hlong hrest
      rcases printFrames_rest hlong hrest with hnone | hsome
      · use none, hnone
        rintro st' ⟨⟩
      · use some st, hsome
        rintro st' ⟨⟩
        use chars
  | last hstarts hend =>
      rw [hdata] at hstarts hend hroom
      simp only [linesLength, List.map_cons, List.map_nil, List.sum_cons, List.sum_nil,
        Nat.add_zero] at hroom
      obtain ⟨st₁, more, hline, -, h₁⟩ := (prints_startsFrame hlabel hstarts).fits h hroom
      use some st₁
      constructor
      · rw [printFrames_frame hstarts, hline, Option.bind_some, if_pos hend]
      · rintro st' ⟨⟩
        use chars ++ more
  | more hstarts hless _ ih =>
      rw [hdata] at hstarts hless hroom ih
      simp only [linesLength, List.map_cons, List.sum_cons] at hroom ih
      obtain ⟨st₁, more, hline, hmore, h₁⟩ := (prints_startsFrame hlabel hstarts).fits h (by omega)
      obtain ⟨r, hr, hholds⟩ := ih (List.drop_drop ..) h₁ (by
        rw [List.length_append, hmore]
        omega)
      refine ⟨r, ?_, hholds⟩
      rw [printFrames_frame hstarts, hline, Option.bind_some, if_neg (Nat.ne_of_lt hless), hr]

/-- Data whose frames are printed can be cut, and there is room for the lines. -/
theorem exists_cut {chars : List UInt8} {r : Option Printing} (hlabel : 0 ∉ pLabel)
    (h : st.Holds chars) (hprint : printFrames pLabel pData iSkip st = some r) :
  ∃ lengths, Cut (pData.drop iSkip) lengths ∧
    chars.length + linesLength pLabel (pData.getD 3 0 = 0x03) lengths < 4096
  := by
  induction hk : pData.length - iSkip using Nat.strong_induction_on generalizing iSkip st chars with
  | _ k ih =>
      rcases Nat.lt_or_ge (pData.drop iSkip).length 3 with hshort | hlong
      · rw [printFrames_short hshort] at hprint
        cases hprint
      by_cases hstarts : StartsFrame (pData.drop iSkip)
      · have hprints := prints_startsFrame hlabel hstarts
        rw [printFrames_frame hstarts] at hprint
        obtain ⟨st₁, hline, hnext⟩ := Option.bind_eq_some_iff.mp hprint
        have hfits : chars.length
            + lineLength pLabel (pData.getD 3 0 = 0x03) (announced (pData.drop iSkip)) < 4096 := by
          by_contra hover
          rw [hprints.overflows h (Nat.not_lt.mp hover)] at hline
          cases hline
        obtain ⟨st₂, more, hline', hmore, h₁⟩ := hprints.fits h hfits
        rw [hline] at hline'
        cases hline'
        by_cases hend : announced (pData.drop iSkip) = (pData.drop iSkip).length
        · use [announced (pData.drop iSkip)], Cut.last hstarts hend
          simpa [linesLength] using hfits
        · have hless := Nat.lt_of_le_of_ne hstarts.complete hend
          have hfour := four_le_announced (pData.drop iSkip)
          rw [if_neg hend] at hnext
          rw [List.length_drop] at hlong
          obtain ⟨lengths, hcut, hroom⟩ := ih _ (by omega) h₁ hnext rfl
          rw [← List.drop_drop] at hcut
          use announced (pData.drop iSkip) :: lengths, Cut.more hstarts hless hcut
          rw [List.length_append, hmore] at hroom
          simp only [linesLength, List.map_cons, List.sum_cons] at hroom ⊢
          omega
      · use [], Cut.rest hlong hstarts
        apply h.length_lt

/-! ### Safety -/

theorem holds_start :
  (⟨⟨fun _ => 0, 4096⟩, 0, 0⟩ : Printing).Holds []
  := by
  constructor
  · rfl
  · rfl
  · constructor
    · simp
    · rfl
    · rfl
    · apply List.not_mem_nil

/-- `PrintAsHexString` reads inside of the data and prints inside of the buffer exactly if the data
can be cut into frames and the lines of the frames are shorter than the buffer. -/
theorem printAsHexString_isSome_iff (hlabel : 0 ∉ pLabel) (hlength : pData.length ≤ 1024) :
  (printAsHexString pLabel pData).isSome ↔
    ∃ lengths, Cut pData lengths ∧ linesLength pLabel (pData.getD 3 0 = 0x03) lengths < 4096
  := by
  have hshort : ¬ 1024 < pData.length := Nat.not_lt.mpr hlength
  simp only [printAsHexString, if_neg hshort, Option.bind_eq_bind]
  constructor
  · intro hsome
    obtain ⟨log, hlog⟩ := Option.isSome_iff_exists.mp hsome
    obtain ⟨r, hr, -⟩ := Option.bind_eq_some_iff.mp hlog
    obtain ⟨lengths, hcut, hroom⟩ := exists_cut hlabel holds_start hr
    rw [List.length_nil, Nat.zero_add] at hroom
    rw [List.drop_zero] at hcut
    use lengths, hcut
  · rintro ⟨lengths, hcut, hroom⟩
    rw [← Nat.zero_add (linesLength _ _ _), ← List.length_nil (α := UInt8)] at hroom
    obtain ⟨r, hr, hholds⟩ := exists_printFrames hlabel hcut List.drop_zero.symm holds_start hroom
    rw [hr, Option.bind_some]
    cases r with
    | none => rfl
    | some st =>
        obtain ⟨chars, h⟩ := hholds st rfl
        simp only [h.string.string_eq]
        split
        · rfl
        · rfl

end

/-- Two frames. -/
theorem printAsHexString_isSome_two :
  (printAsHexString [82, 88] [0xAA, 0, 0, 1, 0xAA, 1, 0, 7, 7]).isSome
  := by
  apply (printAsHexString_isSome_iff (by decide) (by decide)).mpr
  have hfirst : StartsFrame [0xAA, 0, 0, 1, 0xAA, 1, 0, 7, 7] := by
    constructor
    · decide
    · rfl
    · decide
  have hsecond : StartsFrame [0xAA, 1, 0, 7, 7] := by
    constructor
    · decide
    · rfl
    · decide
  use [4, 5], Cut.more hfirst (by decide) (Cut.last hsecond rfl)
  decide

/-- Without data a length is read past the end. -/
theorem printAsHexString_nil :
  printAsHexString [82, 88] [] = none
  := by
  have hshort : (([] : List UInt8).drop 0).length < 3 := by decide
  have hfit : ¬ 1024 < ([] : List UInt8).length := by decide
  simp only [printAsHexString, if_neg hfit, printFrames_short hshort, Option.bind_eq_bind,
    Option.bind_none]

end DebugUtil
