import Orgrim.CJson.Parser
import Orgrim.CJson.Printer

/-!
# Reading what has been printed

What the parser does with a text that it has in front of it (`ParseBuffer.At`): it skips blanks, it
reads a string that `print_string_ptr` has escaped (`parseString_renderString`), and a number.  The
buffer goes on by the length of what has been read (`ParseBuffer.Goes`).
-/

namespace CJson

section

variable {content rest : List UInt8} {c : UInt8} {i : ℕ}

theorem getElem?_of_drop (h : content.drop i = c :: rest) :
  content[i]? = some c
  := by
  have hhead : (content.drop i)[0]? = content[i + 0]? := List.getElem?_drop
  rw [Nat.add_zero] at hhead
  rw [← hhead, h]
  rfl

theorem drop_succ_of_cons (h : content.drop i = c :: rest) :
  content.drop (i + 1) = rest
  := by
  rw [← List.drop_drop, h]
  rfl

end

namespace ParseBuffer

variable {D : Type} {b b' b'' : ParseBuffer} {c d : UInt8} {text rest spaces : List UInt8} {n m : ℕ}

/-- The rest of the text -/
def At (b : ParseBuffer) (rest : List UInt8) : Prop := b.content.drop b.offset = rest

/-- Every allocation succeeds. -/
def Granted (b : ParseBuffer) : Prop := ∀ i, b.hooks.grants i = true

/-- The buffer has gone on. -/
structure Goes (b : ParseBuffer) (n : ℕ) (b' : ParseBuffer) : Prop where
  content : b'.content = b.content
  depth : b'.depth = b.depth
  offset : b'.offset = b.offset + n
  grants : b'.hooks.grants = b.hooks.grants

theorem Goes.refl (b : ParseBuffer) :
  b.Goes 0 b
  := ⟨rfl, rfl, rfl, rfl⟩

theorem Goes.trans (h : b.Goes n b') (h' : b'.Goes m b'') :
  b.Goes (n + m) b''
  := by
  constructor
  · exact h'.content.trans h.content
  · exact h'.depth.trans h.depth
  · rw [h'.offset, h.offset, Nat.add_assoc]
  · exact h'.grants.trans h.grants

theorem Goes.of_eq (h : b.Goes n b') (heq : n = m) :
  b.Goes m b'
  := heq ▸ h

theorem Goes.granted (h : b.Goes n b') (hgranted : b.Granted) :
  b'.Granted
  := by
  intro i
  rw [h.grants]
  apply hgranted

theorem Goes.move (b : ParseBuffer) (n : ℕ) :
  b.Goes n { b with offset := b.offset + n }
  := ⟨rfl, rfl, rfl, rfl⟩

/-- What is left behind what has been read -/
theorem At.goes (h : b.At (text ++ rest)) (hgoes : b.Goes text.length b') :
  b'.At rest
  := by
  rw [At, hgoes.content, hgoes.offset, ← List.drop_drop, h, List.drop_left]

theorem At.same (h : b.At rest) (hgoes : b.Goes 0 b') :
  b'.At rest
  := by
  have hnil : b.At ([] ++ rest) := h
  exact hnil.goes hgoes

theorem At.move (h : b.At (c :: rest)) :
  At { b with offset := b.offset + 1 } rest
  := by
  have hcons : b.At ([c] ++ rest) := h
  exact hcons.goes (Goes.move b 1)

theorem At.lt (h : b.At (c :: rest)) :
  b.offset + (c :: rest).length = b.content.length
  := by
  have hlength := congrArg List.length h
  rw [List.length_drop, List.length_cons] at hlength
  rw [List.length_cons]
  omega

theorem At.getElem? (h : b.At (c :: rest)) :
  b.content[b.offset]? = some c
  := getElem?_of_drop h

theorem At.isAt (h : b.At (c :: rest)) :
  b.IsAt d ↔ c = d
  := by
  rw [IsAt, h.getElem?, Option.some_inj]

theorem At.hasText (h : b.At (text ++ rest)) (hne : rest ≠ []) :
  b.HasText text
  := by
  have hlength := congrArg List.length h
  have hpos := List.length_pos_of_ne_nil hne
  rw [List.length_drop, List.length_append] at hlength
  refine ⟨by omega, ?_⟩
  rw [h, List.take_left]

theorem At.not_hasText (h : b.At (c :: rest)) (hne : d ≠ c) :
  ¬ b.HasText (d :: text)
  := by
  rintro ⟨-, htake⟩
  rw [h, List.length_cons, List.take_succ_cons] at htake
  exact hne (List.cons.inj htake).1.symm

/-- There is a character in front of what is left. -/
theorem At.back (h : b.At (c :: rest)) (hpos : 0 < b.offset) :
  ∃ x, b.back = .done { b with offset := b.offset - 1 } ∧
    At { b with offset := b.offset - 1 } (x :: c :: rest)
  := by
  have hlength := h.lt
  rw [List.length_cons] at hlength
  have hlt : b.offset - 1 < b.content.length := by
    omega
  refine ⟨b.content[b.offset - 1], if_neg (by omega), ?_⟩
  have hsucc : b.offset - 1 + 1 = b.offset := by
    omega
  rw [At, List.drop_eq_getElem_cons hlt, hsucc, h]

/-- Blanks are skipped. -/
theorem At.skipWhitespace (h : b.At (spaces ++ c :: rest)) (hspaces : ∀ s ∈ spaces, s ≤ 32)
    (hc : 32 < c) :
  b.skipWhitespace = .done { b with offset := b.offset + spaces.length }
  := by
  have hnot : ¬ c ≤ 32 := UInt8.not_le.mpr hc
  have htake : (b.content.drop b.offset).takeWhile (fun c => decide (c ≤ 32)) = spaces := by
    rw [h, List.takeWhile_append_of_pos (fun s hs => decide_eq_true (hspaces s hs)),
      List.takeWhile_cons_of_neg (by rw [decide_eq_false hnot]; exact Bool.false_ne_true),
      List.append_nil]
  have hlength := congrArg List.length h
  rw [List.length_drop, List.length_append, List.length_cons] at hlength
  rw [ParseBuffer.skipWhitespace]
  simp only [htake]
  rw [if_neg (by omega)]

theorem At.skipWhitespace_nil (h : b.At (c :: rest)) (hc : 32 < c) :
  b.skipWhitespace = .done b
  := by
  have hnil : b.At ([] ++ c :: rest) := h
  exact hnil.skipWhitespace (List.forall_mem_nil _) hc

/-- A new item, where every allocation succeeds -/
theorem Granted.newItem (h : b.Granted) (head : List (Item D)) :
  ∃ b', b.newItem head = .done b' ∧ b.Goes 0 b'
  := by
  rw [ParseBuffer.newItem, Hooks.allocate_of_grants (h _)]
  exact ⟨_, rfl, rfl, rfl, rfl, rfl⟩

end ParseBuffer

/-! ### Strings -/

section

variable {c e : UInt8} {chars content output rest : List UInt8} {a n k i inputEnd allocated fuel : ℕ}

theorem value_hexDigit :
  ∀ a < 16, Hex.value (hexDigit a) = some a
  := by decide

theorem hexDigit_ne :
  ∀ a < 16, hexDigit a ≠ 34 ∧ hexDigit a ≠ 92
  := by decide

/-- The first loop of `parse_string` goes over a character, and the second one needs no more room
than it has. -/
theorem findEnd_escape_append (c : UInt8) (rest : List UInt8) (n k : ℕ) :
  ∃ d, findEnd (escape c ++ rest) n k = findEnd rest (n + (escape c).length) (k + d) ∧
    1 + d ≤ (escape c).length
  := by
  by_cases hplain : 31 < c ∧ c ≠ 34 ∧ c ≠ 92
  · rw [escape_of_plain hplain]
    exact ⟨0, findEnd_cons hplain.2.1 hplain.2.2, le_refl 1⟩
  · cases he : shortEscape c with
    | some e =>
        rw [escape_of_short hplain he]
        exact ⟨1, findEnd_escape, le_refl 2⟩
    | none =>
        have hlt := c.toNat_lt
        obtain ⟨hquote, hbackslash⟩ := hexDigit_ne (c.toNat / 16) (by omega)
        obtain ⟨hquote', hbackslash'⟩ := hexDigit_ne (c.toNat % 16) (by omega)
        rw [escape_of_unicode hplain he]
        refine ⟨1, ?_, (by decide : 2 ≤ 6)⟩
        rw [List.cons_append, unicode, List.cons_append, findEnd_escape, List.cons_append,
          findEnd_cons (by decide) (by decide), List.cons_append,
          findEnd_cons (by decide) (by decide), List.cons_append, findEnd_cons hquote hbackslash,
          List.cons_append, findEnd_cons hquote' hbackslash']
        rfl

theorem findEnd_flatMap_escape :
  ∃ d, findEnd (chars.flatMap escape ++ 34 :: rest) n k =
      some (n + (chars.flatMap escape).length, k + d) ∧
    chars.length + d ≤ (chars.flatMap escape).length
  := by
  induction chars generalizing n k with
  | nil => exact ⟨0, findEnd_quote, le_refl 0⟩
  | cons c chars ih =>
      rw [List.flatMap_cons, List.append_assoc, List.length_append, List.length_cons]
      obtain ⟨d, hfind, hle⟩ := findEnd_escape_append c (chars.flatMap escape ++ 34 :: rest) n k
      obtain ⟨d', hfind', hle'⟩ := @ih (n + (escape c).length) (k + d)
      refine ⟨d + d', ?_, by omega⟩
      rw [hfind, hfind', Nat.add_assoc, Nat.add_assoc]

/-- The character of a sequence of two -/
theorem unescape_of_short (h : shortEscape c = some e) :
  unescape content i inputEnd e = .done ([c], 2)
  := by
  rw [shortEscape] at h
  split_ifs at h <;> subst_vars <;> obtain rfl := Option.some.inj h <;> rfl

theorem parseHexDigits_cons {h : ℕ} (hc : content.drop i = hexDigit a :: rest) (ha : a < 16) :
  parseHexDigits content (n + 1) i h =
    parseHexDigits content n (i + 1) (if 0 < n then (h + a) <<< 4 else h + a)
  := by
  rw [parseHexDigits, getElem?_of_drop hc, Checked.access_some, Checked.done_bind, value_hexDigit a ha]

/-- The digits of a character -/
theorem parseHex4_unicode (h : content.drop i = (unicode c).drop 1 ++ rest) :
  parseHex4 content i = .done c.toNat
  := by
  have hlt := c.toNat_lt
  have hzero : hexDigit 0 = 48 := rfl
  have h₀ : content.drop i = hexDigit 0 :: hexDigit 0 :: hexDigit (c.toNat / 16) ::
      hexDigit (c.toNat % 16) :: rest := h
  have h₁ := drop_succ_of_cons h₀
  have h₂ := drop_succ_of_cons h₁
  have h₃ := drop_succ_of_cons h₂
  rw [parseHex4, parseHexDigits_cons h₀ (by decide), parseHexDigits_cons h₁ (by decide),
    parseHexDigits_cons h₂ (by omega), parseHexDigits_cons h₃ (by omega), parseHexDigits]
  congr 1
  rw [if_neg (by decide), if_pos (by decide), if_pos (by decide), if_pos (by decide),
    Nat.shiftLeft_eq, Nat.shiftLeft_eq, Nat.shiftLeft_eq]
  omega

theorem encode_one :
  ∀ m < 32, encode 1 0 m = [UInt8.ofNat m]
  := by decide

/-- A character that is printed as a codepoint is small. -/
theorem toNat_lt_of_unicode (h : ¬ (31 < c ∧ c ≠ 34 ∧ c ≠ 92)) (he : shortEscape c = none) :
  c.toNat < 32
  := by
  by_contra hlarge
  apply h
  refine ⟨lt_iff_not_lt.mpr hlarge, ?_, ?_⟩
  · rintro rfl
    cases he
  · rintro rfl
    cases he

/-- The character of a literal -/
theorem unescape_of_unicode (h : content.drop i = 92 :: unicode c ++ rest) (hc : c.toNat < 32)
    (hend : i + 6 ≤ inputEnd) :
  unescape content i inputEnd 117 = .done ([c], 6)
  := by
  have hdigits : content.drop (i + 2) = (unicode c).drop 1 ++ rest := by
    rw [← List.drop_drop, h]
    rfl
  have hcodepoint : utf16Codepoint content i inputEnd = .done (c.toNat, 6) := by
    rw [utf16Codepoint, if_neg (by omega), parseHex4_unicode hdigits, Checked.done_bind,
      if_neg (by omega), if_neg (by omega)]
  have hunescape : unescape content i inputEnd 117 = utf16LiteralToUtf8 content i inputEnd := rfl
  rw [hunescape, utf16LiteralToUtf8, hcodepoint, Checked.done_bind]
  dsimp only
  rw [if_pos (by omega), encode_one _ hc, UInt8.ofNat_toNat]

/-- The second loop of `parse_string` copies the characters that have been escaped. -/
theorem copyString_flatMap_escape (h : content.drop i = chars.flatMap escape ++ 34 :: rest)
    (hend : inputEnd = i + (chars.flatMap escape).length)
    (hallocated : output.length + chars.length ≤ allocated) (hfuel : chars.length < fuel) :
  copyString content inputEnd allocated fuel i output = .done (output ++ chars)
  := by
  induction chars generalizing i output fuel with
  | nil =>
      obtain ⟨fuel, rfl⟩ := Nat.exists_eq_succ_of_ne_zero (Nat.ne_zero_of_lt hfuel)
      rw [copyString, if_neg (by rw [hend]; exact lt_irrefl i), List.append_nil]
  | cons c chars ih =>
      obtain ⟨fuel, rfl⟩ := Nat.exists_eq_succ_of_ne_zero (Nat.ne_zero_of_lt hfuel)
      rw [List.flatMap_cons, List.append_assoc] at h
      rw [List.flatMap_cons, List.length_append] at hend
      rw [List.length_cons] at hallocated hfuel
      have hput : putBytes allocated output [c] = .done (output ++ [c]) := by
        apply if_pos
        rw [List.length_singleton]
        omega
      -- the rest of the string
      have hrest : copyString content inputEnd allocated fuel (i + (escape c).length) (output ++ [c]) =
          .done (output ++ c :: chars) := by
        rw [ih (by rw [← List.drop_drop, h, List.drop_left]) (by omega)
          (by rw [List.length_append, List.length_singleton]; omega) (by omega), List.append_assoc]
        rfl
      rw [copyString]
      by_cases hplain : 31 < c ∧ c ≠ 34 ∧ c ≠ 92
      · rw [escape_of_plain hplain] at h hend hrest
        rw [List.length_singleton] at hend hrest
        rw [if_pos (by omega), getElem?_of_drop h, Checked.access_some, Checked.done_bind,
          if_pos hplain.2.2, hput, Checked.done_bind, hrest]
      · have hsequence : ∃ e tail, escape c = 92 :: e :: tail ∧
            unescape content i inputEnd e = .done ([c], (escape c).length) := by
          cases he : shortEscape c with
          | some e =>
              rw [escape_of_short hplain he]
              exact ⟨e, [], rfl, unescape_of_short he⟩
          | none =>
              rw [escape_of_unicode hplain he] at h hend ⊢
              refine ⟨117, (unicode c).drop 1, rfl, ?_⟩
              apply unescape_of_unicode h (toNat_lt_of_unicode hplain he)
              have hlength : (92 :: unicode c).length = 6 := rfl
              omega
        obtain ⟨e, tail, hescape, hunescape⟩ := hsequence
        have hlength : 2 ≤ (escape c).length := by
          rw [hescape, List.length_cons, List.length_cons]
          omega
        rw [hescape] at h
        rw [if_pos (by omega), getElem?_of_drop h, Checked.access_some, Checked.done_bind,
          if_neg (not_not.mpr rfl), if_neg (by omega), getElem?_of_drop (drop_succ_of_cons h),
          Checked.access_some, Checked.done_bind, hunescape, Checked.done_bind]
        dsimp only
        rw [hput, Checked.done_bind, hrest]

/-- `parse_string` reads what `print_string_ptr` prints. -/
theorem parseString_renderString {D : Type} {b : ParseBuffer} (item : Item D)
    (string : Option (List UInt8)) (h : b.At (renderString string ++ rest)) (hb : b.Granted) :
  ∃ b', parseString item b =
      .done ({ item with type := cJsonString, valuestring := some (cstring (string.getD [])) }, b') ∧
    b.Goes (renderString string).length b'
  := by
  have hcons : b.At (34 :: ((cstring (string.getD [])).flatMap escape ++ 34 :: rest)) := by
    rw [renderString, List.cons_append, List.append_assoc] at h
    exact h
  have hlength := hcons.lt
  rw [List.length_cons, List.length_append, List.length_cons] at hlength
  have hrender : (renderString string).length =
      ((cstring (string.getD [])).flatMap escape).length + 2 := by
    rw [renderString, List.length_cons, List.length_append]
    rfl
  have hdrop := drop_succ_of_cons hcons
  obtain ⟨d, hfind, hle⟩ := @findEnd_flatMap_escape (cstring (string.getD [])) rest (b.offset + 1) 0
  rw [Nat.zero_add] at hfind
  generalize hend : b.offset + 1 + ((cstring (string.getD [])).flatMap escape).length = inputEnd
    at hfind
  have hcopy : copyString b.content inputEnd (inputEnd - b.offset - d + 1) b.content.length
      (b.offset + 1) [] = .done ([] ++ cstring (string.getD [])) :=
    copyString_flatMap_escape hdrop hend.symm (by rw [List.length_nil]; omega) (by omega)
  rw [List.nil_append] at hcopy
  have hput : putBytes (inputEnd - b.offset - d + 1) (cstring (string.getD [])) [0] =
      .done (cstring (string.getD []) ++ [0]) := by
    apply if_pos
    rw [List.length_singleton]
    omega
  rw [parseString, hcons.getElem?, Checked.access_some, Checked.done_bind,
    if_neg (not_not.mpr rfl), hdrop, hfind]
  dsimp only
  rw [Hooks.allocate_of_grants (hb _)]
  dsimp only
  rw [hcopy, Checked.done_bind, hput, Checked.done_bind, Checked.done_onFail, Checked.done_bind]
  refine ⟨_, rfl, rfl, rfl, ?_, rfl⟩
  rw [hrender]
  dsimp only
  omega

end

/-! ### Numbers -/

/-- `sprintf` prints numbers that `strtod` reads: with 17 digits the same number, and with 15 digits
the same number if it is equal.  From what `sprintf` prints, `sscanf` reads what `strtod` reads. -/
structure RoundTrips (D : Type) [Double D] : Prop where
  fits : SprintfFits D
  characters : ∀ precision (d : D), precision ≤ 17 → Double.isFinite d = true →
    ∀ c ∈ Double.sprintf precision d, isNumberChar c = true
  first : ∀ precision (d : D), precision ≤ 17 → Double.isFinite d = true →
    ∃ c ∈ (Double.sprintf precision d).head?, c = 45 ∨ 48 ≤ c ∧ c ≤ 57
  sscanf : ∀ precision (d : D), precision ≤ 17 → Double.isFinite d = true →
    (Double.sscanf (Double.sprintf precision d) : Option D) =
      (Double.strtod (Double.sprintf precision d)).map Prod.fst
  strtod : ∀ precision (d : D), precision ≤ 17 → Double.isFinite d = true →
    ∃ d' : D, Double.strtod (Double.sprintf precision d) =
      some (d', (Double.sprintf precision d).length)
  same : ∀ (d d' : D) n, Double.isFinite d = true →
    Double.strtod (Double.sprintf 15 d) = some (d', n) → Double.equal d' d = true → d' = d
  exact : ∀ (d d' : D) n, Double.isFinite d = true →
    Double.strtod (Double.sprintf 17 d) = some (d', n) → d' = d

section

variable {D : Type} [Double D] {d : D} {b : ParseBuffer} {item : Item D} {c : UInt8}
  {text rest : List UInt8}

/-- The text of a number is one of two that `sprintf` prints, and the number is read from it. -/
theorem strtod_renderNumber (h : RoundTrips D) (hd : Double.isFinite d = true) :
  (∃ precision ≤ 17, renderNumber d = Double.sprintf precision d) ∧
    Double.strtod (renderNumber d) = some (d, (renderNumber d).length)
  := by
  rw [renderNumber, if_neg (not_not.mpr hd)]
  split
  · rename_i htest
    obtain ⟨test, hscan, hequal⟩ := htest
    obtain ⟨d', hread⟩ := h.strtod 15 d (by decide) hd
    rw [h.sscanf 15 d (by decide) hd, hread] at hscan
    obtain rfl : d' = test := by
      simpa using hscan
    obtain rfl := h.same d d' _ hd hread hequal
    exact ⟨⟨15, by decide, rfl⟩, hread⟩
  · obtain ⟨d', hread⟩ := h.strtod 17 d (le_refl 17) hd
    obtain rfl := h.exact d d' _ hd hread
    exact ⟨⟨17, le_refl 17, rfl⟩, hread⟩

/-- `parse_number` takes the characters of a number. -/
theorem takeWhile_number (h : b.At (text ++ c :: rest)) (htext : ∀ c ∈ text, isNumberChar c = true)
    (hlength : text.length ≤ 62) (hc : isNumberChar c = false) :
  ((b.content.drop b.offset).take 63).takeWhile isNumberChar = text
  := by
  obtain ⟨n, hn⟩ := Nat.exists_eq_add_of_le hlength
  have hrest : 63 - text.length = n + 1 := by
    omega
  have htake : text.take 63 = text := List.take_of_length_le (by omega)
  rw [h, List.take_append, htake, hrest, List.take_succ_cons, List.takeWhile_append_of_pos htext,
    List.takeWhile_cons_of_neg (by rw [hc]; exact Bool.false_ne_true), List.append_nil]

/-- `parse_number` reads what `print_number` prints. -/
theorem parseNumber_renderNumber (h : RoundTrips D) (hd : Double.isFinite d = true)
    (hb : b.At (renderNumber d ++ c :: rest)) (hc : isNumberChar c = false) :
  parseNumber item b =
    .done ({ item with valuedouble := d, valueint := saturate d, type := cJsonNumber },
      { b with offset := b.offset + (renderNumber d).length })
  := by
  obtain ⟨⟨precision, hprecision, hprint⟩, hread⟩ := strtod_renderNumber h hd
  have hchars := h.characters precision d hprecision hd
  have hlength := (h.fits precision d hprecision hd).1
  rw [← hprint] at hchars hlength
  rw [parseNumber, takeWhile_number hb hchars (hlength.trans (by decide)) hc, hread]

end

end CJson
