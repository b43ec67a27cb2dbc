import Orgrim.CJson.Parse

/-!
# The memory of a string

`parse_string` allocates as many bytes as the string has between its quotes, and two more, but one
less for each escape sequence that it has met when it looked for the end.  It copies with another
loop, which reads the digits of `\u` without looking at them and may be out of step with the first
one then: `starts` counts what the first loop skips, wherever the second one is.  No byte is
written outside of the memory, and none read outside of the text (`parseString_meets`).
-/

namespace CJson

/-! ### Escape sequences -/

/-- How many escape sequences start in a list, where the first byte belongs to one that has started
before it or not. -/
def starts : Bool → List UInt8 → ℕ
  | _, [] => 0
  | true, _ :: rest => starts false rest
  | false, c :: rest => if c = 92 then starts true rest + 1 else starts false rest

/-- Whether a byte behind the list belongs to an escape sequence that starts in it. -/
def startedAfter : Bool → List UInt8 → Bool
  | started, [] => started
  | true, _ :: rest => startedAfter false rest
  | false, c :: rest => startedAfter (c = 92) rest

section

variable {started : Bool} {bytes more rest : List UInt8} {c : UInt8} {n inputEnd skipped : ℕ}

theorem starts_append (started : Bool) (bytes more : List UInt8) :
  starts started (bytes ++ more) = starts started bytes + starts (startedAfter started bytes) more
  := by
  induction bytes generalizing started with
  | nil => simp only [starts, startedAfter, List.nil_append, Nat.zero_add]
  | cons c bytes ih =>
      cases started with
      | true => simp only [starts, startedAfter, List.cons_append, ih]
      | false =>
          simp only [starts, startedAfter, List.cons_append]
          split
          · rename_i hc
            rw [ih, decide_eq_true hc, Nat.add_right_comm]
          · rename_i hc
            rw [ih, decide_eq_false hc]

/-- Between two starts there is a byte that is none. -/
theorem starts_le (started : Bool) (bytes : List UInt8) :
  starts started bytes ≤ (bytes.length + 1) / 2 ∧
    (started = true → starts started bytes ≤ bytes.length / 2)
  := by
  induction bytes generalizing started with
  | nil => exact ⟨Nat.zero_le _, fun _ => le_refl 0⟩
  | cons c bytes ih =>
      obtain ⟨hfalse, -⟩ := ih false
      obtain ⟨-, htrue⟩ := ih true
      specialize htrue rfl
      rw [List.length_cons]
      cases started with
      | true =>
          simp only [starts]
          omega
      | false =>
          simp only [starts, Bool.false_eq_true, false_implies, and_true]
          split <;> omega

/-- Of evenly many bytes, at most the half are starts. -/
theorem starts_le_half (hlength : bytes.length = 2 * n) :
  starts started bytes ≤ n
  := by
  have hle := (starts_le started bytes).1
  omega

theorem findEnd_quote :
  findEnd (34 :: rest) n skipped = some (n, skipped)
  := by
  cases rest <;> simp only [findEnd, if_true]

theorem findEnd_escape :
  findEnd (92 :: c :: rest) n skipped = findEnd rest (n + 2) (skipped + 1)
  := by
  rw [findEnd, if_neg (by decide), if_pos rfl]

theorem findEnd_cons (hquote : c ≠ 34) (hbackslash : c ≠ 92) :
  findEnd (c :: rest) n skipped = findEnd rest (n + 1) skipped
  := by
  cases rest <;> simp only [findEnd, if_neg hquote, if_neg hbackslash]

/-- What the loop finds: the string up to the quote, and its escape sequences. -/
theorem findEnd_eq_some {found : ℕ × ℕ} (h : findEnd rest n skipped = some found) :
  ∃ body after, rest = body ++ 34 :: after ∧ found.1 = n + body.length ∧
    found.2 = skipped + starts false body
  := by
  induction rest, n, skipped using findEnd.induct with
  | case1 n skipped => cases h
  | case2 rest n skipped =>
      rw [findEnd_quote] at h
      obtain rfl := Option.some.inj h
      exact ⟨[], rest, rfl, rfl, rfl⟩
  | case3 n skipped _ => cases h
  | case4 n skipped c rest _ ih =>
      rw [findEnd_escape] at h
      obtain ⟨body, after, rfl, hend, hskipped⟩ := ih h
      refine ⟨92 :: c :: body, after, rfl, ?_, ?_⟩
      · rw [hend, List.length_cons, List.length_cons]
        omega
      · rw [hskipped]
        simp only [starts, if_true]
        omega
  | case5 c rest n skipped hquote hbackslash ih =>
      rw [findEnd_cons hquote hbackslash] at h
      obtain ⟨body, after, rfl, hend, hskipped⟩ := ih h
      refine ⟨c :: body, after, rfl, ?_, ?_⟩
      · rw [hend, List.length_cons]
        omega
      · rw [hskipped, starts, if_neg hbackslash]

end

/-! ### Literals -/

section

variable {content : List UInt8} {n h input inputPointer inputEnd codepoint m : ℕ}
  {bytes : List UInt8} {c : UInt8}

theorem value_lt {d : ℕ} (hd : Hex.value c = some d) :
  d < 16
  := (Hex.digit_of_value hd).1

/-- The digits are in the text, and their number is not too large. -/
theorem parseHexDigits_meets (hfits : input + (n + 1) ≤ content.length) :
  (parseHexDigits content (n + 1) input h).Meets (fun code => code + 1 ≤ (h + 16) * 16 ^ n)
    (fun _ => False)
  := by
  induction n generalizing input h with
  | zero =>
      apply Checked.Meets.bind (P := fun _ => True)
      · apply Checked.Meets.access ⟨_, List.getElem?_eq_getElem (by omega), trivial⟩
      · intro c _
        cases hd : Hex.value c with
        | none =>
            apply Checked.meets_done
            omega
        | some d =>
            have hlt := value_lt hd
            apply Checked.meets_done
            rw [if_neg (lt_irrefl 0)]
            omega
  | succ n ih =>
      apply Checked.Meets.bind (P := fun _ => True)
      · apply Checked.Meets.access ⟨_, List.getElem?_eq_getElem (by omega), trivial⟩
      · intro c _
        have hpos : 0 < 16 ^ n := Nat.pow_pos (by decide)
        have hpow : (h + 16) * 16 ^ (n + 1) = (16 * (h + 16)) * 16 ^ n := by
          rw [Nat.pow_succ, Nat.mul_comm (16 ^ n) 16, ← Nat.mul_assoc, Nat.mul_comm (h + 16) 16]
        rw [hpow]
        cases hd : Hex.value c with
        | none =>
            apply Checked.meets_done
            apply Nat.mul_pos _ hpos
            omega
        | some d =>
            have hlt := value_lt hd
            apply (ih (by omega)).mono _ (fun _ => id)
            intro code hcode
            apply hcode.trans
            apply Nat.mul_le_mul_right
            rw [if_pos (Nat.succ_pos n), Nat.shiftLeft_eq]
            omega

theorem parseHex4_meets (hfits : input + 4 ≤ content.length) :
  (parseHex4 content input).Meets (fun code => code ≤ 0xFFFF) (fun _ => False)
  := by
  apply (parseHexDigits_meets hfits).mono _ (fun _ => id)
  intro code hcode
  omega

theorem length_encodeRest :
  (encodeRest n codepoint bytes).2.length = n + bytes.length
  := by
  induction n generalizing codepoint bytes with
  | zero => rw [encodeRest, Nat.zero_add]
  | succ n ih =>
      rw [encodeRest, ih, List.length_cons]
      omega

/-- As many bytes as the length says -/
theorem length_encode (h : 0 < n) :
  (encode n m codepoint).length = n
  := by
  have hlength : (encodeRest (n - 1) codepoint []).2.length = n - 1 := length_encodeRest
  rw [encode]
  dsimp only
  split
  · rw [List.length_cons, hlength]
    omega
  · rw [List.length_cons, hlength]
    omega

/-- How long a literal is, and how large its codepoint. -/
theorem utf16Codepoint_meets (hend : inputEnd ≤ content.length) :
  (utf16Codepoint content inputPointer inputEnd).Meets
    (fun (code, length) => inputPointer + length ≤ inputEnd ∧
      (length = 6 ∧ code ≤ 0xFFFF ∨ length = 12))
    (fun e => e = inputPointer)
  := by
  refine Checked.Meets.ite (fun _ => Checked.meets_failed rfl) (fun hfirst => ?_)
  apply Checked.Meets.bind ((parseHex4_meets (by omega)).mono (fun _ => id) (fun _ => False.elim))
  intro firstCode hcode
  refine Checked.Meets.ite (fun _ => Checked.meets_failed rfl) (fun _ => ?_)
  apply Checked.Meets.ite
  · intro _
    refine Checked.Meets.ite (fun _ => Checked.meets_failed rfl) (fun hsecond => ?_)
    apply Checked.Meets.bind (P := fun _ => True)
    · apply Checked.Meets.access ⟨_, List.getElem?_eq_getElem (by omega), trivial⟩
    intro c _
    apply Checked.Meets.bind (P := fun _ => True)
    · apply Checked.Meets.access ⟨_, List.getElem?_eq_getElem (by omega), trivial⟩
    intro c' _
    refine Checked.Meets.ite (fun _ => Checked.meets_failed rfl) (fun _ => ?_)
    apply Checked.Meets.bind
      ((parseHex4_meets (by omega)).mono (fun _ => id) (fun _ => False.elim))
    intro secondCode _
    refine Checked.Meets.ite (fun _ => Checked.meets_failed rfl) (fun _ => ?_)
    apply Checked.meets_done
    exact ⟨by omega, Or.inr rfl⟩
  · intro _
    apply Checked.meets_done
    exact ⟨by omega, Or.inl ⟨rfl, hcode⟩⟩

/-- The bytes of an escape sequence are no more than half of it, or one. -/
theorem unescape_meets (hend : inputEnd ≤ content.length) :
  (unescape content inputPointer inputEnd c).Meets
    (fun (bytes, length) => (length = 2 ∧ bytes.length = 1) ∨
      ((length = 6 ∨ length = 12) ∧ inputPointer + length ≤ inputEnd ∧
        2 * bytes.length ≤ length))
    (fun e => e = inputPointer)
  := by
  rw [unescape]
  iterate 6 refine Checked.Meets.ite (fun _ => Checked.meets_done (Or.inl ⟨rfl, rfl⟩)) (fun _ => ?_)
  refine Checked.Meets.ite (fun _ => ?_) (fun _ => Checked.meets_failed rfl)
  apply Checked.Meets.bind (utf16Codepoint_meets hend)
  rintro ⟨code, length⟩ ⟨hfits, hlength⟩
  have hsequence : length = 6 ∨ length = 12 := by
    rcases hlength with ⟨hlength, -⟩ | hlength
    · exact Or.inl hlength
    · exact Or.inr hlength
  refine Checked.Meets.ite (fun _ => ?_) (fun _ => ?_)
  · refine Checked.meets_done (Or.inr ⟨hsequence, hfits, ?_⟩)
    rw [length_encode (by decide)]
    omega
  refine Checked.Meets.ite (fun _ => ?_) (fun _ => ?_)
  · refine Checked.meets_done (Or.inr ⟨hsequence, hfits, ?_⟩)
    rw [length_encode (by decide)]
    omega
  refine Checked.Meets.ite (fun _ => ?_) (fun _ => ?_)
  · refine Checked.meets_done (Or.inr ⟨hsequence, hfits, ?_⟩)
    rw [length_encode (by decide)]
    omega
  refine Checked.Meets.ite (fun _ => ?_) (fun _ => Checked.meets_failed rfl)
  refine Checked.meets_done (Or.inr ⟨hsequence, hfits, ?_⟩)
  rw [length_encode (by decide)]
  omega

end

/-! ### Copying -/

/-- What the second loop has written when it has come to the byte `k` of the string: one byte for
each that it has read, but none for a start.  It may have read the quote as part of an escape
sequence. -/
structure Copied (body : List UInt8) (k : ℕ) (output : List UInt8) : Prop where
  inside : k ≤ body.length → output.length + starts false (body.take k) ≤ k
  behind : body.length < k → output.length + starts false body ≤ body.length + 1

section

variable {content before body after output bytes : List UInt8} {c : UInt8}
  {k n length allocated fuel : ℕ}

theorem copied_nil :
  Copied body 0 []
  := by
  constructor
  · exact fun _ => le_refl 0
  · exact fun h => absurd h (Nat.not_lt_zero _)

/-- There is room for what has been written, and for the null character. -/
theorem Copied.le (h : Copied body k output) :
  output.length + starts false body ≤ body.length + 1
  := by
  rcases Nat.lt_or_ge body.length k with hlt | hle
  · apply h.behind hlt
  · have hinside := h.inside hle
    have hsplit := starts_append false (body.take k) (body.drop k)
    have hdrop := (starts_le (startedAfter false (body.take k)) (body.drop k)).1
    rw [List.take_append_drop] at hsplit
    rw [List.length_drop] at hdrop
    omega

/-- More bytes of the string have been read. -/
theorem Copied.read (h : Copied body k output) (hle : k + length ≤ body.length)
    (hbytes : bytes.length +
      starts (startedAfter false (body.take k)) ((body.drop k).take length) ≤ length) :
  Copied body (k + length) (output ++ bytes)
  := by
  constructor
  · intro _
    have hinside := h.inside (by omega)
    rw [List.take_add, starts_append, List.length_append]
    omega
  · intro hlt
    omega

/-- A byte that is copied -/
theorem Copied.plain (h : Copied body k output) (hc : body[k]? = some c) (hplain : c ≠ 92) :
  Copied body (k + 1) (output ++ [c])
  := by
  obtain ⟨hlt, rfl⟩ := List.getElem?_eq_some_iff.mp hc
  apply h.read hlt
  rw [List.drop_eq_getElem_cons hlt, List.take_succ_cons, List.take_zero]
  cases startedAfter false (body.take k) with
  | true => apply le_refl
  | false =>
      rw [starts, if_neg hplain]
      apply le_refl

/-- An escape sequence, which may end behind the string if it has two bytes -/
theorem Copied.escape (h : Copied body k output) (hlt : k < body.length)
    (hlength : length = 2 * n) (hbytes : bytes.length ≤ n)
    (hfits : length = 2 ∨ k + length ≤ body.length) :
  Copied body (k + length) (output ++ bytes)
  := by
  rcases Nat.lt_or_ge body.length (k + length) with hover | hle
  · obtain rfl : length = 2 := by omega
    constructor
    · intro hle
      omega
    · intro _
      have hinside := h.inside hlt.le
      have hsplit := starts_append false (body.take k) (body.drop k)
      have hdrop := (starts_le (startedAfter false (body.take k)) (body.drop k)).1
      rw [List.take_append_drop] at hsplit
      rw [List.length_drop] at hdrop
      rw [List.length_append]
      omega
  · apply h.read hle
    have hstarts : starts (startedAfter false (body.take k)) ((body.drop k).take length) ≤ n := by
      apply starts_le_half
      rw [List.length_take, List.length_drop]
      omega
    omega

/-- What has been written fits. -/
theorem Copied.putBytes_eq (h : Copied body k (output ++ bytes))
    (hallocated : body.length + 2 ≤ allocated + starts false body) :
  putBytes allocated output bytes = .done (output ++ bytes)
  := by
  have hle := h.le
  rw [List.length_append] at hle
  apply if_pos
  omega

/-- The second loop writes inside of the memory, and reads inside of the text. -/
theorem copyString_meets (hcontent : content = before ++ (body ++ 34 :: after))
    (hallocated : body.length + 2 ≤ allocated + starts false body) (h : Copied body k output)
    (hk : k ≤ body.length + 1) (hfuel : body.length + 2 ≤ k + fuel) :
  (copyString content (before.length + body.length) allocated fuel (before.length + k)
      output).Meets
    (fun output => output.length + starts false body ≤ body.length + 1) (fun _ => True)
  := by
  induction fuel generalizing k output with
  | zero => omega
  | succ fuel ih =>
      refine Checked.Meets.ite (fun hinside => ?_) (fun _ => Checked.meets_done h.le)
      have hlt : k < body.length := by omega
      have hlength : before.length + body.length < content.length := by
        rw [hcontent, List.length_append, List.length_append, List.length_cons]
        omega
      have hread : content[before.length + k]? = body[k]? := by
        rw [hcontent, List.getElem?_append_right (Nat.le_add_right _ _), Nat.add_sub_cancel_left,
          List.getElem?_append_left hlt]
      refine Checked.Meets.bind (P := fun c => body[k]? = some c) ?_ (fun c hc => ?_)
      · have hsome := List.getElem?_eq_getElem hlt
        apply Checked.Meets.access ⟨body[k], hread.trans hsome, hsome⟩
      refine Checked.Meets.ite (fun hplain => ?_) (fun _ => ?_)
      · have hnext := h.plain hc hplain
        rw [hnext.putBytes_eq hallocated, Checked.done_bind, Nat.add_assoc]
        apply ih hnext (by omega) (by omega)
      refine Checked.Meets.ite (fun _ => Checked.meets_failed trivial) (fun _ => ?_)
      refine Checked.Meets.bind (P := fun _ => True) ?_ (fun c _ => ?_)
      · apply Checked.Meets.access ⟨_, List.getElem?_eq_getElem (by omega), trivial⟩
      refine Checked.Meets.bind
        ((unescape_meets hlength.le).mono (fun _ => id) (fun _ _ => trivial)) ?_
      rintro ⟨bytes, length⟩ hsequence
      have heven : ∃ n, length = 2 * n ∧ bytes.length ≤ n := by
        rcases hsequence with ⟨rfl, hbytes⟩ | ⟨rfl | rfl, -, hbytes⟩
        · exact ⟨1, rfl, hbytes.le⟩
        · exact ⟨3, rfl, by omega⟩
        · exact ⟨6, rfl, by omega⟩
      have hfits : length = 2 ∨ k + length ≤ body.length := by
        rcases hsequence with ⟨htwo, -⟩ | ⟨-, hfits, -⟩
        · exact Or.inl htwo
        · exact Or.inr (by omega)
      obtain ⟨n, hn, hbytes⟩ := heven
      have hnext := h.escape hlt hn hbytes hfits
      dsimp only
      rw [hnext.putBytes_eq hallocated, Checked.done_bind, Nat.add_assoc]
      apply ih hnext (by omega)
      have hpos : 0 < length := by
        rcases hsequence with ⟨rfl, -⟩ | ⟨rfl | rfl, -⟩ <;> decide
      omega

end

/-! ### The end of the text -/

namespace ParseBuffer

variable {b b' : ParseBuffer} {c : UInt8}

/-- The text ends with a null character. -/
def Terminated (b : ParseBuffer) : Prop := ∃ value, b.content = value ++ [0]

theorem Terminated.of_content (h : b.Terminated) (heq : b'.content = b.content) :
  b'.Terminated
  := by
  obtain ⟨value, hvalue⟩ := h
  exact ⟨value, heq.trans hvalue⟩

theorem Terminated.pos (h : b.Terminated) :
  0 < b.content.length
  := by
  obtain ⟨value, hvalue⟩ := h
  rw [hvalue, List.length_append]
  apply Nat.succ_pos

/-- Another character stands in front of the last one. -/
theorem Terminated.lt_of_isAt (h : b.Terminated) (hc : b.IsAt c) (hzero : c ≠ 0) :
  b.offset + 1 < b.content.length
  := by
  obtain ⟨value, hvalue⟩ := h
  have hlt := (List.getElem?_eq_some_iff.mp hc).1
  rw [hvalue, List.length_append, List.length_singleton]
  rw [hvalue, List.length_append, List.length_singleton] at hlt
  rcases Nat.lt_or_eq_of_le (Nat.le_of_lt_succ hlt) with hlt | hend
  · omega
  · rw [IsAt, hvalue, hend, List.getElem?_concat_length] at hc
    exact absurd (Option.some.inj hc).symm hzero

end ParseBuffer

/-! ### Parsing a string -/

/-- The buffer is behind what has been read. -/
structure ParseBuffer.Reads (b b' : ParseBuffer) : Prop where
  content : b'.content = b.content
  depth : b'.depth = b.depth
  lt : b.offset < b'.offset
  le : b'.offset < b.content.length

/-- What failed has left nothing in the memory. -/
structure ParseBuffer.Fails (b b' : ParseBuffer) : Prop where
  content : b'.content = b.content
  live : b'.hooks.live = b.hooks.live

section

variable {D : Type} {b : ParseBuffer}

theorem length_eq_of_drop {content rest : List UInt8} {n : ℕ} (h : content.drop n = rest)
    (hn : n ≤ content.length) :
  content.length = n + rest.length
  := by
  rw [← h, List.length_drop]
  omega

/-- No access outside of the text or of the memory for the string. -/
theorem parseString_meets (item : Item D) (hb : b.Terminated) (hoffset : b.offset < b.content.length) :
  (parseString item b).Meets
    (fun (item', b') => b.Reads b' ∧ b'.hooks.live = b.hooks.live + 1 ∧ ∃ output,
      item' = { item with type := cJsonString, valuestring := some output })
    (fun b' => b.Fails b')
  := by
  refine Checked.Meets.bind (P := fun _ => True) ?_ (fun c _ => ?_)
  · apply Checked.Meets.access ⟨_, List.getElem?_eq_getElem hoffset, trivial⟩
  refine Checked.Meets.ite (fun _ => Checked.meets_failed ⟨rfl, rfl⟩) (fun _ => ?_)
  cases hfound : findEnd (b.content.drop (b.offset + 1)) (b.offset + 1) 0 with
  | none => exact Checked.meets_failed ⟨rfl, rfl⟩
  | some found =>
      obtain ⟨inputEnd, skippedBytes⟩ := found
      obtain ⟨body, after, hdrop, hend, hskipped⟩ := findEnd_eq_some hfound
      dsimp only at hend hskipped ⊢
      have hlength := length_eq_of_drop hdrop hoffset
      rw [List.length_append, List.length_cons] at hlength
      have hsplit : b.content =
          b.content.take (b.offset + 1) ++ (body ++ 34 :: after) := by
        rw [← hdrop, List.take_append_drop]
      have htake : (b.content.take (b.offset + 1)).length = b.offset + 1 :=
        List.length_take_of_le hoffset
      have hstarts := (starts_le false body).1
      cases hgrants : b.hooks.grants b.hooks.allocations with
      | false =>
          rw [Hooks.allocate_of_not_grants hgrants]
          exact Checked.meets_failed ⟨rfl, rfl⟩
      | true =>
          rw [Hooks.allocate_of_grants hgrants]
          have hallocated :
              body.length + 2 ≤ inputEnd - b.offset - skippedBytes + 1 + starts false body := by
            omega
          have hfuel : body.length + 2 ≤ 0 + b.content.length := by omega
          have hcopied := copyString_meets hsplit hallocated copied_nil (Nat.zero_le _) hfuel
          rw [htake, Nat.add_zero, ← hend] at hcopied
          refine Checked.Meets.bind (P := fun _ => True) ?_ (fun output _ => ?_)
          · refine Checked.Meets.onFail (E := fun _ => True) ?_ (fun _ _ => ?_)
            · refine Checked.Meets.bind hcopied (fun output houtput => ?_)
              have hput : putBytes (inputEnd - b.offset - skippedBytes + 1) output [0] =
                  .done (output ++ [0]) := by
                apply if_pos
                rw [List.length_singleton]
                omega
              rw [hput]
              exact Checked.meets_done trivial
            · rw [Hooks.deallocate_of_le (Nat.le_add_left _ _)]
              exact Checked.meets_failed ⟨rfl, rfl⟩
          · refine Checked.meets_done ⟨⟨rfl, rfl, ?_, ?_⟩, rfl, output, rfl⟩
            · dsimp only
              omega
            · have hindex : inputEnd - (b.content.take (b.offset + 1)).length - body.length = 0 := by
                omega
              have hquote : { b with offset := inputEnd }.IsAt 34 := by
                change b.content[inputEnd]? = some 34
                rw [hsplit, List.getElem?_append_right (by omega),
                  List.getElem?_append_right (by omega), hindex]
                rfl
              have hbEnd : { b with offset := inputEnd }.Terminated := hb
              exact hbEnd.lt_of_isAt hquote (by decide)

end

end CJson
