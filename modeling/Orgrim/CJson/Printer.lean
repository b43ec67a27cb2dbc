import Orgrim.CJson.Render

/-!
# The printer is safe

The functions of the printer print the text of an item (`printValue_renders`), and therefore so do
`cJSON_PrintPreallocated`, if the caller's buffer has two bytes more than the text, `cJSON_Print`,
and `cJSON_PrintBuffered`.  None of them reads or writes outside of the memory.  Of the C library
they take that what `sprintf` prints fits into `number_buffer`.
-/

namespace CJson

section

variable {format : Bool} {depth depth₁ depth' i : ℕ} {t t' : Option (List UInt8)}
  {text a input before : List UInt8} {p p' : PrintBuffer} {c : UInt8}

/-! ### Strings -/

/-- A character that is copied -/
theorem escape_of_plain (h : 31 < c ∧ c ≠ 34 ∧ c ≠ 92) :
  escape c = [c]
  := if_pos h

theorem escape_of_short {e : UInt8} (h : ¬ (31 < c ∧ c ≠ 34 ∧ c ≠ 92))
    (he : shortEscape c = some e) :
  escape c = [92, e]
  := by
  rw [escape, if_neg h, he]

theorem escape_of_unicode (h : ¬ (31 < c ∧ c ≠ 34 ∧ c ≠ 92)) (he : shortEscape c = none) :
  escape c = 92 :: unicode c
  := by
  rw [escape, if_neg h, he]

theorem lt_iff_not_lt :
  31 < c ↔ ¬ c < 32
  := by
  rw [UInt8.lt_iff_toNat_lt, UInt8.lt_iff_toNat_lt]
  change 31 < c.toNat ↔ ¬ c.toNat < 32
  omega

/-- The characters with an escape sequence of two -/
theorem shortEscape_isSome :
  (shortEscape c).isSome ↔ c = 34 ∨ c = 92 ∨ c = 8 ∨ c = 12 ∨ c = 10 ∨ c = 13 ∨ c = 9
  := by
  rw [shortEscape]
  split_ifs <;> simp_all

/-- A character, with as many more as its escape sequence needs -/
theorem length_escape (c : UInt8) (input : List UInt8) :
  (escape c).length + escapeCharacters input = 1 + escapeCharacters (c :: input)
  := by
  rw [escapeCharacters]
  by_cases hplain : 31 < c ∧ c ≠ 34 ∧ c ≠ 92
  · obtain ⟨hlarge, hquote, hbackslash⟩ := hplain
    have hsmall := lt_iff_not_lt.mp hlarge
    have hshort : ¬ (c = 34 ∨ c = 92 ∨ c = 8 ∨ c = 12 ∨ c = 10 ∨ c = 13 ∨ c = 9) := by
      rintro (rfl | rfl | rfl | rfl | rfl | rfl | rfl) <;> revert hlarge hquote hbackslash <;> decide
    rw [escape_of_plain ⟨hlarge, hquote, hbackslash⟩, if_neg hshort, if_neg hsmall, Nat.zero_add]
    rfl
  · cases he : shortEscape c with
    | some e =>
        have hshort := shortEscape_isSome.mp (Option.isSome_of_eq_some he)
        rw [escape_of_short hplain he, if_pos hshort, ← Nat.add_assoc]
        rfl
    | none =>
        have hshort : ¬ (c = 34 ∨ c = 92 ∨ c = 8 ∨ c = 12 ∨ c = 10 ∨ c = 13 ∨ c = 9) := by
          intro hshort
          have hsome := shortEscape_isSome.mpr hshort
          rw [he] at hsome
          cases hsome
        have hsmall : c < 32 := by
          by_contra hlarge
          apply hplain
          exact ⟨lt_iff_not_lt.mpr hlarge, fun h => hshort (Or.inl h),
            fun h => hshort (Or.inr (Or.inl h))⟩
        rw [escape_of_unicode hplain he, if_neg hshort, if_pos hsmall, ← Nat.add_assoc]
        rfl

theorem length_flatMap_escape (input : List UInt8) :
  (input.flatMap escape).length = input.length + escapeCharacters input
  := by
  induction input with
  | nil => rfl
  | cons c input ih =>
      have hlength := length_escape c input
      rw [List.flatMap_cons, List.length_append, ih, List.length_cons]
      omega

/-- Without escape sequences the string is copied. -/
theorem flatMap_escape_of_eq_zero (h : escapeCharacters input = 0) :
  input.flatMap escape = input
  := by
  induction input with
  | nil => rfl
  | cons c input ih =>
      have hlength := length_escape c input
      have hplain : 31 < c ∧ c ≠ 34 ∧ c ≠ 92 := by
        by_contra hnot
        cases he : shortEscape c with
        | some e =>
            rw [escape_of_short hnot he, List.length_cons, List.length_singleton] at hlength
            omega
        | none =>
            rw [escape_of_unicode hnot he, List.length_cons, unicode, List.length_cons] at hlength
            omega
      rw [escape_of_plain hplain, List.length_singleton, h] at hlength
      rw [List.flatMap_cons, escape_of_plain hplain, ih (by omega)]
      rfl

/-- The loop that copies the string, in front of a null character that `sprintf` may write -/
theorem putEscaped_meets {E : PrintBuffer → Prop}
    (hbuffer : ∃ cells, p.buffer = some cells ∧ p.length ≤ cells.length ∧ cells.Holds before)
    (hi : i = before.length)
    (hfits : before.length + (input.flatMap escape).length + 1 ≤ p.length) :
  (putEscaped input i p).Meets
    (fun p' => ∃ cells, p' = { p with buffer := some cells } ∧ p.length ≤ cells.length ∧
      cells.Holds (before ++ input.flatMap escape))
    E
  := by
  induction input generalizing p before i with
  | nil =>
      obtain ⟨cells, hcells, hlength, hholds⟩ := hbuffer
      apply Checked.meets_done
      rw [List.flatMap_nil, List.append_nil]
      refine ⟨cells, ?_, hlength, hholds⟩
      rw [← hcells]
  | cons c input ih =>
      -- what is left to do behind the sequence for the character
      have hrest : ∀ cells n, p.length ≤ cells.length → Cells.Holds cells (before ++ escape c) →
          n = (before ++ escape c).length →
          (putEscaped input n { p with buffer := some cells }).Meets
            (fun p' => ∃ cells, p' = { p with buffer := some cells } ∧ p.length ≤ cells.length ∧
              cells.Holds (before ++ (c :: input).flatMap escape)) E := by
        intro cells n hlength hholds hn
        rw [List.flatMap_cons, List.length_append] at hfits
        refine (ih (p := { p with buffer := some cells }) ⟨cells, rfl, hlength, hholds⟩ hn ?_).mono ?_
          (fun _ => id)
        · dsimp only
          rw [List.length_append]
          omega
        · rintro _ ⟨cells', rfl, hlength', hholds'⟩
          rw [List.flatMap_cons, ← List.append_assoc]
          exact ⟨cells', rfl, hlength', hholds'⟩
      rw [List.flatMap_cons, List.length_append] at hfits
      rw [putEscaped]
      refine Checked.Meets.ite (fun hplain => ?_) (fun hplain => ?_)
      · rw [escape_of_plain hplain] at hrest hfits
        refine Checked.Meets.bind (PrintBuffer.put_meets hbuffer hi ?_) ?_
        · omega
        · rintro _ ⟨cells, rfl, hlength, hholds⟩
          apply hrest cells _ hlength hholds
          rw [List.length_append, hi]
          rfl
      have hlast : before.length + 1 ≤ p.length := by
        omega
      refine Checked.Meets.bind (PrintBuffer.put_meets hbuffer hi hlast) ?_
      rintro _ ⟨cells, rfl, hlength, hholds⟩
      have hnext : i + 1 = (before ++ [92]).length := by
        rw [List.length_append, hi, List.length_singleton]
      cases he : shortEscape c with
      | some e =>
          rw [escape_of_short hplain he] at hrest hfits
          rw [List.length_cons, List.length_singleton] at hfits
          refine Checked.Meets.bind
            (PrintBuffer.put_meets ⟨cells, rfl, hlength, hholds⟩ hnext ?_) ?_
          · rw [← hnext, hi, List.length_singleton]
            dsimp only
            omega
          · rintro _ ⟨cells', rfl, hlength', hholds'⟩
            rw [List.append_assoc] at hholds'
            apply hrest cells' _ hlength' hholds'
            rw [List.length_append, hi]
            rfl
      | none =>
          rw [escape_of_unicode hplain he] at hrest hfits
          rw [List.length_cons] at hfits
          refine Checked.Meets.bind
            (PrintBuffer.put_meets ⟨cells, rfl, hlength, hholds⟩ hnext ?_) ?_
          · rw [← hnext, hi, List.length_append, List.length_singleton]
            dsimp only
            omega
          · rintro _ ⟨cells', rfl, hlength', hholds'⟩
            rw [← List.append_assoc, List.append_assoc before] at hholds'
            apply hrest cells' _ hlength' hholds'.of_append
            rw [List.length_append, hi]
            rfl

/-- A text that has been stored in a buffer with room for it has been printed. -/
theorem printed_of_holds {cells : Cells UInt8} (hkeeps : p.Keeps p') (hp' : p'.Ready text)
    (hlength : p'.length ≤ cells.length) (hholds : cells.Holds (text ++ a ++ [0]))
    (hneeded : text.length + a.length + 2 ≤ p'.length) :
  p.Printed text a { p' with buffer := some cells }
  := by
  obtain ⟨hformat, hnoalloc, hlen, hallocates, hreallocates, hlive⟩ := hkeeps
  obtain ⟨_, hsome, -⟩ := hp'.buffer
  rw [hsome] at hlive
  refine ⟨⟨hformat, hnoalloc, hlen, hallocates, hreallocates, hlive⟩, ⟨cells, rfl, hlength, hholds⟩,
    hp'.offset.ge, ?_, hneeded, hp'.length⟩
  dsimp only
  rw [hp'.offset]
  apply Nat.le_add_right

/-- `print_string_ptr` prints the string, with its quotes. -/
theorem printStringPtr_renders (chars : Option (List UInt8)) :
  Renders format depth depth (printStringPtr chars) (some (renderString chars))
  := by
  cases chars with
  | none => exact printText_renders
  | some chars =>
      intro p text hformat hdepth hp
      have hescaped := length_flatMap_escape (cstring chars)
      have hrender : (renderString (some chars)).length =
          (cstring chars).length + escapeCharacters (cstring chars) + 2 := by
        rw [renderString, List.length_cons, List.length_append, Option.getD_some, hescaped]
        rfl
      refine Checked.Meets.bind ((PrintBuffer.ensure_meets hp).mono (fun _ => id) ?_) ?_
      · rintro p' ⟨hreleased, hblocked⟩
        refine ⟨hreleased, ?_⟩
        rintro _ ⟨⟩
        apply hblocked.mono (PrintBuffer.Keeps.refl p)
        omega
      rintro p₁ ⟨hkeeps, hdepth₁, hp₁, hneeded⟩
      have hroom : text.length + (renderString (some chars)).length + 2 ≤ p₁.length := by
        omega
      refine Checked.Meets.ite (fun hzero => ?_) (fun _ => ?_)
      · have hcopied : 34 :: cstring chars ++ [34, 0] = renderString (some chars) ++ [0] := by
          rw [renderString, Option.getD_some, flatMap_escape_of_eq_zero hzero, List.cons_append,
            List.cons_append, List.append_assoc]
          rfl
        rw [hcopied]
        refine (PrintBuffer.put_meets hp₁.buffer hp₁.offset ?_).mono ?_ (fun _ => id)
        · rw [List.length_append, List.length_singleton]
          omega
        · rintro _ ⟨cells, rfl, hlength, hholds⟩
          rw [← List.append_assoc] at hholds
          exact ⟨hdepth₁.trans hdepth, _, rfl, printed_of_holds hkeeps hp₁ hlength hholds hroom⟩
      · refine Checked.Meets.bind (PrintBuffer.put_meets hp₁.buffer hp₁.offset ?_) ?_
        · rw [List.length_singleton]
          omega
        rintro _ ⟨cells, rfl, hlength, hholds⟩
        have hnext : p₁.offset + 1 = (text ++ [34]).length := by
          rw [List.length_append, hp₁.offset, List.length_singleton]
        refine Checked.Meets.bind (putEscaped_meets ⟨cells, rfl, hlength, hholds⟩ hnext ?_) ?_
        · rw [← hnext, hp₁.offset]
          dsimp only
          omega
        rintro _ ⟨cells', rfl, hlength', hholds'⟩
        have hend : p₁.offset + ((cstring chars).length + escapeCharacters (cstring chars)) + 1 =
            (text ++ [34] ++ (cstring chars).flatMap escape).length := by
          rw [List.length_append, ← hnext, hescaped]
          omega
        refine (PrintBuffer.put_meets (p := { p₁ with buffer := some cells' })
          ⟨cells', rfl, hlength', hholds'⟩ hend ?_).mono ?_ (fun _ => id)
        · rw [← hend, hp₁.offset, List.length_cons, List.length_singleton]
          dsimp only
          omega
        · rintro _ ⟨cells'', rfl, hlength'', hholds''⟩
          have hprinted : text ++ [34] ++ (cstring chars).flatMap escape ++ [34, 0] =
              text ++ renderString (some chars) ++ [0] := by
            simp [renderString]
          rw [hprinted] at hholds''
          have hstring := printed_of_holds hkeeps hp₁ hlength'' hholds'' hroom
          exact ⟨hdepth₁.trans hdepth, _, rfl, hstring⟩

/-! ### Numbers -/

theorem appendText_renders :
  Renders format depth depth (PrintBuffer.appendText a) (some a)
  := by
  intro p text hformat hdepth hp
  refine Checked.Meets.bind ((printText_meets hp).mono (fun _ => id) ?_) ?_
  · rintro p' ⟨hreleased, hblocked⟩
    refine ⟨hreleased, ?_⟩
    rintro _ ⟨⟩
    exact hblocked
  · rintro p' ⟨hdepth', ⟨hformat', hnoalloc, hlen, hallocates, hreallocates, hlive⟩, hoffset, hcells,
      hneeded, hle⟩
    apply Checked.meets_done
    refine ⟨hdepth'.trans hdepth, a, rfl, ⟨⟨hformat', hnoalloc, hlen, hallocates, hreallocates, hlive⟩,
      hcells, ?_, ?_, hneeded, hle⟩⟩
    · dsimp only
      omega
    · dsimp only
      omega

/-- What `sprintf` prints of a number fits into `number_buffer`, and has no null character. -/
def SprintfFits (D : Type) [Double D] : Prop :=
  ∀ precision (d : D), precision ≤ 17 → Double.isFinite d = true →
    (Double.sprintf precision d).length ≤ 25 ∧ 0 ∉ Double.sprintf precision d

section

variable {D : Type} [Double D] {d : D}

theorem numberText_eq {ε : Type} (hsprintf : SprintfFits D) (d : D) :
  (numberText d : Checked ε (List UInt8)) = .done (renderNumber d)
  := by
  rw [numberText, renderNumber]
  split
  · rfl
  · rename_i hfinite
    rw [Bool.not_eq_true, Bool.not_eq_false] at hfinite
    have hshort := (hsprintf 15 d (by decide) hfinite).1
    have hlong := (hsprintf 17 d (by decide) hfinite).1
    rw [sprintf, if_pos (Nat.succ_le_succ hshort), Checked.done_bind]
    split
    · rfl
    · rw [sprintf, if_pos (Nat.succ_le_succ hlong)]

theorem printNumber_renders (hsprintf : SprintfFits D) :
  Renders format depth depth (printNumber d) (some (renderNumber d))
  := by
  apply Renders.of_eq appendText_renders
  intro p _ _
  rw [printNumber, numberText_eq hsprintf, Checked.done_bind]

theorem zero_notMem_renderNumber (hsprintf : SprintfFits D) (d : D) :
  0 ∉ renderNumber d
  := by
  rw [renderNumber]
  split
  · decide
  · rename_i hfinite
    rw [Bool.not_eq_true, Bool.not_eq_false] at hfinite
    split
    · exact (hsprintf 15 d (by decide) hfinite).2
    · exact (hsprintf 17 d (by decide) hfinite).2

end

/-! ### No null characters -/

/-- The text, if there is one, has no null character. -/
def NoNull (t : Option (List UInt8)) : Prop := ∀ a, t = some a → 0 ∉ a

theorem noNull_some :
  NoNull (some a) ↔ 0 ∉ a
  := by
  constructor
  · intro h
    exact h a rfl
  · rintro h _ ⟨⟩
    exact h

theorem NoNull.joined (h : NoNull t) (h' : NoNull t') :
  NoNull (joined t t')
  := by
  intro c hc
  obtain ⟨a, b, ha, hb, rfl⟩ := joined_eq_some.mp hc
  rw [List.mem_append, not_or]
  exact ⟨h a ha, h' b hb⟩

theorem hexDigit_ne_zero :
  ∀ n < 16, hexDigit n ≠ 0
  := by decide

theorem zero_notMem_escape (c : UInt8) :
  0 ∉ escape c
  := by
  by_cases hplain : 31 < c ∧ c ≠ 34 ∧ c ≠ 92
  · rw [escape_of_plain hplain, List.mem_singleton]
    rintro rfl
    exact absurd hplain.1 (by decide)
  · cases he : shortEscape c with
    | some e =>
        rw [escape_of_short hplain he, List.mem_pair]
        rintro (h | rfl)
        · exact absurd h (by decide)
        · rw [shortEscape] at he
          split_ifs at he <;> exact absurd (Option.some.inj he) (by decide)
    | none =>
        have hlt := c.toNat_lt
        have hhigh := (hexDigit_ne_zero (c.toNat / 16) (by omega)).symm
        have hlow := (hexDigit_ne_zero (c.toNat % 16) (by omega)).symm
        rw [escape_of_unicode hplain he, unicode]
        simp [hhigh, hlow]

theorem zero_notMem_cstring (chars : List UInt8) :
  0 ∉ cstring chars
  := by
  intro hmem
  have hchar := List.mem_takeWhile_imp hmem
  simp at hchar

theorem zero_notMem_renderString (chars : Option (List UInt8)) :
  0 ∉ renderString chars
  := by
  have hescape : 0 ∉ (cstring (chars.getD [])).flatMap escape := by
    rw [List.mem_flatMap]
    rintro ⟨c, -, hc⟩
    exact zero_notMem_escape c hc
  rw [renderString]
  simp [hescape]

theorem zero_notMem_tabs :
  0 ∉ tabs format depth
  := by
  cases format with
  | true =>
      intro hmem
      exact absurd (List.eq_of_mem_replicate hmem) (by decide)
  | false => exact List.not_mem_nil

theorem zero_notMem_separator {last : Bool} :
  0 ∉ separator format last
  := by
  cases format <;> cases last <;> decide

theorem zero_notMem_lineEnd {last : Bool} :
  0 ∉ lineEnd format last
  := by
  cases format <;> cases last <;> decide

section

variable {D : Type} [Double D] {items : List (Item D)}

theorem noNull_renderElements (h : ∀ item ∈ items, ∀ depth, NoNull (render format item depth)) :
  NoNull (renderElements format items depth)
  := by
  induction items with
  | nil => exact noNull_some.mpr List.not_mem_nil
  | cons item items ih =>
      have hrest := ih (fun item hitem => h item (List.mem_cons_of_mem _ hitem))
      rw [renderElements]
      exact (h item List.mem_cons_self depth).joined
        ((noNull_some.mpr zero_notMem_separator).joined hrest)

theorem noNull_renderMembers (h : ∀ item ∈ items, ∀ depth, NoNull (render format item depth)) :
  NoNull (renderMembers format items depth)
  := by
  induction items with
  | nil => exact noNull_some.mpr List.not_mem_nil
  | cons item items ih =>
      have hrest := ih (fun item hitem => h item (List.mem_cons_of_mem _ hitem))
      have hcolon : NoNull (some (colon format)) := by
        rw [noNull_some]
        cases format <;> decide
      rw [renderMembers]
      exact (noNull_some.mpr zero_notMem_tabs).joined
        ((noNull_some.mpr (zero_notMem_renderString _)).joined (hcolon.joined
          ((h item List.mem_cons_self depth).joined
            ((noNull_some.mpr zero_notMem_lineEnd).joined hrest))))

/-- The text of an item is a string. -/
theorem noNull_render (hsprintf : SprintfFits D) (item : Item D) :
  ∀ depth, NoNull (render format item depth)
  := by
  induction item using Item.induction with
  | h item ih =>
      intro depth
      obtain ⟨type, valuestring, _, valuedouble, _, child⟩ := item
      dsimp only at ih
      simp only [render]
      split_ifs
      · exact noNull_some.mpr (by decide)
      · exact noNull_some.mpr (by decide)
      · exact noNull_some.mpr (by decide)
      · exact noNull_some.mpr (zero_notMem_renderNumber hsprintf valuedouble)
      · cases valuestring with
        | none => exact nofun
        | some chars => exact noNull_some.mpr (zero_notMem_cstring chars)
      · exact noNull_some.mpr (zero_notMem_renderString valuestring)
      · exact (noNull_some.mpr (by decide)).joined
          ((noNull_renderElements ih).joined (noNull_some.mpr (by decide)))
      · have hbrace : NoNull (some (openBrace format)) := by
          rw [noNull_some]
          cases format <;> decide
        have hclose : NoNull (some (tabs format depth ++ [125])) := by
          rw [noNull_some, List.mem_append, not_or]
          exact ⟨zero_notMem_tabs, by decide⟩
        exact hbrace.joined ((noNull_renderMembers ih).joined hclose)
      · exact nofun

/-! ### Arrays and objects -/

theorem separate_appends {last : Bool} :
  Appends format depth depth (PrintBuffer.separate last) (some (separator format last))
  := by
  cases last with
  | true => exact appends_nil
  | false =>
      apply Appends.of_eq appendText_appends
      rintro p rfl _
      rfl

theorem indent_appends :
  Appends format depth depth PrintBuffer.indent (some (tabs format depth))
  := by
  cases format with
  | true =>
      have hlength : (List.replicate depth (9 : UInt8)).length = depth := List.length_replicate
      apply Appends.of_eq (append_appends hlength.le (hlength.ge.trans (Nat.le_succ _)))
      rintro p hformat rfl
      rw [PrintBuffer.indent, if_pos hformat]
  | false =>
      apply Appends.of_eq appends_nil
      intro p hformat _
      rw [PrintBuffer.indent, hformat]
      rfl

theorem colon_appends :
  Appends format depth depth (fun p => p.append (if p.format then 2 else 1) (colon p.format))
    (some (colon format))
  := by
  have hlength : (if format then 2 else 1) = (colon format).length := by
    cases format <;> rfl
  apply Appends.of_eq (append_appends hlength.ge (hlength.le.trans (Nat.le_succ _)))
  rintro p rfl _
  rfl

theorem lineEnd_appends {last : Bool} :
  Appends format depth depth (fun p => p.appendText (lineEnd p.format last))
    (some (lineEnd format last))
  := by
  apply Appends.of_eq appendText_appends
  rintro p rfl _
  rfl

/-- The loop of `print_array` -/
theorem printElements_appends (hsprintf : SprintfFits D)
    (h : ∀ item ∈ items, ∀ depth,
      Renders format depth depth (printValue item) (render format item depth)) :
  Appends format depth depth (fun p => printElements items p) (renderElements format items depth)
  := by
  induction items with
  | nil => exact appends_nil
  | cons item items ih =>
      have hrest := ih (fun item hitem => h item (List.mem_cons_of_mem _ hitem))
      exact (h item List.mem_cons_self depth).seq (noNull_render hsprintf item depth)
        (separate_appends.seq hrest)

/-- The loop of `print_object` -/
theorem printMembers_appends (hsprintf : SprintfFits D)
    (h : ∀ item ∈ items, ∀ depth,
      Renders format depth depth (printValue item) (render format item depth)) :
  Appends format depth depth (fun p => printMembers items p) (renderMembers format items depth)
  := by
  induction items with
  | nil => exact appends_nil
  | cons item items ih =>
      have hrest := ih (fun item hitem => h item (List.mem_cons_of_mem _ hitem))
      have hname : NoNull (some (renderString item.string)) :=
        noNull_some.mpr (zero_notMem_renderString _)
      exact indent_appends.seq ((printStringPtr_renders item.string).seq hname (colon_appends.seq
        ((h item List.mem_cons_self depth).seq (noNull_render hsprintf item depth)
          (lineEnd_appends.seq hrest))))

/-- `print_array` prints the brackets around what the loop prints. -/
theorem printArray_renders {loop : PrintBuffer → Checked PrintBuffer PrintBuffer}
    (h : Appends format (depth + 1) (depth + 1) loop t) :
  Renders format depth depth (printArray loop) (joined (some [91]) (joined t (some [93])))
  := by
  have hopen : Appends format depth depth (PrintBuffer.append 1 [91]) (some [91]) :=
    append_appends (by decide) (by decide)
  have hclose : Renders format (depth + 1) (depth + 1) (PrintBuffer.printText [93]) (some [93]) :=
    printText_renders
  exact hopen.renders (h.deeper.renders hclose.shallower)

theorem openBrace_appends :
  Appends format depth depth
    (fun p => p.append ((if p.format then 2 else 1) + 1) (if p.format then [123, 10] else [123]))
    (some (openBrace format))
  := by
  have hlength : (if format then 2 else 1) = (openBrace format).length := by
    cases format <;> rfl
  have happends : Appends format depth depth
      (PrintBuffer.append ((if format then 2 else 1) + 1) (openBrace format))
      (some (openBrace format)) :=
    append_appends (hlength.ge.trans (Nat.le_succ _)) (Nat.succ_le_succ hlength.le)
  apply happends.of_eq
  rintro p rfl _
  rfl

theorem closeBrace_renders :
  Renders format (depth + 1) (depth + 1)
    (fun p => p.ensure (if p.format then p.depth + 1 else 2) >>= fun p =>
      p.put p.offset ((if p.format then List.replicate (p.depth - 1) 9 else []) ++ [125, 0]))
    (some (tabs format depth ++ [125]))
  := by
  rintro p text hformat hdepth hp
  have hneeded : (if p.format then p.depth + 1 else 2) = (tabs format depth ++ [125]).length + 1 := by
    rw [hformat, hdepth, tabs, List.length_append, List.length_singleton]
    split
    · rw [List.length_replicate]
    · rfl
  dsimp only
  rw [hneeded]
  refine Checked.Meets.bind ((PrintBuffer.ensure_meets hp).mono (fun _ => id) ?_) ?_
  · rintro p' ⟨hreleased, hblocked⟩
    refine ⟨hreleased, ?_⟩
    rintro _ ⟨⟩
    exact hblocked
  rintro p₁ ⟨hkeeps, hdepth₁, hp₁, hlength₁⟩
  have hbytes : (if p₁.format then List.replicate (p₁.depth - 1) 9 else []) ++ [125, 0] =
      (tabs format depth ++ [125]) ++ [0] := by
    rw [hkeeps.format, hformat, hdepth₁, hdepth, List.append_assoc]
    rfl
  rw [hbytes]
  refine (PrintBuffer.put_meets hp₁.buffer hp₁.offset ?_).mono ?_ (fun _ => id)
  · have hzero : (tabs format depth ++ [125] ++ [0]).length = (tabs format depth ++ [125]).length + 1 :=
      List.length_append
    omega
  · rintro _ ⟨cells, rfl, hlength, hholds⟩
    rw [← List.append_assoc] at hholds
    exact ⟨hdepth₁.trans hdepth, _, rfl, printed_of_holds hkeeps hp₁ hlength hholds hlength₁⟩

/-- `print_object` prints the braces around what the loop prints. -/
theorem printObject_renders {loop : PrintBuffer → Checked PrintBuffer PrintBuffer}
    (h : Appends format (depth + 1) (depth + 1) loop t) :
  Renders format depth depth (printObject loop)
    (joined (some (openBrace format)) (joined t (some (tabs format depth ++ [125]))))
  := by
  have hbrace : Renders format (depth + 1) (depth + 1) _ (some (tabs format depth ++ [125])) :=
    closeBrace_renders
  have hclose := hbrace.shallower
  simp only [Checked.bind_assoc] at hclose
  exact openBrace_appends.renders (h.deeper.renders hclose)

/-! ### Values -/

/-- An item that has no text -/
theorem failed_renders :
  Renders format depth depth' (fun p => .failed p) none
  := by
  intro p text _ _ _
  exact Checked.meets_failed ⟨rfl, nofun⟩

theorem printRaw_renders {chars : Option (List UInt8)} :
  Renders format depth depth (printRaw chars) (chars.map cstring)
  := by
  cases chars with
  | none => exact failed_renders
  | some chars => exact printText_renders

theorem Renders.ite {c : Prop} [Decidable c] {f g : PrintBuffer → Checked PrintBuffer PrintBuffer}
    (hf : c → Renders format depth depth' f t) (hg : ¬ c → Renders format depth depth' g t') :
  Renders format depth depth' (fun p => if c then f p else g p) (if c then t else t')
  := by
  split
  · rename_i hc
    exact hf hc
  · rename_i hc
    exact hg hc

/-- The printer prints the text of an item. -/
theorem printValue_renders (hsprintf : SprintfFits D) (item : Item D) :
  ∀ depth, Renders format depth depth (printValue item) (render format item depth)
  := by
  induction item using Item.induction with
  | h item ih =>
      intro depth
      obtain ⟨type, valuestring, _, valuedouble, _, child⟩ := item
      dsimp only at ih
      simp only [render]
      refine Renders.ite (fun _ => printText_renders) (fun _ => ?_)
      refine Renders.ite (fun _ => printText_renders) (fun _ => ?_)
      refine Renders.ite (fun _ => printText_renders) (fun _ => ?_)
      refine Renders.ite (fun _ => printNumber_renders hsprintf) (fun _ => ?_)
      refine Renders.ite (fun _ => printRaw_renders) (fun _ => ?_)
      refine Renders.ite (fun _ => printStringPtr_renders valuestring) (fun _ => ?_)
      refine Renders.ite (fun _ => ?_) (fun _ => ?_)
      · exact printArray_renders (printElements_appends hsprintf ih)
      refine Renders.ite (fun _ => ?_) (fun _ => failed_renders)
      · exact printObject_renders (printMembers_appends hsprintf ih)

/-! ### Texts -/

omit [Double D] in
theorem start_ready {cells : Cells UInt8} {length : ℕ} {noalloc : Bool} {hooks : Hooks}
    (hle : length ≤ cells.length) (hmax : length ≤ intMax)
    (hlive : noalloc = false → 0 < hooks.live)
    (hpos : 0 < length ∨ noalloc = true ∨ hooks.reallocates = true) :
  (PrintBuffer.start (some cells) length noalloc format hooks).Ready []
  := by
  refine ⟨⟨cells, rfl, hle, Cells.holds_nil⟩, rfl, hmax, hlive, ?_⟩
  rcases Nat.eq_zero_or_pos length with rfl | hlength
  · exact Or.inr ⟨rfl, hpos.resolve_left (lt_irrefl 0)⟩
  · exact Or.inl hlength

/-- `cJSON_PrintPreallocated` succeeds exactly when the item has a text, and the caller's buffer two
bytes more than that.  Whatever happens, it stays inside of the buffer. -/
theorem printPreallocated_meets (hsprintf : SprintfFits D) (item : Item D) (cells : Cells UInt8)
    (len : ℤ) (format : Bool) (hooks : Hooks) (hcells : len ≤ cells.length) (hlen : len ≤ intMax) :
  (printPreallocated item (some cells) len format hooks).Meets
    (fun p => ∃ text, render format item 0 = some text ∧ (text.length : ℤ) + 2 ≤ len ∧
      ∃ cells', p.buffer = some cells' ∧ cells'.Holds (text ++ [0]))
    (fun _ => ∀ text, render format item 0 = some text → len < (text.length : ℤ) + 2)
  := by
  refine Checked.Meets.ite (fun hnegative => ?_) (fun hnegative => ?_)
  · refine Checked.meets_failed (fun text _ => ?_)
    rcases hnegative with hnegative | hnone
    · omega
    · cases hnone
  rw [not_or, not_lt] at hnegative
  obtain ⟨hpos, -⟩ := hnegative
  have hready : (PrintBuffer.start (some cells) len.toNat true format hooks).Ready [] :=
    start_ready (by omega) (by omega) nofun (Or.inr (Or.inl rfl))
  have hroom : (PrintBuffer.start (some cells) len.toNat true format hooks).room = len.toNat := rfl
  apply (printValue_renders hsprintf item 0 _ [] rfl rfl hready).mono
  · rintro p ⟨-, text, htext, hprinted⟩
    have hle := hprinted.le_room
    rw [hroom, List.length_nil] at hle
    obtain ⟨cells', hcells', -, hholds⟩ := hprinted.buffer
    exact ⟨text, htext, by omega, cells', hcells', hholds⟩
  · rintro p ⟨-, hblocked⟩ text htext
    rcases hblocked text htext with hlt | ⟨hnot, -⟩
    · rw [hroom, List.length_nil] at hlt
      omega
    · cases hnot

/-- What is in the buffer has been freed. -/
theorem fail_released {α : Type} {P : α → Prop} {live : ℕ} (h : p.Released p')
    (hbuffer : p.buffer.isSome) (hlive : p.hooks.live = live + 1) :
  (p'.fail : Checked Hooks α).Meets P
    (fun hooks => hooks.live = live ∧ hooks.allocations = p'.hooks.allocations)
  := by
  obtain ⟨_, hsome⟩ := Option.isSome_iff_exists.mp hbuffer
  rw [PrintBuffer.Released, hsome, hlive] at h
  rw [PrintBuffer.fail]
  cases hbuffer' : p'.buffer with
  | none =>
      rw [hbuffer'] at h
      exact Checked.meets_failed ⟨Nat.add_right_cancel h, rfl⟩
  | some cells =>
      rw [hbuffer'] at h
      have hlive' : p'.hooks.live = live + 1 := Nat.add_right_cancel h
      rw [Hooks.deallocate_of_le (by omega)]
      refine Checked.meets_failed ⟨?_, rfl⟩
      dsimp only
      omega

omit [Double D] in
/-- What `print` returns -/
theorem finish_meets {cells : Cells UInt8} {live : ℕ} (hcells : p.buffer = some cells)
    (hholds : cells.Holds (text ++ [0])) (hoffset : p.offset = text.length)
    (hlength : p.offset < p.length) (hle : p.length ≤ cells.length)
    (hlive : p.hooks.live = live + 1) :
  p.finish.Meets
    (fun (printed, hooks) => printed = (text ++ [0]).map some ∧ hooks.live = live + 1)
    (fun hooks => hooks.live = live ∧ p.hooks.Refused hooks)
  := by
  have hend : (text ++ [0]).length = p.offset + 1 := by
    rw [List.length_append, hoffset, List.length_singleton]
  have hreleased : ∀ hooks : Hooks, hooks.live = p.hooks.live →
      p.Released { p with buffer := some cells, hooks := hooks } := by
    intro hooks h
    rw [PrintBuffer.Released, hcells, h]
  rw [PrintBuffer.finish, hcells, Checked.access_some, Checked.done_bind]
  refine Checked.Meets.ite (fun _ => ?_) (fun _ => ?_)
  · rw [Hooks.reallocate_eq]
    cases hgrants : p.hooks.grants p.hooks.allocations with
    | false =>
        refine (fail_released (p := p) ?_ (Option.isSome_of_eq_some hcells) hlive).mono
          (fun _ => id) (fun hooks h => ⟨h.1, Hooks.refused_of_not_grants hgrants h.2⟩)
        apply hreleased
        rfl
    | true =>
        refine Checked.meets_done ⟨?_, hlive⟩
        apply (hholds.resize hend.le).eq_map
        rw [Cells.length_resize, hend]
  · cases hgrants : p.hooks.grants p.hooks.allocations with
    | false =>
        rw [Hooks.allocate_of_not_grants hgrants]
        refine (fail_released (p := p) ?_ (Option.isSome_of_eq_some hcells) hlive).mono
          (fun _ => id) (fun hooks h => ⟨h.1, Hooks.refused_of_not_grants hgrants h.2⟩)
        apply hreleased
        rfl
    | true =>
        have hmin : min p.length (p.offset + 1) = p.offset + 1 := Nat.min_eq_right hlength
        have hcopied : Cells.Holds (Cells.resize (cells.take (p.offset + 1)) (p.offset + 1)) text :=
          ((hholds.of_take hend.le).resize hend.le).of_append
        have hfits : text.length + [(0 : UInt8)].length ≤
            (Cells.resize (cells.take (p.offset + 1)) (p.offset + 1)).length := by
          rw [Cells.length_resize, hoffset, List.length_singleton]
        obtain ⟨printed, hwrite, hprinted, hsize⟩ := hcopied.write hfits
        rw [← hoffset] at hwrite
        rw [Hooks.allocate_of_grants hgrants]
        dsimp only
        rw [hmin, if_neg (by omega), hwrite, Checked.access_some, Checked.done_bind,
          Hooks.deallocate_of_le (Nat.le_add_left _ _)]
        refine Checked.meets_done ⟨?_, hlive⟩
        apply hprinted.eq_map
        rw [hsize, Cells.length_resize, hend]

/-- Printing to a buffer that belongs to the printer -/
theorem start_meets {hooks : Hooks} {length : ℕ} {cells : Cells UInt8} (hsprintf : SprintfFits D)
    (item : Item D)
    (hready : (PrintBuffer.start (some cells) length false format hooks).Ready []) :
  (printValue item (PrintBuffer.start (some cells) length false format hooks)).Meets
    (fun p => ∃ text, render format item 0 = some text ∧ text.length + 2 ≤ intMax ∧
      (PrintBuffer.start (some cells) length false format hooks).Printed [] text p)
    (fun p => (PrintBuffer.start (some cells) length false format hooks).Released p ∧
      ∀ text, render format item 0 = some text → text.length + 2 ≤ intMax →
        hooks.Refused p.hooks)
  := by
  have hroom : (PrintBuffer.start (some cells) length false format hooks).room = intMax := rfl
  apply (printValue_renders hsprintf item 0 _ [] rfl rfl hready).mono
  · rintro p ⟨-, text, htext, hprinted⟩
    have hle := hprinted.le_room
    rw [hroom, List.length_nil, Nat.zero_add] at hle
    exact ⟨text, htext, hle, hprinted⟩
  · rintro p ⟨hreleased, hblocked⟩
    refine ⟨hreleased, fun text htext hle => ?_⟩
    rcases hblocked text htext with hlt | ⟨-, hrefused⟩
    · rw [hroom, List.length_nil] at hlt
      omega
    · exact hrefused

/-- `print`, with a buffer -/
theorem print_granted {hooks : Hooks} {live length : ℕ} {cells : Cells UInt8}
    (hsprintf : SprintfFits D) (item : Item D) (hle : length ≤ cells.length)
    (hmax : length ≤ intMax) (hpos : 0 < length) (hlive : hooks.live = live + 1) :
  ((printValue item (PrintBuffer.start (some cells) length false format hooks)
      >>= PrintBuffer.updateOffset).onFail PrintBuffer.fail >>= PrintBuffer.finish).Meets
    (fun (printed, hooks') => ∃ text, render format item 0 = some text ∧
      text.length + 2 ≤ intMax ∧ printed = (text ++ [0]).map some ∧ hooks'.live = live + 1)
    (fun hooks' => hooks'.live = live ∧
      ∀ text, render format item 0 = some text → text.length + 2 ≤ intMax → hooks.Refused hooks')
  := by
  have hready : (PrintBuffer.start (some cells) length false format hooks).Ready [] :=
    start_ready hle hmax (fun _ => by omega) (Or.inl hpos)
  -- the text is in the buffer, and the offset behind it
  refine Checked.Meets.bind (P := fun p => ∃ text cells, render format item 0 = some text ∧
    text.length + 2 ≤ intMax ∧ p.buffer = some cells ∧ cells.Holds (text ++ [0]) ∧
    p.offset = text.length ∧ p.offset < p.length ∧ p.length ≤ cells.length ∧
    p.hooks.live = live + 1 ∧ hooks.Allocates p.hooks) ?_ ?_
  · refine Checked.Meets.onFail (Checked.Meets.bind (start_meets hsprintf item hready) ?_) ?_
    · rintro p ⟨text, htext, hfits, hprinted⟩
      obtain ⟨cells', hcells', hlength, hholds⟩ := hprinted.buffer
      have hneeded := hprinted.le_length
      refine (PrintBuffer.updateOffset_meets hready hprinted
        (noNull_render hsprintf item 0 text htext)).mono ?_ (fun _ => id)
      rintro p' ⟨-, hkeeps, hp', hbuffer, hlength'⟩
      have hlive' := hkeeps.live
      rw [hbuffer, hcells'] at hlive'
      have hoffset := hp'.offset
      rw [List.nil_append] at hoffset hholds
      rw [List.length_nil] at hneeded
      refine ⟨text, cells', htext, hfits, hbuffer.trans hcells', hholds, hoffset, by omega, by omega,
        ?_, hkeeps.allocates⟩
      rw [← hlive]
      exact Nat.add_right_cancel hlive'
    · rintro p ⟨hreleased, hblocked⟩
      refine (fail_released hreleased rfl hlive).mono (fun _ => id) ?_
      rintro hooks' ⟨hlive', hsame⟩
      exact ⟨hlive', fun text htext hle => (hblocked text htext hle).mono hsame.ge⟩
  · rintro p ⟨text, cells, htext, hfits, hcells, hholds, hoffset, hlt, hlength, hlive, hallocates⟩
    apply (finish_meets hcells hholds hoffset hlt hlength hlive).mono
    · rintro ⟨printed, hooks'⟩ ⟨hprinted, hlive'⟩
      exact ⟨text, htext, hfits, hprinted, hlive'⟩
    · rintro hooks' ⟨hlive', hrefused⟩
      exact ⟨hlive', fun _ _ _ => hrefused.of_allocates hallocates⟩

/-- `cJSON_Print` and `cJSON_PrintUnformatted` return the text of an item if there is enough memory
for it.  If they do not, what they have allocated has been freed. -/
theorem print_meets (hsprintf : SprintfFits D) (item : Item D) (format : Bool) (hooks : Hooks) :
  (print item format hooks).Meets
    (fun (printed, hooks') => ∃ text, render format item 0 = some text ∧
      text.length + 2 ≤ intMax ∧ printed = (text ++ [0]).map some ∧
      hooks'.live = hooks.live + 1)
    (fun hooks' => hooks'.live = hooks.live ∧
      ∀ text, render format item 0 = some text → text.length + 2 ≤ intMax → hooks.Refused hooks')
  := by
  rw [print]
  cases hgrants : hooks.grants hooks.allocations with
  | false =>
      rw [Hooks.allocate_of_not_grants hgrants]
      exact Checked.meets_failed ⟨rfl, fun _ _ _ => Hooks.refused_of_not_grants hgrants rfl⟩
  | true =>
      rw [Hooks.allocate_of_grants hgrants]
      have hmax : 256 ≤ intMax := by decide
      have hlive : Hooks.live { hooks with
          allocations := hooks.allocations + 1
          live := hooks.live + 1 } = hooks.live + 1 := rfl
      refine (print_granted hsprintf item Cells.length_new.ge hmax (Nat.succ_pos _) hlive).mono
        (fun _ => id) ?_
      rintro hooks' ⟨hlive', hblocked⟩
      refine ⟨hlive', fun text htext hle => ?_⟩
      exact (hblocked text htext hle).of_allocates ⟨rfl, Nat.le_succ _⟩

/-- `cJSON_PrintBuffered` returns the text of an item as well.  A buffer of no bytes cannot be copied
to a larger one, which takes `reallocate`. -/
theorem printBuffered_meets (hsprintf : SprintfFits D) (item : Item D) (prebuffer : ℤ)
    (format : Bool) (hooks : Hooks) (hmax : prebuffer ≤ intMax)
    (hzero : prebuffer = 0 → hooks.reallocates = true) :
  (printBuffered item prebuffer format hooks).Meets
    (fun (printed, hooks') => ∃ text, render format item 0 = some text ∧
      text.length + 2 ≤ intMax ∧ printed.Holds (text ++ [0]) ∧ hooks'.live = hooks.live + 1)
    (fun hooks' => hooks'.live = hooks.live ∧
      ∀ text, render format item 0 = some text → text.length + 2 ≤ intMax →
        prebuffer < 0 ∨ hooks.Refused hooks')
  := by
  refine Checked.Meets.ite (fun hnegative => ?_) (fun hnegative => ?_)
  · exact Checked.meets_failed ⟨rfl, fun _ _ _ => Or.inl hnegative⟩
  cases hgrants : hooks.grants hooks.allocations with
  | false =>
      rw [Hooks.allocate_of_not_grants hgrants]
      exact Checked.meets_failed
        ⟨rfl, fun _ _ _ => Or.inr (Hooks.refused_of_not_grants hgrants rfl)⟩
  | true =>
      rw [Hooks.allocate_of_grants hgrants]
      have hpos : 0 < prebuffer.toNat ∨ hooks.reallocates = true := by
        rcases eq_or_ne prebuffer 0 with heq | hne
        · exact Or.inr (hzero heq)
        · exact Or.inl (by omega)
      have hready : (PrintBuffer.start (some (Cells.new prebuffer.toNat)) prebuffer.toNat false format
          { hooks with allocations := hooks.allocations + 1, live := hooks.live + 1 }).Ready [] :=
        start_ready Cells.length_new.ge (by omega) (fun _ => Nat.succ_pos _)
          (hpos.imp_right Or.inr)
      refine Checked.Meets.bind (Checked.Meets.onFail (start_meets hsprintf item hready) ?_) ?_
      · rintro p ⟨hreleased, hblocked⟩
        refine (fail_released hreleased rfl rfl).mono (fun _ => id) ?_
        rintro hooks' ⟨hlive, hsame⟩
        refine ⟨hlive, fun text htext hle => Or.inr ?_⟩
        exact ((hblocked text htext hle).mono hsame.ge).of_allocates ⟨rfl, Nat.le_succ _⟩
      · rintro p ⟨text, htext, hfits, hprinted⟩
        obtain ⟨cells', hcells', -, hholds⟩ := hprinted.buffer
        have hlive := hprinted.toKeeps.live
        rw [hcells'] at hlive
        rw [hcells', Checked.access_some, Checked.done_bind]
        exact Checked.meets_done ⟨text, htext, hfits, hholds, Nat.add_right_cancel hlive⟩

end

/-! ### A few numbers -/

theorem sprintf_few (precision : ℕ) (number : Few) :
  Double.sprintf precision number = number.short ∨ Double.sprintf precision number = number.long
  := by
  by_cases h : precision ≤ 15
  · exact Or.inl (if_pos h)
  · exact Or.inr (if_neg h)

theorem sprintfFits_few :
  SprintfFits Few
  := by
  intro precision number _ _
  have hshort : ∀ number : Few, number.short.length ≤ 25 ∧ 0 ∉ number.short := by
    rintro ⟨⟩ <;> decide
  have hlong : ∀ number : Few, number.long.length ≤ 25 ∧ 0 ∉ number.long := by
    rintro ⟨⟩ <;> decide
  rcases sprintf_few precision number with h | h
  · rw [h]
    exact hshort number
  · rw [h]
    exact hlong number

/-- The item of a number -/
def Few.item (number : Few) (valueint : ℤ) : Item Few :=
  ⟨cJsonNumber, none, valueint, number, none, []⟩

/-- The array `[0.33333333333333331,-1.5e-07,1e+15,null]` -/
def numbers : Item Few :=
  ⟨cJsonArray, none, 0, Few.zero, none,
    [Few.third.item 0, Few.negative.item 0, Few.large.item intMax, Few.nan.item 0]⟩

/-- The second allocation fails. -/
def failing : Hooks := ⟨fun n => n ≠ 1, true, 0, 0⟩

/-- The text has 41 characters and the buffer two bytes more. -/
theorem printPreallocated_meets_numbers :
  SprintfFits Few ∧ (43 : ℤ) ≤ (Cells.new 43 : Cells UInt8).length ∧ (43 : ℤ) ≤ intMax ∧
    (printPreallocated numbers (some (Cells.new 43)) 43 false failing).Meets
      (fun p => ∃ text, render false numbers 0 = some text ∧ (text.length : ℤ) + 2 ≤ 43 ∧
        ∃ cells', p.buffer = some cells' ∧ cells'.Holds (text ++ [0]))
      (fun _ => ∀ text, render false numbers 0 = some text → 43 < (text.length : ℤ) + 2)
  := by
  have hcells : (43 : ℤ) ≤ (Cells.new 43 : Cells UInt8).length := by decide
  have hlen : (43 : ℤ) ≤ intMax := by decide
  exact ⟨sprintfFits_few, hcells, hlen,
    printPreallocated_meets sprintfFits_few numbers (Cells.new 43) 43 false failing hcells hlen⟩

theorem print_meets_numbers :
  SprintfFits Few ∧
    (print numbers true failing).Meets
      (fun (printed, hooks') => ∃ text, render true numbers 0 = some text ∧
        text.length + 2 ≤ intMax ∧ printed = (text ++ [0]).map some ∧
        hooks'.live = failing.live + 1)
      (fun hooks' => hooks'.live = failing.live ∧
        ∀ text, render true numbers 0 = some text → text.length + 2 ≤ intMax →
          failing.Refused hooks')
  := ⟨sprintfFits_few, print_meets sprintfFits_few numbers true failing⟩

/-- A buffer of no bytes that is reallocated -/
theorem printBuffered_meets_zero :
  SprintfFits Few ∧ (0 : ℤ) ≤ intMax ∧ ((0 : ℤ) = 0 → failing.reallocates = true) ∧
    (printBuffered numbers 0 true failing).Meets
      (fun (printed, hooks') => ∃ text, render true numbers 0 = some text ∧
        text.length + 2 ≤ intMax ∧ printed.Holds (text ++ [0]) ∧
        hooks'.live = failing.live + 1)
      (fun hooks' => hooks'.live = failing.live ∧
        ∀ text, render true numbers 0 = some text → text.length + 2 ≤ intMax →
          (0 : ℤ) < 0 ∨ failing.Refused hooks')
  := by
  have hmax : (0 : ℤ) ≤ intMax := by decide
  have hzero : (0 : ℤ) = 0 → failing.reallocates = true := fun _ => rfl
  exact ⟨sprintfFits_few, hmax, hzero,
    printBuffered_meets sprintfFits_few numbers 0 true failing hmax hzero⟩

/-- Without `reallocate` the byte that is copied from the buffer of no bytes is not there. -/
example : printBuffered numbers 0 true ⟨fun _ => true, false, 0, 0⟩ = .undefined := rfl

end

end CJson
