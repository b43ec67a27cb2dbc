import Orgrim.CJson.Print

/-!
# What is printed

`render` is the text of an item, if it has one.  `Renders f text` says of a function of the printer
that it prints the text and a null character where the buffer is, and `Appends f text` that it
also moves the offset behind the text.  Neither makes an undefined access; both fail only if there
is no text, if the buffer may not have two bytes more than the text, or if one of their allocations
fails, and then what has been allocated is what is still in the buffer.  There is a rule for each way in
which the functions of the printer are put together.
-/

namespace CJson

/-! ### Texts -/

/-- One text behind the other -/
def joined (text more : Option (List UInt8)) : Option (List UInt8) :=
  text.bind (fun a => more.map (fun b => a ++ b))

/-- A character of a string -/
def escape (c : UInt8) : List UInt8 :=
  if 31 < c ∧ c ≠ 34 ∧ c ≠ 92 then [c]
  else
    match shortEscape c with
    | some e => [92, e]
    | none => 92 :: unicode c

/-- A string, with its quotes -/
def renderString (chars : Option (List UInt8)) : List UInt8 :=
  34 :: ((cstring (chars.getD [])).flatMap escape ++ [34])

/-- The tabulators in front of a line -/
def tabs (format : Bool) (depth : ℕ) : List UInt8 := if format then List.replicate depth 9 else []

/-- The brace that opens an object -/
def openBrace (format : Bool) : List UInt8 := if format then [123, 10] else [123]

section

variable {D : Type} [Double D]

/-- A number -/
def renderNumber (d : D) : List UInt8 :=
  if ¬ Double.isFinite d then [110, 117, 108, 108]
  else if ∃ test ∈ (Double.sscanf (Double.sprintf 15 d) : Option D), Double.equal test d = true then
    Double.sprintf 15 d
  else Double.sprintf 17 d

mutual

/-- The text of an item -/
def render (format : Bool) : Item D → ℕ → Option (List UInt8)
  | ⟨type, valuestring, _, valuedouble, _, child⟩, depth =>
      let kind := type &&& 0xFF
      if kind = cJsonNull then some [110, 117, 108, 108]
      else if kind = cJsonFalse then some [102, 97, 108, 115, 101]
      else if kind = cJsonTrue then some [116, 114, 117, 101]
      else if kind = cJsonNumber then some (renderNumber valuedouble)
      else if kind = cJsonRaw then valuestring.map cstring
      else if kind = cJsonString then some (renderString valuestring)
      else if kind = cJsonArray then
        joined (some [91]) (joined (renderElements format child (depth + 1)) (some [93]))
      else if kind = cJsonObject then
        joined (some (openBrace format))
          (joined (renderMembers format child (depth + 1)) (some (tabs format depth ++ [125])))
      else none

/-- The text of the elements of an array -/
def renderElements (format : Bool) : List (Item D) → ℕ → Option (List UInt8)
  | [], _ => some []
  | item :: items, depth =>
      joined (render format item depth)
        (joined (some (separator format items.isEmpty)) (renderElements format items depth))

/-- The text of the members of an object -/
def renderMembers (format : Bool) : List (Item D) → ℕ → Option (List UInt8)
  | [], _ => some []
  | item :: items, depth =>
      joined (some (tabs format depth)) (joined (some (renderString item.string))
        (joined (some (colon format)) (joined (render format item depth)
          (joined (some (lineEnd format items.isEmpty)) (renderMembers format items depth)))))

end

end

section

variable {text more : Option (List UInt8)} {a b t : List UInt8}

@[simp]
theorem joined_some :
  joined (some a) (some b) = some (a ++ b)
  := rfl

theorem joined_eq_some :
  joined text more = some t ↔ ∃ a b, text = some a ∧ more = some b ∧ a ++ b = t
  := by
  cases text <;> cases more <;> simp [joined]

end

/-! ### What the buffer keeps -/

namespace PrintBuffer

/-- How many bytes the buffer may have -/
def room (p : PrintBuffer) : ℕ := if p.noalloc then p.length else intMax

/-- What every function of the printer leaves as it is -/
structure Keeps (p p' : PrintBuffer) : Prop where
  format : p'.format = p.format
  noalloc : p'.noalloc = p.noalloc
  length : p.noalloc = true → p'.length = p.length
  allocates : p.hooks.Allocates p'.hooks
  reallocates : p'.hooks.reallocates = p.hooks.reallocates
  live : p'.hooks.live + p.buffer.toList.length = p.hooks.live + p'.buffer.toList.length

/-- What has been allocated is what is in the buffer. -/
def Released (p p' : PrintBuffer) : Prop :=
  p'.hooks.live + p.buffer.toList.length = p.hooks.live + p'.buffer.toList.length

/-- There may be no room for as many bytes, or there has been no memory for them. -/
def Blocked (p : PrintBuffer) (needed : ℕ) (p' : PrintBuffer) : Prop :=
  p.room < needed ∨ p.noalloc = false ∧ p.hooks.Refused p'.hooks

/-- The buffer has been filled with a text, up to the offset. -/
structure Ready (p : PrintBuffer) (text : List UInt8) : Prop where
  buffer : ∃ cells, p.buffer = some cells ∧ p.length ≤ cells.length ∧ cells.Holds text
  offset : p.offset = text.length
  length : p.length ≤ intMax
  live : p.noalloc = false → 0 < p.hooks.live
  inside : p.offset < p.length ∨
    p.length = 0 ∧ (p.noalloc = true ∨ p.hooks.reallocates = true)

/-- A text has been printed behind another one. -/
structure Printed (p : PrintBuffer) (text t : List UInt8) (p' : PrintBuffer) : Prop
    extends p.Keeps p' where
  buffer : ∃ cells, p'.buffer = some cells ∧ p'.length ≤ cells.length ∧
    cells.Holds (text ++ t ++ [0])
  le_offset : text.length ≤ p'.offset
  offset_le : p'.offset ≤ text.length + t.length
  le_length : text.length + t.length + 2 ≤ p'.length
  length_le : p'.length ≤ intMax

variable {p p' p'' : PrintBuffer} {text t : List UInt8} {needed n m : ℕ}

theorem Keeps.refl (p : PrintBuffer) :
  p.Keeps p
  := ⟨rfl, rfl, fun _ => rfl, Hooks.Allocates.refl _, rfl, rfl⟩

theorem Released.trans (h : p.Released p') (h' : p'.Released p'') :
  p.Released p''
  := by
  simp only [Released] at h h' ⊢
  omega

theorem Keeps.trans (h : p.Keeps p') (h' : p'.Keeps p'') :
  p.Keeps p''
  := by
  constructor
  · exact h'.format.trans h.format
  · exact h'.noalloc.trans h.noalloc
  · intro hnoalloc
    rw [h'.length (h.noalloc.trans hnoalloc), h.length hnoalloc]
  · exact h.allocates.trans h'.allocates
  · exact h'.reallocates.trans h.reallocates
  · exact Released.trans h.live h'.live

theorem Keeps.room (h : p.Keeps p') :
  p'.room = p.room
  := by
  rw [PrintBuffer.room, PrintBuffer.room, h.noalloc]
  cases hnoalloc : p.noalloc with
  | true => simp only [h.length hnoalloc]
  | false => rfl

theorem Blocked.mono (h : p'.Blocked n p'') (hkeeps : p.Keeps p') (hle : n ≤ m) :
  p.Blocked m p''
  := by
  rcases h with hroom | ⟨hnoalloc, hrefused⟩
  · rw [hkeeps.room] at hroom
    exact Or.inl (hroom.trans_le hle)
  · rw [hkeeps.noalloc] at hnoalloc
    exact Or.inr ⟨hnoalloc, hrefused.of_allocates hkeeps.allocates⟩

/-- A buffer is never larger than it may be. -/
theorem Printed.le_room (h : p.Printed text t p') :
  text.length + t.length + 2 ≤ p.room
  := by
  rw [← h.toKeeps.room, PrintBuffer.room]
  split
  · exact h.le_length
  · exact h.le_length.trans h.length_le

/-! ### Room in the buffer -/

theorem newSize_eq_none :
  newSize needed = none ↔ intMax < needed
  := by
  rw [newSize, intMax]
  split_ifs
  · simp only [false_iff]
    omega
  · simp only [true_iff]
    omega
  · simp only [false_iff]
    omega

theorem le_newSize {size : ℕ} (h : newSize needed = some size) :
  needed ≤ size ∧ size ≤ intMax
  := by
  rw [newSize, intMax] at h
  rw [intMax]
  split_ifs at h <;> obtain rfl := Option.some.inj h <;> omega

/-- A buffer that has been given up -/
theorem release_meets {P : PrintBuffer → Prop} {hooks : Hooks} (hbuffer : p.buffer.isSome)
    (hlive : 0 < p.hooks.live) (hooks_live : hooks.live = p.hooks.live) :
  (release { p with hooks := hooks }).Meets P
    (fun p' => p.Released p' ∧ p'.hooks.allocations = hooks.allocations)
  := by
  obtain ⟨cells, hcells⟩ := Option.isSome_iff_exists.mp hbuffer
  rw [release, Hooks.deallocate_of_le (hooks_live ▸ hlive)]
  refine Checked.meets_failed ⟨?_, rfl⟩
  simp only [Released, hcells, Option.toList_some, Option.toList_none, List.length_singleton,
    List.length_nil]
  omega

/-- The buffer has got larger, or has been given up. -/
theorem grow_meets {newsize : ℕ} {cells : Cells UInt8} (h : p.Ready text)
    (hcells : p.buffer = some cells) (hnoalloc : p.noalloc = false)
    (hlt : text.length < newsize) (hle : newsize ≤ intMax) :
  (p.grow newsize cells).Meets
    (fun p' => p.Keeps p' ∧ p'.depth = p.depth ∧ p'.Ready text ∧ p'.length = newsize)
    (fun p' => p.Released p' ∧ p.hooks.Refused p'.hooks)
  := by
  obtain ⟨cells', hcells', hlength, hholds⟩ := h.buffer
  obtain rfl := Option.some.inj (hcells.symm.trans hcells')
  have hlive := h.live hnoalloc
  have hsome : p.buffer.isSome := Option.isSome_of_eq_some hcells
  rw [grow]
  cases hreallocates : p.hooks.reallocates with
  | true =>
      rw [if_pos rfl, Hooks.reallocate_eq]
      cases hgrants : p.hooks.grants p.hooks.allocations with
      | false =>
          refine (release_meets hsome hlive ?_).mono (fun _ => id) ?_
          · rfl
          · rintro p' ⟨hreleased, hnext⟩
            exact ⟨hreleased, Hooks.refused_of_not_grants hgrants hnext⟩
      | true =>
          apply Checked.meets_done
          refine ⟨⟨rfl, rfl, fun hnot => ?_, ⟨rfl, Nat.le_succ _⟩, rfl, ?_⟩, rfl,
            ⟨?_, h.offset, hle, fun _ => hlive, ?_⟩, rfl⟩
          · rw [hnoalloc] at hnot
            cases hnot
          · rw [hcells]
            rfl
          · exact ⟨_, rfl, Cells.length_resize.ge, hholds.resize hlt.le⟩
          · exact Or.inl (h.offset ▸ hlt)
  | false =>
      rw [if_neg Bool.false_ne_true]
      cases hgrants : p.hooks.grants p.hooks.allocations with
      | false =>
          rw [Hooks.allocate_of_not_grants hgrants]
          refine (release_meets hsome hlive ?_).mono (fun _ => id) ?_
          · rfl
          · rintro p' ⟨hreleased, hnext⟩
            exact ⟨hreleased, Hooks.refused_of_not_grants hgrants hnext⟩
      | true =>
          have hinside : p.offset + 1 ≤ cells.length := by
            rcases h.inside with hinside | ⟨-, hnot | hnot⟩
            · omega
            · rw [hnoalloc] at hnot
              cases hnot
            · rw [hreallocates] at hnot
              cases hnot
          rw [Hooks.allocate_of_grants hgrants]
          dsimp only
          rw [if_neg (Nat.not_lt.mpr hinside), Hooks.deallocate_of_le (Nat.le_add_left _ _)]
          apply Checked.meets_done
          refine ⟨⟨rfl, rfl, fun hnot => ?_, ⟨rfl, Nat.le_succ _⟩, rfl, ?_⟩, rfl,
            ⟨?_, h.offset, hle, fun _ => hlive, ?_⟩, rfl⟩
          · rw [hnoalloc] at hnot
            cases hnot
          · rw [hcells]
            rfl
          · have hkept := hholds.of_take (n := p.offset + 1) (h.offset ▸ Nat.le_succ _)
            exact ⟨_, rfl, Cells.length_resize.ge, hkept.resize hlt.le⟩
          · exact Or.inl (h.offset ▸ hlt)

/-- There is room for what is needed, and one byte more. -/
theorem ensure_meets (h : p.Ready text) :
  (p.ensure needed).Meets
    (fun p' => p.Keeps p' ∧ p'.depth = p.depth ∧ p'.Ready text ∧
      text.length + needed + 1 ≤ p'.length)
    (fun p' => p.Released p' ∧ p.Blocked (text.length + needed + 1) p')
  := by
  obtain ⟨cells, hcells, hlength, hholds⟩ := h.buffer
  have hoffset := h.offset
  have hle := h.length
  have hinside : ¬ (0 < p.length ∧ p.length ≤ p.offset) := by
    rcases h.inside with hinside | ⟨hzero, -⟩ <;> omega
  rw [ensure, hcells]
  dsimp only
  rw [if_neg hinside]
  refine Checked.Meets.ite (fun hlarge => ?_) (fun _ => ?_)
  · refine Checked.meets_failed ⟨rfl, Or.inl ?_⟩
    rw [room]
    split <;> omega
  refine Checked.Meets.ite (fun hfits => ?_) (fun hfits => ?_)
  · exact Checked.meets_done ⟨Keeps.refl p, rfl, h, by omega⟩
  refine Checked.Meets.ite (fun hnoalloc => ?_) (fun hnoalloc => ?_)
  · refine Checked.meets_failed ⟨rfl, Or.inl ?_⟩
    rw [room, if_pos hnoalloc]
    omega
  cases hsize : newSize (needed + (p.offset + 1)) with
  | none =>
      refine Checked.meets_failed ⟨rfl, Or.inl ?_⟩
      rw [newSize_eq_none] at hsize
      rw [room, if_neg hnoalloc]
      omega
  | some size =>
      obtain ⟨hneeded, hmax⟩ := le_newSize hsize
      rw [Bool.not_eq_true] at hnoalloc
      apply (grow_meets h hcells hnoalloc (by omega) hmax).mono
      · rintro p' ⟨hkeeps, hdepth, hready, rfl⟩
        exact ⟨hkeeps, hdepth, hready, by omega⟩
      · rintro p' ⟨hreleased, hgrants⟩
        exact ⟨hreleased, Or.inr ⟨hnoalloc, hgrants⟩⟩

/-- Bytes are stored where the buffer is. -/
theorem put_meets {bytes before : List UInt8} {E : PrintBuffer → Prop} {i : ℕ}
    (hbuffer : ∃ cells, p.buffer = some cells ∧ p.length ≤ cells.length ∧ cells.Holds before)
    (hi : i = before.length) (hfits : before.length + bytes.length ≤ p.length) :
  (p.put i bytes).Meets
    (fun p' => ∃ cells, p' = { p with buffer := some cells } ∧ p.length ≤ cells.length ∧
      cells.Holds (before ++ bytes))
    E
  := by
  obtain ⟨cells, hcells, hlength, hholds⟩ := hbuffer
  obtain ⟨cells', hwrite, hholds', hlength'⟩ := hholds.write (hfits.trans hlength)
  rw [put, hcells, hi, Checked.access_some, Checked.done_bind, hwrite, Checked.access_some,
    Checked.done_bind]
  exact Checked.meets_done ⟨cells', rfl, hlength.trans hlength'.ge, hholds'⟩

/-- What has been printed behind another text has been printed behind the first one. -/
theorem Printed.of_keeps {a b : List UInt8} (h : p'.Printed (text ++ a) b p'')
    (hkeeps : p.Keeps p') :
  p.Printed text (a ++ b) p''
  := by
  obtain ⟨cells, hcells, hlength, hholds⟩ := h.buffer
  have hle := h.le_offset
  have hoffset := h.offset_le
  have hneeded := h.le_length
  rw [List.length_append] at hle hoffset hneeded
  refine ⟨hkeeps.trans h.toKeeps, ⟨cells, hcells, hlength, ?_⟩, ?_, ?_, ?_, h.length_le⟩
  · rw [List.append_assoc text a b] at hholds
    exact hholds
  · omega
  · rw [List.length_append]
    omega
  · rw [List.length_append]
    omega

/-- `update_offset` moves the offset behind what has been printed. -/
theorem updateOffset_meets {E : PrintBuffer → Prop} (hp : p.Ready text) (h : p.Printed text t p')
    (hzero : 0 ∉ t) :
  p'.updateOffset.Meets
    (fun p'' => p''.depth = p'.depth ∧ p.Keeps p'' ∧ p''.Ready (text ++ t) ∧
      p''.buffer = p'.buffer ∧ p''.length = p'.length)
    E
  := by
  obtain ⟨cells, hcells, hlength, hholds⟩ := h.buffer
  obtain ⟨k, hk⟩ := Nat.exists_eq_add_of_le h.le_offset
  have hle : k ≤ t.length := by
    have hoffset := h.offset_le
    omega
  have hsplit : text ++ t ++ [0] = (text ++ t.take k) ++ t.drop k ++ [0] := by
    rw [List.append_assoc text (t.take k), List.take_append_drop]
  have hbefore : (text ++ t.take k).length = p'.offset := by
    rw [List.length_append, List.length_take_of_le hle, hk]
  have hlengthUntil : Cells.lengthUntil 0 (cells.drop p'.offset) = some (t.drop k).length := by
    rw [hsplit] at hholds
    rw [← hbefore]
    apply hholds.lengthUntil
    intro hmem
    exact hzero (List.mem_of_mem_drop hmem)
  have hneeded := h.le_length
  have hoffset : p'.offset + (t.drop k).length = (text ++ t).length := by
    rw [List.length_drop, List.length_append]
    omega
  rw [updateOffset, hcells]
  dsimp only
  rw [hlengthUntil, Checked.access_some, Checked.done_bind]
  apply Checked.meets_done
  refine ⟨rfl, ?_, ?_, rfl, rfl⟩
  · obtain ⟨hformat, hnoalloc, hlen, hallocates, hreallocates, hlive⟩ := h.toKeeps
    rw [hcells] at hlive
    exact ⟨hformat, hnoalloc, hlen, hallocates, hreallocates, hlive⟩
  · refine ⟨⟨cells, rfl, hlength, hholds.of_append⟩, hoffset, h.length_le, ?_, ?_⟩
    · intro hnoalloc
      have hlive := h.toKeeps.live
      rw [hcells] at hlive
      have hpos := hp.live (h.toKeeps.noalloc.symm.trans hnoalloc)
      have hone : p.buffer.toList.length = 1 := by
        obtain ⟨_, hsome, -⟩ := hp.buffer
        rw [hsome]
        rfl
      dsimp only [Option.toList_some, List.length_singleton] at hlive ⊢
      omega
    · refine Or.inl ?_
      dsimp only
      rw [hoffset, List.length_append]
      omega

end PrintBuffer

/-! ### Functions of the printer -/

/-- The function prints the text and a null character, if there is a text. -/
def Renders (format : Bool) (depth depth' : ℕ)
    (f : PrintBuffer → Checked PrintBuffer PrintBuffer) (t : Option (List UInt8)) : Prop :=
  ∀ p text, p.format = format → p.depth = depth → p.Ready text →
    (f p).Meets (fun p' => p'.depth = depth' ∧ ∃ a, t = some a ∧ p.Printed text a p')
      (fun p' => p.Released p' ∧ ∀ a, t = some a → p.Blocked (text.length + a.length + 2) p')

/-- The function prints the text, if there is one, and moves the offset behind it. -/
def Appends (format : Bool) (depth depth' : ℕ)
    (f : PrintBuffer → Checked PrintBuffer PrintBuffer) (t : Option (List UInt8)) : Prop :=
  ∀ p text, p.format = format → p.depth = depth → p.Ready text →
    (f p).Meets
      (fun p' => p'.depth = depth' ∧ ∃ a, t = some a ∧ p.Keeps p' ∧ p'.Ready (text ++ a))
      (fun p' => p.Released p' ∧ ∀ a, t = some a → p.Blocked (text.length + a.length + 2) p')

section

variable {format : Bool} {depth depth₁ depth' needed : ℕ}
  {f g k : PrintBuffer → Checked PrintBuffer PrintBuffer} {t t' : Option (List UInt8)}
  {text a : List UInt8} {p p' p'' : PrintBuffer}

/-- What blocks a part of a text blocks the whole. -/
theorem blocked_joined (h : ∀ b, t = some b → p.Blocked (text.length + b.length + 2) p'') :
  ∀ c, joined t t' = some c → p.Blocked (text.length + c.length + 2) p''
  := by
  intro c hc
  obtain ⟨b, b', hb, -, rfl⟩ := joined_eq_some.mp hc
  apply (h b hb).mono (PrintBuffer.Keeps.refl p)
  rw [List.length_append]
  omega

theorem blocked_joined_right (hkeeps : p.Keeps p')
    (h : ∀ b, t' = some b → p'.Blocked ((text ++ a).length + b.length + 2) p'') :
  ∀ c, joined (some a) t' = some c → p.Blocked (text.length + c.length + 2) p''
  := by
  intro c hc
  obtain ⟨b, b', hb, hb', rfl⟩ := joined_eq_some.mp hc
  obtain rfl := Option.some.inj hb
  apply (h b' hb').mono hkeeps
  rw [List.length_append, List.length_append]
  omega

/-- One text behind the other -/
theorem Appends.seq (hf : Appends format depth depth₁ f t) (hk : Appends format depth₁ depth' k t') :
  Appends format depth depth' (fun p => f p >>= k) (joined t t')
  := by
  intro p text hformat hdepth hp
  refine Checked.Meets.bind ((hf p text hformat hdepth hp).mono (fun _ => id) ?_) ?_
  · rintro p' ⟨hreleased, hblocked⟩
    exact ⟨hreleased, blocked_joined hblocked⟩
  · rintro p' ⟨hdepth', a, rfl, hkeeps, hp'⟩
    apply (hk p' _ (hkeeps.format.trans hformat) hdepth' hp').mono
    · rintro p'' ⟨hdepth'', b, rfl, hkeeps', hp''⟩
      rw [List.append_assoc] at hp''
      exact ⟨hdepth'', a ++ b, rfl, hkeeps.trans hkeeps', hp''⟩
    · rintro p'' ⟨hreleased, hblocked⟩
      exact ⟨PrintBuffer.Released.trans hkeeps.live hreleased, blocked_joined_right hkeeps hblocked⟩

theorem Appends.renders (hf : Appends format depth depth₁ f t)
    (hk : Renders format depth₁ depth' k t') :
  Renders format depth depth' (fun p => f p >>= k) (joined t t')
  := by
  intro p text hformat hdepth hp
  refine Checked.Meets.bind ((hf p text hformat hdepth hp).mono (fun _ => id) ?_) ?_
  · rintro p' ⟨hreleased, hblocked⟩
    exact ⟨hreleased, blocked_joined hblocked⟩
  · rintro p' ⟨hdepth', a, rfl, hkeeps, hp'⟩
    apply (hk p' _ (hkeeps.format.trans hformat) hdepth' hp').mono
    · rintro p'' ⟨hdepth'', b, rfl, hprinted⟩
      exact ⟨hdepth'', a ++ b, rfl, hprinted.of_keeps hkeeps⟩
    · rintro p'' ⟨hreleased, hblocked⟩
      exact ⟨PrintBuffer.Released.trans hkeeps.live hreleased, blocked_joined_right hkeeps hblocked⟩

/-- What has been printed is gone over before the next text. -/
theorem Renders.update (hf : Renders format depth depth' f t) (hzero : ∀ a, t = some a → 0 ∉ a) :
  Appends format depth depth' (fun p => f p >>= PrintBuffer.updateOffset) t
  := by
  intro p text hformat hdepth hp
  apply Checked.Meets.bind (hf p text hformat hdepth hp)
  rintro p' ⟨hdepth', a, rfl, hprinted⟩
  apply (PrintBuffer.updateOffset_meets hp hprinted (hzero a rfl)).mono _ (fun _ => id)
  rintro p'' ⟨hdepth'', hkeeps, hp'', -⟩
  exact ⟨hdepth''.trans hdepth', a, rfl, hkeeps, hp''⟩

theorem Renders.seq (hf : Renders format depth depth₁ f t) (hzero : ∀ a, t = some a → 0 ∉ a)
    (hk : Appends format depth₁ depth' k t') :
  Appends format depth depth' (fun p => f p >>= fun p => p.updateOffset >>= k) (joined t t')
  := by
  have happends := (hf.update hzero).seq hk
  simp only [Checked.bind_assoc] at happends
  exact happends

/-- A function that does the same in a buffer with this format and this depth -/
theorem Appends.of_eq (hg : Appends format depth depth' g t)
    (h : ∀ p, p.format = format → p.depth = depth → f p = g p) :
  Appends format depth depth' f t
  := by
  intro p text hformat hdepth hp
  rw [h p hformat hdepth]
  exact hg p text hformat hdepth hp

theorem Renders.of_eq (hg : Renders format depth depth' g t)
    (h : ∀ p, p.format = format → p.depth = depth → f p = g p) :
  Renders format depth depth' f t
  := by
  intro p text hformat hdepth hp
  rw [h p hformat hdepth]
  exact hg p text hformat hdepth hp

theorem appends_nil :
  Appends format depth depth (fun p => .done p) (some [])
  := by
  intro p text hformat hdepth hp
  apply Checked.meets_done
  refine ⟨hdepth, [], rfl, PrintBuffer.Keeps.refl p, ?_⟩
  rw [List.append_nil]
  exact hp

/-- One level deeper -/
theorem Appends.deeper (h : Appends format (depth + 1) depth' f t) :
  Appends format depth depth' (fun p => f { p with depth := p.depth + 1 }) t
  := by
  intro p text hformat hdepth hp
  obtain ⟨hbuffer, hoffset, hlength, hlive, hinside⟩ := hp
  apply (h { p with depth := p.depth + 1 } text hformat (congrArg (· + 1) hdepth)
    ⟨hbuffer, hoffset, hlength, hlive, hinside⟩).mono
  · rintro p' ⟨hdepth', a, ha, ⟨hformat', hnoalloc, hlen, hallocates, hreallocates, hlive'⟩, hp'⟩
    exact ⟨hdepth', a, ha, ⟨hformat', hnoalloc, hlen, hallocates, hreallocates, hlive'⟩, hp'⟩
  · exact fun _ => id

/-- Back from it -/
theorem Renders.shallower (h : Renders format depth (depth' + 1) f t) :
  Renders format depth depth' (fun p => f p >>= fun p => .done { p with depth := p.depth - 1 }) t
  := by
  intro p text hformat hdepth hp
  apply Checked.Meets.bind (h p text hformat hdepth hp)
  rintro p' ⟨hdepth', a, ha, ⟨⟨hformat', hnoalloc, hlen, hallocates, hreallocates, hlive⟩, hbuffer, hle,
    hoffset, hneeded, hlength⟩⟩
  apply Checked.meets_done
  refine ⟨?_, a, ha, ⟨⟨hformat', hnoalloc, hlen, hallocates, hreallocates, hlive⟩, hbuffer, hle, hoffset,
    hneeded, hlength⟩⟩
  dsimp only
  rw [hdepth']
  apply Nat.add_sub_cancel

/-- Bytes that are stored behind the text, with room for as many as are needed -/
theorem stored_meets {bytes : List UInt8} (hp : p.Ready text) (hle : bytes.length ≤ needed + 1) :
  (p.ensure needed >>= fun p => p.put p.offset bytes).Meets
    (fun p' => p'.depth = p.depth ∧ p.Keeps p' ∧ p'.offset = text.length ∧
      (∃ cells, p'.buffer = some cells ∧ p'.length ≤ cells.length ∧ cells.Holds (text ++ bytes)) ∧
      text.length + needed + 1 ≤ p'.length ∧ p'.length ≤ intMax)
    (fun p' => p.Released p' ∧ p.Blocked (text.length + needed + 1) p')
  := by
  apply Checked.Meets.bind (PrintBuffer.ensure_meets hp)
  rintro p₁ ⟨hkeeps, hdepth, hp₁, hneeded⟩
  apply (PrintBuffer.put_meets hp₁.buffer hp₁.offset (by omega)).mono _ (fun _ => id)
  rintro _ ⟨cells, rfl, hlength, hholds⟩
  refine ⟨hdepth, ?_, hp₁.offset, ⟨cells, rfl, hlength, hholds⟩, hneeded, hp₁.length⟩
  obtain ⟨hformat, hnoalloc, hlen, hallocates, hreallocates, hlive⟩ := hkeeps
  obtain ⟨_, hsome, -⟩ := hp₁.buffer
  rw [hsome] at hlive
  exact ⟨hformat, hnoalloc, hlen, hallocates, hreallocates, hlive⟩

/-- The offset is moved behind what has been stored. -/
theorem ready_of_stored (hp : p.Ready text) (hkeeps : p.Keeps p') (hoffset : p'.offset = text.length)
    (hcells : ∃ cells, p'.buffer = some cells ∧ p'.length ≤ cells.length ∧ cells.Holds (text ++ a))
    (hlt : text.length + a.length < p'.length) (hle : p'.length ≤ intMax) :
  p.Keeps { p' with offset := p'.offset + a.length } ∧
    PrintBuffer.Ready { p' with offset := p'.offset + a.length } (text ++ a)
  := by
  have hlive : p.noalloc = false → 0 < p'.hooks.live := by
    intro hnoalloc
    have hpos := hp.live hnoalloc
    have hlive := hkeeps.live
    obtain ⟨_, hsome, -⟩ := hp.buffer
    obtain ⟨_, hsome', -⟩ := hcells
    rw [hsome, hsome'] at hlive
    dsimp only [Option.toList_some, List.length_singleton] at hlive
    omega
  have hnoalloc := hkeeps.noalloc
  have hend : p'.offset + a.length = (text ++ a).length := by
    rw [hoffset, List.length_append]
  constructor
  · obtain ⟨hformat, hnoalloc, hlen, hallocates, hreallocates, hlive⟩ := hkeeps
    exact ⟨hformat, hnoalloc, hlen, hallocates, hreallocates, hlive⟩
  · refine ⟨hcells, hend, hle, fun h => hlive (hnoalloc.symm.trans h), Or.inl ?_⟩
    dsimp only
    omega

theorem printText_meets (hp : p.Ready text) :
  (p.printText a).Meets
    (fun p' => p'.depth = p.depth ∧ p.Keeps p' ∧ p'.offset = text.length ∧
      (∃ cells, p'.buffer = some cells ∧ p'.length ≤ cells.length ∧
        cells.Holds (text ++ a ++ [0])) ∧
      text.length + a.length + 2 ≤ p'.length ∧ p'.length ≤ intMax)
    (fun p' => p.Released p' ∧ p.Blocked (text.length + a.length + 2) p')
  := by
  have hbytes : (a ++ [0]).length ≤ a.length + 1 + 1 := by
    rw [List.length_append, List.length_singleton]
    apply Nat.le_succ
  have hstored := stored_meets hp hbytes
  rw [← List.append_assoc] at hstored
  exact hstored

/-- A text and a null character -/
theorem printText_renders :
  Renders format depth depth (PrintBuffer.printText a) (some a)
  := by
  intro p text hformat hdepth hp
  apply (printText_meets hp).mono
  · rintro p' ⟨hdepth', hkeeps, hoffset, hcells, hneeded, hle⟩
    refine ⟨hdepth'.trans hdepth, a, rfl, hkeeps, hcells, ?_, ?_, hneeded, hle⟩
    · exact hoffset.ge
    · rw [hoffset]
      apply Nat.le_add_right
  · rintro p' ⟨hreleased, hblocked⟩
    refine ⟨hreleased, ?_⟩
    rintro _ ⟨⟩
    exact hblocked

theorem appendText_appends :
  Appends format depth depth (PrintBuffer.appendText a) (some a)
  := by
  intro p text hformat hdepth hp
  refine Checked.Meets.bind ((printText_meets hp).mono (fun _ => id) ?_) ?_
  · rintro p' ⟨hreleased, hblocked⟩
    refine ⟨hreleased, ?_⟩
    rintro _ ⟨⟩
    exact hblocked
  · rintro p' ⟨hdepth', hkeeps, hoffset, ⟨cells, hcells, hlength, hholds⟩, hneeded, hle⟩
    obtain ⟨hkeeps', hp'⟩ := ready_of_stored (a := a) hp hkeeps hoffset
      ⟨cells, hcells, hlength, hholds.of_append⟩ (by omega) hle
    exact Checked.meets_done ⟨hdepth'.trans hdepth, a, rfl, hkeeps', hp'⟩

/-- A text without a null character -/
theorem append_appends (hle : a.length ≤ needed) (hneeded : needed ≤ a.length + 1) :
  Appends format depth depth (PrintBuffer.append needed a) (some a)
  := by
  intro p text hformat hdepth hp
  rw [PrintBuffer.append, ← Checked.bind_assoc]
  refine Checked.Meets.bind ((stored_meets hp (hle.trans (Nat.le_succ _))).mono (fun _ => id) ?_) ?_
  · rintro p' ⟨hreleased, hblocked⟩
    refine ⟨hreleased, ?_⟩
    rintro _ ⟨⟩
    apply hblocked.mono (PrintBuffer.Keeps.refl p)
    omega
  · rintro p' ⟨hdepth', hkeeps, hoffset, hcells, hlt, hmax⟩
    obtain ⟨hkeeps', hp'⟩ := ready_of_stored hp hkeeps hoffset hcells (by omega) hmax
    exact Checked.meets_done ⟨hdepth'.trans hdepth, a, rfl, hkeeps', hp'⟩

end

end CJson
