import Orgrim.Theory.Reader

/-!
# Framing

A `Framing` describes frames on a stream of symbols: a number of copies of one magic
symbol, two length symbols, and as many payload symbols as the length symbols announce;
some lengths may be refused.  `Framing.scanner` finds the frames one symbol at a time,
starting over after a mismatch or a refused length.  What it outputs are frames: a `Frame`
carries the proof that its payload has the announced length.

On a stream of frames separated by noise that does not contain the magic symbol, the
scanner outputs exactly the frames, in order (`output_stream`).
-/

/-- The shape of the frames on a stream: the magic symbol, how many copies of it open a
frame, and the number of payload symbols two length symbols announce, if any. -/
structure Framing (α : Type*) where
  magic : α
  marks : ℕ
  payloadLen : α → α → Option ℕ

namespace Framing

variable {α : Type*} (F : Framing α)

/-- A frame: two length symbols and a payload of the length they announce. -/
@[ext]
structure Frame where
  len₁ : α
  len₂ : α
  payload : List α
  sized : F.payloadLen len₁ len₂ = some payload.length

variable {F}

/-- The symbols of a frame, as sent. -/
def Frame.bytes (f : F.Frame) : List α :=
  List.replicate F.marks F.magic ++ f.len₁ :: f.len₂ :: f.payload

variable (F)

/-- What has been seen of the next frame. -/
inductive Phase where
  /-- `seen` copies of the magic symbol, fewer than open a frame -/
  | hunting (seen : ℕ)
  /-- all copies of the magic symbol -/
  | sizing
  /-- the first length symbol -/
  | halfSized (len₁ : α)
  /-- the length symbols and the payload symbols `got`; `left + 1` are missing -/
  | filling (len₁ len₂ : α) (got : List α) (left : ℕ)
      (sized : F.payloadLen len₁ len₂ = some (got.length + (left + 1)))

variable {F}

/-- The payload length announced by the length symbols seen so far. -/
def Phase.announced : F.Phase → ℕ
  | .filling _ _ got left _ => got.length + (left + 1)
  | _ => 0

/-- The phase entered with both length symbols, and the frame if it has no payload. -/
def sized (len₁ len₂ : α) : F.Phase × List F.Frame :=
  match h : F.payloadLen len₁ len₂ with
  | none => (.hunting 0, [])
  | some 0 => (.hunting 0, [⟨len₁, len₂, [], h⟩])
  | some (left + 1) => (.filling len₁ len₂ [] left (by simpa using h), [])

/-- The phase entered with one more payload symbol, and the frame if it was the last. -/
def filled (len₁ len₂ : α) (got : List α) (b : α) (left : ℕ)
    (h : F.payloadLen len₁ len₂ = some (got.length + (left + 1))) :
    F.Phase × List F.Frame :=
  match left with
  | 0 => (.hunting 0, [⟨len₁, len₂, got ++ [b], by simpa using h⟩])
  | left + 1 =>
      (.filling len₁ len₂ (got ++ [b]) left (by
        rw [h, List.length_append, List.length_singleton]
        congr 1
        omega), [])

variable (F) in
/-- The scanner of the frames of a stream. -/
def scanner [DecidableEq α] : Scanner F.Phase α F.Frame where
  feed t b :=
    match t with
    | .hunting seen =>
        if b = F.magic then
          (if seen + 1 = F.marks then (.sizing, []) else (.hunting (seen + 1), []))
        else (.hunting 0, [])
    | .sizing => (.halfSized b, [])
    | .halfSized len₁ => sized len₁ b
    | .filling len₁ len₂ got left h => filled len₁ len₂ got b left h

theorem sized_none {len₁ len₂ : α} (h : F.payloadLen len₁ len₂ = none) :
  sized (F := F) len₁ len₂ = (.hunting 0, [])
  := by
  unfold sized
  split
  · rfl
  · rename_i h'
    cases h.symm.trans h'
  · rename_i h'
    cases h.symm.trans h'

theorem sized_zero {len₁ len₂ : α} (h : F.payloadLen len₁ len₂ = some 0) :
  sized (F := F) len₁ len₂ = (.hunting 0, [⟨len₁, len₂, [], h⟩])
  := by
  unfold sized
  split
  · rename_i h'
    cases h.symm.trans h'
  · rfl
  · rename_i h'
    cases h.symm.trans h'

theorem sized_succ (len₁ len₂ : α) (left : ℕ)
    (h : F.payloadLen len₁ len₂ = some (left + 1)) :
  sized (F := F) len₁ len₂
    = (.filling len₁ len₂ [] left (by rwa [List.length_nil, Nat.zero_add]), [])
  := by
  unfold sized
  split
  · rename_i h'
    cases h.symm.trans h'
  · rename_i h'
    cases h.symm.trans h'
  · rename_i h'
    cases h.symm.trans h'
    rfl

variable [DecidableEq α]

/-! ### Filling a payload -/

/-- Symbols that do not complete the payload are gathered. -/
theorem final_filling_of_le {len₁ len₂ : α} :
  ∀ {got : List α} {left : ℕ} (p : List α)
    (h : F.payloadLen len₁ len₂ = some (got.length + (left + 1))) (hp : p.length ≤ left),
    F.scanner.final (.filling len₁ len₂ got left h) p
        = .filling len₁ len₂ (got ++ p) (left - p.length) (by
            rw [h, List.length_append]
            congr 1
            omega)
      ∧ F.scanner.output (.filling len₁ len₂ got left h) p = []
  | got, left, [], h, _ => by
      constructor
      · simp only [List.append_nil, List.length_nil, Nat.sub_zero, Scanner.final]
      · rfl
  | got, left + 1, b :: p, h, hp => by
      have h' : F.payloadLen len₁ len₂ = some ((got ++ [b]).length + (left + 1)) := by
        rw [h, List.length_append, List.length_singleton]
        congr 1
        omega
      have hp' : p.length ≤ left := by
        simpa using hp
      obtain ⟨hfinal, hout⟩ := final_filling_of_le p h' hp'
      constructor
      · simp only [Scanner.final, scanner, filled]
        apply Eq.trans hfinal
        simp only [List.append_assoc, List.cons_append, List.nil_append, List.length_cons,
          Nat.add_sub_add_right]
      · apply hout

/-- The symbols that complete the payload complete the frame with the last of them. -/
theorem counting_filling {len₁ len₂ : α} :
  ∀ {got : List α} {left : ℕ} (n : ℕ) (p : List α)
    (h : F.payloadLen len₁ len₂ = some (got.length + (left + 1))) (hp : p.length = left + 1),
    F.scanner.counting.final (.filling len₁ len₂ got left h, n) p = (.hunting 0, 0)
      ∧ F.scanner.output (.filling len₁ len₂ got left h) p
        = [⟨len₁, len₂, got ++ p, by rw [h, List.length_append, hp]⟩]
  | got, 0, n, [b], h, _ => by
      constructor
      · rfl
      · rfl
  | got, left + 1, n, b :: p, h, hp => by
      have h' : F.payloadLen len₁ len₂ = some ((got ++ [b]).length + (left + 1)) := by
        rw [h, List.length_append, List.length_singleton]
        congr 1
        omega
      have hp' : p.length = left + 1 := by
        simpa using hp
      obtain ⟨hfinal, hout⟩ := counting_filling (n + 1) p h' hp'
      constructor
      · apply hfinal
      · apply Eq.trans hout
        simp

/-- The payload announced does not change while it is filled. -/
theorem throughout_filling {len₁ len₂ : α} {k : ℕ} :
  ∀ {got : List α} {left : ℕ} (p : List α)
    (h : F.payloadLen len₁ len₂ = some (got.length + (left + 1))) (_ : p.length ≤ left + 1)
    (_ : got.length + (left + 1) ≤ k),
    F.scanner.Throughout (fun t => t.announced ≤ k) (.filling len₁ len₂ got left h) p
  := by
  intro got left p
  induction p generalizing got left with
  | nil => exact fun _ _ hk => hk
  | cons b p ih =>
      intro h hp hk
      rw [List.length_cons, Nat.succ_le_succ_iff] at hp
      use hk
      cases left with
      | zero =>
          obtain rfl : p = [] := List.eq_nil_of_length_eq_zero (Nat.le_zero.mp hp)
          exact Nat.zero_le k
      | succ left =>
          apply ih
          · exact hp
          · rw [List.length_append, List.length_singleton]
            omega

/-! ### One frame -/

/-- Noise without the magic symbol leaves the scanner where it was. -/
theorem final_noise : ∀ {noise : List α}, F.magic ∉ noise →
    F.scanner.final (.hunting 0) noise = .hunting 0 ∧
      F.scanner.output (.hunting 0) noise = []
  | [], _ => ⟨rfl, rfl⟩
  | b :: noise, h => by
      have hb : b ≠ F.magic := by
        rintro rfl
        exact h List.mem_cons_self
      have hrest := final_noise (fun hm => h (List.mem_cons_of_mem b hm))
      simpa only [Scanner.final, Scanner.output, scanner, if_neg hb, List.nil_append]
        using hrest

theorem throughout_noise {k : ℕ} : ∀ {noise : List α} {seen : ℕ}, F.magic ∉ noise →
    F.scanner.Throughout (fun t => t.announced ≤ k) (.hunting seen) noise
  | [], _, _ => Nat.zero_le k
  | b :: noise, _, h => by
      have hb : b ≠ F.magic := by
        rintro rfl
        exact h List.mem_cons_self
      constructor
      · exact Nat.zero_le k
      · simp only [scanner, if_neg hb]
        apply throughout_noise (fun hm => h (List.mem_cons_of_mem b hm))

/-- The copies of the magic symbol that are still missing end the hunt. -/
theorem final_marks : ∀ (k seen : ℕ), seen + (k + 1) = F.marks →
    F.scanner.final (.hunting seen) (List.replicate (k + 1) F.magic) = .sizing ∧
      F.scanner.output (.hunting seen) (List.replicate (k + 1) F.magic) = [] ∧
      ∀ n, F.scanner.Throughout (fun t => t.announced ≤ n) (.hunting seen)
        (List.replicate (k + 1) F.magic)
  | 0, seen, h => by
      simp only [List.replicate, Scanner.final, Scanner.output, Scanner.Throughout, scanner,
        if_pos, if_pos h, Phase.announced, List.append_nil, Nat.zero_le, and_self,
        implies_true]
  | k + 1, seen, h => by
      have hne : seen + 1 ≠ F.marks := by
        omega
      obtain ⟨hfinal, hout, hP⟩ := final_marks k (seen + 1) (by omega)
      rw [List.replicate_succ]
      simp only [Scanner.final, Scanner.output, Scanner.Throughout, scanner, if_pos,
        if_neg hne, List.nil_append, Phase.announced, Nat.zero_le, true_and]
      exact ⟨hfinal, hout, hP⟩

section

variable (hmarks : F.marks ≠ 0)

include hmarks

/-- A scanner that hunts finds the frame it is fed and hunts again, its count restarted. -/
theorem counting_frame (f : F.Frame) (n : ℕ) :
  F.scanner.counting.final (.hunting 0, n) f.bytes = (.hunting 0, 0)
    ∧ F.scanner.output (.hunting 0) f.bytes = [f]
  := by
  obtain ⟨k, hk⟩ := Nat.exists_eq_succ_of_ne_zero hmarks
  obtain ⟨hfinal, hout, -⟩ := final_marks (F := F) k 0 (by omega)
  obtain ⟨len₁, len₂, payload, hsized⟩ := f
  simp only [Frame.bytes, Scanner.final_append, Scanner.output_append, hk, hfinal, hout,
    List.nil_append]
  generalize hc : F.scanner.counting.final (.hunting 0, n) (List.replicate k.succ F.magic) = c
  obtain ⟨t, m⟩ := c
  have ht : t = .sizing := by
    rw [← hfinal, ← Scanner.final_counting _ n, hc]
  subst ht
  cases payload with
  | nil =>
      have hs := sized_zero (F := F) hsized
      constructor
      · simp only [Scanner.final, Scanner.counting, scanner, hs, List.isEmpty]
        rfl
      · simp only [Scanner.output, scanner, hs]
        rfl
  | cons b payload =>
      have hs := sized_succ (F := F) len₁ len₂ payload.length (by simpa using hsized)
      have hp : (b :: payload).length = payload.length + 1 := by
        simp
      have hgot : F.payloadLen len₁ len₂
          = some (([] : List α).length + (payload.length + 1)) := by
        simpa using hsized
      obtain ⟨hfinal', hout'⟩ := counting_filling (F := F) (m + 1 + 1) (b :: payload) hgot hp
      constructor
      · simp only [Scanner.final, Scanner.counting, scanner, hs, List.isEmpty]
        apply hfinal'
      · simp only [Scanner.output, scanner, hs]
        apply hout'

theorem final_frame (f : F.Frame) :
  F.scanner.final (.hunting 0) f.bytes = .hunting 0
  := by
  rw [← Scanner.final_counting _ 0, (counting_frame hmarks f 0).1]

theorem throughout_frame (f : F.Frame) :
  F.scanner.Throughout (fun t => t.announced ≤ f.payload.length) (.hunting 0) f.bytes
  := by
  obtain ⟨k, hk⟩ := Nat.exists_eq_succ_of_ne_zero hmarks
  obtain ⟨hfinal, -, hP⟩ := final_marks (F := F) k 0 (by omega)
  obtain ⟨len₁, len₂, payload, hsized⟩ := f
  simp only [Frame.bytes, Scanner.throughout_append, hk, hfinal]
  use hP _, Nat.zero_le _, Nat.zero_le _
  cases payload with
  | nil =>
      simp only [scanner, sized_zero hsized]
      exact Nat.zero_le _
  | cons b payload =>
      have hs := sized_succ (F := F) len₁ len₂ payload.length (by simpa using hsized)
      simp only [scanner, hs]
      apply throughout_filling
      · simp
      · simp

end

/-! ### Streams -/

/-- The symbols of a list of frames, each preceded by some noise. -/
def stream (segments : List (List α × F.Frame)) : List α :=
  segments.flatMap (fun x => x.1 ++ x.2.bytes)

section

variable (hmarks : F.marks ≠ 0) {segments : List (List α × F.Frame)}
  (hnoise : ∀ x ∈ segments, F.magic ∉ x.1)

include hmarks hnoise

/-- On frames separated by noise the scanner outputs exactly the frames, and hunts at the
end. -/
theorem output_stream :
  F.scanner.final (.hunting 0) (stream segments) = .hunting 0 ∧
    F.scanner.output (.hunting 0) (stream segments) = segments.map (·.2)
  := by
  induction segments with
  | nil => exact ⟨rfl, rfl⟩
  | cons x segments ih =>
      obtain ⟨hx, hrest⟩ := List.forall_mem_cons.mp hnoise
      obtain ⟨hfinal, hout⟩ := final_noise hx
      obtain ⟨ihfinal, ihout⟩ := ih hrest
      have hstream : stream (x :: segments) = x.1 ++ (x.2.bytes ++ stream segments) := by
        simp [stream]
      rw [hstream]
      simp only [Scanner.final_append, Scanner.output_append, hfinal, hout,
        final_frame hmarks, (counting_frame hmarks x.2 0).2, List.nil_append]
      exact ⟨ihfinal, congrArg (x.2 :: ·) ihout⟩

/-- On frames separated by noise no payload longer than the longest of the frames is ever
announced. -/
theorem throughout_announced {k : ℕ} (hk : ∀ x ∈ segments, x.2.payload.length ≤ k) :
  F.scanner.Throughout (fun t => t.announced ≤ k) (.hunting 0) (stream segments)
  := by
  induction segments with
  | nil => exact Nat.zero_le k
  | cons x segments ih =>
      obtain ⟨hx, hrest⟩ := List.forall_mem_cons.mp hnoise
      obtain ⟨hkx, hkrest⟩ := List.forall_mem_cons.mp hk
      have hstream : stream (x :: segments) = x.1 ++ (x.2.bytes ++ stream segments) := by
        simp [stream]
      rw [hstream]
      simp only [Scanner.throughout_append, (final_noise hx).1, final_frame hmarks]
      and_intros
      · apply throughout_noise hx
      · apply (throughout_frame hmarks x.2).mono
        intro t ht
        exact Nat.le_trans ht hkx
      · apply ih hrest hkrest

/-- On frames separated by noise the scanner is never fed more than a frame and the noise
before it without output. -/
theorem throughout_count {k : ℕ}
    (hk : ∀ x ∈ segments, x.1.length + x.2.bytes.length ≤ k) :
  F.scanner.counting.Throughout (fun x => x.2 ≤ k) (.hunting 0, 0) (stream segments)
  := by
  induction segments with
  | nil => exact Nat.zero_le k
  | cons x segments ih =>
      obtain ⟨hx, hrest⟩ := List.forall_mem_cons.mp hnoise
      obtain ⟨hkx, hkrest⟩ := List.forall_mem_cons.mp hk
      have hstream : stream (x :: segments) = (x.1 ++ x.2.bytes) ++ stream segments := by
        simp [stream]
      rw [hstream, Scanner.throughout_append]
      constructor
      · apply Scanner.throughout_count_le
        simpa using hkx
      · have hnoise' : (F.scanner.counting.final (.hunting 0, 0) x.1).1 = .hunting 0 := by
          rw [Scanner.final_counting, (final_noise hx).1]
        rw [Scanner.final_append]
        generalize F.scanner.counting.final (.hunting 0, 0) x.1 = c at hnoise' ⊢
        obtain ⟨t, n⟩ := c
        obtain rfl : t = .hunting 0 := hnoise'
        rw [(counting_frame hmarks x.2 n).1]
        apply ih hrest hkrest

end

end Framing
