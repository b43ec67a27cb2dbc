import Orgrim.Theory.Buffer
import Orgrim.Theory.Hex

/-!
# Reading hexadecimal text into a buffer

`Groups cs bs` says in other words what `parse` accepts: groups of two digits, separated by single
blanks, stand for the bytes `bs`.

`scanBuffer` is `scan` with all accesses checked: the string is an array that ends with a null
character, and the bytes are stored into a buffer.  It has a result exactly if each store that
belongs to one of the leading groups of the text stays inside of the buffer (`scanBuffer_eq`).
-/

namespace Hex

/-- Groups of two digits, separated by single blanks. -/
inductive Groups : List UInt8 → List UInt8 → Prop
  | last {c c' b : UInt8} : byte c c' = some b → Groups [c, c'] [b]
  | more {c c' b : UInt8} {cs bs : List UInt8} :
      byte c c' = some b → Groups cs bs → Groups (c :: c' :: 32 :: cs) (b :: bs)

/-- The bytes of the groups at the start of a text, up to the first thing that is wrong. -/
def leading : List UInt8 → List UInt8
  | [c, c'] => (byte c c').toList
  | c :: c' :: blank :: cs =>
      match byte c c' with
      | none => []
      | some b => if blank = 32 then b :: leading cs else [b]
  | _ => []

/-- Read the first `strLen` characters of a string, from the index `i` on, and store the bytes from
`off` on: no result where an access is out of bounds, and `none` where the string is malformed. -/
def scanBuffer (put : UInt8 → List UInt8) (string : List UInt8) (strLen : ℕ) :
    ℕ → ℕ → ℕ → Buffer UInt8 → Option (Option (Buffer UInt8))
  | 0, _, _, _ => none
  | fuel + 1, i, off, out =>
      if i < strLen then do
        let c ← string[i]?
        let c' ← string[i + 1]?
        match byte c c' with
        | none => some none
        | some b => do
            let out ← out.store off (put b)
            if i + 2 = strLen then some (some out)
            else do
              let blank ← string[i + 2]?
              if blank ≠ 32 then some none
              else scanBuffer put string strLen fuel (i + 3) (off + 1) out
      else some (some out)

/-! ### Groups -/

theorem groups_iff_parse {cs bs : List UInt8} :
  Groups cs bs ↔ parse cs = some bs
  := by
  constructor
  · intro h
    induction h with
    | last hbyte => rw [parse, hbyte, Option.map_some]
    | more hbyte _ ih => rw [parse, if_pos rfl, hbyte, ih, Option.bind_some, Option.map_some]
  · intro h
    induction bs generalizing cs with
    | nil => exact absurd rfl (ne_nil_of_parse h)
    | cons b bs ih =>
        obtain ⟨c, c', b, rest, rfl, hb, ⟨rfl, ⟨⟩⟩ | ⟨cs', bs', rfl, hbs', ⟨⟩⟩⟩ := parse_cases h
        · apply Groups.last hb
        · apply Groups.more hb (ih hbs')

/-- All groups of a text that is accepted are leading ones. -/
theorem leading_of_parse {cs bs : List UInt8} (h : parse cs = some bs) :
  leading cs = bs
  := by
  rw [← groups_iff_parse] at h
  induction h with
  | last hbyte => rw [leading, hbyte, Option.toList_some]
  | more hbyte _ ih => simp only [leading, hbyte, if_true, ih]

/-! ### Room -/

/-- A buffer of the given size has room for `n` stores of `w` cells, at the offsets from `off`
on. -/
def Room (w size off n : ℕ) : Prop := ∀ j < n, off + j + w ≤ size

instance (w size off n : ℕ) : Decidable (Room w size off n) :=
  inferInstanceAs (Decidable (∀ j < n, off + j + w ≤ size))

section

variable {w size off n : ℕ}

theorem room_zero :
  Room w size off 0
  := by
  intro j hj
  omega

theorem room_succ :
  Room w size off (n + 1) ↔ off + w ≤ size ∧ Room w size (off + 1) n
  := by
  constructor
  · intro h
    use h 0 (Nat.succ_pos n)
    intro j hj
    have hj' := h (j + 1) (Nat.succ_lt_succ hj)
    omega
  · rintro ⟨hfirst, hrest⟩ j hj
    cases j with
    | zero => apply hfirst
    | succ j =>
        have hj' := hrest j (Nat.lt_of_succ_lt_succ hj)
        omega

/-- The last store decides. -/
theorem room_iff (hn : 0 < n) :
  Room w size off n ↔ off + (n - 1) + w ≤ size
  := by
  constructor
  · intro h
    apply h
    omega
  · intro h j hj
    omega

end

/-! ### Reading -/

section

variable {put : UInt8 → List UInt8} {cs : List UInt8} {w : ℕ}

theorem getElem?_terminated {i : ℕ} (hi : i < cs.length) :
  (cs ++ [0])[i]? = some cs[i]
  := by
  rw [List.getElem?_append_left hi, List.getElem?_eq_getElem hi]

/-- A string of one character is malformed. -/
theorem scanBuffer_singleton (c : UInt8) (fuel off : ℕ) (out : Buffer UInt8) :
  scanBuffer put [c, 0] 1 (fuel + 1) 0 off out = some none
  := by
  simp [scanBuffer, byte_zero]

/-- The loop reads what `parse` reads, as long as what it stores fits. -/
theorem scanBuffer_eq (hput : ∀ b, (put b).length = w) {fuel i off : ℕ} {out : Buffer UInt8}
    (hmod : (cs.length - i) % 3 = 2) (hfuel : cs.length - i ≤ fuel) :
  scanBuffer put (cs ++ [0]) cs.length fuel i off out =
    if Room w out.size off (leading (cs.drop i)).length then
      some ((parse (cs.drop i)).map (fun bs => { out with cells := stores put off bs out.cells }))
    else none
  := by
  induction fuel generalizing i off out with
  | zero => omega
  | succ fuel ih =>
      have h0 : i < cs.length := by omega
      have h1 : i + 1 < cs.length := by omega
      rw [List.drop_eq_getElem_cons h0, List.drop_eq_getElem_cons h1, scanBuffer, if_pos h0,
        getElem?_terminated h0, getElem?_terminated h1]
      simp only [Option.bind_eq_bind, Option.bind_some]
      generalize cs[i] = c
      generalize cs[i + 1] = c'
      rcases eq_or_ne (i + 2) cs.length with hend | hmore
      · have hnil : cs.drop (i + 1 + 1) = [] := List.drop_eq_nil_of_le (by omega)
        rw [hnil, leading, parse]
        cases byte c c' with
        | none => rfl
        | some b =>
            simp only [Option.toList_some, List.length_singleton, Buffer.store, hput, room_succ,
              room_zero, and_true, if_pos hend]
            split
            · rfl
            · rfl
      · have h2 : i + 2 < cs.length := by omega
        rw [List.drop_eq_getElem_cons h2, getElem?_terminated h2, leading, parse]
        generalize cs[i + 2] = blank
        cases byte c c' with
        | none =>
            simp only [Option.bind_none, ite_self, List.length_nil, if_pos room_zero,
              Option.map_none]
        | some b =>
            simp only [Buffer.store, hput, if_neg hmore, Option.bind_some]
            by_cases hspace : blank = 32
            · simp only [hspace, ne_eq, not_true, if_true, if_false, List.length_cons, room_succ]
              by_cases hfirst : off + w ≤ out.size
              · rw [if_pos hfirst, Option.bind_some, ih (by omega) (by omega), Option.map_map]
                simp only [hfirst, true_and]
                rfl
              · simp only [hfirst, if_false, Option.bind_none, false_and]
            · simp only [hspace, ne_eq, not_false_iff, if_true, if_false, List.length_singleton,
                room_succ, room_zero, and_true, Option.map_none]
              split
              · rfl
              · rfl

end

/-! ### Leading groups -/

/-- A text starts with `n` groups if `parse` accepts so much of it. -/
theorem le_length_leading_iff {n : ℕ} {cs : List UInt8} (hn : 0 < n)
    (hlength : 3 * n ≤ cs.length + 1) :
  n ≤ (leading cs).length ↔ (parse (cs.take (3 * n - 1))).isSome
  := by
  induction n generalizing cs with
  | zero => omega
  | succ n ih =>
      match cs with
      | [] =>
          rw [List.length_nil] at hlength
          omega
      | [_] =>
          rw [List.length_singleton] at hlength
          omega
      | [c, c'] =>
          have hzero : n = 0 := by
            simp only [List.length_cons, List.length_nil] at hlength
            omega
          subst hzero
          cases hbyte : byte c c' with
          | none => simp [leading, parse, hbyte]
          | some b => simp [leading, parse, hbyte]
      | c :: c' :: blank :: cs =>
          cases n with
          | zero =>
              cases hbyte : byte c c' with
              | none => simp [leading, parse, hbyte]
              | some b =>
                  by_cases hspace : blank = 32
                  · simp [leading, parse, hbyte, hspace]
                  · simp [leading, parse, hbyte, hspace]
          | succ n =>
              have hcount : 3 * (n + 1 + 1) - 1 = 3 * (n + 1) - 1 + 1 + 1 + 1 := by omega
              have hrest : 3 * (n + 1) ≤ cs.length + 1 := by
                simp only [List.length_cons] at hlength
                omega
              rw [hcount, List.take_succ_cons, List.take_succ_cons, List.take_succ_cons, leading,
                parse]
              cases byte c c' with
              | none => simp
              | some b =>
                  by_cases hspace : blank = 32
                  · simp only [if_pos hspace, Option.bind_some, Option.isSome_map,
                      List.length_cons, Nat.add_le_add_iff_right]
                    apply ih (Nat.succ_pos n) hrest
                  · simp [hspace]

end Hex
