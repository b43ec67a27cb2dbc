import Mathlib.Algebra.Group.Nat.Defs
import Mathlib.Data.List.Basic
import Mathlib.Data.List.TakeWhile
import Orgrim.Theory.Memory

/-!
# Hexadecimal text

A byte is written as two digits, and a list of bytes as such pairs, separated by single blanks:
`text bs`.  `parse` reads such a text, with digits of either case.  What it reads is what was
written (`parse_text`), and what it accepts is the text of what it reads, but for the case of the
digits (`text_of_parse`).

`scan` is how a program reads the text: with an index into a string that ends with a null
character, storing byte after byte, each with `put`.  It reads what `parse` reads (`scan_eq`).
-/

namespace Hex

/-- The value of a digit. -/
def value (c : UInt8) : Option ℕ :=
  if 48 ≤ c ∧ c ≤ 57 then some (c.toNat - 48)
  else if 65 ≤ c ∧ c ≤ 70 then some (c.toNat - 55)
  else if 97 ≤ c ∧ c ≤ 102 then some (c.toNat - 87)
  else none

/-- The digit of a value below 16. -/
def digit (n : ℕ) : UInt8 :=
  if n < 10 then UInt8.ofNat (48 + n) else UInt8.ofNat (55 + n)

/-- A letter in upper case. -/
def upper (c : UInt8) : UInt8 := if 97 ≤ c ∧ c ≤ 122 then c - 32 else c

/-- The byte that two digits stand for. -/
def byte (c c' : UInt8) : Option UInt8 :=
  (value c).bind (fun n => (value c').map (fun n' => UInt8.ofNat (16 * n + n')))

/-- The two digits of a byte. -/
def digits (b : UInt8) : List UInt8 := [digit (b.toNat / 16), digit (b.toNat % 16)]

/-- The text of a list of bytes. -/
def text : List UInt8 → List UInt8
  | [] => []
  | [b] => digits b
  | b :: b' :: bs => digits b ++ 32 :: text (b' :: bs)

/-- The bytes of a text. -/
def parse : List UInt8 → Option (List UInt8)
  | [c, c'] => (byte c c').map (fun b => [b])
  | c :: c' :: blank :: cs =>
      if blank = 32 then (byte c c').bind (fun b => (parse cs).map (fun bs => b :: bs)) else none
  | _ => none

/-- The length of a string, up to the first null character. -/
def strlen (string : List UInt8) : ℕ := (string.takeWhile (fun c => c ≠ 0)).length

/-- Storing bytes, each with `put`, from an offset on. -/
def stores (put : UInt8 → List UInt8) : ℕ → List UInt8 → Memory UInt8 → Memory UInt8
  | _, [], m => m
  | off, b :: bs, m => stores put (off + 1) bs (m.write off (put b))

/-- Read the first `strLen` characters of a string, from the index `i` on, and store the bytes from
`off` on: no result with too little fuel, and `none` where the string is malformed. -/
def scan (put : UInt8 → List UInt8) (string : List UInt8) (strLen : ℕ) :
    ℕ → ℕ → ℕ → Memory UInt8 → Option (Option (Memory UInt8))
  | 0, _, _, _ => none
  | fuel + 1, i, off, m =>
      if i < strLen then
        match byte (string.getD i 0) (string.getD (i + 1) 0) with
        | none => some none
        | some b =>
            let m := m.write off (put b)
            if i + 2 = strLen then some (some m)
            else if string.getD (i + 2) 0 ≠ 32 then some none
            else scan put string strLen fuel (i + 3) (off + 1) m
      else some (some m)

/-! ### Digits -/

theorem value_digit :
  ∀ n < 16, value (digit n) = some n
  := by decide

theorem digit_of_value {c : UInt8} {n : ℕ} (h : value c = some n) :
  n < 16 ∧ digit n = upper c
  := by
  have hall : ∀ k < 256, ∀ n ∈ value (UInt8.ofNat k),
      n < 16 ∧ digit n = upper (UInt8.ofNat k) := by decide +kernel
  rw [← UInt8.ofNat_toNat (x := c)] at h ⊢
  apply hall c.toNat c.toNat_lt n h

theorem digit_ne_zero :
  ∀ n < 16, digit n ≠ 0 ∧ digit n ≠ 32
  := by decide

theorem value_ne_zero {c : UInt8} (h : (value c).isSome) :
  c ≠ 0 ∧ c ≠ 32
  := by
  constructor
  · rintro rfl
    cases h
  · rintro rfl
    cases h

theorem byte_digits (b : UInt8) :
  byte (digit (b.toNat / 16)) (digit (b.toNat % 16)) = some b
  := by
  have hlt := b.toNat_lt
  rw [byte, value_digit _ (by omega), value_digit _ (by omega), Option.bind_some,
    Option.map_some, Nat.div_add_mod, UInt8.ofNat_toNat]

theorem digits_of_byte {c c' b : UInt8} (h : byte c c' = some b) :
  digits b = [upper c, upper c']
  := by
  obtain ⟨n, hn, h⟩ := Option.bind_eq_some_iff.mp h
  obtain ⟨n', hn', rfl⟩ := Option.map_eq_some_iff.mp h
  obtain ⟨hlt, hc⟩ := digit_of_value hn
  obtain ⟨hlt', hc'⟩ := digit_of_value hn'
  have hbyte : (UInt8.ofNat (16 * n + n')).toNat = 16 * n + n' := by
    rw [UInt8.toNat_ofNat', Nat.mod_eq_of_lt]
    omega
  have hhigh : (16 * n + n') / 16 = n := by omega
  have hlow : (16 * n + n') % 16 = n' := by omega
  rw [digits, hbyte, hhigh, hlow, hc, hc']

/-! ### Texts -/

theorem text_cons_cons (b b' : UInt8) (bs : List UInt8) :
  text (b :: b' :: bs) = digits b ++ 32 :: text (b' :: bs)
  := rfl

theorem length_text :
  ∀ {bs : List UInt8}, bs ≠ [] → (text bs).length + 1 = 3 * bs.length
  | [], h => absurd rfl h
  | [_], _ => rfl
  | b :: b' :: bs, _ => by
      have ih := length_text (List.cons_ne_nil b' bs)
      rw [text_cons_cons, List.length_append, List.length_cons, digits, List.length_cons,
        List.length_cons, List.length_nil, List.length_cons]
      omega

/-- The text of one byte more. -/
theorem text_concat :
  ∀ {bs : List UInt8} (b : UInt8), bs ≠ [] → text (bs ++ [b]) = text bs ++ 32 :: digits b
  | [], _, h => absurd rfl h
  | [_], _, _ => rfl
  | b₁ :: b₂ :: bs, b, _ => by
      have ih := text_concat b (List.cons_ne_nil b₂ bs)
      rw [List.cons_append, List.cons_append, text_cons_cons, text_cons_cons, ← List.cons_append,
        ih, List.append_assoc, List.cons_append]

theorem ne_zero_of_mem_text :
  ∀ {bs : List UInt8}, ∀ c ∈ text bs, c ≠ 0
  | [], c, h => absurd h List.not_mem_nil
  | [b], c, h => by
      have hlt := b.toNat_lt
      rcases List.mem_pair.mp h with rfl | rfl
      · exact (digit_ne_zero _ (by omega)).1
      · exact (digit_ne_zero _ (by omega)).1
  | b :: b' :: bs, c, h => by
      have hlt := b.toNat_lt
      rw [text_cons_cons] at h
      rcases List.mem_append.mp h with h | h
      · rcases List.mem_pair.mp h with rfl | rfl
        · exact (digit_ne_zero _ (by omega)).1
        · exact (digit_ne_zero _ (by omega)).1
      · rcases List.mem_cons.mp h with rfl | h
        · decide
        · apply ne_zero_of_mem_text c h

/-! ### Reading what was written -/

theorem parse_text :
  ∀ {bs : List UInt8}, bs ≠ [] → parse (text bs) = some bs
  | [], h => absurd rfl h
  | [b], _ => by rw [text, digits, parse, byte_digits, Option.map_some]
  | b :: b' :: bs, _ => by
      rw [text_cons_cons, digits, List.cons_append, List.cons_append, List.nil_append, parse,
        if_pos rfl, byte_digits, Option.bind_some, parse_text (List.cons_ne_nil b' bs),
        Option.map_some]

/-- What is read is a single byte, or a byte, a blank and the rest. -/
theorem parse_cases {cs bs : List UInt8} (h : parse cs = some bs) :
  ∃ c c' b rest, cs = c :: c' :: rest ∧ byte c c' = some b ∧
    (rest = [] ∧ bs = [b] ∨ ∃ cs' bs', rest = 32 :: cs' ∧ parse cs' = some bs' ∧ bs = b :: bs')
  := by
  match cs with
  | [] => cases h
  | [_] => cases h
  | [c, c'] =>
      obtain ⟨b, hb, rfl⟩ := Option.map_eq_some_iff.mp h
      exact ⟨c, c', b, [], rfl, hb, Or.inl ⟨rfl, rfl⟩⟩
  | c :: c' :: blank :: cs =>
      obtain ⟨rfl, h⟩ := Option.ite_none_right_eq_some.mp h
      obtain ⟨b, hb, h⟩ := Option.bind_eq_some_iff.mp h
      obtain ⟨bs', hbs', rfl⟩ := Option.map_eq_some_iff.mp h
      exact ⟨c, c', b, 32 :: cs, rfl, hb, Or.inr ⟨cs, bs', rfl, hbs', rfl⟩⟩

theorem ne_nil_of_parse {cs bs : List UInt8} (h : parse cs = some bs) :
  bs ≠ []
  := by
  obtain ⟨c, c', b, rest, rfl, -, ⟨-, rfl⟩ | ⟨cs', bs', -, -, rfl⟩⟩ := parse_cases h
  · apply List.cons_ne_nil b []
  · apply List.cons_ne_nil b bs'

theorem text_of_parse {cs bs : List UInt8} (h : parse cs = some bs) :
  text bs = cs.map upper
  := by
  induction bs generalizing cs with
  | nil => exact absurd rfl (ne_nil_of_parse h)
  | cons b bs ih =>
      obtain ⟨c, c', b, rest, rfl, hb, ⟨rfl, ⟨⟩⟩ | ⟨cs', bs', rfl, hbs', ⟨⟩⟩⟩ := parse_cases h
      · apply digits_of_byte hb
      · obtain ⟨b', bs, rfl⟩ := List.exists_cons_of_ne_nil (ne_nil_of_parse hbs')
        rw [text_cons_cons, ih hbs', digits_of_byte hb]
        rfl

theorem length_of_parse {cs bs : List UInt8} (h : parse cs = some bs) :
  cs.length + 1 = 3 * bs.length
  := by
  rw [← length_text (ne_nil_of_parse h), text_of_parse h, List.length_map]

/-! ### Reading with an index -/

section

theorem strlen_eq {string : List UInt8} (h : 0 ∉ string) :
  strlen string = string.length
  := by
  rw [strlen, List.takeWhile_eq_self_iff.mpr]
  intro c hc
  apply decide_eq_true (ne_of_mem_of_not_mem hc h)

theorem strlen_le (string : List UInt8) :
  strlen string ≤ string.length
  := List.takeWhile_prefix _ |>.length_le

variable {put : UInt8 → List UInt8} {string : List UInt8} {strLen : ℕ}

theorem stores_apply_of_lt {bs : List UInt8} {m : Memory UInt8} {off i : ℕ} (h : i < off) :
  stores put off bs m i = m i
  := by
  induction bs generalizing off m with
  | nil => rfl
  | cons b bs ih =>
      rw [stores, ih (Nat.lt_succ_of_lt h), Memory.write_apply_of_lt _ _ h]

/-- The bytes stored, however many cells a store takes. -/
theorem slice_stores (hput : ∀ b, (put b).head? = some b) {bs : List UInt8} {m : Memory UInt8}
    {off : ℕ} :
  (stores put off bs m).slice off bs.length = bs
  := by
  induction bs generalizing off m with
  | nil => rfl
  | cons b bs ih =>
      obtain ⟨tail, htail⟩ := List.head?_eq_some_iff.mp (hput b)
      have hfirst : (stores put off (b :: bs) m).slice off 1 = [b] := by
        have hlt : off + 0 < off + 1 := Nat.lt_succ_self off
        rw [stores, Memory.slice, List.range_one, List.map_singleton, stores_apply_of_lt hlt,
          htail, Nat.add_zero, Memory.write_cons_self]
      rw [List.length_cons, Nat.add_comm, Memory.slice_add, hfirst, stores, ih]
      rfl

theorem strlen_cons_of_ne {c : UInt8} (h : c ≠ 0) (string : List UInt8) :
  strlen (c :: string) = strlen string + 1
  := by
  simp [strlen, h]

theorem getD_strlen (string : List UInt8) :
  string.getD (strlen string) 0 = 0
  := by
  induction string with
  | nil => rfl
  | cons c string ih =>
      rcases eq_or_ne c 0 with rfl | hne
      · rfl
      · rw [strlen_cons_of_ne hne, List.getD_cons_succ, ih]

theorem byte_zero (c : UInt8) :
  byte c 0 = none
  := by
  rw [byte, Option.bind_eq_none_iff]
  exact fun _ _ => rfl

theorem drop_take_cons {i : ℕ} (hi : i < strLen) (hle : strLen ≤ string.length) :
  (string.take strLen).drop i = string.getD i 0 :: (string.take strLen).drop (i + 1)
  := by
  have hlt : i < (string.take strLen).length := by
    rw [List.length_take]
    omega
  have hlt' : i < string.length := by omega
  rw [List.drop_eq_getElem_cons hlt, List.getElem_take, List.getD_eq_getElem?_getD,
    List.getElem?_eq_getElem hlt', Option.getD_some]

/-- The loop reads what `parse` reads. -/
theorem scan_eq (hle : strLen ≤ string.length) {fuel i off : ℕ} {m : Memory UInt8}
    (hmod : (strLen - i) % 3 = 2) (hfuel : strLen - i ≤ fuel) :
  scan put string strLen fuel i off m =
    some ((parse ((string.take strLen).drop i)).map (fun bs => stores put off bs m))
  := by
  induction fuel generalizing i off m with
  | zero => omega
  | succ fuel ih =>
      have hi : i < strLen := by omega
      rw [drop_take_cons hi hle, drop_take_cons (by omega) hle, scan, if_pos hi]
      rcases eq_or_ne (i + 2) strLen with hend | hmore
      · have hnil : (string.take strLen).drop (i + 1 + 1) = [] := by
          apply List.drop_eq_nil_of_le
          rw [List.length_take]
          omega
        rw [hnil, parse]
        cases byte (string.getD i 0) (string.getD (i + 1) 0) with
        | none => rfl
        | some b => exact if_pos hend
      · have hblank : i + 2 < strLen := by omega
        have hrest : (string.take strLen).drop (i + 1 + 1) =
            string.getD (i + 2) 0 :: (string.take strLen).drop (i + 3) :=
          drop_take_cons hblank hle
        rw [hrest, parse]
        cases byte (string.getD i 0) (string.getD (i + 1) 0) with
        | none =>
            simp only [Option.bind_none]
            split_ifs <;> rfl
        | some b =>
            simp only [if_neg hmore, Option.bind_some]
            by_cases hspace : string.getD (i + 2) 0 = 32
            · rw [if_neg (not_not.mpr hspace), if_pos hspace, ih (by omega) (by omega),
                Option.map_map]
              rfl
            · rw [if_pos hspace, if_neg hspace]
              rfl

end

end Hex
