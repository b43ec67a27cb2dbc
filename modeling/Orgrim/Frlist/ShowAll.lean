import Orgrim.Frlist.List
import Orgrim.Theory.Buffer
import Orgrim.Theory.Signed

/-!
# Showing a list

`frlist_show_all` puts the strings together that the caller's function makes of the nodes.  The
buffer grows when a string does not fit any more, by 1024 bytes or by so much that the string
fits.

The function of the caller may have a state of its own, `σ`; it makes a string of a node or leaves
the null pointer.  `fresh` tells what `malloc` provides, call by call.  A result means that no
access left the buffer.
-/

namespace Frlist

open Links Frlist.Lists

variable {ι α σ : Type}

/-! ### The source -/

/-- A count of type `int`, after a `size_t` has been added. -/
def addSize (n : ℤ) (size : ℕ) : ℤ := Int.bmod (n + size) (2 ^ 32)

/-- `i_used`, `i_malloc` and `p_all`; `mallocs` counts the calls of `malloc`. -/
structure Shown where
  used : ℤ
  malloc : ℤ
  all : Buffer UInt8
  mallocs : ℕ

/-- The new `i_malloc`, where the characters do not fit into the old one. -/
def grow (used malloc : ℤ) : Option ℤ := do
  let excess ← Signed.eval 32 (used - malloc)
  if excess < 1024 then Signed.eval 32 (malloc + 1024)
  else do
    let more ← Signed.eval 32 (used + 1)
    Signed.eval 32 (malloc + more)

/-- What `frlist_show_all` does with a string `p_tmp`; `none` is where `malloc` fails. -/
def Shown.append (fresh : ℕ → Option (Memory UInt8)) (t : Shown) (tmp : List UInt8) :
    Option (Option Shown) :=
  let used := addSize t.used tmp.length
  if used ≥ t.malloc then do
    let malloc ← grow used t.malloc
    match Buffer.malloc (fresh t.mallocs) malloc with
    | none => some none
    | some remalloc => do
        let chars ← t.all.string
        let all ← remalloc.snprintf 0 (malloc % 2 ^ 64).toNat (chars ++ tmp)
        some (some ⟨used, malloc, all, t.mallocs + 1⟩)
  else do
    let all ← t.all.strcat tmp
    some (some ⟨used, t.malloc, all, t.mallocs⟩)

/-- The loop of `frlist_show_all`, with `p_node_tmp`. -/
def showNodes [DecidableEq α] (s : Lists ι α) (fresh : ℕ → Option (Memory UInt8))
    (pfShow : σ → α → Option (List UInt8) × σ) :
    ℕ → Option α → σ → Shown → Option (Option Shown)
  | _, none, _, t => some (some t)
  | 0, some _, _, _ => none
  | n + 1, some x, c, t =>
      match pfShow c x with
      | (none, c) => do
          let next ← s.loadNext x
          showNodes s fresh pfShow n next c t
      | (some tmp, c) => do
          match ← t.append fresh tmp with
          | none => some none
          | some t =>
              let next ← s.loadNext x
              showNodes s fresh pfShow n next c t

/-- `frlist_show_all`: what it stores in `*pp_outbuff`, if anything. -/
def Lists.showAll [DecidableEq α] (s : Lists ι α) (fresh : ℕ → Option (Memory UInt8)) (c : σ) :
    Option ι → Option (σ → α → Option (List UInt8) × σ) → Option (Option (Buffer UInt8))
  | some l, some pfShow =>
      match Buffer.malloc (fresh 0) 1024 with
      | none => some none
      | some all => do
          let all ← all.store 0 [0]
          let t ← showNodes s fresh pfShow s.live.card (s.head l) c ⟨0, 1024, all, 1⟩
          some (t.map Shown.all)
  | _, _ => some none

/-! ### The strings -/

/-- The strings that the caller's function makes of the nodes. -/
def strings (pfShow : σ → α → Option (List UInt8) × σ) : σ → List α → List (List UInt8)
  | _, [] => []
  | c, x :: xs => (pfShow c x).1.toList ++ strings pfShow (pfShow c x).2 xs

/-- The buffer has room for what it holds, and for more than `i_used` characters. -/
structure Shown.Holds (t : Shown) (chars : List UInt8) : Prop where
  used : t.used = chars.length
  size : t.all.size = t.malloc
  fits : Signed.Fits 32 t.malloc
  all : t.all.HoldsString chars

variable {fresh : ℕ → Option (Memory UInt8)} {t : Shown} {chars tmp : List UInt8}

theorem addSize_eq (h : chars.length + tmp.length < 2 ^ 31) :
  addSize chars.length tmp.length = (chars ++ tmp).length
  := by
  rw [addSize, List.length_append, Int.bmod_eq_of_le]
  · omega
  · omega
  · omega

/-- The new size is enough for the characters and the null character. -/
theorem exists_grow {used malloc : ℤ} (hpos : 0 < malloc) (hle : malloc ≤ used)
    (hbound : used < 2 ^ 30) :
  ∃ malloc', grow used malloc = some malloc' ∧ used < malloc' ∧ Signed.Fits 32 malloc'
  := by
  have hover : Signed.Fits 32 (used - malloc) := by
    rw [Signed.fits_int]
    omega
  have hstep : Signed.Fits 32 (malloc + 1024) := by
    rw [Signed.fits_int]
    omega
  have hmore : Signed.Fits 32 (used + 1) := by
    rw [Signed.fits_int]
    omega
  have hboth : Signed.Fits 32 (malloc + (used + 1)) := by
    rw [Signed.fits_int]
    omega
  simp only [grow, Option.bind_eq_bind, Signed.eval_of_fits hover, Option.bind_some]
  split
  · use malloc + 1024, Signed.eval_of_fits hstep
    constructor
    · omega
    · apply hstep
  · simp only [Signed.eval_of_fits hmore, Option.bind_some]
    use malloc + (used + 1), Signed.eval_of_fits hboth
    constructor
    · omega
    · apply hboth

/-- One more string is appended, in the old buffer or in a larger one. -/
theorem Shown.Holds.append (h : t.Holds chars) (hfresh : ∀ k, (fresh k).isSome)
    (htmp : 0 ∉ tmp) (hbound : (chars ++ tmp).length < 2 ^ 30) :
  ∃ t', t.append fresh tmp = some (some t') ∧ t'.Holds (chars ++ tmp)
  := by
  have hlength := hbound
  rw [List.length_append] at hlength
  have hfits := h.fits
  have hsize := h.size
  have hall := h.all.fits
  have hadd : addSize t.used tmp.length = (chars ++ tmp).length := by
    rw [h.used]
    apply addSize_eq
    omega
  simp only [Shown.append, hadd]
  split
  · rename_i hused
    obtain ⟨malloc, hgrow, hlt, hmalloc⟩ := exists_grow (by omega) hused (by omega)
    obtain ⟨cells, hcells⟩ := Option.isSome_iff_exists.mp (hfresh t.mallocs)
    simp only [hgrow, hcells, Buffer.malloc, Option.map_some, h.all.string_eq, Option.bind_eq_bind,
      Option.bind_some]
    rw [Signed.fits_int] at hmalloc
    have hnonzero : 0 ∉ chars ++ tmp := by
      rw [List.mem_append, not_or]
      use h.all.nonzero
    obtain ⟨all, hprint, hholds, hsame⟩ := Buffer.holdsString_snprintf
      (b := ⟨cells, (malloc % 2 ^ 64).toNat⟩) (n := (malloc % 2 ^ 64).toNat) (by omega)
      (Nat.le_refl _) hnonzero
    simp only [hprint, Option.bind_some]
    refine ⟨_, rfl, ?_⟩
    constructor
    · rfl
    · rw [hsame]
      dsimp only
      omega
    · apply hmalloc
    · apply hholds
  · rename_i hused
    have hroom : chars.length + tmp.length < t.all.size := by
      rw [List.length_append] at hused
      omega
    obtain ⟨all, hcat, hholds, hsame⟩ := h.all.strcat hroom htmp
    simp only [hcat, Option.bind_eq_bind, Option.bind_some]
    refine ⟨_, rfl, ?_⟩
    constructor
    · rfl
    · rw [hsame]
      apply hsize
    · apply hfits
    · apply hholds

/-! ### The whole list -/

variable [DecidableEq α] {s : Lists ι α} {pfShow : σ → α → Option (List UInt8) × σ}

theorem Shown.Holds.showNodes {c : σ} {p : Option α} {xs : List α} {n : ℕ} (h : t.Holds chars)
    (hchain : Chain s.next p xs) (hlive : ∀ x ∈ xs, x ∈ s.live) (hn : xs.length ≤ n)
    (hfresh : ∀ k, (fresh k).isSome) (hstrings : ∀ tmp ∈ strings pfShow c xs, 0 ∉ tmp)
    (hbound : (chars ++ (strings pfShow c xs).flatten).length < 2 ^ 30) :
  ∃ t', showNodes s fresh pfShow n p c t = some (some t') ∧
    t'.Holds (chars ++ (strings pfShow c xs).flatten)
  := by
  induction xs generalizing t chars c p n with
  | nil =>
      obtain rfl := hchain
      use t
      rw [strings, List.flatten_nil, List.append_nil]
      constructor
      · cases n with
        | zero => rfl
        | succ n => rfl
      · apply h
  | cons x xs ih =>
      obtain ⟨rfl, hnext⟩ := hchain
      obtain ⟨n, rfl⟩ := Nat.exists_eq_succ_of_ne_zero (Nat.ne_zero_of_lt hn)
      have hload : s.loadNext x = some (s.next x) := if_pos (hlive x List.mem_cons_self)
      have hlive' : ∀ y ∈ xs, y ∈ s.live := fun y hy => hlive y (List.mem_cons_of_mem x hy)
      rw [strings] at hstrings hbound ⊢
      rw [Frlist.showNodes]
      cases hcase : pfShow c x with
      | mk tmp c' =>
          rw [hcase] at hstrings hbound
          cases tmp with
          | none =>
              simp only [hload, Option.bind_eq_bind, Option.bind_some]
              apply ih h hnext hlive' (Nat.le_of_succ_le_succ hn) hstrings hbound
          | some tmp =>
              simp only [Option.toList_some, List.singleton_append, List.flatten_cons,
                List.mem_cons, forall_eq_or_imp] at hstrings hbound ⊢
              rw [← List.append_assoc] at hbound ⊢
              have hless : (chars ++ tmp).length < 2 ^ 30 := by
                rw [List.length_append] at hbound
                omega
              obtain ⟨t', happend, h'⟩ := h.append hfresh hstrings.1 hless
              simp only [happend, hload, Option.bind_eq_bind, Option.bind_some]
              apply ih h' hnext hlive' (Nat.le_of_succ_le_succ hn) hstrings.2 hbound

/-- `frlist_show_all` puts all strings together, in their order, and every access stays inside of
the buffers. -/
theorem showAll_eq_flatten {l : ι} {c : σ} {xs : List α} (hchain : Chain s.next (s.head l) xs)
    (hlive : ∀ x ∈ xs, x ∈ s.live) (hfresh : ∀ k, (fresh k).isSome)
    (hstrings : ∀ tmp ∈ strings pfShow c xs, 0 ∉ tmp)
    (hbound : (strings pfShow c xs).flatten.length < 2 ^ 30) :
  ∃ all, s.showAll fresh c (some l) (some pfShow) = some (some all) ∧
    all.HoldsString (strings pfShow c xs).flatten
  := by
  obtain ⟨cells, hcells⟩ := Option.isSome_iff_exists.mp (hfresh 0)
  have hfits : Signed.Fits 32 1024 := by decide
  have hempty : Shown.Holds ⟨0, 1024, ⟨cells.write 0 [0], 1024⟩, 1⟩ [] := by
    constructor
    · rfl
    · rfl
    · apply hfits
    · have hslice : (⟨cells, 1024⟩ : Buffer UInt8).cells.slice 0 0 = [] := rfl
      have hfits : 0 + ([] : List UInt8).length < 1024 := by decide
      apply Buffer.holdsString_write hslice rfl hfits List.not_mem_nil List.not_mem_nil
  obtain ⟨t, hshow, h⟩ := hempty.showNodes hchain hlive (hchain.length_le_card hlive) hfresh
    hstrings hbound
  use t.all
  constructor
  · have hstore : Buffer.store ⟨cells, 1024⟩ 0 [0] = some ⟨cells.write 0 [0], 1024⟩ :=
      Buffer.store_of_le (b := ⟨cells, 1024⟩) (by simp)
    have hsize : ((1024 : ℤ) % 2 ^ 64).toNat = 1024 := by decide
    simp only [Lists.showAll, hcells, Buffer.malloc, hsize, Option.map_some, hstore,
      Option.bind_eq_bind, Option.bind_some, hshow]
  · apply h.all

/-- The nodes 0, 1 and 2 in a list. -/
def threeNodes : Lists Unit ℕ where
  live := {0, 1, 2}
  pre _ := none
  next x := if x < 2 then some (x + 1) else none
  data _ := none
  size _ := 3
  head _ := some 0
  tail _ := some 2

/-- A function that counts its calls, and makes no string of the node 1. -/
def showCount (c : ℕ) (x : ℕ) : Option (List UInt8) × ℕ :=
  (if x = 1 then none else some (List.replicate (1500 + 750 * x) (UInt8.ofNat (65 + c))), c + 1)

theorem strings_showCount :
  strings showCount 0 [0, 1, 2] = [List.replicate 1500 65, List.replicate 3000 67]
  := rfl

/-- The buffer grows by 1024 bytes for the first string, and by more for the second one. -/
theorem showAll_threeNodes :
  ∃ all, threeNodes.showAll (fun _ => some (fun _ => 255)) 0 (some ()) (some showCount)
      = some (some all) ∧
    all.HoldsString (strings showCount 0 [0, 1, 2]).flatten
  := by
  have hstrings : ∀ tmp ∈ strings showCount 0 [0, 1, 2], 0 ∉ tmp := by
    intro tmp
    rw [strings_showCount, List.mem_pair]
    rintro (rfl | rfl) hzero
    · exact absurd (List.eq_of_mem_replicate hzero) (by decide)
    · exact absurd (List.eq_of_mem_replicate hzero) (by decide)
  have hlength : (strings showCount 0 [0, 1, 2]).flatten.length = 4500 := by
    rw [strings_showCount, List.flatten_cons, List.flatten_cons, List.flatten_nil, List.append_nil,
      List.length_append, List.length_replicate, List.length_replicate]
  exact showAll_eq_flatten (by decide) (by decide) (fun _ => rfl) hstrings
    (hlength.trans_lt (by decide))

end Frlist
