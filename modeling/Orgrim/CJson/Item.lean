import Mathlib.Algebra.Group.Int.Defs
import Mathlib.Algebra.Group.Nat.Defs
import Mathlib.Data.Fin.Basic
import Mathlib.Data.List.Basic

/-!
# Items

`cJSON.h` and the items of `cJSON.c`.  An item has the list of its children; the pointers that
make this list are not part of the model.  A string is what stands in its memory in front of the
null character that ends it, so that it may contain others; as a C string it ends with the first
(`cstring`).

What the code takes from the C library and the processor about numbers of type `double` is
`Double`.
-/

namespace CJson

/-- What the code uses of `double`. -/
class Double (D : Type) where
  /-- What `memset` leaves. -/
  zero : D
  /-- A number at the start of a string, and its length; nothing if there is none. -/
  strtod : List UInt8 → Option (D × ℕ)
  /-- `sscanf` with `"%lg"` -/
  sscanf : List UInt8 → Option D
  /-- `sprintf` with `"%1.15g"`, `"%1.17g"` -/
  sprintf : ℕ → D → List UInt8
  /-- `(d * 0) == 0` -/
  isFinite : D → Bool
  /-- `a == b` -/
  equal : D → D → Bool
  /-- `d >= INT_MAX` -/
  geIntMax : D → Bool
  /-- `d <= (double) INT_MIN` -/
  leIntMin : D → Bool
  /-- `(int) d` -/
  toInt : D → ℤ

/-! ### A few numbers -/

/-- Some numbers of type `double`: 0, the one that is closest to a third, the one that is closest to
0.333333333333333, -1.5e-07, 1e+15, and one that is not finite -/
inductive Few where
  | zero
  | third
  | belowThird
  | negative
  | large
  | nan
  deriving DecidableEq

namespace Few

/-- What `"%1.15g"` prints -/
def short : Few → List UInt8
  | zero => [48]
  | third => [48, 46, 51, 51, 51, 51, 51, 51, 51, 51, 51, 51, 51, 51, 51, 51, 51]
  | belowThird => [48, 46, 51, 51, 51, 51, 51, 51, 51, 51, 51, 51, 51, 51, 51, 51, 51]
  | negative => [45, 49, 46, 53, 101, 45, 48, 55]
  | large => [49, 101, 43, 49, 53]
  | nan => [110, 97, 110]

/-- What `"%1.17g"` prints -/
def long : Few → List UInt8
  | zero => [48]
  | third => [48, 46, 51, 51, 51, 51, 51, 51, 51, 51, 51, 51, 51, 51, 51, 51, 51, 51, 49]
  | belowThird => [48, 46, 51, 51, 51, 51, 51, 51, 51, 51, 51, 51, 51, 51, 51, 51, 50, 57, 56]
  | negative =>
      [45, 49, 46, 52, 57, 57, 57, 57, 57, 57, 57, 57, 57, 57, 57, 57, 57, 57, 57, 101, 45, 48, 55]
  | large => [49, 48, 48, 48, 48, 48, 48, 48, 48, 48, 48, 48, 48, 48, 48, 48]
  | nan => [110, 97, 110]

/-- The number of one of these texts.  With 15 digits a third is read as the other number. -/
def read (chars : List UInt8) : Option Few :=
  [zero, belowThird, third, negative, large, nan].find?
    (fun number => chars = number.short ∨ chars = number.long)

instance : Double Few where
  zero := zero
  strtod chars := (read chars).map (fun number => (number, chars.length))
  sscanf := read
  sprintf precision number := if precision ≤ 15 then number.short else number.long
  isFinite number := number ≠ nan
  equal a b := a ≠ nan ∧ a = b
  geIntMax number := number = large
  leIntMin _ := false
  toInt _ := 0

end Few

/-! ### Types -/

def cJsonInvalid : ℕ := 0

def cJsonFalse : ℕ := 1

def cJsonTrue : ℕ := 2

def cJsonNull : ℕ := 4

def cJsonNumber : ℕ := 8

def cJsonString : ℕ := 16

def cJsonArray : ℕ := 32

def cJsonObject : ℕ := 64

def cJsonRaw : ℕ := 128

def cJsonIsReference : ℕ := 256

def cJsonStringIsConst : ℕ := 512

/-- `CJSON_NESTING_LIMIT` -/
def cJsonNestingLimit : ℕ := 1000

def intMax : ℕ := 2 ^ 31 - 1

/-! ### Items -/

/-- `cJSON` -/
structure Item (D : Type) where
  type : ℕ
  valuestring : Option (List UInt8)
  valueint : ℤ
  valuedouble : D
  string : Option (List UInt8)
  child : List (Item D)

/-- A string, up to its first null character. -/
def cstring (chars : List UInt8) : List UInt8 := chars.takeWhile (fun c => c ≠ 0)

namespace Item

variable {D : Type}

/-- `cJSON_New_Item` -/
def new [Double D] : Item D where
  type := cJsonInvalid
  valuestring := none
  valueint := 0
  valuedouble := Double.zero
  string := none
  child := []

mutual

/-- How many blocks `cJSON_Delete` frees, without the items next to this one. -/
def blocks : Item D → ℕ
  | ⟨type, valuestring, _, _, string, child⟩ =>
      (if type &&& cJsonIsReference = 0 then blocksOf child + valuestring.toList.length else 0) +
        (if type &&& cJsonStringIsConst = 0 then string.toList.length else 0) + 1

/-- How many blocks `cJSON_Delete` frees. -/
def blocksOf : List (Item D) → ℕ
  | [] => 0
  | item :: items => blocks item + blocksOf items

end

mutual

/-- A property of an item that follows from that of its children. -/
theorem induction {P : Item D → Prop}
    (h : ∀ item : Item D, (∀ child ∈ item.child, P child) → P item) :
  ∀ item : Item D, P item
  | ⟨_, _, _, _, _, child⟩ => h _ (fun item hitem => induction_of h child item hitem)

theorem induction_of {P : Item D → Prop}
    (h : ∀ item : Item D, (∀ child ∈ item.child, P child) → P item) :
  ∀ items : List (Item D), ∀ item ∈ items, P item
  | [], _, hitem => absurd hitem List.not_mem_nil
  | first :: items, item, hitem =>
      (List.mem_cons.mp hitem).elim (fun heq => heq ▸ induction h first)
        (induction_of h items item)

end

end Item

/-! ### Memory -/

/-- `internal_hooks`: which of the allocations succeed, whether there is a `reallocate`, how many
allocations there have been, and how many of their blocks have not been freed. -/
structure Hooks where
  grants : ℕ → Bool
  reallocates : Bool
  allocations : ℕ
  live : ℕ

namespace Hooks

/-- `hooks->allocate`: whether it has succeeded. -/
def allocate (hooks : Hooks) : Bool × Hooks :=
  (hooks.grants hooks.allocations,
    { hooks with
      allocations := hooks.allocations + 1
      live := if hooks.grants hooks.allocations then hooks.live + 1 else hooks.live })

/-- `hooks->reallocate`: whether it has succeeded.  Otherwise the block is as it was. -/
def reallocate (hooks : Hooks) : Bool × Hooks :=
  (hooks.grants hooks.allocations, { hooks with allocations := hooks.allocations + 1 })

/-- `hooks->deallocate`, of some blocks, which must be there. -/
def deallocate (hooks : Hooks) (blocks : ℕ) : Option Hooks :=
  if blocks ≤ hooks.live then some { hooks with live := hooks.live - blocks } else none

/-- There may have been more allocations. -/
structure Allocates (hooks hooks' : Hooks) : Prop where
  grants : hooks'.grants = hooks.grants
  allocations : hooks.allocations ≤ hooks'.allocations

/-- One of the allocations that there have been in between has failed. -/
def Refused (hooks hooks' : Hooks) : Prop :=
  ∃ i, hooks.allocations ≤ i ∧ i < hooks'.allocations ∧ hooks.grants i = false

variable {hooks hooks' hooks'' : Hooks} {blocks : ℕ}

theorem Allocates.refl (hooks : Hooks) :
  hooks.Allocates hooks
  := ⟨rfl, le_refl _⟩

theorem Allocates.trans (h : hooks.Allocates hooks') (h' : hooks'.Allocates hooks'') :
  hooks.Allocates hooks''
  := ⟨h'.grants.trans h.grants, h.allocations.trans h'.allocations⟩

/-- An allocation that has failed later -/
theorem Refused.of_allocates (h : hooks'.Refused hooks'') (hbefore : hooks.Allocates hooks') :
  hooks.Refused hooks''
  := by
  obtain ⟨i, hle, hlt, hgrants⟩ := h
  rw [hbefore.grants] at hgrants
  exact ⟨i, hbefore.allocations.trans hle, hlt, hgrants⟩

theorem Refused.mono (h : hooks.Refused hooks') (hle : hooks'.allocations ≤ hooks''.allocations) :
  hooks.Refused hooks''
  := by
  obtain ⟨i, hfirst, hlt, hgrants⟩ := h
  exact ⟨i, hfirst, hlt.trans_le hle, hgrants⟩

/-- The next allocation fails. -/
theorem refused_of_not_grants (h : hooks.grants hooks.allocations = false)
    (hnext : hooks'.allocations = hooks.allocations + 1) :
  hooks.Refused hooks'
  := ⟨hooks.allocations, le_refl _, hnext ▸ Nat.lt_succ_self _, h⟩

theorem allocate_of_grants (h : hooks.grants hooks.allocations = true) :
  hooks.allocate =
    (true, { hooks with allocations := hooks.allocations + 1, live := hooks.live + 1 })
  := by
  rw [allocate, h, if_pos rfl]

theorem allocate_of_not_grants (h : hooks.grants hooks.allocations = false) :
  hooks.allocate = (false, { hooks with allocations := hooks.allocations + 1 })
  := by
  rw [allocate, h, if_neg Bool.false_ne_true]

theorem reallocate_eq :
  hooks.reallocate =
    (hooks.grants hooks.allocations, { hooks with allocations := hooks.allocations + 1 })
  := rfl

theorem deallocate_of_le (h : blocks ≤ hooks.live) :
  hooks.deallocate blocks = some { hooks with live := hooks.live - blocks }
  := if_pos h

end Hooks

end CJson
