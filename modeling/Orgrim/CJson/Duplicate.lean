import Mathlib.Data.Nat.Bitwise
import Orgrim.CJson.SameText

/-!
# Copies of items

`cJSON_Duplicate`.  A copy belongs to whoever asked for it, and so does everything in it but for
the names that are constant (`Item.copy`); if there is not enough memory, what has been copied is
deleted (`duplicate_meets`).
-/

namespace CJson

/-! ### The code -/

section

variable {D : Type}

/-- What `cJSON_Duplicate` does at `fail`, once there is a new item -/
def deleteNewitem {α : Type} (newitem : Item D) (hooks : Hooks) : Checked Hooks α :=
  match hooks.deallocate newitem.blocks with
  | none => .undefined
  | some hooks => .failed hooks

/-- `cJSON_strdup` of a string of the item, if there is one.  One that is constant is not copied. -/
def strdup (newitem : Item D) (const : Prop) [Decidable const] :
    Option (List UInt8) → Hooks → Checked Hooks (Option (List UInt8) × Hooks)
  | none, hooks => .done (none, hooks)
  | some string, hooks =>
      if const then .done (some string, hooks)
      else
        match hooks.allocate with
        | (false, hooks) => deleteNewitem newitem hooks
        | (true, hooks) => .done (some (cstring string), hooks)

mutual

/-- `cJSON_Duplicate` -/
def duplicate : Item D → Bool → Hooks → Checked Hooks (Item D × Hooks)
  | ⟨type, valuestring, valueint, valuedouble, string, child⟩, recurse, hooks =>
      match hooks.allocate with
      | (false, hooks) => .failed hooks
      | (true, hooks) => do
          let newitem (valuestring string : Option (List UInt8)) (child : List (Item D)) : Item D :=
            ⟨Nat.ldiff type cJsonIsReference, valuestring, valueint, valuedouble, string, child⟩
          let (newvaluestring, hooks) ← strdup (newitem none none []) False valuestring hooks
          let (newstring, hooks) ←
            strdup (newitem newvaluestring none []) (type &&& cJsonStringIsConst ≠ 0) string hooks
          if ¬ recurse then .done (newitem newvaluestring newstring [], hooks)
          else
            let (newchild, hooks) ← (duplicateChildren child [] hooks).onFail
              (fun (newchild, hooks) =>
                deleteNewitem (newitem newvaluestring newstring newchild) hooks)
            .done (newitem newvaluestring newstring newchild, hooks)

/-- The loop over the children, with the copies that the new item has got -/
def duplicateChildren : List (Item D) → List (Item D) → Hooks →
    Checked (List (Item D) × Hooks) (List (Item D) × Hooks)
  | [], children, hooks => .done (children, hooks)
  | child :: items, children, hooks => do
      let (newchild, hooks) ← (duplicate child true hooks).onFail
        (fun hooks => .failed (children, hooks))
      duplicateChildren items (children ++ [newchild]) hooks

end

end

/-! ### Copies -/

namespace Item

variable {D : Type}

mutual

/-- The copy of an item, with or without its children -/
def copy : Item D → Bool → Item D
  | ⟨type, valuestring, valueint, valuedouble, string, child⟩, recurse =>
      ⟨Nat.ldiff type cJsonIsReference, valuestring.map cstring, valueint, valuedouble,
        if type &&& cJsonStringIsConst ≠ 0 then string else string.map cstring,
        if ¬ recurse then [] else copies child⟩

def copies : List (Item D) → List (Item D)
  | [] => []
  | item :: items => copy item true :: copies items

end

theorem ldiff_and_self (m n : ℕ) :
  Nat.ldiff m n &&& n = 0
  := by
  apply Nat.eq_of_testBit_eq
  intro i
  rw [Nat.testBit_and, Nat.testBit_ldiff, Nat.zero_testBit, Bool.and_assoc, Bool.not_and_self,
    Bool.and_false]

/-- Other bits stay. -/
theorem ldiff_and (m : ℕ) {n k : ℕ} (h : n &&& k = 0) :
  Nat.ldiff m n &&& k = m &&& k
  := by
  apply Nat.eq_of_testBit_eq
  intro i
  have hbit : (n.testBit i && k.testBit i) = false := by
    rw [← Nat.testBit_and, h, Nat.zero_testBit]
  rw [Nat.testBit_and, Nat.testBit_ldiff, Nat.testBit_and]
  cases hk : k.testBit i with
  | false => rw [Bool.and_false, Bool.and_false]
  | true =>
      rw [hk, Bool.and_true] at hbit
      rw [hbit, Bool.not_false, Bool.and_true]

/-- What a copy owns -/
theorem blocks_ldiff (type : ℕ) (valuestring : Option (List UInt8)) (valueint : ℤ) (valuedouble : D)
    (string : Option (List UInt8)) (child : List (Item D)) :
  (⟨Nat.ldiff type cJsonIsReference, valuestring, valueint, valuedouble, string, child⟩ :
      Item D).blocks =
    blocksOf child + valuestring.toList.length +
      (if type &&& cJsonStringIsConst ≠ 0 then 0 else string.toList.length) + 1
  := by
  have hconst : cJsonIsReference &&& cJsonStringIsConst = 0 := rfl
  rw [blocks, if_pos (ldiff_and_self _ _), ldiff_and type hconst, ite_not]

end Item

section

variable {D : Type} {item newitem : Item D} {items children : List (Item D)} {hooks : Hooks}
  {live : ℕ} {format : Bool} {depth : ℕ}

theorem deleteNewitem_meets {α : Type} {P : α → Prop} (h : hooks.live = live + newitem.blocks) :
  (deleteNewitem newitem hooks : Checked Hooks α).Meets P
    (fun hooks' => hooks'.live = live ∧ hooks'.allocations = hooks.allocations)
  := by
  rw [deleteNewitem, Hooks.deallocate_of_le (by omega)]
  refine Checked.meets_failed ⟨?_, rfl⟩
  dsimp only
  omega

/-- A string is copied, or the new item is deleted. -/
theorem strdup_meets (live : ℕ) (const : Prop) [Decidable const] (string : Option (List UInt8))
    (h : hooks.live = live + newitem.blocks) :
  (strdup newitem const string hooks).Meets
    (fun (copied, hooks') => copied = (if const then string else string.map cstring) ∧
      hooks'.live = hooks.live + (if const then 0 else string.toList.length) ∧
      hooks.Allocates hooks')
    (fun hooks' => hooks'.live = live ∧ hooks.Refused hooks')
  := by
  cases string with
  | none =>
      refine Checked.meets_done ⟨?_, ?_, Hooks.Allocates.refl _⟩
      · split <;> rfl
      · split <;> rfl
  | some string =>
      rw [strdup]
      refine Checked.Meets.ite (fun hconst => ?_) (fun hconst => ?_)
      · rw [if_pos hconst, if_pos hconst]
        exact Checked.meets_done ⟨rfl, rfl, Hooks.Allocates.refl _⟩
      rw [if_neg hconst, if_neg hconst]
      cases hgrants : hooks.grants hooks.allocations with
      | false =>
          rw [Hooks.allocate_of_not_grants hgrants]
          exact Checked.Meets.mono (deleteNewitem_meets (by exact h)) (fun _ => id)
            (fun _ h => ⟨h.1, Hooks.refused_of_not_grants hgrants h.2⟩)
      | true =>
          rw [Hooks.allocate_of_grants hgrants]
          exact Checked.meets_done ⟨rfl, rfl, rfl, Nat.le_succ _⟩

/-- The item has been copied, or what has been copied of it has been deleted. -/
def Duplicates (item : Item D) (recurse : Bool) : Prop :=
  ∀ hooks, (duplicate item recurse hooks).Meets
    (fun (newitem, hooks') => newitem = item.copy recurse ∧
      hooks'.live = hooks.live + newitem.blocks ∧ hooks.Allocates hooks')
    (fun hooks' => hooks'.live = hooks.live ∧ hooks.Refused hooks')

/-- The loop over the children -/
theorem duplicateChildren_meets (h : ∀ item ∈ items, Duplicates item true) :
  (duplicateChildren items children hooks).Meets
    (fun (children', hooks') => children' = children ++ Item.copies items ∧
      hooks'.live = hooks.live + Item.blocksOf (Item.copies items) ∧ hooks.Allocates hooks')
    (fun (children', hooks') =>
      hooks'.live + Item.blocksOf children = hooks.live + Item.blocksOf children' ∧
      hooks.Refused hooks')
  := by
  induction items generalizing children hooks with
  | nil =>
      rw [duplicateChildren, Item.copies, Item.blocksOf_nil, List.append_nil]
      exact Checked.meets_done ⟨rfl, rfl, Hooks.Allocates.refl _⟩
  | cons item items ih =>
      rw [duplicateChildren]
      refine Checked.Meets.bind ((h item List.mem_cons_self hooks).onFail ?_) ?_
      · rintro hooks' ⟨hlive, hrefused⟩
        exact Checked.meets_failed ⟨congrArg (· + _) hlive, hrefused⟩
      · rintro ⟨newchild, hooks₁⟩ ⟨rfl, hlive, hallocates⟩
        apply (ih (fun item hitem => h item (List.mem_cons_of_mem _ hitem))).mono
        · rintro ⟨children', hooks'⟩ ⟨rfl, hlive', hallocates'⟩
          refine ⟨?_, ?_, hallocates.trans hallocates'⟩
          · rw [Item.copies, List.append_assoc]
            rfl
          · rw [Item.copies, Item.blocksOf_cons]
            omega
        · rintro ⟨children', hooks'⟩ ⟨hlive', hrefused⟩
          rw [Item.blocksOf_concat] at hlive'
          exact ⟨by omega, hrefused.of_allocates hallocates⟩

/-- The children of a new item, which is deleted if there is not enough memory for them -/
theorem newchild_meets {own : ℕ} (newitem : List (Item D) → Item D)
    (hnewitem : ∀ newchild, (newitem newchild).blocks = Item.blocksOf newchild + own)
    (hlive : hooks.live = live + own) (h : ∀ item ∈ items, Duplicates item true) :
  ((duplicateChildren items [] hooks).onFail
      (fun (newchild, hooks) => deleteNewitem (newitem newchild) hooks)).Meets
    (fun (newchild, hooks') => newchild = Item.copies items ∧
      hooks'.live = live + (newitem newchild).blocks ∧ hooks.Allocates hooks')
    (fun hooks' => hooks'.live = live ∧ hooks.Refused hooks')
  := by
  refine ((duplicateChildren_meets h).mono ?_ (fun _ => id)).onFail ?_
  · rintro ⟨newchild, hooks'⟩ ⟨rfl, hlive', hallocates⟩
    refine ⟨List.nil_append _, ?_, hallocates⟩
    rw [hnewitem, List.nil_append]
    omega
  · rintro ⟨newchild, hooks'⟩ ⟨hlive', hrefused⟩
    rw [Item.blocksOf_nil] at hlive'
    refine Checked.Meets.mono (deleteNewitem_meets ?_) (fun _ => id)
      (fun _ h => ⟨h.1, hrefused.mono h.2.ge⟩)
    rw [hnewitem]
    omega

/-- `cJSON_Duplicate` copies every item, by induction on the item. -/
theorem duplicates (item : Item D) :
  ∀ recurse, Duplicates item recurse
  := by
  induction item using Item.induction with
  | h item ih =>
      intro recurse hooks
      obtain ⟨type, valuestring, valueint, valuedouble, string, child⟩ := item
      rw [duplicate]
      cases hgrants : hooks.grants hooks.allocations with
      | false =>
          rw [Hooks.allocate_of_not_grants hgrants]
          exact Checked.meets_failed ⟨rfl, Hooks.refused_of_not_grants hgrants rfl⟩
      | true =>
          rw [Hooks.allocate_of_grants hgrants]
          have hallocates₀ : hooks.Allocates { hooks with
              allocations := hooks.allocations + 1
              live := hooks.live + 1 } := ⟨rfl, Nat.le_succ _⟩
          -- the value
          refine Checked.Meets.bind ((strdup_meets hooks.live False valuestring ?_).mono
            (fun _ => id) (fun _ h => ⟨h.1, h.2.of_allocates hallocates₀⟩)) ?_
          · rw [Item.blocks_ldiff, Item.blocksOf_nil, Option.toList_none, List.length_nil, ite_self]
          rintro ⟨newvaluestring, hooks₁⟩ ⟨hcopied, hlive₁, hallocates₁⟩
          rw [if_neg not_false] at hcopied hlive₁
          have hbefore₁ : hooks.Allocates hooks₁ := hallocates₀.trans hallocates₁
          have hlength : newvaluestring.toList.length = valuestring.toList.length := by
            rw [hcopied]
            cases valuestring <;> rfl
          -- the name
          refine Checked.Meets.bind ((strdup_meets hooks.live _ string ?_).mono (fun _ => id)
            (fun _ h => ⟨h.1, h.2.of_allocates hbefore₁⟩)) ?_
          · rw [Item.blocks_ldiff, Item.blocksOf_nil, hlive₁, hlength, Option.toList_none,
              List.length_nil, ite_self]
            dsimp only
            omega
          rintro ⟨newstring, hooks₂⟩ ⟨hnewstring, hlive₂, hallocates₂⟩
          have hbefore₂ : hooks.Allocates hooks₂ := hbefore₁.trans hallocates₂
          have hname : (if type &&& cJsonStringIsConst ≠ 0 then 0 else newstring.toList.length) =
              if type &&& cJsonStringIsConst ≠ 0 then 0 else string.toList.length := by
            rw [hnewstring]
            split
            · rfl
            · cases string <;> rfl
          have hlive : hooks₂.live = hooks.live + (valuestring.toList.length +
              (if type &&& cJsonStringIsConst ≠ 0 then 0 else string.toList.length) + 1) := by
            rw [hlive₂, hlive₁]
            dsimp only
            omega
          -- the children
          refine Checked.Meets.ite (fun hnot => ?_) (fun hrecurse => ?_)
          · refine Checked.meets_done ⟨?_, ?_, hbefore₂⟩
            · rw [Item.copy, if_pos hnot, hcopied, hnewstring]
            · rw [Item.blocks_ldiff, Item.blocksOf_nil, hlength, hname, hlive, Nat.zero_add]
          · refine Checked.Meets.bind ((newchild_meets _ (fun newchild => ?_) hlive
              (fun item hitem => ih item hitem true)).mono (fun _ => id)
                (fun _ h => ⟨h.1, h.2.of_allocates hbefore₂⟩)) ?_
            · rw [Item.blocks_ldiff, hlength, hname]
              omega
            · rintro ⟨newchild, hooks'⟩ ⟨rfl, hlive', hallocates'⟩
              refine Checked.meets_done ⟨?_, hlive', hbefore₂.trans hallocates'⟩
              rw [Item.copy, if_neg hrecurse, hcopied, hnewstring]

/-! ### The text of a copy -/

theorem isEmpty_copies :
  (Item.copies items).isEmpty = items.isEmpty
  := by
  cases items <;> rfl

theorem renderString_map (string : Option (List UInt8)) :
  renderString (string.map cstring) = renderString string
  := by
  cases string with
  | none => rfl
  | some chars => exact renderString_cstring (some chars)

theorem renderString_copy (item : Item D) (recurse : Bool) :
  renderString (item.copy recurse).string = renderString item.string
  := by
  obtain ⟨type, _, _, _, string, _⟩ := item
  rw [Item.copy]
  by_cases h : type &&& cJsonStringIsConst ≠ 0
  · rw [if_pos h]
  · rw [if_neg h]
    exact renderString_map string

variable [Double D]

theorem renderElements_copies
    (h : ∀ item ∈ items, ∀ depth, render format (item.copy true) depth = render format item depth) :
  renderElements format (Item.copies items) depth = renderElements format items depth
  := by
  induction items with
  | nil => rw [Item.copies]
  | cons item items ih =>
      have hrest := ih (fun item hitem => h item (List.mem_cons_of_mem _ hitem))
      rw [Item.copies, renderElements, renderElements, isEmpty_copies, h item List.mem_cons_self,
        hrest]

theorem renderMembers_copies
    (h : ∀ item ∈ items, ∀ depth, render format (item.copy true) depth = render format item depth) :
  renderMembers format (Item.copies items) depth = renderMembers format items depth
  := by
  induction items with
  | nil => rw [Item.copies]
  | cons item items ih =>
      have hrest := ih (fun item hitem => h item (List.mem_cons_of_mem _ hitem))
      rw [Item.copies, renderMembers, renderMembers, isEmpty_copies, renderString_copy,
        h item List.mem_cons_self, hrest]

/-- The text of a copy -/
theorem render_copy (item : Item D) :
  ∀ depth, render format (item.copy true) depth = render format item depth
  := by
  induction item using Item.induction with
  | h item ih =>
      intro depth
      obtain ⟨type, valuestring, _, valuedouble, string, child⟩ := item
      have hkind : Nat.ldiff type cJsonIsReference &&& 0xFF = type &&& 0xFF :=
        Item.ldiff_and type rfl
      have hraw : (valuestring.map cstring).map cstring = valuestring.map cstring := by
        rw [Option.map_map]
        congr 1
        funext chars
        exact cstring_cstring chars
      simp only [Item.copy, render, hkind, hraw, renderString_map, not_true, if_false,
        renderElements_copies ih, renderMembers_copies ih]

/-- `cJSON_Duplicate` returns a copy that has the text of the item, if its children are copied as
well, or what it has allocated has been freed and one of its allocations has failed. -/
theorem duplicate_meets (item : Item D) (recurse : Bool) (hooks : Hooks) :
  (duplicate item recurse hooks).Meets
    (fun (newitem, hooks') => newitem = item.copy recurse ∧
      (recurse = true → ∀ format depth, render format newitem depth = render format item depth) ∧
      hooks'.live = hooks.live + newitem.blocks)
    (fun hooks' => hooks'.live = hooks.live ∧ hooks.Refused hooks')
  := by
  apply (duplicates item recurse hooks).mono
  · rintro ⟨newitem, hooks'⟩ ⟨rfl, hlive, -⟩
    refine ⟨rfl, ?_, hlive⟩
    rintro rfl format depth
    exact render_copy item depth
  · exact fun _ => id

end

end CJson
