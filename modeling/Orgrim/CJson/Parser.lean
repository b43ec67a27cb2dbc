import Orgrim.CJson.Strings

/-!
# The parser is safe

For every text and whatever allocations fail, the parser makes no access outside of the text or of
the memory that it has allocated, comes to an end, and accepts no more than `CJSON_NESTING_LIMIT`
levels.  When it fails, everything that it has allocated has been freed, and otherwise what is left
is what belongs to the item (`parseWithOpts_meets`).  Of the C library it takes that `strtod` reads
at least one character of a number and none behind the end of the string.
-/

namespace CJson

/-! ### Items -/

namespace Item

variable {D : Type}

mutual

/-- How many levels there are below an item. -/
def height : Item D → ℕ
  | ⟨_, _, _, _, _, child⟩ => heightOf child

/-- How many levels some items have. -/
def heightOf : List (Item D) → ℕ
  | [] => 0
  | item :: items => max (height item + 1) (heightOf items)

end

variable {item : Item D} {items more : List (Item D)}

theorem height_eq :
  item.height = heightOf item.child
  := by
  cases item
  rw [height]

@[simp]
theorem heightOf_nil :
  heightOf ([] : List (Item D)) = 0
  := by
  rw [heightOf]

@[simp]
theorem heightOf_cons :
  heightOf (item :: items) = max (item.height + 1) (heightOf items)
  := by
  rw [heightOf]

theorem heightOf_concat :
  heightOf (items ++ [item]) = max (heightOf items) (item.height + 1)
  := by
  induction items with
  | nil => rw [List.nil_append, heightOf_cons, Nat.max_comm]
  | cons first items ih => rw [List.cons_append, heightOf_cons, heightOf_cons, ih, Nat.max_assoc]

/-- What the item refers to belongs to it. -/
structure Owned (item : Item D) : Prop where
  reference : item.type &&& cJsonIsReference = 0
  const : item.type &&& cJsonStringIsConst = 0

theorem Owned.blocks_eq (h : item.Owned) :
  item.blocks =
    blocksOf item.child + item.valuestring.toList.length + item.string.toList.length + 1
  := by
  obtain ⟨hreference, hconst⟩ := h
  cases item
  rw [blocks, if_pos hreference, if_pos hconst]

@[simp]
theorem blocksOf_nil :
  blocksOf ([] : List (Item D)) = 0
  := by
  rw [blocksOf]

@[simp]
theorem blocksOf_cons :
  blocksOf (item :: items) = item.blocks + blocksOf items
  := by
  rw [blocksOf]

theorem blocksOf_concat :
  blocksOf (items ++ [item]) = blocksOf items + item.blocks
  := by
  induction items with
  | nil => rw [List.nil_append, blocksOf_cons, Nat.add_comm]
  | cons first items ih => rw [List.cons_append, blocksOf_cons, blocksOf_cons, ih, Nat.add_assoc]

theorem new_owned [Double D] :
  (new : Item D).Owned
  := ⟨Nat.zero_and _, Nat.zero_and _⟩

@[simp]
theorem blocks_new [Double D] :
  (new : Item D).blocks = 1
  := by
  rw [new_owned.blocks_eq, new, blocksOf_nil]
  rfl

/-- An item that has at most a name, as the parser fills it. -/
structure Fresh (item : Item D) : Prop extends item.Owned where
  valuestring : item.valuestring = none
  child : item.child = []

theorem new_fresh [Double D] :
  (new : Item D).Fresh
  := ⟨new_owned, rfl, rfl⟩

theorem Fresh.blocks_eq (h : item.Fresh) :
  item.blocks = item.string.toList.length + 1
  := by
  rw [h.toOwned.blocks_eq, h.valuestring, h.child, blocksOf_nil]
  exact congrArg (· + 1) (Nat.zero_add _)

end Item

/-! ### Moving in the text -/

namespace ParseBuffer

variable {D : Type} {b b' : ParseBuffer} {c : UInt8} {head : List (Item D)}

theorem IsAt.lt (h : b.IsAt c) :
  b.offset < b.content.length
  := (List.getElem?_eq_some_iff.mp h).1

/-- The buffer as before, but for the offset. -/
structure Same (b b' : ParseBuffer) : Prop where
  content : b'.content = b.content
  depth : b'.depth = b.depth
  hooks : b'.hooks = b.hooks

/-- The loop stops in the text, or goes back from its end. -/
theorem skipWhitespace_meets (hlt : b.offset < b.content.length) :
  b.skipWhitespace.Meets
    (fun b' => b.Same b' ∧ b.offset ≤ b'.offset ∧ b'.offset < b.content.length)
    (fun _ => False)
  := by
  have hspaces := (List.takeWhile_prefix (fun c : UInt8 => decide (c ≤ 32))
    (l := b.content.drop b.offset)).length_le
  rw [List.length_drop] at hspaces
  refine Checked.Meets.ite (fun heq => ?_) (fun hne => ?_)
  · dsimp only at heq
    refine Checked.Meets.ite (fun hzero => ?_) (fun _ => ?_)
    · dsimp only at hzero
      omega
    · refine Checked.meets_done ⟨⟨rfl, rfl, rfl⟩, ?_⟩
      dsimp only
      omega
  · dsimp only at hne
    refine Checked.meets_done ⟨⟨rfl, rfl, rfl⟩, ?_⟩
    dsimp only
    omega

theorem fail_meets {α : Type} {P : α → Prop} (hle : Item.blocksOf head ≤ b.hooks.live) :
  (b.fail head).Meets P
    (fun b' => b'.content = b.content ∧ b'.hooks.live + Item.blocksOf head = b.hooks.live)
  := by
  rw [fail, Hooks.deallocate_of_le hle]
  exact Checked.meets_failed ⟨rfl, Nat.sub_add_cancel hle⟩

theorem newItem_meets (hle : Item.blocksOf head ≤ b.hooks.live) :
  (b.newItem head).Meets
    (fun b' => b'.content = b.content ∧ b'.depth = b.depth ∧ b'.offset = b.offset ∧
      b'.hooks.live = b.hooks.live + 1)
    (fun b' => b'.content = b.content ∧ b'.hooks.live + Item.blocksOf head = b.hooks.live)
  := by
  rw [newItem]
  cases hgrants : b.hooks.grants b.hooks.allocations with
  | false =>
      rw [Hooks.allocate_of_not_grants hgrants]
      exact fail_meets (b := { b with
        hooks := { b.hooks with allocations := b.hooks.allocations + 1 } }) hle
  | true =>
      rw [Hooks.allocate_of_grants hgrants]
      exact Checked.meets_done ⟨rfl, rfl, rfl, rfl⟩

end ParseBuffer

/-! ### Arrays and objects -/

section

variable {D : Type} [Double D]
  {parse : Item D → ParseBuffer → Checked ParseBuffer (Item D × ParseBuffer)}
  {loop : List (Item D) → ParseBuffer → Checked ParseBuffer (List (Item D) × ParseBuffer)}
  {depth fuel : ℕ} {b b₁ b₂ : ParseBuffer} {item : Item D} {head : List (Item D)}

/-- What has been put into an item, and read. -/
structure Fills (b : ParseBuffer) (item : Item D) (item' : Item D) (b' : ParseBuffer) : Prop
    extends b.Reads b' where
  live : b'.hooks.live + item.blocks = b.hooks.live + item'.blocks
  height : item'.height + b.depth ≤ cJsonNestingLimit

/-- Parsing is safe, at a level. -/
def Safe (parse : Item D → ParseBuffer → Checked ParseBuffer (Item D × ParseBuffer))
    (depth : ℕ) : Prop :=
  ∀ item b, item.Fresh → b.Terminated → b.depth = depth → b.offset < b.content.length →
    (parse item b).Meets (fun (item', b') => Fills b item item' b') (fun b' => b.Fails b')

/-- What has been put into a list of items, and read. -/
structure Extends (b : ParseBuffer) (head head' : List (Item D)) (b' : ParseBuffer) : Prop where
  content : b'.content = b.content
  depth : b'.depth = b.depth
  lt : b.offset < b'.offset
  live : b'.hooks.live + Item.blocksOf head = b.hooks.live + Item.blocksOf head'
  height : Item.heightOf head' + b.depth ≤ cJsonNestingLimit + 1

/-- A list has been deleted. -/
structure Deletes (b : ParseBuffer) (head : List (Item D)) (b' : ParseBuffer) : Prop where
  content : b'.content = b.content
  live : b'.hooks.live + Item.blocksOf head = b.hooks.live

/-- A loop over the items of a list is safe, at a level, with fuel for the rest of the text. -/
def SafeLoop
    (loop : List (Item D) → ParseBuffer → Checked ParseBuffer (List (Item D) × ParseBuffer))
    (fuel depth : ℕ) : Prop :=
  ∀ head b, b.Terminated → b.depth = depth → b.offset + 1 < b.content.length →
    b.content.length ≤ b.offset + fuel → Item.blocksOf head ≤ b.hooks.live →
    Item.heightOf head + depth ≤ cJsonNestingLimit + 1 →
    (loop head b).Meets (fun (head', b') => Extends b head head' b')
      (fun b' => Deletes b head b')

omit [Double D] in
/-- What follows an item in a list -/
theorem comma_meets (hloop : SafeLoop loop fuel depth) (hb : b.Terminated) (hdepth : b.depth = depth)
    (hfuel : b.content.length ≤ b.offset + fuel + 1) (hlive : Item.blocksOf head ≤ b.hooks.live)
    (hheight : Item.heightOf head + depth ≤ cJsonNestingLimit + 1)
    (hcontent : b₁.content = b.content) (hdepth₁ : b₁.depth = b.depth)
    (hlt : b.offset < b₁.offset) (hle : b₁.offset < b.content.length)
    (hlive₁ : b₁.hooks.live = b.hooks.live + item.blocks)
    (hitem : item.height + b.depth ≤ cJsonNestingLimit) :
  Checked.Meets (fun (head', b') => Extends b head head' b') (fun b' => Deletes b head b')
    (do
      let b ← b₁.skipWhitespace
      if b.IsAt 44 then loop (head ++ [item]) b else .done (head ++ [item], b))
  := by
  have hheight₁ : Item.heightOf (head ++ [item]) + depth ≤ cJsonNestingLimit + 1 := by
    rw [Item.heightOf_concat]
    omega
  have hskip := ParseBuffer.skipWhitespace_meets (b := b₁) (hcontent ▸ hle)
  refine Checked.Meets.bind (hskip.mono (fun _ => id) (fun _ => False.elim)) ?_
  rintro b₂ ⟨hsame, hle₂, -⟩
  have hcontent₂ := hsame.content.trans hcontent
  have hoffset₂ : b.offset < b₂.offset := by omega
  have hlive₂ : b₂.hooks.live = b.hooks.live + item.blocks := by
    rw [hsame.hooks]
    exact hlive₁
  refine Checked.Meets.ite (fun hcomma => ?_) (fun _ => ?_)
  · have hb₂ := hb.of_content hcontent₂
    have hlt₃ := hb₂.lt_of_isAt hcomma (by decide)
    have hrest := hloop (head ++ [item]) b₂ hb₂ (hsame.depth.trans (hdepth₁.trans hdepth))
      hlt₃ (by rw [hcontent₂]; omega) (by rw [Item.blocksOf_concat]; omega) hheight₁
    apply hrest.mono
    · rintro ⟨head', b'⟩ h
      have hlive' := h.live
      rw [Item.blocksOf_concat] at hlive'
      refine ⟨h.content.trans hcontent₂, ?_, hoffset₂.trans h.lt, by omega, ?_⟩
      · rw [h.depth, hsame.depth, hdepth₁]
      · have hheight' := h.height
        rw [hsame.depth, hdepth₁] at hheight'
        exact hheight'
    · intro b' h
      have hlive' := h.live
      rw [Item.blocksOf_concat] at hlive'
      exact ⟨h.content.trans hcontent₂, by omega⟩
  · refine Checked.meets_done ⟨hcontent₂, hsame.depth.trans hdepth₁, hoffset₂, ?_, ?_⟩
    · rw [Item.blocksOf_concat]
      omega
    · rw [hdepth]
      exact hheight₁

omit [Double D] in
/-- An item has been added to the list, and the buffer goes on behind the comma. -/
theorem newItem_safe (hoffset : b.offset + 1 < b.content.length)
    (hlive : Item.blocksOf head ≤ b.hooks.live) :
  Checked.Meets
    (fun b' => b'.content = b.content ∧ b'.depth = b.depth ∧ b.offset + 1 ≤ b'.offset ∧
      b'.offset < b.content.length ∧ b'.hooks.live = b.hooks.live + 1)
    (fun b' => Deletes b head b')
    (do
      let b ← b.newItem head
      { b with offset := b.offset + 1 }.skipWhitespace)
  := by
  refine Checked.Meets.bind ((ParseBuffer.newItem_meets hlive).mono (fun _ => id)
    (fun b' h => ⟨h.1, h.2⟩)) ?_
  rintro b₁ ⟨hcontent, hdepth, hsame, hlive₁⟩
  have hlt : b₁.offset + 1 < b₁.content.length := by
    rw [hcontent, hsame]
    exact hoffset
  have hskip := ParseBuffer.skipWhitespace_meets (b := { b₁ with offset := b₁.offset + 1 }) hlt
  apply hskip.mono _ (fun _ => False.elim)
  rintro b₂ ⟨hsame₂, hle₂, hlt₂⟩
  dsimp only at hle₂ hlt₂
  rw [hsame] at hle₂
  rw [hcontent] at hlt₂
  refine ⟨hsame₂.content.trans hcontent, hsame₂.depth.trans hdepth, hle₂, hlt₂, ?_⟩
  rw [hsame₂.hooks]
  exact hlive₁

omit [Double D] in
/-- A list is deleted, with the item that has been added to it last. -/
theorem delete_safe {α : Type} {P : α → Prop} {e : ParseBuffer} (hcontent : e.content = b.content)
    (hlive : e.hooks.live = b.hooks.live + item.blocks)
    (hle : Item.blocksOf head ≤ b.hooks.live) :
  (e.fail (head ++ [item])).Meets P (fun b' => Deletes b head b')
  := by
  have hdelete : Item.blocksOf (head ++ [item]) ≤ e.hooks.live := by
    rw [Item.blocksOf_concat]
    omega
  apply (ParseBuffer.fail_meets hdelete).mono (fun _ => id)
  rintro e' ⟨hcontent', hlive'⟩
  rw [Item.blocksOf_concat] at hlive'
  exact ⟨hcontent'.trans hcontent, by omega⟩

/-- The loop of `parse_array` is safe. -/
theorem parseElements_safe (hparse : Safe parse depth) :
  SafeLoop (parseElements parse fuel) fuel depth
  := by
  induction fuel with
  | zero =>
      intro head b _ _ hoffset hfuel
      omega
  | succ fuel ih =>
      intro head b hb hdepth hoffset hfuel hlive hheight
      have hnew := newItem_safe hoffset hlive
      rw [parseElements, ← Checked.bind_assoc]
      refine Checked.Meets.bind hnew ?_
      rintro b₁ ⟨hcontent₁, hdepth₁, hlt₁, hle₁, hlive₁⟩
      have hitem := hparse Item.new b₁ Item.new_fresh (hb.of_content hcontent₁)
        (hdepth₁.trans hdepth) (by rw [hcontent₁]; exact hle₁)
      refine Checked.Meets.bind (hitem.onFail ?_) ?_
      · intro e he
        apply delete_safe (he.content.trans hcontent₁)
        · rw [he.live, hlive₁, Item.blocks_new]
        · exact hlive
      · rintro ⟨item, b₂⟩ hfills
        have hlive₂ := hfills.live
        have hle₂ := hfills.le
        have hlt₂ := hfills.lt
        have hheight₂ := hfills.height
        rw [Item.blocks_new] at hlive₂
        rw [hcontent₁] at hle₂
        rw [hdepth₁] at hheight₂
        exact comma_meets ih hb hdepth (by omega) hlive hheight
          (hfills.content.trans hcontent₁) (hfills.depth.trans hdepth₁) (by omega) hle₂ (by omega)
          hheight₂

/-- An item with a name is as it comes from `cJSON_New_Item`, but for its name. -/
theorem named_fresh {output : List UInt8} :
  Item.Fresh { (Item.new : Item D) with
    type := cJsonString
    valuestring := none
    string := some output }
  := by
  have hreference : cJsonString &&& cJsonIsReference = 0 := by decide
  have hconst : cJsonString &&& cJsonStringIsConst = 0 := by decide
  exact ⟨⟨hreference, hconst⟩, rfl, rfl⟩

/-- The loop of `parse_object` is safe. -/
theorem parseMembers_safe (hparse : Safe parse depth) :
  SafeLoop (parseMembers parse fuel) fuel depth
  := by
  induction fuel with
  | zero =>
      intro head b _ _ hoffset hfuel
      omega
  | succ fuel ih =>
      intro head b hb hdepth hoffset hfuel hlive hheight
      rw [parseMembers, ← Checked.bind_assoc]
      refine Checked.Meets.bind (newItem_safe hoffset hlive) ?_
      rintro b₁ ⟨hcontent₁, hdepth₁, hlt₁, hle₁, hlive₁⟩
      have hname := parseString_meets (Item.new : Item D) (hb.of_content hcontent₁)
        (hcontent₁ ▸ hle₁)
      refine Checked.Meets.bind (hname.onFail ?_) ?_
      · intro e he
        apply delete_safe (he.content.trans hcontent₁)
        · rw [he.live, hlive₁, Item.blocks_new]
        · exact hlive
      rintro ⟨_, b₂⟩ ⟨hreads, hlive₂, output, rfl⟩
      have hcontent₂ := hreads.content.trans hcontent₁
      have hskip := ParseBuffer.skipWhitespace_meets (b := b₂)
        (by rw [hreads.content]; exact hreads.le)
      refine Checked.Meets.bind (hskip.mono (fun _ => id) (fun _ => False.elim)) ?_
      rintro b₃ ⟨hsame₃, hle₃, -⟩
      have hcontent₃ := hsame₃.content.trans hcontent₂
      have hlive₃ : b₃.hooks.live = b.hooks.live + 2 := by
        rw [hsame₃.hooks, hlive₂, hlive₁]
      have hnamed : Item.Fresh { (Item.new : Item D) with
          type := cJsonString
          valuestring := none
          string := some output } := named_fresh
      have hblocks := hnamed.blocks_eq
      refine Checked.Meets.ite (fun _ => ?_) (fun hcolon => ?_)
      · apply delete_safe hcontent₃ _ hlive
        rw [hlive₃]
        exact congrArg (b.hooks.live + ·) hblocks.symm
      have hb₃ := hb.of_content hcontent₃
      have hlt₃ := hb₃.lt_of_isAt (Decidable.not_not.mp hcolon) (by decide)
      have hlt₂ := hreads.lt
      have hskip₃ := ParseBuffer.skipWhitespace_meets (b := { b₃ with offset := b₃.offset + 1 })
        hlt₃
      refine Checked.Meets.bind (hskip₃.mono (fun _ => id) (fun _ => False.elim)) ?_
      rintro b₄ ⟨hsame₄, hle₄, hlt₄⟩
      dsimp only at hle₄ hlt₄
      rw [hcontent₃] at hlt₄
      have hcontent₄ := hsame₄.content.trans hcontent₃
      have hdepth₄ : b₄.depth = b.depth := by
        rw [hsame₄.depth, hsame₃.depth, hreads.depth, hdepth₁]
      have hlive₄ : b₄.hooks.live = b.hooks.live + 2 := by
        rw [hsame₄.hooks, hlive₃]
      have hitem := hparse _ b₄ hnamed (hb.of_content hcontent₄) (hdepth₄.trans hdepth)
        (by rw [hcontent₄]; exact hlt₄)
      refine Checked.Meets.bind (hitem.onFail ?_) ?_
      · intro e he
        apply delete_safe (he.content.trans hcontent₄) _ hlive
        rw [he.live, hlive₄]
        exact congrArg (b.hooks.live + ·) hblocks.symm
      · rintro ⟨item, b₅⟩ hfills
        have hlive₅ := hfills.live
        have hle₅ := hfills.le
        have hlt₅ := hfills.lt
        have hheight₅ := hfills.height
        rw [hblocks] at hlive₅
        dsimp only [Option.toList, List.length_singleton] at hlive₅
        rw [hcontent₄] at hle₅
        rw [hdepth₄] at hheight₅
        exact comma_meets ih hb hdepth (by omega) hlive hheight
          (hfills.content.trans hcontent₄) (hfills.depth.trans hdepth₄) (by omega) hle₅ (by omega)
          hheight₅

omit [Double D] in
/-- What is between the brackets is safe. -/
theorem parseList_safe {loop : ℕ → List (Item D) → ParseBuffer →
      Checked ParseBuffer (List (Item D) × ParseBuffer)} {close : UInt8}
    (hloop : SafeLoop (loop b.content.length) b.content.length b.depth) (hb : b.Terminated)
    (hoffset : b.offset + 1 < b.content.length) (hclose : close ≠ 0)
    (hdepth : b.depth ≤ cJsonNestingLimit) :
  (parseList loop close b).Meets
    (fun (head, b') => Extends b [] head b' ∧ b'.offset + 1 < b.content.length)
    (fun b' => b.Fails b')
  := by
  have hskip := ParseBuffer.skipWhitespace_meets (b := { b with offset := b.offset + 1 }) hoffset
  refine Checked.Meets.bind (hskip.mono (fun _ => id) (fun _ => False.elim)) ?_
  rintro b₁ ⟨hsame, hle, hlt⟩
  have hcontent₁ : b₁.content = b.content := hsame.content
  have hdepth₁ : b₁.depth = b.depth := hsame.depth
  have hlive₁ : b₁.hooks.live = b.hooks.live := congrArg Hooks.live hsame.hooks
  dsimp only at hle hlt
  refine Checked.Meets.ite (fun hat => ?_) (fun _ => ?_)
  · have hlt₁ := (hb.of_content hcontent₁).lt_of_isAt hat hclose
    rw [hcontent₁] at hlt₁
    refine Checked.meets_done ⟨⟨hcontent₁, hdepth₁, hle, ?_, ?_⟩, hlt₁⟩
    · rw [hlive₁]
    · rw [Item.heightOf_nil]
      omega
  · rw [if_neg (by rw [hcontent₁]; omega), ParseBuffer.back, if_neg (by omega), Checked.done_bind]
    have hloop₂ := hloop [] { b₁ with offset := b₁.offset - 1 } (hb.of_content hcontent₁) hdepth₁
      (by dsimp only; rw [hcontent₁]; omega) (by dsimp only; rw [hcontent₁]; omega)
      (Nat.zero_le _) (by rw [Item.heightOf_nil]; omega)
    dsimp only
    rw [congrArg List.length hcontent₁]
    refine Checked.Meets.bind (hloop₂.mono (fun _ => id) ?_) ?_
    · intro b' h
      have hlive := h.live
      rw [Item.blocksOf_nil, Nat.add_zero] at hlive
      exact ⟨h.content.trans hcontent₁, hlive.trans hlive₁⟩
    rintro ⟨head, b₂⟩ h
    have hcontent₂ : b₂.content = b.content := h.content.trans hcontent₁
    have hlive₂ := h.live
    dsimp only at hlive₂
    rw [hlive₁] at hlive₂
    refine Checked.Meets.ite (fun _ => ?_) (fun hat => ?_)
    · have hdelete : Item.blocksOf head ≤ b₂.hooks.live := by
        rw [Item.blocksOf_nil] at hlive₂
        omega
      apply (ParseBuffer.fail_meets hdelete).mono (fun _ => id)
      rintro b' ⟨hcontent', hlive'⟩
      rw [Item.blocksOf_nil] at hlive₂
      exact ⟨hcontent'.trans hcontent₂, by omega⟩
    · have hlt₂ := (hb.of_content hcontent₂).lt_of_isAt (Decidable.not_not.mp hat) hclose
      rw [hcontent₂] at hlt₂
      have hless := h.lt
      have hheight := h.height
      dsimp only at hless hheight
      rw [hdepth₁] at hheight
      have hbehind : b.offset < b₂.offset := by omega
      exact Checked.meets_done
        ⟨⟨hcontent₂, h.depth.trans hdepth₁, hbehind, hlive₂, hheight⟩, hlt₂⟩

omit [Double D] in
/-- An item gets its type and its children. -/
theorem fresh_blocks {type : ℕ} (h : item.Fresh) (htype : type &&& cJsonIsReference = 0)
    (hconst : type &&& cJsonStringIsConst = 0) :
  { item with type := type, child := head }.blocks = item.blocks + Item.blocksOf head
  := by
  have howned : Item.Owned { item with type := type, child := head } := ⟨htype, hconst⟩
  rw [howned.blocks_eq, h.blocks_eq, h.valuestring]
  dsimp only [Option.toList, List.length_nil]
  omega

omit [Double D] in
/-- The brackets have been read, and what is between them. -/
theorem fills_of_extends {type : ℕ} {b' : ParseBuffer} (hitem : item.Fresh)
    (htype : type &&& cJsonIsReference = 0) (hconst : type &&& cJsonStringIsConst = 0)
    (h : Extends { b with depth := b.depth + 1 } [] head b')
    (hlt : b'.offset + 1 < b.content.length) :
  Fills b item { item with type := type, child := head }
    { b' with depth := b'.depth - 1, offset := b'.offset + 1 }
  := by
  have hless := h.lt
  have hlive := h.live
  have hheight := h.height
  dsimp only at hless hlive hheight
  rw [Item.blocksOf_nil] at hlive
  refine ⟨⟨h.content, ?_, Nat.lt_succ_of_lt hless, hlt⟩, ?_, ?_⟩
  · dsimp only
    rw [h.depth]
    apply Nat.add_sub_cancel
  · dsimp only
    rw [fresh_blocks hitem htype hconst]
    omega
  · rw [Item.height_eq]
    dsimp only
    omega

/-- An array is safe if the values in it are. -/
theorem parseArray_safe (hparse : b.depth < cJsonNestingLimit → Safe parse (b.depth + 1))
    (hitem : item.Fresh) (hb : b.Terminated) (hat : b.IsAt 91) :
  (parseArray parse item b).Meets (fun (item', b') => Fills b item item' b') (fun b' => b.Fails b')
  := by
  refine Checked.Meets.ite (fun _ => Checked.meets_failed ⟨rfl, rfl⟩) (fun hdepth => ?_)
  have hless : b.depth < cJsonNestingLimit := Nat.lt_of_not_le hdepth
  have hread : Checked.access b.content[b.offset]? = Checked.done (ε := ParseBuffer) 91 :=
    Checked.access_eq_done.mpr hat
  dsimp only
  rw [hread, Checked.done_bind, if_neg (not_not.mpr rfl)]
  have hloop : SafeLoop (parseElements parse b.content.length) b.content.length (b.depth + 1) :=
    parseElements_safe (hparse hless)
  have hclose : (93 : UInt8) ≠ 0 := by decide
  have hlist := parseList_safe (b := { b with depth := b.depth + 1 }) hloop hb
    (hb.lt_of_isAt hat (by decide)) hclose hless
  refine Checked.Meets.bind (hlist.mono (fun _ => id) (fun b' h => ⟨h.content, h.live⟩)) ?_
  rintro ⟨head, b'⟩ ⟨hextends, hlt⟩
  exact Checked.meets_done (fills_of_extends hitem (by decide) (by decide) hextends hlt)

/-- An object is safe if the values in it are. -/
theorem parseObject_safe (hparse : b.depth < cJsonNestingLimit → Safe parse (b.depth + 1))
    (hitem : item.Fresh) (hb : b.Terminated) (hat : b.IsAt 123) :
  (parseObject parse item b).Meets (fun (item', b') => Fills b item item' b')
    (fun b' => b.Fails b')
  := by
  refine Checked.Meets.ite (fun _ => Checked.meets_failed ⟨rfl, rfl⟩) (fun hdepth => ?_)
  have hless : b.depth < cJsonNestingLimit := Nat.lt_of_not_le hdepth
  refine Checked.Meets.ite (fun hnot => absurd hat hnot) (fun _ => ?_)
  have hloop : SafeLoop (parseMembers parse b.content.length) b.content.length (b.depth + 1) :=
    parseMembers_safe (hparse hless)
  have hclose : (125 : UInt8) ≠ 0 := by decide
  have hlist := parseList_safe (b := { b with depth := b.depth + 1 }) hloop hb
    (hb.lt_of_isAt hat (by decide)) hclose hless
  refine Checked.Meets.bind (hlist.mono (fun _ => id) (fun b' h => ⟨h.content, h.live⟩)) ?_
  rintro ⟨head, b'⟩ ⟨hextends, hlt⟩
  exact Checked.meets_done (fills_of_extends hitem (by decide) (by decide) hextends hlt)

/-! ### Values -/

/-- `strtod` reads at least one character, and none behind the end of the string. -/
def StrtodReads (D : Type) [Double D] : Prop :=
  ∀ chars (number : D) n, Double.strtod chars = some (number, n) → 0 < n ∧ n ≤ chars.length

/-- What stands in the text without a null character ends in front of the last one. -/
theorem lt_of_prefix {text : List UInt8} (hb : b.Terminated) (hoffset : b.offset < b.content.length)
    (htext : text <+: b.content.drop b.offset) (hzero : 0 ∉ text) :
  b.offset + text.length < b.content.length
  := by
  have hlength := htext.length_le
  rw [List.length_drop] at hlength
  rcases Nat.lt_or_ge (b.offset + text.length) b.content.length with hlt | hle
  · exact hlt
  · have heq : text = b.content.drop b.offset := by
      apply htext.eq_of_length
      rw [List.length_drop]
      omega
    obtain ⟨value, hvalue⟩ := hb
    rw [heq, hvalue, List.drop_append_of_le_length] at hzero
    · exact absurd (List.mem_append_right _ (List.mem_singleton_self 0)) hzero
    · rw [hvalue, List.length_append, List.length_singleton] at hoffset
      omega

omit [Double D] in
/-- An item without children has been read. -/
theorem fills_of_reads {item' : Item D} {b' : ParseBuffer} (hdepth : b.depth ≤ cJsonNestingLimit)
    (h : b.Reads b') (hlive : b'.hooks.live + item.blocks = b.hooks.live + item'.blocks)
    (hchild : item'.child = []) :
  Fills b item item' b'
  := by
  refine ⟨h, hlive, ?_⟩
  rw [Item.height_eq, hchild, Item.heightOf_nil, Nat.zero_add]
  exact hdepth

omit [Double D] in
theorem Item.Fresh.blocks_congr {item' : Item D} (h : item.Fresh) (h' : item'.Fresh)
    (hstring : item'.string = item.string) :
  item'.blocks = item.blocks
  := by
  rw [h.blocks_eq, h'.blocks_eq, hstring]

omit [Double D] in
theorem literal_safe {text : List UInt8} {type : ℕ} {valueint : ℤ} (hitem : item.Fresh)
    (hb : b.Terminated) (hoffset : b.offset < b.content.length)
    (hdepth : b.depth ≤ cJsonNestingLimit) (htype : type &&& cJsonIsReference = 0)
    (hconst : type &&& cJsonStringIsConst = 0) (htext : b.HasText text) (hzero : 0 ∉ text)
    (hpos : 0 < text.length) :
  Fills b item { item with type := type, valueint := valueint }
    { b with offset := b.offset + text.length }
  := by
  have hprefix : text <+: b.content.drop b.offset := by
    rw [← htext.2]
    apply List.take_prefix
  have hlt := lt_of_prefix hb hoffset hprefix hzero
  have hitem' : Item.Fresh { item with type := type, valueint := valueint } :=
    ⟨⟨htype, hconst⟩, hitem.valuestring, hitem.child⟩
  apply fills_of_reads hdepth
  · exact ⟨rfl, rfl, Nat.lt_add_of_pos_right hpos, hlt⟩
  · rw [hitem.blocks_congr hitem' rfl]
  · exact hitem.child

theorem parseNumber_safe (hstrtod : StrtodReads D) (hitem : item.Fresh) (hb : b.Terminated)
    (hoffset : b.offset < b.content.length) (hdepth : b.depth ≤ cJsonNestingLimit) :
  (parseNumber item b).Meets (fun (item', b') => Fills b item item' b') (fun b' => b.Fails b')
  := by
  rw [parseNumber]
  dsimp only
  cases hread : Double.strtod (D := D)
      (((b.content.drop b.offset).take 63).takeWhile isNumberChar) with
  | none => exact Checked.meets_failed ⟨rfl, rfl⟩
  | some found =>
      obtain ⟨number, n⟩ := found
      obtain ⟨hpos, hle⟩ := hstrtod _ _ _ hread
      have hprefix : ((b.content.drop b.offset).take 63).takeWhile isNumberChar <+:
          b.content.drop b.offset :=
        (List.takeWhile_prefix _).trans (List.take_prefix _ _)
      have hzero : 0 ∉ ((b.content.drop b.offset).take 63).takeWhile isNumberChar := by
        intro hmem
        have hchar := List.mem_takeWhile_imp hmem
        revert hchar
        decide
      have hlt := lt_of_prefix hb hoffset hprefix hzero
      have hitem' : Item.Fresh { item with
          valuedouble := number
          valueint := saturate number
          type := cJsonNumber } :=
        ⟨⟨show cJsonNumber &&& cJsonIsReference = 0 by decide,
          show cJsonNumber &&& cJsonStringIsConst = 0 by decide⟩, hitem.valuestring, hitem.child⟩
      apply Checked.meets_done
      apply fills_of_reads hdepth
      · exact ⟨rfl, rfl, Nat.lt_add_of_pos_right hpos, lt_of_le_of_lt (Nat.add_le_add_left hle _) hlt⟩
      · rw [hitem.blocks_congr hitem' rfl]
      · exact hitem.child

/-- Values are safe, with fuel for the levels that are left. -/
theorem parseValue_safe (hstrtod : StrtodReads D) (hdepth : depth ≤ cJsonNestingLimit)
    (hfuel : cJsonNestingLimit < fuel + depth) :
  Safe (parseValue (D := D) fuel) depth
  := by
  induction fuel generalizing depth with
  | zero => omega
  | succ fuel ih =>
      rintro item b hitem hb rfl hoffset
      refine Checked.Meets.ite (fun h => Checked.meets_done ?_) (fun _ => ?_)
      · exact literal_safe hitem hb hoffset hdepth (by decide) (by decide) h (by decide) (by decide)
      refine Checked.Meets.ite (fun h => Checked.meets_done ?_) (fun _ => ?_)
      · exact literal_safe hitem hb hoffset hdepth (by decide) (by decide) h (by decide) (by decide)
      refine Checked.Meets.ite (fun h => Checked.meets_done ?_) (fun _ => ?_)
      · exact literal_safe hitem hb hoffset hdepth (by decide) (by decide) h (by decide) (by decide)
      refine Checked.Meets.ite (fun _ => ?_) (fun _ => ?_)
      · apply (parseString_meets item hb hoffset).mono _ (fun _ => id)
        rintro ⟨item', b'⟩ ⟨hreads, hlive, output, rfl⟩
        refine fills_of_reads hdepth hreads ?_ hitem.child
        have howned : Item.Owned { item with
            type := cJsonString
            valuestring := some output } :=
          ⟨show cJsonString &&& cJsonIsReference = 0 by decide,
            show cJsonString &&& cJsonStringIsConst = 0 by decide⟩
        rw [howned.blocks_eq, hitem.blocks_eq, hitem.child, Item.blocksOf_nil, hlive]
        dsimp only [Option.toList, List.length_singleton]
        omega
      refine Checked.Meets.ite (fun _ => ?_) (fun _ => ?_)
      · exact parseNumber_safe hstrtod hitem hb hoffset hdepth
      have hparse : b.depth < cJsonNestingLimit → Safe (parseValue (D := D) fuel) (b.depth + 1) := by
        intro hless
        apply ih hless
        omega
      refine Checked.Meets.ite (fun hat => ?_) (fun _ => ?_)
      · exact parseArray_safe hparse hitem hb hat
      refine Checked.Meets.ite (fun hat => ?_) (fun _ => ?_)
      · exact parseObject_safe hparse hitem hb hat
      · exact Checked.meets_failed ⟨rfl, rfl⟩

/-! ### Texts -/

theorem skipUtf8Bom_same (hoffset : b.offset < b.content.length) :
  b.Same b.skipUtf8Bom ∧ b.skipUtf8Bom.offset < b.content.length
  := by
  rw [ParseBuffer.skipUtf8Bom]
  split
  · rename_i h
    refine ⟨⟨rfl, rfl, rfl⟩, ?_⟩
    dsimp only
    omega
  · exact ⟨⟨rfl, rfl, rfl⟩, hoffset⟩

theorem errorPosition_lt (hb : b.Terminated) :
  b.errorPosition < b.content.length
  := by
  have hpos := hb.pos
  rw [ParseBuffer.errorPosition]
  split
  · assumption
  · omega

omit [Double D] in
/-- What is behind the item, if it has to be the end of the text -/
theorem nullTerminated_meets {value : List UInt8} {requireNullTerminated : Bool}
    (hcontent : b.content = value ++ [0]) (hoffset : b.offset < b.content.length)
    (hle : item.blocks ≤ b.hooks.live) :
  (b.nullTerminated requireNullTerminated item).Meets
    (fun b' => b'.offset ≤ value.length ∧
      (requireNullTerminated = true → 0 ∉ value → b'.offset = value.length) ∧
      b'.hooks.live = b.hooks.live)
    (fun b' => b'.content = value ++ [0] ∧ b'.hooks.live + item.blocks = b.hooks.live)
  := by
  have hlength : b.content.length = value.length + 1 := by
    rw [hcontent, List.length_append, List.length_singleton]
  refine Checked.Meets.ite (fun _ => ?_) (fun hnot => ?_)
  · have hskip := ParseBuffer.skipWhitespace_meets hoffset
    refine Checked.Meets.bind (hskip.mono (fun _ => id) (fun _ => False.elim)) ?_
    rintro b₁ ⟨hsame, -, hlt⟩
    refine Checked.Meets.ite (fun _ => ?_) (fun hat => ?_)
    · have hblocks : Item.blocksOf [item] = item.blocks := by
        rw [Item.blocksOf_cons, Item.blocksOf_nil, Nat.add_zero]
      apply (ParseBuffer.fail_meets (by rw [hblocks, hsame.hooks]; exact hle)).mono (fun _ => id)
      rintro b₂ ⟨hcontent₂, hlive⟩
      rw [hblocks, hsame.hooks] at hlive
      exact ⟨(hcontent₂.trans hsame.content).trans hcontent, hlive⟩
    · refine Checked.meets_done ⟨by omega, fun _ hzero => ?_, congrArg Hooks.live hsame.hooks⟩
      have hnull : b₁.content[b₁.offset]? = some 0 := not_not.mp hat
      rw [hsame.content, hcontent] at hnull
      rcases Nat.lt_or_ge b₁.offset value.length with hinside | hbehind
      · rw [List.getElem?_append_left hinside] at hnull
        exact absurd (List.mem_of_getElem? hnull) hzero
      · omega
  · exact Checked.meets_done ⟨by omega, fun h => absurd h hnot, rfl⟩

/-- Whatever the text is and whatever allocations succeed, the parser makes no undefined access and
comes to an end.  It reports a place in the text, or its end; a failure leaves nothing in the memory,
and what is left by a success belongs to the item. -/
theorem parseWithOpts_meets (hstrtod : StrtodReads D) (value : List UInt8)
    (requireNullTerminated : Bool) (hooks : Hooks) :
  (parseWithOpts (D := D) value requireNullTerminated hooks).Meets
    (fun (item, parseEnd, hooks') => parseEnd ≤ value.length ∧
      (requireNullTerminated = true → 0 ∉ value → parseEnd = value.length) ∧
      item.height ≤ cJsonNestingLimit ∧ hooks'.live = hooks.live + item.blocks)
    (fun (position, hooks') => position ≤ value.length ∧ hooks'.live = hooks.live)
  := by
  have hlength : (value ++ [0]).length = value.length + 1 := List.length_append
  refine Checked.Meets.onFail
    (E := fun b => b.content = value ++ [0] ∧ b.hooks.live = hooks.live) ?_ ?_
  · refine Checked.Meets.bind ((ParseBuffer.newItem_meets (Nat.zero_le _)).mono (fun _ => id) ?_) ?_
    · rintro b ⟨hcontent, hlive⟩
      rw [Item.blocksOf_nil] at hlive
      exact ⟨hcontent, hlive⟩
    rintro b₁ ⟨hcontent₁, hdepth₁, hoffset₁, hlive₁⟩
    have hlt₁ : b₁.offset < b₁.content.length := by
      rw [hoffset₁, hcontent₁, hlength]
      apply Nat.succ_pos
    obtain ⟨hbom, hlt₂⟩ := skipUtf8Bom_same hlt₁
    have hskip := ParseBuffer.skipWhitespace_meets (b := b₁.skipUtf8Bom) (by rw [hbom.content]; exact hlt₂)
    refine Checked.Meets.bind (hskip.mono (fun _ => id) (fun _ => False.elim)) ?_
    rintro b₂ ⟨hsame₂, -, hlt₂⟩
    have hcontent₂ : b₂.content = value ++ [0] := (hsame₂.content.trans hbom.content).trans hcontent₁
    have hlive₂ : b₂.hooks.live = hooks.live + 1 := by
      rw [hsame₂.hooks, hbom.hooks, hlive₁]
    have hdepth₂ : b₂.depth = 0 := by
      rw [hsame₂.depth, hbom.depth, hdepth₁]
    have hsafe : Safe (parseValue (D := D) (cJsonNestingLimit + 1)) 0 :=
      parseValue_safe hstrtod (Nat.zero_le _) (Nat.lt_succ_self _)
    have hvalue := hsafe Item.new b₂ Item.new_fresh ⟨value, hcontent₂⟩ hdepth₂
      (by rw [hsame₂.content]; exact hlt₂)
    refine Checked.Meets.bind (hvalue.onFail ?_) ?_
    · intro e he
      have hlive : e.hooks.live = hooks.live + 1 := he.live.trans hlive₂
      have hone : Item.blocksOf [(Item.new : Item D)] = 1 := by
        rw [Item.blocksOf_cons, Item.blocksOf_nil, Item.blocks_new]
      apply (ParseBuffer.fail_meets (by rw [hone, hlive]; apply Nat.le_add_left)).mono (fun _ => id)
      rintro b ⟨hcontent, hb⟩
      rw [hone, hlive] at hb
      exact ⟨hcontent.trans (he.content.trans hcontent₂), Nat.add_right_cancel hb⟩
    rintro ⟨item, b₃⟩ hfills
    have hcontent₃ : b₃.content = value ++ [0] := hfills.content.trans hcontent₂
    have hlive₃ : b₃.hooks.live = hooks.live + item.blocks := by
      have hlive := hfills.live
      rw [Item.blocks_new] at hlive
      omega
    have hheight : item.height ≤ cJsonNestingLimit := (Nat.le_add_right _ _).trans hfills.height
    have hlt₃ : b₃.offset < b₃.content.length := by
      rw [hfills.content]
      exact hfills.le
    have hle : item.blocks ≤ b₃.hooks.live := by
      rw [hlive₃]
      apply Nat.le_add_left
    refine Checked.Meets.bind ((nullTerminated_meets hcontent₃ hlt₃ hle).mono (fun _ => id) ?_) ?_
    · rintro b ⟨hcontent, hlive⟩
      rw [hlive₃] at hlive
      exact ⟨hcontent, Nat.add_right_cancel hlive⟩
    · rintro b₄ ⟨hle, hend, hlive⟩
      exact Checked.meets_done ⟨hle, hend, hheight, hlive.trans hlive₃⟩
  · rintro b ⟨hcontent, hlive⟩
    have hposition := errorPosition_lt ⟨value, hcontent⟩
    rw [hcontent, hlength] at hposition
    exact Checked.meets_failed ⟨Nat.le_of_lt_succ hposition, hlive⟩

theorem strtodReads_few :
  StrtodReads Few
  := by
  intro chars number n h
  have hnil : Few.read [] = none := rfl
  obtain ⟨number', hread, heq⟩ := Option.map_eq_some_iff.mp h
  cases heq
  refine ⟨List.length_pos_of_ne_nil ?_, le_refl _⟩
  rintro rfl
  rw [hnil] at hread
  cases hread

/-- `[-1.5e-07,1e+15]` -/
def twoNumbers : List UInt8 :=
  [91, 45, 49, 46, 53, 101, 45, 48, 55, 44, 49, 101, 43, 49, 53, 93]

/-- There is no memory for the second number. -/
theorem parseWithOpts_meets_numbers :
  StrtodReads Few ∧
    (parseWithOpts (D := Few) twoNumbers true ⟨fun n => n ≠ 2, true, 0, 0⟩).Meets
      (fun (item, parseEnd, hooks') => parseEnd ≤ twoNumbers.length ∧
        (true = true → 0 ∉ twoNumbers → parseEnd = twoNumbers.length) ∧
        item.height ≤ cJsonNestingLimit ∧ hooks'.live = 0 + item.blocks)
      (fun (position, hooks') => position ≤ twoNumbers.length ∧ hooks'.live = 0)
  := ⟨strtodReads_few,
    parseWithOpts_meets strtodReads_few twoNumbers true ⟨fun n => n ≠ 2, true, 0, 0⟩⟩

end

end CJson
