import Orgrim.CJson.Reading

/-!
# Parsing what has been printed

The parser reads the text that the printer prints of an item, formatted or not, and gets the item
back, but for what the text does not say: strings end with their first null character, a missing
string is an empty one, and a number that is not finite is null (`parseWithOpts_print`).  It takes
that no item is of the type `cJSON_Raw`, the text of which is anything, and that no more than
`CJSON_NESTING_LIMIT` brackets are open at a time.
-/

namespace CJson

/-! ### What is read -/

section

variable {D : Type} [Double D]

/-- An item with a type and a name -/
def scalar (type : ℕ) (name : Option (List UInt8)) : Item D :=
  { Item.new with type := type, string := name }

mutual

/-- The item that is read from the text of another one, with a name -/
def normal (name : Option (List UInt8)) : Item D → Item D
  | ⟨type, valuestring, _, valuedouble, _, child⟩ =>
      let kind := type &&& 0xFF
      if kind = cJsonTrue then { scalar cJsonTrue name with valueint := 1 }
      else if kind = cJsonNumber then
        if Double.isFinite valuedouble then
          { scalar cJsonNumber name with
            valuedouble := valuedouble
            valueint := saturate valuedouble }
        else scalar cJsonNull name
      else if kind = cJsonString then
        { scalar cJsonString name with valuestring := some (cstring (valuestring.getD [])) }
      else if kind = cJsonArray then { scalar cJsonArray name with child := normalElements child }
      else if kind = cJsonObject then { scalar cJsonObject name with child := normalMembers child }
      else scalar kind name

def normalElements : List (Item D) → List (Item D)
  | [] => []
  | item :: items => normal none item :: normalElements items

def normalMembers : List (Item D) → List (Item D)
  | [] => []
  | item :: items => normal (some (cstring (item.string.getD []))) item :: normalMembers items

end

mutual

/-- No item is of the type `cJSON_Raw`. -/
def noRaw : Item D → Bool
  | ⟨type, _, _, _, _, child⟩ => type &&& 0xFF ≠ cJsonRaw && noRawOf child

def noRawOf : List (Item D) → Bool
  | [] => true
  | item :: items => noRaw item && noRawOf items

end

mutual

/-- How many brackets are open at a time in the text of an item -/
def brackets : Item D → ℕ
  | ⟨type, _, _, _, _, child⟩ =>
      if type &&& 0xFF = cJsonArray ∨ type &&& 0xFF = cJsonObject then bracketsOf child + 1 else 0

def bracketsOf : List (Item D) → ℕ
  | [] => 0
  | item :: items => max (brackets item) (bracketsOf items)

end

variable {format : Bool} {depth : ℕ} {item : Item D} {items : List (Item D)} {text rest : List UInt8}

omit [Double D] in
theorem noRaw_of_mem (h : noRawOf items = true) (hitem : item ∈ items) :
  noRaw item = true
  := by
  induction items with
  | nil => cases hitem
  | cons first items ih =>
      rw [noRawOf, Bool.and_eq_true] at h
      rcases List.mem_cons.mp hitem with rfl | hitem
      · exact h.1
      · exact ih h.2 hitem

omit [Double D] in
theorem brackets_le_of_mem (hitem : item ∈ items) :
  brackets item ≤ bracketsOf items
  := by
  induction items with
  | nil => cases hitem
  | cons first items ih =>
      rw [bracketsOf]
      rcases List.mem_cons.mp hitem with rfl | hitem
      · exact Nat.le_max_left _ _
      · exact (ih hitem).trans (Nat.le_max_right _ _)

/-! ### The first character -/

theorem renderNumber_of_not_finite {d : D} (hd : Double.isFinite d = false) :
  renderNumber d = [110, 117, 108, 108]
  := by
  apply if_pos
  rw [hd]
  exact Bool.false_ne_true

theorem exists_first_number {d : D} (h : RoundTrips D) (hd : Double.isFinite d = true) :
  ∃ c rest, renderNumber d = c :: rest ∧ (c = 45 ∨ 48 ≤ c ∧ c ≤ 57)
  := by
  obtain ⟨⟨precision, hprecision, hprint⟩, -⟩ := strtod_renderNumber h hd
  obtain ⟨c, hhead, hc⟩ := h.first precision d hprecision hd
  rw [← hprint] at hhead
  obtain ⟨rest, hrest⟩ := List.head?_eq_some_iff.mp hhead
  exact ⟨c, rest, hrest, hc⟩

/-- A character of which a number starts is none of the others. -/
theorem ne_of_first_number {c : UInt8} (hc : c = 45 ∨ 48 ≤ c ∧ c ≤ 57) :
  32 < c ∧ c ≠ 93 ∧ c ≠ 0xEF ∧ c ≠ 110 ∧ c ≠ 102 ∧ c ≠ 116 ∧ c ≠ 34
  := by
  rcases hc with rfl | ⟨hle, hge⟩
  · decide
  · have hblank : (32 : UInt8) < 48 := by decide
    refine ⟨UInt8.lt_of_lt_of_le hblank hle, ?_, ?_, ?_, ?_, ?_, ?_⟩
    · rintro rfl
      exact absurd hge (by decide)
    · rintro rfl
      exact absurd hge (by decide)
    · rintro rfl
      exact absurd hge (by decide)
    · rintro rfl
      exact absurd hge (by decide)
    · rintro rfl
      exact absurd hge (by decide)
    · rintro rfl
      exact absurd hle (by decide)

/-- The text of an item starts with a character that is neither a blank nor a bracket at the end of
an array, nor one of the byte order mark. -/
theorem exists_first (h : RoundTrips D) (hraw : noRaw item = true)
    (htext : render format item depth = some text) :
  ∃ c rest, text = c :: rest ∧ 32 < c ∧ c ≠ 93 ∧ c ≠ 0xEF
  := by
  obtain ⟨type, valuestring, _, valuedouble, _, child⟩ := item
  rw [noRaw, Bool.and_eq_true, decide_eq_true_iff] at hraw
  simp only [render, if_neg hraw.1] at htext
  split_ifs at htext
  · obtain rfl := Option.some.inj htext
    exact ⟨110, _, rfl, by decide⟩
  · obtain rfl := Option.some.inj htext
    exact ⟨102, _, rfl, by decide⟩
  · obtain rfl := Option.some.inj htext
    exact ⟨116, _, rfl, by decide⟩
  · obtain rfl := Option.some.inj htext
    cases hd : Double.isFinite valuedouble with
    | true =>
        obtain ⟨c, rest, hrender, hc⟩ := exists_first_number h hd
        obtain ⟨hblank, hbracket, hmark, -⟩ := ne_of_first_number hc
        exact ⟨c, rest, hrender, hblank, hbracket, hmark⟩
    | false =>
        exact ⟨110, _, renderNumber_of_not_finite hd, by decide⟩
  · obtain rfl := Option.some.inj htext
    exact ⟨34, _, rfl, by decide⟩
  · obtain ⟨a, b, ha, -, rfl⟩ := joined_eq_some.mp htext
    obtain rfl := Option.some.inj ha
    exact ⟨91, _, rfl, by decide⟩
  · obtain ⟨a, b, ha, -, rfl⟩ := joined_eq_some.mp htext
    obtain rfl := Option.some.inj ha
    cases format <;> exact ⟨123, _, rfl, by decide⟩

/-! ### Blanks -/

/-- What is printed between two texts: a character, with a blank behind it if the text is
formatted. -/
theorem exists_blanks (between : Bool → List UInt8) {c s : UInt8} (htrue : between true = [c, s])
    (hfalse : between false = [c]) (hs : s ≤ 32) (format : Bool) :
  ∃ blanks : List UInt8, (∀ t ∈ blanks, t ≤ 32) ∧ between format = c :: blanks
  := by
  cases format with
  | true => exact ⟨[s], List.forall_mem_singleton.mpr hs, htrue⟩
  | false => exact ⟨[], List.forall_mem_nil _, hfalse⟩

/-! ### Arrays and objects -/

/-- The parser reads the text of an item, if behind it is no character of a number, and every
allocation succeeds. -/
def Parses (parse : Item D → ParseBuffer → Checked ParseBuffer (Item D × ParseBuffer)) (level : ℕ)
    (item : Item D) (text : List UInt8) : Prop :=
  ∀ type name b c rest, b.At (text ++ c :: rest) → isNumberChar c = false → b.depth = level →
    b.Granted →
    ∃ b', parse (scalar type name) b = .done (normal name item, b') ∧ b.Goes text.length b'

/-- If the item has a text, it is read. -/
def Readable (parse : Item D → ParseBuffer → Checked ParseBuffer (Item D × ParseBuffer)) (level : ℕ)
    (format : Bool) (depth : ℕ) (item : Item D) : Prop :=
  ∀ text, render format item depth = some text →
    (∃ c rest, text = c :: rest ∧ 32 < c ∧ c ≠ 93) ∧ Parses parse level item text

variable {parse : Item D → ParseBuffer → Checked ParseBuffer (Item D × ParseBuffer)}
  {level fuel n : ℕ} {b b' : ParseBuffer} {x c close : UInt8} {spaces ends body more : List UInt8}
  {head : List (Item D)}

omit [Double D] in
/-- The bracket or the comma in front of an item, and a new item -/
theorem newItem_reads (hb : b.At (x :: (spaces ++ c :: rest))) (hspaces : ∀ s ∈ spaces, s ≤ 32)
    (hc : 32 < c) (hgranted : b.Granted) (head : List (Item D)) :
  ∃ b₁ b₂, b.newItem head = .done b₁ ∧
    ParseBuffer.skipWhitespace { b₁ with offset := b₁.offset + 1 } = .done b₂ ∧
    b.Goes (1 + spaces.length) b₂ ∧ b₂.At (c :: rest)
  := by
  obtain ⟨b₁, hnew, hgoes₁⟩ := hgranted.newItem head
  have hb₁ := (hb.same hgoes₁).move
  have hskip := hb₁.skipWhitespace hspaces hc
  have hmove := ParseBuffer.Goes.move { b₁ with offset := b₁.offset + 1 } spaces.length
  refine ⟨b₁, _, hnew, hskip, ?_, hb₁.goes hmove⟩
  have hgoes := (hgoes₁.trans (ParseBuffer.Goes.move b₁ 1)).trans hmove
  rw [Nat.zero_add] at hgoes
  exact hgoes

/-- The loop of `parse_array` reads what the loop of `print_array` prints. -/
theorem parseElements_render (hitems : ∀ item ∈ items, Readable parse level format depth item)
    (hne : items ≠ []) (htext : renderElements format items depth = some text)
    (hfuel : items.length ≤ fuel) (hspaces : ∀ s ∈ spaces, s ≤ 32)
    (hb : b.At (x :: (spaces ++ (text ++ 93 :: rest)))) (hlevel : b.depth = level)
    (hgranted : b.Granted) :
  ∃ b', parseElements parse fuel head b = .done (head ++ normalElements items, b') ∧
    b.Goes (1 + spaces.length + text.length) b'
  := by
  induction items generalizing head b x spaces text fuel with
  | nil => exact absurd rfl hne
  | cons item items ih =>
      obtain ⟨fuel, rfl⟩ := Nat.exists_eq_succ_of_ne_zero (Nat.ne_zero_of_lt hfuel)
      rw [renderElements] at htext
      obtain ⟨t, _, ht, hmore, rfl⟩ := joined_eq_some.mp htext
      obtain ⟨_, ts, hseparator, hts, rfl⟩ := joined_eq_some.mp hmore
      obtain rfl := Option.some.inj hseparator
      obtain ⟨⟨c, t', rfl, hc, -⟩, hparses⟩ := hitems item List.mem_cons_self t ht
      have hb' : b.At (x :: (spaces ++ c :: (t' ++ (separator format items.isEmpty ++
          (ts ++ 93 :: rest))))) := by
        simpa only [List.append_assoc, List.cons_append] using hb
      obtain ⟨b₁, b₂, hnew, hskip, hgoes₂, hb₂⟩ := newItem_reads hb' hspaces hc hgranted head
      have hlevel₂ := hgoes₂.depth.trans hlevel
      have hgranted₂ := hgoes₂.granted hgranted
      -- behind the element there is a comma, or the bracket at the end
      have hnext : ∃ y more, separator format items.isEmpty ++ (ts ++ 93 :: rest) = y :: more ∧
          32 < y ∧ isNumberChar y = false := by
        cases items with
        | nil =>
            obtain rfl := Option.some.inj hts
            exact ⟨93, rest, rfl, by decide⟩
        | cons second items => cases format <;> exact ⟨44, _, rfl, by decide⟩
      obtain ⟨y, more, hmore, hy, hnumber⟩ := hnext
      rw [hmore] at hb₂
      have hb₂' : b₂.At ((c :: t') ++ y :: more) := hb₂
      obtain ⟨b₃, hparse, hgoes₃⟩ := hparses 0 none b₂ y more hb₂' hnumber hlevel₂ hgranted₂
      have hb₃ := hb₂'.goes hgoes₃
      have hgoes := hgoes₂.trans hgoes₃
      have hnormal : parse Item.new b₂ = .done (normal none item, b₃) := hparse
      rw [parseElements, hnew, Checked.done_bind, hskip, Checked.done_bind, hnormal,
        Checked.done_onFail, Checked.done_bind]
      dsimp only
      rw [hb₃.skipWhitespace_nil hy, Checked.done_bind]
      cases items with
      | nil =>
          obtain rfl := Option.some.inj hts
          obtain ⟨rfl, rfl⟩ := List.cons.inj hmore
          rw [if_neg (mt hb₃.isAt.mp (by decide))]
          refine ⟨b₃, rfl, hgoes.of_eq ?_⟩
          rw [List.length_append]
          rfl
      | cons second items =>
          obtain ⟨blanks, hblanks, hseparator⟩ : ∃ blanks : List UInt8, (∀ s ∈ blanks, s ≤ 32) ∧
              separator format (second :: items).isEmpty = 44 :: blanks :=
            exists_blanks (fun format => separator format false) rfl rfl (by decide) format
          rw [hseparator] at hmore
          obtain ⟨rfl, rfl⟩ := List.cons.inj hmore
          have hrest := fun item hitem => hitems item (List.mem_cons_of_mem _ hitem)
          obtain ⟨b₄, hloop, hgoes₄⟩ : ∃ b₄,
              parseElements parse fuel (head ++ [normal none item]) b₃ =
                .done (head ++ [normal none item] ++ normalElements (second :: items), b₄) ∧
              b₃.Goes (1 + blanks.length + ts.length) b₄ :=
            ih hrest (List.cons_ne_nil _ _) hts (Nat.le_of_succ_le_succ hfuel) hblanks hb₃
              (hgoes.depth.trans hlevel) (hgoes.granted hgranted)
          rw [if_pos (hb₃.isAt.mpr rfl), hloop, List.append_assoc]
          refine ⟨b₄, rfl, (hgoes.trans hgoes₄).of_eq ?_⟩
          have hcomma : (44 :: blanks).length = blanks.length + 1 := rfl
          rw [hseparator, List.length_append, List.length_append, hcomma]
          omega

/-- Behind blanks there is no number. -/
theorem exists_follows (hspaces : ∀ s ∈ spaces, s ≤ 32) (hc : isNumberChar c = false) :
  ∃ y more, spaces ++ c :: rest = y :: more ∧ isNumberChar y = false
  := by
  cases spaces with
  | nil => exact ⟨c, rest, rfl, hc⟩
  | cons s spaces =>
      refine ⟨s, _, rfl, ?_⟩
      have hs := hspaces s List.mem_cons_self
      cases hnumber : isNumberChar s with
      | false => rfl
      | true =>
          rw [isNumberChar, decide_eq_true_iff] at hnumber
          rcases hnumber with ⟨hle, -⟩ | rfl | rfl | rfl | rfl | rfl
          · exact absurd (UInt8.le_trans hle hs) (by decide)
          all_goals exact absurd hs (by decide)

/-- One round of the loop of `parse_object`: the key and the value of a member, in front of what is
behind it -/
theorem parseMembers_cons (head : List (Item D)) (fuel : ℕ)
    (hparses : Parses parse level item (c :: more)) (hc : 32 < c)
    (hspaces : ∀ s ∈ spaces, s ≤ 32) (hrest : ∃ y more, rest = y :: more ∧ isNumberChar y = false)
    (hb : b.At (x :: (spaces ++ (renderString item.string ++ (colon format ++
      ((c :: more) ++ rest))))))
    (hlevel : b.depth = level) (hgranted : b.Granted) :
  ∃ b', parseMembers parse (fuel + 1) head b = (do
      let b ← b'.skipWhitespace
      if b.IsAt 44 then
        parseMembers parse fuel (head ++ [normal (some (cstring (item.string.getD []))) item]) b
      else .done (head ++ [normal (some (cstring (item.string.getD []))) item], b)) ∧
    b.Goes (1 + spaces.length + (renderString item.string).length + (colon format).length +
      (c :: more).length) b' ∧
    b'.At rest
  := by
  obtain ⟨key, hkey⟩ : ∃ key, renderString item.string = 34 :: key := ⟨_, rfl⟩
  obtain ⟨blanks, hblanks, hcolon⟩ := exists_blanks colon rfl rfl (by decide) format
  obtain ⟨y, following, rfl, hnumber⟩ := hrest
  -- the key
  have hb₀ : b.At (x :: (spaces ++ 34 ::
      (key ++ 58 :: (blanks ++ c :: (more ++ y :: following))))) := by
    rw [hkey, hcolon] at hb
    exact hb
  obtain ⟨b₁, b₂, hnew, hskip, hgoes₂, hb₂⟩ := newItem_reads hb₀ hspaces (by decide) hgranted head
  have hb₂' : b₂.At (renderString item.string ++ 58 ::
      (blanks ++ c :: (more ++ y :: following))) := by
    rw [hkey]
    exact hb₂
  obtain ⟨b₃, hstring, hgoes₃⟩ := parseString_renderString (Item.new : Item D) item.string hb₂'
    (hgoes₂.granted hgranted)
  have hb₃ := hb₂'.goes hgoes₃
  -- the value
  have hgoes₄ := (hgoes₂.trans hgoes₃).trans ((ParseBuffer.Goes.move b₃ 1).trans
    (ParseBuffer.Goes.move { b₃ with offset := b₃.offset + 1 } blanks.length))
  have hb₄ : ParseBuffer.At { b₃ with offset := b₃.offset + 1 + blanks.length }
      ((c :: more) ++ y :: following) :=
    hb₃.move.goes (ParseBuffer.Goes.move _ blanks.length)
  obtain ⟨b₅, hparse, hgoes₅⟩ := hparses cJsonString (some (cstring (item.string.getD []))) _ y
    following hb₄ hnumber (hgoes₄.depth.trans hlevel) (hgoes₄.granted hgranted)
  have hnormal : parse { (Item.new : Item D) with
        type := cJsonString
        valuestring := none
        string := some (cstring (item.string.getD [])) }
      { b₃ with offset := b₃.offset + 1 + blanks.length } =
      .done (normal (some (cstring (item.string.getD []))) item, b₅) := hparse
  refine ⟨b₅, ?_, (hgoes₄.trans hgoes₅).of_eq ?_, hb₄.goes hgoes₅⟩
  · rw [parseMembers, hnew, Checked.done_bind, hskip, Checked.done_bind, hstring,
      Checked.done_onFail, Checked.done_bind]
    dsimp only
    rw [hb₃.skipWhitespace_nil (by decide), Checked.done_bind,
      if_neg (not_not.mpr (hb₃.isAt.mpr rfl)), hb₃.move.skipWhitespace hblanks hc,
      Checked.done_bind]
    dsimp only
    rw [hnormal, Checked.done_onFail, Checked.done_bind]
  · have hlength : (58 :: blanks).length = blanks.length + 1 := rfl
    rw [hcolon, hlength]
    omega

/-- The newline behind the last member -/
theorem blank_of_lineEnd (format : Bool) (hends : ∀ s ∈ ends, s ≤ 32) :
  ∀ s ∈ lineEnd format true ++ ends, s ≤ 32
  := by
  have hline : ∀ s ∈ lineEnd format true, s ≤ 32 := by
    cases format with
    | true => exact List.forall_mem_singleton.mpr (by decide : (10 : UInt8) ≤ 32)
    | false => exact List.forall_mem_nil _
  exact List.forall_mem_append.mpr ⟨hline, hends⟩

theorem blank_of_tabs (format : Bool) (depth : ℕ) :
  ∀ s ∈ tabs format depth, s ≤ 32
  := by
  intro s hs
  cases format with
  | true =>
      obtain rfl := List.eq_of_mem_replicate hs
      decide
  | false => cases hs

/-- The loop of `parse_object` reads what the loop of `print_object` prints, without the tabulators
in front of the first key. -/
theorem parseMembers_render (hitems : ∀ item ∈ items, Readable parse level format depth item)
    (hne : items ≠ []) (htext : renderMembers format items depth = some (tabs format depth ++ body))
    (hfuel : items.length ≤ fuel) (hspaces : ∀ s ∈ spaces, s ≤ 32) (hends : ∀ s ∈ ends, s ≤ 32)
    (hb : b.At (x :: (spaces ++ (body ++ (ends ++ 125 :: rest))))) (hlevel : b.depth = level)
    (hgranted : b.Granted) :
  ∃ b', parseMembers parse fuel head b = .done (head ++ normalMembers items, b') ∧
    b.Goes (1 + spaces.length + body.length + ends.length) b'
  := by
  induction items generalizing head b x spaces body fuel with
  | nil => exact absurd rfl hne
  | cons item items ih =>
      obtain ⟨fuel, rfl⟩ := Nat.exists_eq_succ_of_ne_zero (Nat.ne_zero_of_lt hfuel)
      rw [renderMembers] at htext
      obtain ⟨_, _, htabs, hmore₁, hbody⟩ := joined_eq_some.mp htext
      obtain rfl := Option.some.inj htabs
      obtain rfl := List.append_cancel_left hbody
      obtain ⟨_, _, hkey, hmore₂, rfl⟩ := joined_eq_some.mp hmore₁
      obtain ⟨_, _, hcolon, hmore₃, rfl⟩ := joined_eq_some.mp hmore₂
      obtain ⟨t, _, ht, hmore₄, rfl⟩ := joined_eq_some.mp hmore₃
      obtain ⟨_, ts, hline, hts, rfl⟩ := joined_eq_some.mp hmore₄
      obtain rfl := Option.some.inj hkey
      obtain rfl := Option.some.inj hcolon
      obtain rfl := Option.some.inj hline
      obtain ⟨⟨c, t', rfl, hc, -⟩, hparses⟩ := hitems item List.mem_cons_self t ht
      simp only [List.append_assoc] at hb
      cases items with
      | nil =>
          obtain rfl := Option.some.inj hts
          have hrest : lineEnd format true ++ ([] ++ (ends ++ 125 :: rest)) =
              (lineEnd format true ++ ends) ++ 125 :: rest := by
            rw [List.nil_append, List.append_assoc]
          have hblank := blank_of_lineEnd format hends
          obtain ⟨b₅, hcons, hgoes, hb₅⟩ := parseMembers_cons head fuel hparses hc
            hspaces (hrest ▸ exists_follows hblank (by decide)) hb hlevel hgranted
          have hb₅' : b₅.At ((lineEnd format true ++ ends) ++ 125 :: rest) := hrest ▸ hb₅
          have hmove := ParseBuffer.Goes.move b₅ (lineEnd format true ++ ends).length
          rw [hcons, hb₅'.skipWhitespace hblank (by decide), Checked.done_bind,
            if_neg (mt (hb₅'.goes hmove).isAt.mp (by decide))]
          refine ⟨_, rfl, (hgoes.trans hmove).of_eq ?_⟩
          simp only [List.length_append, List.length_cons, List.length_nil, List.isEmpty_nil]
          omega
      | cons second items =>
          obtain ⟨body, rfl⟩ : ∃ body, ts = tabs format depth ++ body := by
            rw [renderMembers] at hts
            obtain ⟨_, body, htabs, -, rfl⟩ := joined_eq_some.mp hts
            obtain rfl := Option.some.inj htabs
            exact ⟨body, rfl⟩
          obtain ⟨blanks, hblanks, hcomma⟩ : ∃ blanks : List UInt8, (∀ s ∈ blanks, s ≤ 32) ∧
              lineEnd format (second :: items).isEmpty = 44 :: blanks :=
            exists_blanks (fun format => lineEnd format false) rfl rfl (by decide) format
          have hspaces' : ∀ s ∈ blanks ++ tabs format depth, s ≤ 32 :=
            List.forall_mem_append.mpr ⟨hblanks, blank_of_tabs format depth⟩
          rw [hcomma] at hb
          obtain ⟨b₅, hcons, hgoes, hb₅⟩ := parseMembers_cons head fuel hparses hc hspaces
            ⟨44, _, rfl, by decide⟩ hb hlevel hgranted
          have hb₅' : b₅.At (44 :: ((blanks ++ tabs format depth) ++
              (body ++ (ends ++ 125 :: rest)))) := by
            simpa only [List.append_eq, List.append_assoc, List.cons_append] using hb₅
          obtain ⟨b₆, hloop, hgoes₆⟩ : ∃ b₆,
              parseMembers parse fuel
                  (head ++ [normal (some (cstring (item.string.getD []))) item]) b₅ =
                .done (head ++ [normal (some (cstring (item.string.getD []))) item] ++
                  normalMembers (second :: items), b₆) ∧
              b₅.Goes (1 + (blanks ++ tabs format depth).length + body.length + ends.length) b₆ :=
            ih (fun item hitem => hitems item (List.mem_cons_of_mem _ hitem)) (List.cons_ne_nil _ _)
              hts (Nat.le_of_succ_le_succ hfuel) hspaces' hb₅' (hgoes.depth.trans hlevel)
              (hgoes.granted hgranted)
          rw [hcons, hb₅'.skipWhitespace_nil (by decide), Checked.done_bind,
            if_pos (hb₅'.isAt.mpr rfl), hloop, List.append_assoc]
          refine ⟨b₆, rfl, (hgoes.trans hgoes₆).of_eq ?_⟩
          simp only [hcomma, List.length_append, List.length_cons]
          omega

/-! ### Brackets -/

section

variable {loop : ℕ → List (Item D) → ParseBuffer → Checked ParseBuffer (List (Item D) × ParseBuffer)}

omit [Double D] in
/-- Nothing between the brackets -/
theorem parseList_nil (hb : b.At (x :: (spaces ++ close :: rest))) (hspaces : ∀ s ∈ spaces, s ≤ 32)
    (hclose : 32 < close) :
  parseList loop close b = .done ([], { b with offset := b.offset + 1 + spaces.length })
  := by
  have hat := hb.move.goes (ParseBuffer.Goes.move _ spaces.length)
  rw [parseList, hb.move.skipWhitespace hspaces hclose, Checked.done_bind, if_pos (hat.isAt.mpr rfl)]

omit [Double D] in
/-- Something between the brackets, which the loop reads from the character in front of it on -/
theorem parseList_cons (hb : b.At (x :: (spaces ++ c :: more))) (hspaces : ∀ s ∈ spaces, s ≤ 32)
    (hc : 32 < c) (hne : c ≠ close) (hgranted : b.Granted)
    (hloop : ∀ y b', b'.At (y :: c :: more) → b'.depth = b.depth → b'.Granted →
      ∃ b'', loop b.content.length [] b' = .done (head, b'') ∧ b'.Goes n b'' ∧
        b''.At (close :: rest)) :
  ∃ b', parseList loop close b = .done (head, b') ∧ b.Goes (spaces.length + n) b' ∧
    b'.At (close :: rest)
  := by
  have hat := hb.move.goes (ParseBuffer.Goes.move _ spaces.length)
  have hlength := hat.lt
  rw [List.length_cons] at hlength
  dsimp only at hlength
  obtain ⟨y, hback, hat'⟩ := hat.back (by dsimp only; omega)
  obtain ⟨b', hdone, hgoes, hclose⟩ := hloop y _ hat' rfl hgranted
  refine ⟨b', ?_, ?_, hclose⟩
  · rw [parseList, hb.move.skipWhitespace hspaces hc, Checked.done_bind,
      if_neg (mt hat.isAt.mp hne), if_neg (by dsimp only; omega), hback, Checked.done_bind]
    dsimp only at hdone ⊢
    rw [hdone, Checked.done_bind]
    dsimp only
    rw [if_neg (not_not.mpr (hclose.isAt.mpr rfl))]
  · obtain ⟨hcontent, hdepth, hoffset, hgrants⟩ := hgoes
    refine ⟨hcontent, hdepth, ?_, hgrants⟩
    rw [hoffset]
    dsimp only
    omega

end

theorem length_le_renderElements
    (hitems : ∀ item ∈ items, Readable parse level format depth item)
    (htext : renderElements format items depth = some text) :
  items.length ≤ text.length
  := by
  induction items generalizing text with
  | nil => exact Nat.zero_le _
  | cons item items ih =>
      rw [renderElements] at htext
      obtain ⟨t, _, ht, hmore, rfl⟩ := joined_eq_some.mp htext
      obtain ⟨_, ts, -, hts, rfl⟩ := joined_eq_some.mp hmore
      obtain ⟨⟨c, t', rfl, -⟩, -⟩ := hitems item List.mem_cons_self t ht
      have hle := ih (fun item hitem => hitems item (List.mem_cons_of_mem _ hitem)) hts
      simp only [List.length_append, List.length_cons]
      omega

theorem length_le_renderMembers (htext : renderMembers format items depth = some text) :
  items.length ≤ text.length
  := by
  induction items generalizing text with
  | nil => exact Nat.zero_le _
  | cons item items ih =>
      rw [renderMembers] at htext
      obtain ⟨_, _, -, hmore₁, rfl⟩ := joined_eq_some.mp htext
      obtain ⟨key, _, hkey, hmore₂, rfl⟩ := joined_eq_some.mp hmore₁
      obtain ⟨_, _, -, hmore₃, rfl⟩ := joined_eq_some.mp hmore₂
      obtain ⟨_, _, -, hmore₄, rfl⟩ := joined_eq_some.mp hmore₃
      obtain ⟨_, ts, -, hts, rfl⟩ := joined_eq_some.mp hmore₄
      obtain rfl := Option.some.inj hkey
      have hle := ih hts
      simp only [List.length_append, List.length_cons, renderString]
      omega

omit [Double D] in
/-- Behind the bracket at the end -/
theorem goes_close (h : ParseBuffer.Goes { b with depth := b.depth + 1 } n b') :
  b.Goes (n + 1) { b' with depth := b'.depth - 1, offset := b'.offset + 1 }
  := by
  obtain ⟨hcontent, hdepth, hoffset, hgrants⟩ := h
  refine ⟨hcontent, ?_, ?_, hgrants⟩
  · dsimp only
    rw [hdepth]
    apply Nat.add_sub_cancel
  · dsimp only
    rw [hoffset, Nat.add_assoc]

/-- `parse_array` reads what `print_array` prints. -/
theorem parseArray_render {child : List (Item D)}
    (hitems : ∀ item ∈ child, Readable parse (level + 1) format (depth + 1) item)
    (htext : joined (some [91]) (joined (renderElements format child (depth + 1)) (some [93])) =
      some text)
    (hb : b.At (text ++ rest)) (hlevel : b.depth = level) (hlt : level < cJsonNestingLimit)
    (hgranted : b.Granted) :
  ∃ b', parseArray parse item b =
      .done ({ item with type := cJsonArray, child := normalElements child }, b') ∧
    b.Goes text.length b'
  := by
  obtain ⟨_, _, hopen, hmore, rfl⟩ := joined_eq_some.mp htext
  obtain ⟨elements, _, helements, hclose, rfl⟩ := joined_eq_some.mp hmore
  obtain rfl := Option.some.inj hopen
  obtain rfl := Option.some.inj hclose
  have hb₀ : b.At (91 :: ([] ++ (elements ++ 93 :: rest))) := by
    simpa only [List.append_assoc, List.cons_append, List.nil_append] using hb
  have hlength := hb₀.lt
  simp only [List.nil_append, List.length_cons, List.length_append] at hlength
  -- what is between the brackets
  have hlist : ∃ b', parseList (parseElements parse) 93 { b with depth := b.depth + 1 } =
      .done (normalElements child, b') ∧
      ParseBuffer.Goes { b with depth := b.depth + 1 } (1 + elements.length) b' := by
    cases child with
    | nil =>
        obtain rfl := Option.some.inj helements
        exact ⟨_, parseList_nil (b := { b with depth := b.depth + 1 }) hb₀ (List.forall_mem_nil _)
          (by decide), rfl, rfl, rfl, rfl⟩
    | cons first child =>
        have hfuel := length_le_renderElements hitems helements
        obtain ⟨c, more, rfl, hc, hne⟩ : ∃ c more, elements = c :: more ∧ 32 < c ∧ c ≠ 93 := by
          rw [renderElements] at helements
          obtain ⟨t, _, ht, -, rfl⟩ := joined_eq_some.mp helements
          obtain ⟨⟨c, t', rfl, hc, hne⟩, -⟩ := hitems first List.mem_cons_self t ht
          exact ⟨c, _, rfl, hc, hne⟩
        have hloop : ∀ y b', b'.At (y :: c :: (more ++ 93 :: rest)) → b'.depth = b.depth + 1 →
            b'.Granted →
            ∃ b'', parseElements parse b.content.length [] b' =
                .done (normalElements (first :: child), b'') ∧
              b'.Goes (1 + (c :: more).length) b'' ∧ b''.At (93 :: rest) := by
          intro y b' hat hdepth hgranted'
          have hat' : b'.At ((y :: c :: more) ++ 93 :: rest) := hat
          have hat₀ : b'.At (y :: ([] ++ ((c :: more) ++ 93 :: rest))) := hat
          obtain ⟨b'', hdone, hgoes⟩ : ∃ b'', parseElements parse b.content.length [] b' =
              .done ([] ++ normalElements (first :: child), b'') ∧
              b'.Goes (1 + 0 + (c :: more).length) b'' :=
            parseElements_render hitems (List.cons_ne_nil _ _) helements (by omega)
              (List.forall_mem_nil _) hat₀ (hdepth.trans (congrArg (· + 1) hlevel)) hgranted'
          exact ⟨b'', hdone, hgoes, hat'.goes (hgoes.of_eq (Nat.add_comm 1 _))⟩
        obtain ⟨b', hdone, hgoes, -⟩ := parseList_cons (b := { b with depth := b.depth + 1 }) hb₀
          (List.forall_mem_nil _) hc hne hgranted hloop
        refine ⟨b', hdone, hgoes.of_eq ?_⟩
        exact Nat.zero_add _
  obtain ⟨b', hdone, hgoes⟩ := hlist
  have hget : (Checked.access b.content[b.offset]? : Checked ParseBuffer UInt8) = .done 91 := by
    rw [hb₀.getElem?, Checked.access_some]
  refine ⟨_, ?_, (goes_close hgoes).of_eq ?_⟩
  · rw [parseArray, if_neg (by omega)]
    dsimp only
    rw [hget, Checked.done_bind, if_neg (not_not.mpr rfl), hdone, Checked.done_bind]
  · rw [List.length_append, List.length_append, List.length_singleton, List.length_singleton]
    omega

/-- `parse_object` reads what `print_object` prints. -/
theorem parseObject_render {child : List (Item D)}
    (hitems : ∀ item ∈ child, Readable parse (level + 1) format (depth + 1) item)
    (htext : joined (some (openBrace format)) (joined (renderMembers format child (depth + 1))
      (some (tabs format depth ++ [125]))) = some text)
    (hb : b.At (text ++ rest)) (hlevel : b.depth = level) (hlt : level < cJsonNestingLimit)
    (hgranted : b.Granted) :
  ∃ b', parseObject parse item b =
      .done ({ item with type := cJsonObject, child := normalMembers child }, b') ∧
    b.Goes text.length b'
  := by
  obtain ⟨_, _, hopen, hmore, rfl⟩ := joined_eq_some.mp htext
  obtain ⟨members, _, hmembers, hclose, rfl⟩ := joined_eq_some.mp hmore
  obtain rfl := Option.some.inj hopen
  obtain rfl := Option.some.inj hclose
  obtain ⟨blanks, hblanks, hbrace⟩ := exists_blanks openBrace rfl rfl (by decide) format
  have hb₀ : b.At (123 :: (blanks ++ (members ++ (tabs format depth ++ 125 :: rest)))) := by
    rw [hbrace] at hb
    simpa only [List.append_assoc, List.cons_append, List.nil_append] using hb
  have hlength := hb₀.lt
  simp only [List.length_cons, List.length_append] at hlength
  -- what is between the braces
  have hlist : ∃ b', parseList (parseMembers parse) 125 { b with depth := b.depth + 1 } =
      .done (normalMembers child, b') ∧
      ParseBuffer.Goes { b with depth := b.depth + 1 }
        (1 + blanks.length + members.length + (tabs format depth).length) b' := by
    cases child with
    | nil =>
        obtain rfl := Option.some.inj hmembers
        have hspaces : ∀ s ∈ blanks ++ tabs format depth, s ≤ 32 :=
          List.forall_mem_append.mpr ⟨hblanks, blank_of_tabs format depth⟩
        have hb₁ : b.At (123 :: ((blanks ++ tabs format depth) ++ 125 :: rest)) := by
          rw [List.append_assoc]
          exact hb₀
        refine ⟨_, parseList_nil (b := { b with depth := b.depth + 1 }) hb₁ hspaces (by decide),
          rfl, rfl, ?_, rfl⟩
        rw [List.length_append]
        dsimp only [List.length_nil]
        omega
    | cons first child =>
        have hfuel := length_le_renderMembers hmembers
        obtain ⟨body, rfl⟩ : ∃ body, members = tabs format (depth + 1) ++ 34 :: body := by
          rw [renderMembers] at hmembers
          obtain ⟨_, _, htabs, hmore₁, rfl⟩ := joined_eq_some.mp hmembers
          obtain ⟨_, body, hkey, -, rfl⟩ := joined_eq_some.mp hmore₁
          obtain rfl := Option.some.inj htabs
          obtain rfl := Option.some.inj hkey
          exact ⟨_, rfl⟩
        have hspaces : ∀ s ∈ blanks ++ tabs format (depth + 1), s ≤ 32 :=
          List.forall_mem_append.mpr ⟨hblanks, blank_of_tabs format (depth + 1)⟩
        have hb₁ : b.At (123 :: ((blanks ++ tabs format (depth + 1)) ++
            34 :: (body ++ (tabs format depth ++ 125 :: rest)))) := by
          simpa only [List.append_assoc, List.cons_append] using hb₀
        have hloop : ∀ y b', b'.At (y :: 34 :: (body ++ (tabs format depth ++ 125 :: rest))) →
            b'.depth = b.depth + 1 → b'.Granted →
            ∃ b'', parseMembers parse b.content.length [] b' =
                .done (normalMembers (first :: child), b'') ∧
              b'.Goes (1 + (34 :: body).length + (tabs format depth).length) b'' ∧
              b''.At (125 :: rest) := by
          intro y b' hat hdepth hgranted'
          have hat' : b'.At ((y :: 34 :: body ++ tabs format depth) ++ 125 :: rest) := by
            simpa only [List.append_assoc, List.cons_append] using hat
          have hat₀ : b'.At (y :: ([] ++ ((34 :: body) ++ (tabs format depth ++ 125 :: rest)))) :=
            hat
          obtain ⟨b'', hdone, hgoes⟩ : ∃ b'', parseMembers parse b.content.length [] b' =
              .done ([] ++ normalMembers (first :: child), b'') ∧
              b'.Goes (1 + 0 + (34 :: body).length + (tabs format depth).length) b'' :=
            parseMembers_render hitems (List.cons_ne_nil _ _) hmembers (by omega)
              (List.forall_mem_nil _) (blank_of_tabs format depth) hat₀
              (hdepth.trans (congrArg (· + 1) hlevel)) hgranted'
          refine ⟨b'', hdone, hgoes, hat'.goes (hgoes.of_eq ?_)⟩
          simp only [List.length_append, List.length_cons]
          omega
        obtain ⟨b', hdone, hgoes, -⟩ := parseList_cons (b := { b with depth := b.depth + 1 }) hb₁
          hspaces (by decide) (by decide) hgranted hloop
        refine ⟨b', hdone, hgoes.of_eq ?_⟩
        simp only [List.length_append, List.length_cons]
        omega
  obtain ⟨b', hdone, hgoes⟩ := hlist
  have hat : ParseBuffer.IsAt { b with depth := b.depth + 1 } 123 := hb₀.isAt.mpr rfl
  refine ⟨_, ?_, (goes_close hgoes).of_eq ?_⟩
  · rw [parseObject, if_neg (by omega)]
    dsimp only
    rw [if_neg (not_not.mpr hat), hdone, Checked.done_bind]
  · simp only [hbrace, List.length_append, List.length_cons, List.length_nil]
    omega

/-! ### Values -/

section

variable {type : ℕ} {name : Option (List UInt8)}

theorem parseValue_null (hb : b.At ([110, 117, 108, 108] ++ c :: rest)) :
  ∃ b', parseValue (fuel + 1) (scalar type name : Item D) b = .done (scalar cJsonNull name, b') ∧
    b.Goes 4 b'
  := by
  rw [parseValue, if_pos (hb.hasText (List.cons_ne_nil _ _))]
  exact ⟨_, rfl, ParseBuffer.Goes.move b 4⟩

theorem parseValue_false (hb : b.At ([102, 97, 108, 115, 101] ++ c :: rest)) :
  ∃ b', parseValue (fuel + 1) (scalar type name : Item D) b = .done (scalar cJsonFalse name, b') ∧
    b.Goes 5 b'
  := by
  have hfirst : b.At (102 :: ([97, 108, 115, 101] ++ c :: rest)) := hb
  rw [parseValue, if_neg (hfirst.not_hasText (by decide)),
    if_pos (hb.hasText (List.cons_ne_nil _ _))]
  exact ⟨_, rfl, ParseBuffer.Goes.move b 5⟩

theorem parseValue_true (hb : b.At ([116, 114, 117, 101] ++ c :: rest)) :
  ∃ b', parseValue (fuel + 1) (scalar type name : Item D) b =
      .done ({ scalar cJsonTrue name with valueint := 1 }, b') ∧
    b.Goes 4 b'
  := by
  have hfirst : b.At (116 :: ([114, 117, 101] ++ c :: rest)) := hb
  rw [parseValue, if_neg (hfirst.not_hasText (by decide)), if_neg (hfirst.not_hasText (by decide)),
    if_pos (hb.hasText (List.cons_ne_nil _ _))]
  exact ⟨_, rfl, ParseBuffer.Goes.move b 4⟩

/-- A string is read where there is a quote. -/
theorem parseValue_string (hb : b.At (34 :: rest)) :
  parseValue (fuel + 1) item b = parseString item b
  := by
  rw [parseValue, if_neg (hb.not_hasText (by decide)), if_neg (hb.not_hasText (by decide)),
    if_neg (hb.not_hasText (by decide)), if_pos (hb.isAt.mpr rfl)]

/-- A number is read where there is a sign or a digit. -/
theorem parseValue_number (hb : b.At (c :: rest)) (hc : c = 45 ∨ 48 ≤ c ∧ c ≤ 57) :
  parseValue (fuel + 1) item b = parseNumber item b
  := by
  obtain ⟨-, -, -, hn, hf, ht, hquote⟩ := ne_of_first_number hc
  rw [parseValue, if_neg (hb.not_hasText hn.symm), if_neg (hb.not_hasText hf.symm),
    if_neg (hb.not_hasText ht.symm), if_neg (mt hb.isAt.mp hquote),
    if_pos ⟨c, hb.getElem?, hc⟩]

omit [Double D] in
theorem not_number (hb : b.At (c :: rest)) (hc : ¬ (c = 45 ∨ 48 ≤ c ∧ c ≤ 57)) :
  ¬ ∃ d ∈ b.content[b.offset]?, d = 45 ∨ 48 ≤ d ∧ d ≤ 57
  := by
  rintro ⟨d, hd, hnumber⟩
  rw [hb.getElem?] at hd
  obtain rfl := Option.some.inj hd
  exact hc hnumber

/-- An array is read where there is a bracket. -/
theorem parseValue_array (hb : b.At (91 :: rest)) :
  parseValue (fuel + 1) item b = parseArray (parseValue fuel) item b
  := by
  rw [parseValue, if_neg (hb.not_hasText (by decide)), if_neg (hb.not_hasText (by decide)),
    if_neg (hb.not_hasText (by decide)), if_neg (mt hb.isAt.mp (by decide)),
    if_neg (not_number hb (by decide)),
    if_pos (hb.isAt.mpr rfl)]

/-- An object is read where there is a brace. -/
theorem parseValue_object (hb : b.At (123 :: rest)) :
  parseValue (fuel + 1) item b = parseObject (parseValue fuel) item b
  := by
  rw [parseValue, if_neg (hb.not_hasText (by decide)), if_neg (hb.not_hasText (by decide)),
    if_neg (hb.not_hasText (by decide)), if_neg (mt hb.isAt.mp (by decide)),
    if_neg (not_number hb (by decide)),
    if_neg (mt hb.isAt.mp (by decide)), if_pos (hb.isAt.mpr rfl)]

end

/-- `parse_value` reads what `print_value` prints. -/
theorem parseValue_render (h : RoundTrips D) (item : Item D) :
  ∀ {fuel level depth : ℕ}, noRaw item = true → brackets item + level ≤ cJsonNestingLimit →
    cJsonNestingLimit < fuel + level → Readable (parseValue fuel) level format depth item
  := by
  induction item using Item.induction with
  | h item ih =>
      intro fuel level depth hraw hbrackets hfuel text htext
      obtain ⟨fuel, rfl⟩ : ∃ n, fuel = n + 1 := Nat.exists_eq_succ_of_ne_zero (by omega)
      obtain ⟨c, rest, hfirst, hc, hne, -⟩ := exists_first h hraw htext
      refine ⟨⟨c, rest, hfirst, hc, hne⟩, ?_⟩
      intro type' name b y more hb hy hlevel hgranted
      clear hfirst hc hne
      obtain ⟨type, valuestring, _, valuedouble, _, child⟩ := item
      rw [noRaw, Bool.and_eq_true, decide_eq_true_iff] at hraw
      -- what is in an array or an object is read one level deeper
      have hchild : (type &&& 0xFF = cJsonArray ∨ type &&& 0xFF = cJsonObject) →
          level < cJsonNestingLimit ∧
            ∀ item ∈ child, Readable (parseValue fuel) (level + 1) format (depth + 1) item := by
        intro hkind
        rw [brackets, if_pos hkind] at hbrackets
        refine ⟨by omega, fun item hitem => ?_⟩
        have hle := brackets_le_of_mem hitem
        exact ih item hitem (noRaw_of_mem hraw.2 hitem) (by omega) (by omega)
      simp only [render, if_neg hraw.1] at htext
      split_ifs at htext with hnull hfalse htrue hnumber hstring harray hobject
      · obtain rfl := Option.some.inj htext
        simp only [normal, hnull]
        exact parseValue_null hb
      · obtain rfl := Option.some.inj htext
        simp only [normal, hfalse]
        exact parseValue_false hb
      · obtain rfl := Option.some.inj htext
        simp only [normal, htrue]
        exact parseValue_true hb
      · obtain rfl := Option.some.inj htext
        simp only [normal, hnumber]
        cases hd : Double.isFinite valuedouble with
        | true =>
            obtain ⟨c, digits, hrender, hc⟩ := exists_first_number h hd
            have hb' : b.At (c :: (digits ++ y :: more)) := by
              rw [hrender] at hb
              exact hb
            rw [parseValue_number hb' hc, parseNumber_renderNumber h hd hb hy]
            exact ⟨_, rfl, ParseBuffer.Goes.move b _⟩
        | false =>
            rw [renderNumber_of_not_finite hd] at hb ⊢
            exact parseValue_null hb
      · obtain rfl := Option.some.inj htext
        simp only [normal, hstring]
        have hquote : b.At (34 :: ((cstring (valuestring.getD [])).flatMap escape ++ [34] ++
            y :: more)) := hb
        rw [parseValue_string hquote]
        exact parseString_renderString (scalar type' name) valuestring hb hgranted
      · obtain ⟨hlt, hitems⟩ := hchild (Or.inl harray)
        simp only [normal, harray]
        have hbracket : ∃ more', b.At (91 :: more') := by
          obtain ⟨_, body, hopen, -, rfl⟩ := joined_eq_some.mp htext
          obtain rfl := Option.some.inj hopen
          exact ⟨_, hb⟩
        obtain ⟨more', hbracket⟩ := hbracket
        rw [parseValue_array hbracket]
        exact parseArray_render hitems htext hb hlevel hlt hgranted
      · obtain ⟨hlt, hitems⟩ := hchild (Or.inr hobject)
        simp only [normal, hobject]
        have hbrace : ∃ more', b.At (123 :: more') := by
          obtain ⟨_, body, hopen, -, rfl⟩ := joined_eq_some.mp htext
          obtain rfl := Option.some.inj hopen
          cases format <;> exact ⟨_, hb⟩
        obtain ⟨more', hbrace⟩ := hbrace
        rw [parseValue_object hbrace]
        exact parseObject_render hitems htext hb hlevel hlt hgranted

omit [Double D] in
/-- The null character at the end is skipped as a blank, and the buffer goes back to it. -/
theorem skipWhitespace_end (hb : b.At [0]) :
  b.skipWhitespace = .done b
  := by
  have hlength := hb.lt
  rw [List.length_singleton] at hlength
  have hspaces : ([0] : List UInt8).takeWhile (fun c => decide (c ≤ 32)) = [0] := rfl
  have hdrop : b.content.drop b.offset = [0] := hb
  rw [ParseBuffer.skipWhitespace, hdrop]
  simp only [hspaces]
  rw [List.length_singleton, if_pos hlength, ParseBuffer.back, if_neg (Nat.succ_ne_zero _)]
  dsimp only
  rw [Nat.add_sub_cancel]

/-- The parser reads what the printer prints. -/
theorem parseWithOpts_render (h : RoundTrips D) (requireNullTerminated : Bool) {hooks : Hooks}
    (hraw : noRaw item = true) (hbrackets : brackets item ≤ cJsonNestingLimit)
    (htext : render format item 0 = some text) (hgrants : ∀ i, hooks.grants i = true) :
  ∃ hooks', parseWithOpts text requireNullTerminated hooks =
    .done (normal none item, text.length, hooks')
  := by
  obtain ⟨c, more, hfirst, hc, -, hmark⟩ := exists_first h hraw htext
  have hreadable : Readable (parseValue (cJsonNestingLimit + 1)) 0 format 0 item :=
    parseValue_render h item hraw hbrackets (Nat.lt_succ_self _)
  obtain ⟨-, hparses⟩ := hreadable text htext
  generalize hstart : ({ content := text ++ [0], offset := 0, depth := 0, hooks := hooks } :
    ParseBuffer) = b
  have hb : b.At (text ++ [0]) := by
    rw [← hstart]
    rfl
  have hgranted : b.Granted := by
    rw [← hstart]
    exact hgrants
  obtain ⟨b₁, hnew, hgoes₁⟩ := hgranted.newItem ([] : List (Item D))
  have hb₁ := hb.same hgoes₁
  have hb₁' : b₁.At (c :: (more ++ [0])) := by
    rw [hfirst] at hb₁
    exact hb₁
  have hbom : b₁.skipUtf8Bom = b₁ := by
    apply if_neg
    rintro ⟨-, htake⟩
    rw [hb₁', List.take_succ_cons] at htake
    exact hmark (List.cons.inj htake).1
  have hlevel : b₁.depth = 0 := by
    rw [hgoes₁.depth, ← hstart]
  obtain ⟨b₂, hparse, hgoes₂⟩ := hparses 0 none b₁ 0 [] hb₁ (by decide) hlevel
    (hgoes₁.granted hgranted)
  have hb₂ := hb₁.goes hgoes₂
  have hoffset : b₂.offset = text.length := by
    rw [(hgoes₁.trans hgoes₂).offset, ← hstart]
    dsimp only
    omega
  have hterminated : b₂.nullTerminated requireNullTerminated (normal none item) = .done b₂ := by
    cases requireNullTerminated with
    | false => rfl
    | true =>
        rw [ParseBuffer.nullTerminated, if_pos rfl, skipWhitespace_end hb₂,
          Checked.done_bind, if_neg (not_not.mpr (hb₂.isAt.mpr rfl))]
  have hnormal : parseValue (cJsonNestingLimit + 1) (Item.new : Item D) b₁ =
    .done (normal none item, b₂) := hparse
  refine ⟨b₂.hooks, ?_⟩
  rw [parseWithOpts, hstart]
  dsimp only
  rw [hnew, Checked.done_bind, hbom, hb₁'.skipWhitespace_nil hc, Checked.done_bind, hnormal,
    Checked.done_onFail, Checked.done_bind]
  dsimp only
  rw [hterminated, Checked.done_bind, Checked.done_onFail, hoffset]

/-- What `cJSON_Print` and `cJSON_PrintUnformatted` return is the text of an item. -/
theorem print_renders (hsprintf : SprintfFits D) (item : Item D) (format : Bool) (hooks : Hooks) :
  (print item format hooks).Meets
    (fun (printed, _) => ∃ text, render format item 0 = some text ∧
      printed = (text ++ [0]).map some)
    (fun hooks' => ∀ text, render format item 0 = some text → text.length + 2 ≤ intMax →
      hooks.Refused hooks')
  := by
  rw [print]
  cases hfirst : hooks.grants hooks.allocations with
  | false =>
      rw [Hooks.allocate_of_not_grants hfirst]
      exact Checked.meets_failed (fun _ _ _ => Hooks.refused_of_not_grants hfirst rfl)
  | true =>
      rw [Hooks.allocate_of_grants hfirst]
      have hmax : 256 ≤ intMax := by decide
      apply (print_granted hsprintf item Cells.length_new.ge hmax (Nat.succ_pos _) rfl).mono
      · rintro ⟨printed, _⟩ ⟨text, htext, -, hprinted, -⟩
        exact ⟨text, htext, hprinted⟩
      · rintro _ ⟨-, hblocked⟩ text htext hle
        exact (hblocked text htext hle).of_allocates ⟨rfl, Nat.le_succ _⟩

/-- What `cJSON_Print` or `cJSON_PrintUnformatted` returns of an item is a string that
`cJSON_ParseWithOpts` reads to its end, and gets the item back. -/
theorem parseWithOpts_print (h : RoundTrips D) (item : Item D)
    (format requireNullTerminated : Bool) (hooks parseHooks : Hooks) (hraw : noRaw item = true)
    (hbrackets : brackets item ≤ cJsonNestingLimit) (hgrants : ∀ i, parseHooks.grants i = true) :
  (print item format hooks).Meets
    (fun (printed, _) => ∃ text hooks', printed = (text ++ [0]).map some ∧ 0 ∉ text ∧
      parseWithOpts text requireNullTerminated parseHooks =
        .done (normal none item, text.length, hooks'))
    (fun hooks' => ∀ text, render format item 0 = some text → text.length + 2 ≤ intMax →
      hooks.Refused hooks')
  := by
  apply (print_renders h.fits item format hooks).mono
  · rintro ⟨printed, _⟩ ⟨text, htext, hprinted⟩
    obtain ⟨hooks', hparse⟩ := parseWithOpts_render h requireNullTerminated hraw hbrackets htext
      hgrants
    exact ⟨text, hooks', hprinted, noNull_render h.fits item 0 text htext, hparse⟩
  · exact fun _ => id

end

/-! ### A few numbers -/

/-- Numbers are read from the texts that are printed of them. -/
theorem read_few :
  ∀ number : Few, number ≠ .nan →
    (∃ number', Few.read number.short = some number') ∧ Few.read number.long = some number
  := by
  intro number hne
  cases number with
  | zero => exact ⟨⟨.zero, rfl⟩, rfl⟩
  | third => exact ⟨⟨.belowThird, rfl⟩, rfl⟩
  | belowThird => exact ⟨⟨.belowThird, rfl⟩, rfl⟩
  | negative => exact ⟨⟨.negative, rfl⟩, rfl⟩
  | large => exact ⟨⟨.large, rfl⟩, rfl⟩
  | nan => exact absurd rfl hne

/-- Their characters -/
theorem chars_few :
  ∀ number : Few, number ≠ .nan → ∀ text, text = number.short ∨ text = number.long →
    text.all isNumberChar = true ∧ ∃ c ∈ text.head?, c = 45 ∨ 48 ≤ c ∧ c ≤ 57
  := by
  intro number hne text htext
  cases number with
  | nan => exact absurd rfl hne
  | _ =>
      rcases htext with rfl | rfl
      · exact ⟨by decide, by decide⟩
      · exact ⟨by decide, by decide⟩

theorem roundTrips_few :
  RoundTrips Few
  := by
  have hfinite : ∀ number : Few, Double.isFinite number = true → number ≠ .nan :=
    fun _ => of_decide_eq_true
  constructor
  · exact sprintfFits_few
  · intro precision number _ hnumber
    rw [← List.all_eq_true]
    exact (chars_few number (hfinite number hnumber) _ (sprintf_few precision number)).1
  · intro precision number _ hnumber
    exact (chars_few number (hfinite number hnumber) _ (sprintf_few precision number)).2
  · intro precision number _ _
    have hstrtod : ∀ chars, (Few.read chars).map (fun number => (number, chars.length)) =
        (Double.strtod chars : Option (Few × ℕ)) := fun _ => rfl
    rw [← hstrtod, Option.map_map]
    exact (Option.map_id' ..).symm
  · intro precision number _ hnumber
    obtain ⟨⟨number', hshort⟩, hlong⟩ := read_few number (hfinite number hnumber)
    rcases sprintf_few precision number with h | h
    · exact ⟨number', by rw [h]; exact congrArg (Option.map _) hshort⟩
    · exact ⟨number, by rw [h]; exact congrArg (Option.map _) hlong⟩
  · intro number number' _ _ _ hequal
    exact (of_decide_eq_true hequal).2
  · intro number number' _ hnumber hread
    have hlong : (Double.strtod (Double.sprintf 17 number) : Option (Few × ℕ)) =
        some (number, number.long.length) :=
      congrArg (Option.map _) (read_few number (hfinite number hnumber)).2
    rw [hlong] at hread
    cases hread
    rfl

/-- The array of four numbers, formatted -/
theorem parseWithOpts_print_numbers :
  RoundTrips Few ∧ noRaw numbers = true ∧ brackets numbers ≤ cJsonNestingLimit ∧
    (∀ i, Hooks.grants ⟨fun _ => true, true, 0, 0⟩ i = true) ∧
    (print numbers true ⟨fun _ => true, true, 0, 0⟩).Meets
      (fun (printed, _) => ∃ text hooks', printed = (text ++ [0]).map some ∧ 0 ∉ text ∧
        parseWithOpts text true ⟨fun _ => true, true, 0, 0⟩ =
          .done (normal none numbers, text.length, hooks'))
      (fun hooks' => ∀ text, render true numbers 0 = some text → text.length + 2 ≤ intMax →
        Hooks.Refused ⟨fun _ => true, true, 0, 0⟩ hooks')
  := by
  have hraw : noRaw numbers = true := rfl
  have hbrackets : brackets numbers ≤ cJsonNestingLimit := by decide
  have hgrants : ∀ i, Hooks.grants ⟨fun _ => true, true, 0, 0⟩ i = true := fun _ => rfl
  exact ⟨roundTrips_few, hraw, hbrackets, hgrants,
    parseWithOpts_print roundTrips_few numbers true true ⟨fun _ => true, true, 0, 0⟩
      ⟨fun _ => true, true, 0, 0⟩ hraw hbrackets hgrants⟩

end CJson
