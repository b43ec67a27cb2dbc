import Orgrim.CJson.RoundTrip

/-!
# Items that are printed alike

An item that has been printed and parsed has the text that the printed one has (`render_normal`), so
two items are printed alike if and only if the parser makes the same item of them
(`print_eq_iff`).
-/

namespace CJson

section

variable {D : Type} [Double D] {format : Bool} {depth : ℕ} {item item' : Item D}
  {items : List (Item D)} {name : Option (List UInt8)} {text : List UInt8}

theorem cstring_cstring (chars : List UInt8) :
  cstring (cstring chars) = cstring chars
  := List.takeWhile_idem

theorem renderString_cstring (string : Option (List UInt8)) :
  renderString (some (cstring (string.getD []))) = renderString string
  := by
  rw [renderString, Option.getD_some, cstring_cstring, renderString]

theorem string_normal :
  (normal name item).string = name
  := by
  obtain ⟨type, valuestring, _, valuedouble, _, child⟩ := item
  simp only [normal]
  split_ifs <;> rfl

theorem isEmpty_normalElements :
  (normalElements items).isEmpty = items.isEmpty
  := by
  cases items <;> rfl

theorem isEmpty_normalMembers :
  (normalMembers items).isEmpty = items.isEmpty
  := by
  cases items <;> rfl

/-! ### The text of what has been read -/

theorem render_true {value : ℤ} :
  render format { (scalar cJsonTrue name : Item D) with valueint := value } depth =
    some [116, 114, 117, 101]
  := by
  simp [render, scalar, cJsonNull, cJsonFalse, cJsonTrue]

theorem render_number {d : D} {value : ℤ} :
  render format { (scalar cJsonNumber name : Item D) with
      valuedouble := d
      valueint := value } depth = some (renderNumber d)
  := by
  simp [render, scalar, cJsonNull, cJsonFalse, cJsonTrue, cJsonNumber]

theorem render_string {string : Option (List UInt8)} :
  render format { (scalar cJsonString name : Item D) with valuestring := string } depth =
    some (renderString string)
  := by
  simp [render, scalar, cJsonNull, cJsonFalse, cJsonTrue, cJsonNumber, cJsonRaw, cJsonString]

theorem render_array :
  render format { (scalar cJsonArray name : Item D) with child := items } depth =
    joined (some [91]) (joined (renderElements format items (depth + 1)) (some [93]))
  := by
  simp [render, scalar, cJsonNull, cJsonFalse, cJsonTrue, cJsonNumber, cJsonRaw, cJsonString,
    cJsonArray]

theorem render_object :
  render format { (scalar cJsonObject name : Item D) with child := items } depth =
    joined (some (openBrace format))
      (joined (renderMembers format items (depth + 1)) (some (tabs format depth ++ [125])))
  := by
  simp [render, scalar, cJsonNull, cJsonFalse, cJsonTrue, cJsonNumber, cJsonRaw, cJsonString,
    cJsonArray, cJsonObject]

/-- The text stays when the elements are read. -/
theorem renderElements_normal
    (hitems : ∀ item ∈ items, ∀ text, render format item depth = some text →
      render format (normal none item) depth = some text)
    (htext : renderElements format items depth = some text) :
  renderElements format (normalElements items) depth = some text
  := by
  induction items generalizing text with
  | nil => exact htext
  | cons item items ih =>
      rw [renderElements] at htext
      obtain ⟨t, _, ht, hmore, rfl⟩ := joined_eq_some.mp htext
      obtain ⟨_, ts, hseparator, hts, rfl⟩ := joined_eq_some.mp hmore
      have hfirst := hitems item List.mem_cons_self t ht
      have hrest := ih (fun item hitem => hitems item (List.mem_cons_of_mem _ hitem)) hts
      rw [normalElements, renderElements, isEmpty_normalElements, hfirst, hseparator, hrest]
      rfl

/-- The text stays when the members are read. -/
theorem renderMembers_normal
    (hitems : ∀ item ∈ items, ∀ name text, render format item depth = some text →
      render format (normal name item) depth = some text)
    (htext : renderMembers format items depth = some text) :
  renderMembers format (normalMembers items) depth = some text
  := by
  induction items generalizing text with
  | nil => exact htext
  | cons item items ih =>
      rw [renderMembers] at htext
      obtain ⟨_, _, htabs, hmore₁, rfl⟩ := joined_eq_some.mp htext
      obtain ⟨_, _, hkey, hmore₂, rfl⟩ := joined_eq_some.mp hmore₁
      obtain ⟨_, _, hcolon, hmore₃, rfl⟩ := joined_eq_some.mp hmore₂
      obtain ⟨t, _, ht, hmore₄, rfl⟩ := joined_eq_some.mp hmore₃
      obtain ⟨_, ts, hend, hts, rfl⟩ := joined_eq_some.mp hmore₄
      have hfirst := hitems item List.mem_cons_self (some (cstring (item.string.getD []))) t ht
      have hrest := ih (fun item hitem => hitems item (List.mem_cons_of_mem _ hitem)) hts
      rw [normalMembers, renderMembers, isEmpty_normalMembers, string_normal, renderString_cstring,
        htabs, hkey, hcolon, hfirst, hend, hrest]
      rfl

/-- The text stays when an item is read. -/
theorem render_normal (item : Item D) :
  ∀ depth name text, noRaw item = true → render format item depth = some text →
    render format (normal name item) depth = some text
  := by
  induction item using Item.induction with
  | h item ih =>
      intro depth name text hraw htext
      obtain ⟨type, valuestring, _, valuedouble, _, child⟩ := item
      rw [noRaw, Bool.and_eq_true, decide_eq_true_iff] at hraw
      simp only [render, if_neg hraw.1] at htext
      split_ifs at htext with hnull hfalse htrue hnumber hstring harray hobject
      · rw [normal, hnull]
        exact htext
      · rw [normal, hfalse]
        exact htext
      · rw [normal, htrue]
        exact render_true.trans htext
      · rw [normal, hnumber]
        cases hd : Double.isFinite valuedouble with
        | true => exact render_number.trans htext
        | false =>
            rw [renderNumber_of_not_finite hd] at htext
            exact htext
      · rw [normal, hstring]
        rw [← renderString_cstring] at htext
        exact render_string.trans htext
      · obtain ⟨_, _, hopen, hmore, rfl⟩ := joined_eq_some.mp htext
        obtain ⟨elements, _, helements, hclose, rfl⟩ := joined_eq_some.mp hmore
        have hnormal := renderElements_normal (fun item hitem text =>
          ih item hitem _ none text (noRaw_of_mem hraw.2 hitem)) helements
        rw [normal, harray]
        apply render_array.trans
        rw [hnormal, hopen, hclose, joined_some, joined_some]
      · obtain ⟨_, _, hopen, hmore, rfl⟩ := joined_eq_some.mp htext
        obtain ⟨members, _, hmembers, hclose, rfl⟩ := joined_eq_some.mp hmore
        have hnormal := renderMembers_normal (fun item hitem name text =>
          ih item hitem _ name text (noRaw_of_mem hraw.2 hitem)) hmembers
        rw [normal, hobject]
        apply render_object.trans
        rw [hnormal, hopen, hclose, joined_some, joined_some]

/-- Two items have the same text if and only if the same item is read from their texts. -/
theorem render_eq_iff (h : RoundTrips D) {text' : List UInt8} (hraw : noRaw item = true)
    (hraw' : noRaw item' = true) (hbrackets : brackets item ≤ cJsonNestingLimit)
    (hbrackets' : brackets item' ≤ cJsonNestingLimit) (htext : render format item 0 = some text)
    (htext' : render format item' 0 = some text') :
  text = text' ↔ normal none item = normal none item'
  := by
  constructor
  · rintro rfl
    have hgrants : ∀ i, Hooks.grants ⟨fun _ => true, true, 0, 0⟩ i = true := fun _ => rfl
    obtain ⟨hooks, hparse⟩ := parseWithOpts_render h false hraw hbrackets htext hgrants
    obtain ⟨hooks', hparse'⟩ := parseWithOpts_render h false hraw' hbrackets' htext' hgrants
    rw [hparse] at hparse'
    exact congrArg Prod.fst (Checked.done.inj hparse')
  · intro hsame
    have hread := render_normal item 0 none text hraw htext
    have hread' := render_normal item' 0 none text' hraw' htext'
    rw [hsame, hread'] at hread
    exact (Option.some.inj hread).symm

theorem text_of_print (hsprintf : SprintfFits D) {hooks after : Hooks} {printed : Cells UInt8}
    (hprint : print item format hooks = .done (printed, after)) :
  ∃ text, render format item 0 = some text ∧ printed = (text ++ [0]).map some
  := by
  have hmeets := print_renders hsprintf item format hooks
  rw [hprint] at hmeets
  cases hmeets with
  | done h => exact h

/-- If all allocations succeed, an item with a text that is not too long is printed. -/
theorem exists_print (hsprintf : SprintfFits D) {hooks : Hooks}
    (htext : render format item 0 = some text) (hle : text.length + 2 ≤ intMax)
    (hgrants : ∀ i, hooks.grants i = true) :
  ∃ after, print item format hooks = .done ((text ++ [0]).map some, after)
  := by
  have hmeets := print_renders hsprintf item format hooks
  cases hprint : print item format hooks with
  | undefined =>
      rw [hprint] at hmeets
      cases hmeets
  | failed after =>
      rw [hprint] at hmeets
      cases hmeets with
      | failed hblocked =>
          obtain ⟨i, -, -, hi⟩ := hblocked text htext hle
          rw [hgrants i] at hi
          cases hi
  | done result =>
      obtain ⟨text', htext', hprinted⟩ := text_of_print hsprintf hprint
      rw [htext] at htext'
      obtain rfl := Option.some.inj htext'
      exact ⟨result.2, by rw [← hprinted]⟩

/-- Two items that `cJSON_Print` or `cJSON_PrintUnformatted` has printed have been printed alike if
and only if `cJSON_Parse` gets the same item back. -/
theorem print_eq_iff (h : RoundTrips D) {hooks hooks' after after' : Hooks}
    {printed printed' : Cells UInt8} (hraw : noRaw item = true) (hraw' : noRaw item' = true)
    (hbrackets : brackets item ≤ cJsonNestingLimit)
    (hbrackets' : brackets item' ≤ cJsonNestingLimit)
    (hprint : print item format hooks = .done (printed, after))
    (hprint' : print item' format hooks' = .done (printed', after')) :
  printed = printed' ↔ normal none item = normal none item'
  := by
  obtain ⟨text, htext, rfl⟩ := text_of_print h.fits hprint
  obtain ⟨text', htext', rfl⟩ := text_of_print h.fits hprint'
  rw [← render_eq_iff h hraw hraw' hbrackets hbrackets' htext htext']
  constructor
  · intro hprinted
    have hinjective : Function.Injective (some : UInt8 → Option UInt8) := fun _ _ => Option.some.inj
    exact List.append_cancel_right (List.map_injective_iff.mpr hinjective hprinted)
  · rintro rfl
    rfl

end

/-- The array with `null` in place of the number that is not finite -/
def numbersNull : Item Few :=
  ⟨cJsonArray, none, 0, Few.zero, none,
    [Few.third.item 0, Few.negative.item 0, Few.large.item intMax,
      ⟨cJsonNull, none, 0, Few.zero, none, []⟩]⟩

/-- The two arrays are printed alike. -/
theorem print_eq_iff_numbers :
  ∃ printed after after', RoundTrips Few ∧ noRaw numbers = true ∧ noRaw numbersNull = true ∧
    brackets numbers ≤ cJsonNestingLimit ∧ brackets numbersNull ≤ cJsonNestingLimit ∧
    print numbers false ⟨fun _ => true, true, 0, 0⟩ = .done (printed, after) ∧
    print numbersNull false ⟨fun _ => true, true, 0, 0⟩ = .done (printed, after') ∧
    (printed = printed ↔ normal none numbers = normal none numbersNull)
  := by
  have hbrackets : brackets numbers ≤ cJsonNestingLimit := by decide
  have hbrackets' : brackets numbersNull ≤ cJsonNestingLimit := by decide
  have htext : render false numbers 0 =
      some (91 :: (Few.third.long ++ 44 :: (Few.negative.short ++ 44 :: (Few.large.short ++
        [44, 110, 117, 108, 108, 93])))) := rfl
  have htext' : render false numbersNull 0 = render false numbers 0 := rfl
  have hgrants : ∀ i, Hooks.grants ⟨fun _ => true, true, 0, 0⟩ i = true := fun _ => rfl
  obtain ⟨after, hprint⟩ := exists_print sprintfFits_few htext (by decide) hgrants
  obtain ⟨after', hprint'⟩ := exists_print sprintfFits_few (htext'.trans htext) (by decide) hgrants
  exact ⟨_, after, after', roundTrips_few, rfl, rfl, hbrackets, hbrackets', hprint, hprint',
    print_eq_iff roundTrips_few rfl rfl hbrackets hbrackets' hprint hprint'⟩

end CJson
