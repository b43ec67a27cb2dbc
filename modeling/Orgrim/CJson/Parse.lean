import Orgrim.CJson.Item
import Orgrim.Theory.Checked
import Orgrim.Theory.Hex

/-!
# The parser

The parser of `cJSON.c`, with every access to the text and to the memory of a string checked.  A
function that returns `false` fails with the buffer as it leaves it.  The recursion needs fuel for
the nesting, and a loop for its rounds; what runs out of it has no result, as an access outside of
the memory, so that a result tells that neither happens.
-/

namespace CJson

/-- `parse_buffer` -/
structure ParseBuffer where
  content : List UInt8
  offset : ℕ
  depth : ℕ
  hooks : Hooks

namespace ParseBuffer

/-- `can_read`, and `strncmp` finds the text. -/
def HasText (b : ParseBuffer) (text : List UInt8) : Prop :=
  b.offset + text.length ≤ b.content.length ∧
    (b.content.drop b.offset).take text.length = text

/-- `can_access_at_index(buffer, 0)`, and `buffer_at_offset(buffer)[0]` is the character. -/
def IsAt (b : ParseBuffer) (c : UInt8) : Prop := b.content[b.offset]? = some c

instance (b : ParseBuffer) (text : List UInt8) : Decidable (b.HasText text) :=
  inferInstanceAs (Decidable (_ ∧ _))

instance (b : ParseBuffer) (c : UInt8) : Decidable (b.IsAt c) :=
  inferInstanceAs (Decidable (_ = _))

/-- `buffer->offset--`.  To go back from the start has no result. -/
def back (b : ParseBuffer) : Checked ParseBuffer ParseBuffer :=
  if b.offset = 0 then .undefined else .done { b with offset := b.offset - 1 }

/-- `buffer_skip_whitespace` -/
def skipWhitespace (b : ParseBuffer) : Checked ParseBuffer ParseBuffer :=
  let spaces := (b.content.drop b.offset).takeWhile (fun c => c ≤ 32)
  let b := { b with offset := b.offset + spaces.length }
  if b.offset = b.content.length then b.back else .done b

/-- `skip_utf8_bom` -/
def skipUtf8Bom (b : ParseBuffer) : ParseBuffer :=
  if b.offset + 4 < b.content.length ∧ (b.content.drop b.offset).take 3 = [0xEF, 0xBB, 0xBF] then
    { b with offset := b.offset + 3 }
  else b

/-- `cJSON_Delete` of the items that have been put into a list, and return `false`. -/
def fail {D α : Type} (head : List (Item D)) (b : ParseBuffer) : Checked ParseBuffer α :=
  match b.hooks.deallocate (Item.blocksOf head) with
  | none => .undefined
  | some hooks => .failed { b with hooks := hooks }

/-- `cJSON_New_Item`, or the list is deleted. -/
def newItem {D : Type} (head : List (Item D)) (b : ParseBuffer) :
    Checked ParseBuffer ParseBuffer :=
  match b.hooks.allocate with
  | (false, hooks) => fail head { b with hooks := hooks }
  | (true, hooks) => .done { b with hooks := hooks }

end ParseBuffer

/-! ### Numbers -/

/-- A character that `parse_number` copies. -/
def isNumberChar (c : UInt8) : Bool :=
  48 ≤ c ∧ c ≤ 57 ∨ c = 43 ∨ c = 45 ∨ c = 101 ∨ c = 69 ∨ c = 46

/-- `valueint` of a number, with saturation -/
def saturate {D : Type} [Double D] (number : D) : ℤ :=
  if Double.geIntMax number then intMax
  else if Double.leIntMin number then -2 ^ 31
  else Double.toInt number

/-- `parse_number` -/
def parseNumber {D : Type} [Double D] (item : Item D) (b : ParseBuffer) :
    Checked ParseBuffer (Item D × ParseBuffer) :=
  let numberCString := ((b.content.drop b.offset).take 63).takeWhile isNumberChar
  match Double.strtod numberCString with
  | none => .failed b
  | some (number, length) =>
      .done
        ({ item with valuedouble := number, valueint := saturate number, type := cJsonNumber },
          { b with offset := b.offset + length })

/-! ### Strings

The pointers into the text are offsets.  What fails does so at `input_pointer`. -/

/-- The loop of `parse_hex4`, for the digits that are left -/
def parseHexDigits (content : List UInt8) : ℕ → ℕ → ℕ → Checked ℕ ℕ
  | 0, _, h => .done h
  | n + 1, input, h => do
      let c ← .access content[input]?
      match Hex.value c with
      | none => .done 0
      | some digit =>
          parseHexDigits content n (input + 1) (if 0 < n then (h + digit) <<< 4 else h + digit)

/-- `parse_hex4`, which returns 0 also for what is not a number -/
def parseHex4 (content : List UInt8) (input : ℕ) : Checked ℕ ℕ := parseHexDigits content 4 input 0

/-- The loop that encodes all bytes but the first, from the last one on: what is left of the
codepoint, and the bytes -/
def encodeRest : ℕ → ℕ → List UInt8 → ℕ × List UInt8
  | 0, codepoint, bytes => (codepoint, bytes)
  | n + 1, codepoint, bytes =>
      encodeRest n (codepoint >>> 6) (UInt8.ofNat ((codepoint ||| 0x80) &&& 0xBF) :: bytes)

/-- The bytes of a codepoint, of which there are `utf8_length` -/
def encode (utf8Length firstByteMark codepoint : ℕ) : List UInt8 :=
  let (codepoint, bytes) := encodeRest (utf8Length - 1) codepoint []
  if 1 < utf8Length then UInt8.ofNat ((codepoint ||| firstByteMark) &&& 0xFF) :: bytes
  else UInt8.ofNat (codepoint &&& 0x7F) :: bytes

/-- The codepoint of a literal, and the length of the sequence -/
def utf16Codepoint (content : List UInt8) (inputPointer inputEnd : ℕ) : Checked ℕ (ℕ × ℕ) :=
  if inputEnd < inputPointer + 6 then .failed inputPointer
  else do
    let firstCode ← parseHex4 content (inputPointer + 2)
    if 0xDC00 ≤ firstCode ∧ firstCode ≤ 0xDFFF then .failed inputPointer
    else if 0xD800 ≤ firstCode ∧ firstCode ≤ 0xDBFF then
      if inputEnd < inputPointer + 6 + 6 then .failed inputPointer
      else do
        let c ← .access content[inputPointer + 6]?
        let c' ← .access content[inputPointer + 7]?
        if c ≠ 92 ∨ c' ≠ 117 then .failed inputPointer
        else do
          let secondCode ← parseHex4 content (inputPointer + 6 + 2)
          if secondCode < 0xDC00 ∨ 0xDFFF < secondCode then .failed inputPointer
          else
            .done (0x10000 + (((firstCode &&& 0x3FF) <<< 10) ||| (secondCode &&& 0x3FF)), 12)
    else .done (firstCode, 6)

/-- `utf16_literal_to_utf8`: the bytes, and the length of the sequence -/
def utf16LiteralToUtf8 (content : List UInt8) (inputPointer inputEnd : ℕ) :
    Checked ℕ (List UInt8 × ℕ) := do
  let (codepoint, sequenceLength) ← utf16Codepoint content inputPointer inputEnd
  if codepoint < 0x80 then .done (encode 1 0 codepoint, sequenceLength)
  else if codepoint < 0x800 then .done (encode 2 0xC0 codepoint, sequenceLength)
  else if codepoint < 0x10000 then .done (encode 3 0xE0 codepoint, sequenceLength)
  else if codepoint ≤ 0x10FFFF then .done (encode 4 0xF0 codepoint, sequenceLength)
  else .failed inputPointer

/-- An escape sequence, by the character `c` behind the backslash: the bytes for it, and its
length -/
def unescape (content : List UInt8) (inputPointer inputEnd : ℕ) (c : UInt8) :
    Checked ℕ (List UInt8 × ℕ) :=
  if c = 98 then .done ([8], 2)
  else if c = 102 then .done ([12], 2)
  else if c = 110 then .done ([10], 2)
  else if c = 114 then .done ([13], 2)
  else if c = 116 then .done ([9], 2)
  else if c = 34 ∨ c = 92 ∨ c = 47 then .done ([c], 2)
  else if c = 117 then utf16LiteralToUtf8 content inputPointer inputEnd
  else .failed inputPointer

/-- Store bytes behind those that have been, in the memory that has been allocated. -/
def putBytes (allocated : ℕ) (output bytes : List UInt8) : Checked ℕ (List UInt8) :=
  if output.length + bytes.length ≤ allocated then .done (output ++ bytes) else .undefined

/-- The loop of `parse_string` that looks for the end of the string: where it is, and how many
bytes need not be copied -/
def findEnd : List UInt8 → ℕ → ℕ → Option (ℕ × ℕ)
  | [], _, _ => none
  | c :: rest, inputEnd, skippedBytes =>
      if c = 34 then some (inputEnd, skippedBytes)
      else if c = 92 then
        match rest with
        | [] => none
        | _ :: rest => findEnd rest (inputEnd + 2) (skippedBytes + 1)
      else findEnd rest (inputEnd + 1) skippedBytes

/-- The loop of `parse_string` through the string -/
def copyString (content : List UInt8) (inputEnd allocated : ℕ) :
    ℕ → ℕ → List UInt8 → Checked ℕ (List UInt8)
  | 0, _, _ => .undefined
  | fuel + 1, inputPointer, output =>
      if inputPointer < inputEnd then do
        let c ← .access content[inputPointer]?
        if c ≠ 92 then do
          let output ← putBytes allocated output [c]
          copyString content inputEnd allocated fuel (inputPointer + 1) output
        else if inputEnd < inputPointer + 1 then .failed inputPointer
        else do
          let c ← .access content[inputPointer + 1]?
          let (bytes, sequenceLength) ← unescape content inputPointer inputEnd c
          let output ← putBytes allocated output bytes
          copyString content inputEnd allocated fuel (inputPointer + sequenceLength) output
      else .done output

/-- `parse_string` -/
def parseString {D : Type} (item : Item D) (b : ParseBuffer) :
    Checked ParseBuffer (Item D × ParseBuffer) := do
  let c ← .access b.content[b.offset]?
  if c ≠ 34 then .failed { b with offset := b.offset + 1 }
  else
    match findEnd (b.content.drop (b.offset + 1)) (b.offset + 1) 0 with
    | none => .failed { b with offset := b.offset + 1 }
    | some (inputEnd, skippedBytes) =>
        let allocationLength := inputEnd - b.offset - skippedBytes
        match b.hooks.allocate with
        | (false, hooks) => .failed { b with offset := b.offset + 1, hooks := hooks }
        | (true, hooks) => do
            let copied := do
              let output ←
                copyString b.content inputEnd (allocationLength + 1) b.content.length
                  (b.offset + 1) []
              let _ ← putBytes (allocationLength + 1) output [0]
              .done output
            let output ← copied.onFail (fun inputPointer =>
              match hooks.deallocate 1 with
              | none => .undefined
              | some hooks => .failed { b with offset := inputPointer, hooks := hooks })
            .done
              ({ item with type := cJsonString, valuestring := some output },
                { b with offset := inputEnd + 1, hooks := hooks })

/-! ### Arrays and objects

They get the function that parses what is in them. -/

section

variable {D : Type} [Double D]
  (parseValue : Item D → ParseBuffer → Checked ParseBuffer (Item D × ParseBuffer))

/-- The loop of `parse_array`, with the items that are in the list -/
def parseElements : ℕ → List (Item D) → ParseBuffer →
    Checked ParseBuffer (List (Item D) × ParseBuffer)
  | 0, _, _ => .undefined
  | fuel + 1, head, b => do
      let b ← b.newItem head
      let b ← { b with offset := b.offset + 1 }.skipWhitespace
      let (item, b) ← (parseValue Item.new b).onFail (ParseBuffer.fail (head ++ [Item.new]))
      let b ← b.skipWhitespace
      if b.IsAt 44 then parseElements fuel (head ++ [item]) b else .done (head ++ [item], b)

/-- The loop of `parse_object` -/
def parseMembers : ℕ → List (Item D) → ParseBuffer →
    Checked ParseBuffer (List (Item D) × ParseBuffer)
  | 0, _, _ => .undefined
  | fuel + 1, head, b => do
      let b ← b.newItem head
      let b ← { b with offset := b.offset + 1 }.skipWhitespace
      let (named, b) ← (parseString Item.new b).onFail (ParseBuffer.fail (head ++ [Item.new]))
      let b ← b.skipWhitespace
      let named : Item D := { named with string := named.valuestring, valuestring := none }
      if ¬ b.IsAt 58 then b.fail (head ++ [named])
      else do
        let b ← { b with offset := b.offset + 1 }.skipWhitespace
        let (item, b) ← (parseValue named b).onFail (ParseBuffer.fail (head ++ [named]))
        let b ← b.skipWhitespace
        if b.IsAt 44 then parseMembers fuel (head ++ [item]) b else .done (head ++ [item], b)

/-- What is between the brackets: nothing, or what the loop reads -/
def parseList (loop : ℕ → List (Item D) → ParseBuffer →
    Checked ParseBuffer (List (Item D) × ParseBuffer)) (close : UInt8) (b : ParseBuffer) :
    Checked ParseBuffer (List (Item D) × ParseBuffer) := do
  let b ← { b with offset := b.offset + 1 }.skipWhitespace
  if b.IsAt close then .done ([], b)
  else if b.content.length ≤ b.offset then do
    let b ← b.back
    .failed b
  else do
    let b ← b.back
    let (head, b) ← loop b.content.length [] b
    if ¬ b.IsAt close then b.fail head else .done (head, b)

/-- `parse_array` -/
def parseArray (item : Item D) (b : ParseBuffer) :
    Checked ParseBuffer (Item D × ParseBuffer) :=
  if cJsonNestingLimit ≤ b.depth then .failed b
  else do
    let b := { b with depth := b.depth + 1 }
    let c ← .access b.content[b.offset]?
    if c ≠ 91 then .failed b
    else do
      let (head, b) ← parseList (parseElements parseValue) 93 b
      .done
        ({ item with type := cJsonArray, child := head },
          { b with depth := b.depth - 1, offset := b.offset + 1 })

/-- `parse_object` -/
def parseObject (item : Item D) (b : ParseBuffer) :
    Checked ParseBuffer (Item D × ParseBuffer) :=
  if cJsonNestingLimit ≤ b.depth then .failed b
  else do
    let b := { b with depth := b.depth + 1 }
    if ¬ b.IsAt 123 then .failed b
    else do
      let (head, b) ← parseList (parseMembers parseValue) 125 b
      .done
        ({ item with type := cJsonObject, child := head },
          { b with depth := b.depth - 1, offset := b.offset + 1 })

end

/-! ### Values -/

section

variable {D : Type}

/-- `parse_value` -/
def parseValue [Double D] : ℕ → Item D → ParseBuffer → Checked ParseBuffer (Item D × ParseBuffer)
  | 0, _, _ => .undefined
  | fuel + 1, item, b =>
      -- null, false, true
      if b.HasText [110, 117, 108, 108] then
        .done ({ item with type := cJsonNull }, { b with offset := b.offset + 4 })
      else if b.HasText [102, 97, 108, 115, 101] then
        .done ({ item with type := cJsonFalse }, { b with offset := b.offset + 5 })
      else if b.HasText [116, 114, 117, 101] then
        .done ({ item with type := cJsonTrue, valueint := 1 }, { b with offset := b.offset + 4 })
      else if b.IsAt 34 then parseString item b
      else if ∃ c ∈ b.content[b.offset]?, c = 45 ∨ 48 ≤ c ∧ c ≤ 57 then parseNumber item b
      else if b.IsAt 91 then parseArray (parseValue fuel) item b
      else if b.IsAt 123 then parseObject (parseValue fuel) item b
      else .failed b

/-- Where an error is reported. -/
def ParseBuffer.errorPosition (b : ParseBuffer) : ℕ :=
  if b.offset < b.content.length then b.offset else b.content.length - 1

/-- The text has to end here if this is required, or the item is deleted. -/
def ParseBuffer.nullTerminated (requireNullTerminated : Bool) (item : Item D) (b : ParseBuffer) :
    Checked ParseBuffer ParseBuffer :=
  if requireNullTerminated then do
    let b ← b.skipWhitespace
    if ¬ b.IsAt 0 then b.fail [item] else .done b
  else .done b

/-- `cJSON_ParseWithOpts` of a string: the item, or nothing, and what `*return_parse_end` is set
to -/
def parseWithOpts [Double D] (value : List UInt8) (requireNullTerminated : Bool) (hooks : Hooks) :
    Checked (ℕ × Hooks) (Item D × ℕ × Hooks) :=
  let parsed : Checked ParseBuffer (Item D × ℕ × Hooks) := do
    let b ← ParseBuffer.newItem ([] : List (Item D))
      { content := value ++ [0], offset := 0, depth := 0, hooks := hooks }
    let b ← b.skipUtf8Bom.skipWhitespace
    let (item, b) ← (parseValue (cJsonNestingLimit + 1) Item.new b).onFail
      (ParseBuffer.fail [(Item.new : Item D)])
    let b ← b.nullTerminated requireNullTerminated item
    .done (item, b.offset, b.hooks)
  parsed.onFail (fun b => .failed (b.errorPosition, b.hooks))

end

end CJson
