import Orgrim.CJson.Item
import Orgrim.Theory.Cells
import Orgrim.Theory.Checked

/-!
# The printer

The printer of `cJSON.c`.  It writes to a buffer, which it makes larger when it needs more bytes.
Every access to the memory of the buffer is checked, also that no byte is read that has not been
written.  A function that returns `false` or `NULL` fails with the buffer as it leaves it.
-/

namespace CJson

/-- `printbuffer` -/
structure PrintBuffer where
  buffer : Option (Cells UInt8)
  length : ℕ
  offset : ℕ
  depth : ℕ
  noalloc : Bool
  format : Bool
  hooks : Hooks

/-! ### The buffer -/

/-- The new size of a buffer, if there is one -/
def newSize (needed : ℕ) : Option ℕ :=
  if intMax / 2 < needed then
    if needed ≤ intMax then some intMax else none
  else some (needed * 2)

namespace PrintBuffer

/-- `hooks.deallocate(p->buffer)`, and `p->buffer` is `NULL`. -/
def release (p : PrintBuffer) : Checked PrintBuffer PrintBuffer :=
  match p.hooks.deallocate 1 with
  | none => .undefined
  | some hooks => .failed { p with buffer := none, length := 0, hooks := hooks }

/-- The new buffer of `ensure` -/
def grow (newsize : ℕ) (cells : Cells UInt8) (p : PrintBuffer) :
    Checked PrintBuffer PrintBuffer :=
  if p.hooks.reallocates then
    match p.hooks.reallocate with
    | (false, hooks) => { p with hooks := hooks }.release
    | (true, hooks) =>
        .done { p with buffer := some (cells.resize newsize), length := newsize, hooks := hooks }
  else
    match p.hooks.allocate with
    | (false, hooks) => { p with hooks := hooks }.release
    | (true, hooks) =>
        -- memcpy
        if cells.length < p.offset + 1 then .undefined
        else
          match hooks.deallocate 1 with
          | none => .undefined
          | some hooks =>
              let newbuffer := Cells.resize (cells.take (p.offset + 1)) newsize
              .done { p with buffer := some newbuffer, length := newsize, hooks := hooks }

/-- `ensure`.  What it returns is `p->buffer + p->offset`. -/
def ensure (needed : ℕ) (p : PrintBuffer) : Checked PrintBuffer PrintBuffer :=
  match p.buffer with
  | none => .failed p
  | some cells =>
      if 0 < p.length ∧ p.length ≤ p.offset then .failed p
      else if intMax < needed then .failed p
      else if needed + (p.offset + 1) ≤ p.length then .done p
      else if p.noalloc then .failed p
      else
        match newSize (needed + (p.offset + 1)) with
        | none => .failed p
        | some newsize => p.grow newsize cells

/-- Store bytes at `p->buffer + i`. -/
def put (i : ℕ) (bytes : List UInt8) (p : PrintBuffer) : Checked PrintBuffer PrintBuffer := do
  let cells ← .access p.buffer
  let cells ← .access (cells.write i bytes)
  .done { p with buffer := some cells }

/-- `update_offset` -/
def updateOffset (p : PrintBuffer) : Checked PrintBuffer PrintBuffer :=
  match p.buffer with
  | none => .done p
  | some cells => do
      let length ← .access (Cells.lengthUntil 0 (cells.drop p.offset))
      .done { p with offset := p.offset + length }

/-- A text and a null character, with room for both -/
def printText (text : List UInt8) (p : PrintBuffer) : Checked PrintBuffer PrintBuffer := do
  let p ← p.ensure (text.length + 1)
  p.put p.offset (text ++ [0])

/-- A text and a null character; the offset is moved behind the text. -/
def appendText (text : List UInt8) (p : PrintBuffer) : Checked PrintBuffer PrintBuffer := do
  let p ← p.printText text
  .done { p with offset := p.offset + text.length }

/-- A text without a null character, with room for as many bytes as are needed; the offset is moved
behind it. -/
def append (needed : ℕ) (text : List UInt8) (p : PrintBuffer) :
    Checked PrintBuffer PrintBuffer := do
  let p ← p.ensure needed
  let p ← p.put p.offset text
  .done { p with offset := p.offset + text.length }

end PrintBuffer

/-! ### Numbers -/

section

variable {D : Type} [Double D]

/-- `sprintf` to `number_buffer`, which has 26 bytes.  What is longer is written behind it, before
`print_number` looks at the length. -/
def sprintf {ε : Type} (text : List UInt8) : Checked ε (List UInt8) :=
  if text.length + 1 ≤ 26 then .done text else .undefined

/-- What `print_number` has in `number_buffer` -/
def numberText {ε : Type} (d : D) : Checked ε (List UInt8) :=
  if ¬ Double.isFinite d then sprintf [110, 117, 108, 108]
  else do
    let text ← sprintf (Double.sprintf 15 d)
    if ∃ test ∈ (Double.sscanf text : Option D), Double.equal test d = true then .done text
    else sprintf (Double.sprintf 17 d)

/-- `print_number` -/
def printNumber (d : D) (p : PrintBuffer) : Checked PrintBuffer PrintBuffer := do
  let text ← numberText d
  p.appendText text

end

/-! ### Strings -/

/-- The character for an escape sequence of two -/
def shortEscape (c : UInt8) : Option UInt8 :=
  if c = 92 then some 92
  else if c = 34 then some 34
  else if c = 8 then some 98
  else if c = 12 then some 102
  else if c = 10 then some 110
  else if c = 13 then some 114
  else if c = 9 then some 116
  else none

/-- A digit of `%x` -/
def hexDigit (n : ℕ) : UInt8 := if n < 10 then UInt8.ofNat (48 + n) else UInt8.ofNat (87 + n)

/-- `"u%04x"` of a character -/
def unicode (c : UInt8) : List UInt8 :=
  [117, 48, 48, hexDigit (c.toNat / 16), hexDigit (c.toNat % 16)]

/-- `escape_characters` -/
def escapeCharacters : List UInt8 → ℕ
  | [] => 0
  | c :: input =>
      (if c = 34 ∨ c = 92 ∨ c = 8 ∨ c = 12 ∨ c = 10 ∨ c = 13 ∨ c = 9 then 1
        else if c < 32 then 5 else 0) + escapeCharacters input

/-- The loop of `print_string_ptr` that copies the string -/
def putEscaped : List UInt8 → ℕ → PrintBuffer → Checked PrintBuffer PrintBuffer
  | [], _, p => .done p
  | c :: input, outputPointer, p => do
      if 31 < c ∧ c ≠ 34 ∧ c ≠ 92 then
        let p ← p.put outputPointer [c]
        putEscaped input (outputPointer + 1) p
      else
        let p ← p.put outputPointer [92]
        match shortEscape c with
        | some escape => do
            let p ← p.put (outputPointer + 1) [escape]
            putEscaped input (outputPointer + 2) p
        | none => do
            -- with the null character of sprintf
            let p ← p.put (outputPointer + 1) (unicode c ++ [0])
            putEscaped input (outputPointer + 6) p

/-- `print_string_ptr` -/
def printStringPtr (input : Option (List UInt8)) (p : PrintBuffer) :
    Checked PrintBuffer PrintBuffer :=
  match input with
  | none => p.printText [34, 34]
  | some chars => do
      let input := cstring chars
      let outputLength := input.length + escapeCharacters input
      let p ← p.ensure (outputLength + 3)
      if escapeCharacters input = 0 then p.put p.offset (34 :: input ++ [34, 0])
      else do
        let p ← p.put p.offset [34]
        let p ← putEscaped input (p.offset + 1) p
        p.put (p.offset + outputLength + 1) [34, 0]

/-! ### Arrays and objects

They get the loop over what is in them. -/

/-- The comma and the blank behind an element of an array, if it is not the last one -/
def separator (format last : Bool) : List UInt8 :=
  if last then [] else if format then [44, 32] else [44]

/-- The colon behind a key -/
def colon (format : Bool) : List UInt8 := if format then [58, 9] else [58]

/-- The comma and the newline behind a member of an object -/
def lineEnd (format last : Bool) : List UInt8 :=
  (if last then [] else [44]) ++ if format then [10] else []

/-- What `print_array` prints behind an element -/
def PrintBuffer.separate (last : Bool) (p : PrintBuffer) : Checked PrintBuffer PrintBuffer :=
  if last then .done p else p.appendText (separator p.format last)

/-- The tabulators in front of a key -/
def PrintBuffer.indent (p : PrintBuffer) : Checked PrintBuffer PrintBuffer :=
  if p.format then p.append p.depth (List.replicate p.depth 9) else .done p

/-- `print_array` -/
def printArray (printElements : PrintBuffer → Checked PrintBuffer PrintBuffer) (p : PrintBuffer) :
    Checked PrintBuffer PrintBuffer := do
  let p ← p.append 1 [91]
  let p ← printElements { p with depth := p.depth + 1 }
  let p ← p.printText [93]
  .done { p with depth := p.depth - 1 }

/-- `print_object` -/
def printObject (printMembers : PrintBuffer → Checked PrintBuffer PrintBuffer) (p : PrintBuffer) :
    Checked PrintBuffer PrintBuffer := do
  let p ← p.append ((if p.format then 2 else 1) + 1) (if p.format then [123, 10] else [123])
  let p ← printMembers { p with depth := p.depth + 1 }
  let p ← p.ensure (if p.format then p.depth + 1 else 2)
  let p ← p.put p.offset ((if p.format then List.replicate (p.depth - 1) 9 else []) ++ [125, 0])
  .done { p with depth := p.depth - 1 }

/-! ### Values -/

/-- `print_value` of an item of the type `cJSON_Raw` -/
def printRaw (valuestring : Option (List UInt8)) (p : PrintBuffer) :
    Checked PrintBuffer PrintBuffer :=
  match valuestring with
  | none => .failed p
  | some chars => p.printText (cstring chars)

section

variable {D : Type} [Double D]

mutual

/-- `print_value` -/
def printValue : Item D → PrintBuffer → Checked PrintBuffer PrintBuffer
  | ⟨type, valuestring, _, valuedouble, _, child⟩, p =>
      let kind := type &&& 0xFF
      -- null, false, true
      if kind = cJsonNull then p.printText [110, 117, 108, 108]
      else if kind = cJsonFalse then p.printText [102, 97, 108, 115, 101]
      else if kind = cJsonTrue then p.printText [116, 114, 117, 101]
      else if kind = cJsonNumber then printNumber valuedouble p
      else if kind = cJsonRaw then printRaw valuestring p
      else if kind = cJsonString then printStringPtr valuestring p
      else if kind = cJsonArray then printArray (fun p => printElements child p) p
      else if kind = cJsonObject then printObject (fun p => printMembers child p) p
      else .failed p

/-- The loop of `print_array` -/
def printElements : List (Item D) → PrintBuffer → Checked PrintBuffer PrintBuffer
  | [], p => .done p
  | item :: items, p => do
      let p ← printValue item p
      let p ← p.updateOffset
      let p ← p.separate items.isEmpty
      printElements items p

/-- The loop of `print_object` -/
def printMembers : List (Item D) → PrintBuffer → Checked PrintBuffer PrintBuffer
  | [], p => .done p
  | item :: items, p => do
      let p ← p.indent
      let p ← printStringPtr item.string p
      let p ← p.updateOffset
      let p ← p.append (if p.format then 2 else 1) (colon p.format)
      let p ← printValue item p
      let p ← p.updateOffset
      let p ← p.appendText (lineEnd p.format items.isEmpty)
      printMembers items p

end

/-! ### Texts -/

/-- The exit at `fail`, or when `print_value` has failed: the buffer is freed, if there is one. -/
def PrintBuffer.fail {α : Type} (p : PrintBuffer) : Checked Hooks α :=
  match p.buffer with
  | none => .failed p.hooks
  | some _ =>
      match p.hooks.deallocate 1 with
      | none => .undefined
      | some hooks => .failed hooks

/-- What `print` returns: the buffer is made smaller, or copied. -/
def PrintBuffer.finish (p : PrintBuffer) : Checked Hooks (Cells UInt8 × Hooks) := do
  let cells ← .access p.buffer
  if p.hooks.reallocates then
    match p.hooks.reallocate with
    | (false, hooks) => PrintBuffer.fail { p with hooks := hooks }
    | (true, hooks) => .done (cells.resize (p.offset + 1), hooks)
  else
    match p.hooks.allocate with
    | (false, hooks) => PrintBuffer.fail { p with hooks := hooks }
    | (true, hooks) =>
        let copied := min p.length (p.offset + 1)
        -- memcpy
        if cells.length < copied then .undefined
        else do
          let printed ← .access
            ((Cells.resize (cells.take copied) (p.offset + 1)).write p.offset [0])
          match hooks.deallocate 1 with
          | none => .undefined
          | some hooks => .done (printed, hooks)

/-- A buffer of the printer -/
def PrintBuffer.start (buffer : Option (Cells UInt8)) (length : ℕ) (noalloc format : Bool)
    (hooks : Hooks) : PrintBuffer where
  buffer := buffer
  length := length
  offset := 0
  depth := 0
  noalloc := noalloc
  format := format
  hooks := hooks

/-- `print`, for `cJSON_Print` and `cJSON_PrintUnformatted` -/
def print (item : Item D) (format : Bool) (hooks : Hooks) : Checked Hooks (Cells UInt8 × Hooks) :=
  match hooks.allocate with
  | (false, hooks) => .failed hooks
  | (true, hooks) => do
      let p ← (printValue item (PrintBuffer.start (some (Cells.new 256)) 256 false format hooks)
        >>= PrintBuffer.updateOffset).onFail PrintBuffer.fail
      p.finish

/-- `cJSON_PrintBuffered` -/
def printBuffered (item : Item D) (prebuffer : ℤ) (format : Bool) (hooks : Hooks) :
    Checked Hooks (Cells UInt8 × Hooks) :=
  if prebuffer < 0 then .failed hooks
  else
    match hooks.allocate with
    | (false, hooks) => .failed hooks
    | (true, hooks) => do
        let size := prebuffer.toNat
        let p ← (printValue item
          (PrintBuffer.start (some (Cells.new size)) size false format hooks)).onFail
            PrintBuffer.fail
        let cells ← .access p.buffer
        .done (cells, p.hooks)

/-- `cJSON_PrintPreallocated` -/
def printPreallocated (item : Item D) (buf : Option (Cells UInt8)) (len : ℤ) (format : Bool)
    (hooks : Hooks) : Checked PrintBuffer PrintBuffer :=
  let p := PrintBuffer.start buf len.toNat true format hooks
  if len < 0 ∨ buf = none then .failed p else printValue item p

end

end CJson
