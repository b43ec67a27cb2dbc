import Orgrim.Theory.Hex
import Orgrim.Theory.Monitor

/-!
# The serial gateway

`serial_server.c`.  `ServerSocketThread` reads hexadecimal text from a client, converts what each
`read` delivers, and appends the bytes to `g_sendbuff`; `SendThread` writes them to the UART.
Both have `g_mutex_sendbuff` while they change the buffer.

A section is what a thread does while it has the mutex, or a step of `ServerSocketThread` without
it.  What the calls of the system return is the input of a step.  Cells behind the end of
`g_sendbuff` are cells like others, and an overflow of `g_sendbuff_len` has no result.
-/

namespace SerialServer

/-- `MAX_SENDBUFF_LEN` and `MAX_LEN` -/
def maxSendbuffLen : ℕ := 1025 * 16

/-! ### `hexstring_to_bytearray` -/

/-- `sscanf(.., "%2x", (unsigned int *) &(p_out[i_offset++]))` stores an `unsigned int`. -/
def storeInt (b : UInt8) : List UInt8 := [b, 0, 0, 0]

/-- `hexstring_to_bytearray` after it has computed `i_out_len`, where `malloc` provides the memory
`fresh` or fails -/
def convertGroups (fresh : Option (Memory UInt8)) (pHexstring : List UInt8)
    (iStrLen iOutLen : ℕ) : Option (List UInt8) :=
  fresh.bind (fun pOut =>
    ((Hex.scan storeInt pHexstring iStrLen (iStrLen + 1) 0 0 pOut).bind id).map (fun pOut =>
      pOut.slice 0 iOutLen))

/-- `hexstring_to_bytearray`: the first `i_out_len` bytes of `p_out`, or `none` where it returns
-1 -/
def hexstringToBytearray (fresh : Option (Memory UInt8)) (pHexstring : List UInt8) :
    Option (List UInt8) :=
  let iStrLen := Hex.strlen pHexstring
  let rest := (BitVec.ofNat 64 iStrLen - 2).toNat
  if iStrLen = 2 then convertGroups fresh pHexstring iStrLen 1
  else if rest % 3 = 0 then convertGroups fresh pHexstring iStrLen (rest / 3 + 1)
  else none

/-! ### The threads -/

/-- The two threads. -/
inductive Thread where
  | send
  | serverSocket
  deriving DecidableEq

/-- The variables of the gateway; `exited` tells that `SendThread` has ended while it had the
mutex. -/
structure Gateway where
  sendbuff : Memory UInt8
  sendbuffLen : ℕ
  tmpbuff : Memory UInt8
  exited : Bool

/-- Where a thread is. -/
inductive Point where
  | send
  | sendWaits
  | sendExited
  | accept
  | read
  | append (pBuffer : List UInt8)
  | serverExited

/-- What happens: `read` delivers a segment, or the end of the connection; bytes are appended to
`g_sendbuff`; `memcpy` stores `n` bytes into it from `off` on; `write` takes bytes for the UART. -/
inductive Event where
  | received (segment : List UInt8)
  | closed
  | appended (bytes : List UInt8)
  | copied (off n : ℕ)
  | written (bytes : List UInt8)
  deriving DecidableEq

/-- What the system answers: how many bytes `write` has taken, what `read` delivers, which is
nothing at the end, and the memory that `malloc` provides; `none` is a failure. -/
structure Input where
  writeLen : Option ℕ := none
  segment : Option (List UInt8) := none
  fresh : Option (Memory UInt8) := none

abbrev Result : Type := Outcome Point Gateway Unit Event

namespace Gateway

/-- `SendThread` when `write` has taken `writeLen` bytes -/
def shift (g : Gateway) (writeLen : ℕ) : Result :=
  let bytes := g.sendbuff.slice 0 writeLen
  if writeLen = g.sendbuffLen then
    { point := .send
      shared := { g with
        sendbuffLen := 0
        sendbuff := g.sendbuff.write 0 (List.replicate maxSendbuffLen 0) }
      events := [.written bytes] }
  else
    let sendbuffLen := g.sendbuffLen - writeLen
    let tmpbuff := (g.tmpbuff.write 0 (List.replicate maxSendbuffLen 0)).write 0
      (g.sendbuff.slice writeLen sendbuffLen)
    { point := .send
      shared := { g with
        sendbuffLen := sendbuffLen
        tmpbuff := tmpbuff
        sendbuff := g.sendbuff.write 0 (tmpbuff.slice 0 sendbuffLen) }
      events := [.written bytes, .copied 0 sendbuffLen] }

/-- One iteration of `SendThread`, from where it has the mutex -/
def send (g : Gateway) (writeLen : Option ℕ) : Option Result :=
  if g.sendbuffLen = 0 then some { point := .sendWaits, shared := g }
  else if maxSendbuffLen ≤ g.sendbuffLen then
    some { point := .send, shared := { g with sendbuffLen := 0 } }
  else
    match writeLen with
    | none => some { point := .sendExited, shared := { g with exited := true } }
    | some writeLen => if writeLen ≤ g.sendbuffLen then some (g.shift writeLen) else none

/-- `ServerSocketThread` when `read` returns -/
def read (g : Gateway) (segment : Option (List UInt8)) (fresh : Option (Memory UInt8)) :
    Option Result :=
  match segment with
  | none => some { point := .serverExited, shared := g }
  | some [] => some { point := .accept, shared := g, events := [.closed] }
  | some readbuff =>
      if readbuff.length ≤ maxSendbuffLen - 1 then
        match hexstringToBytearray fresh readbuff with
        | none => some { point := .read, shared := g, events := [.received readbuff] }
        | some pBuffer =>
            some { point := .append pBuffer, shared := g, events := [.received readbuff] }
      else none

/-- `ServerSocketThread` while it has the mutex -/
def append (g : Gateway) (pBuffer : List UInt8) : Option Result :=
  if g.sendbuffLen + pBuffer.length < 2 ^ 31 then
    some
      { point := .read
        shared := { g with
          sendbuff := g.sendbuff.write g.sendbuffLen pBuffer
          sendbuffLen := g.sendbuffLen + pBuffer.length }
        notes := [.broadcast ()]
        events := [.copied g.sendbuffLen pBuffer.length, .appended pBuffer] }
  else none

/-- What a thread does; nobody gets the mutex after `SendThread` has ended with it. -/
def enter (g : Gateway) (i : Input) : Point → Option Result
  | .send => if g.exited then none else g.send i.writeLen
  | .sendWaits => if g.exited then none else g.send i.writeLen
  | .sendExited => none
  | .accept => some { point := .read, shared := g }
  | .read => g.read i.segment i.fresh
  | .append pBuffer => if g.exited then none else g.append pBuffer
  | .serverExited => none

end Gateway

/-- The gateway. -/
def monitor : Monitor Point Gateway Unit Input Event where
  waits
    | .sendWaits => some ()
    | _ => none
  enter p i g := g.enter i p

/-- The gateway before the threads begin, with nothing to send. -/
def start (sendbuff tmpbuff : Memory UInt8) : Monitor.State Thread Point Gateway Unit Event :=
  Monitor.start ⟨sendbuff, 0, tmpbuff, false⟩ (fun
    | .send => .send
    | .serverSocket => .accept)

/-! ### What is converted -/

variable {fresh : Memory UInt8} {string : List UInt8}

/-- Where the length of the text does not make up groups, there is nothing to read. -/
theorem parse_take_of_mod {n : ℕ} (hle : n ≤ string.length) (hmod : n % 3 ≠ 2) :
  Hex.parse (string.take n) = none
  := by
  cases hparse : Hex.parse (string.take n) with
  | none => rfl
  | some bs =>
      have hlength := Hex.length_of_parse hparse
      rw [List.length_take, min_eq_left hle] at hlength
      omega

/-- What `hexstring_to_bytearray` returns: the bytes of the text before the null character. -/
theorem hexstringToBytearray_eq (hlong : string.length < 2 ^ 64) :
  hexstringToBytearray (some fresh) string = Hex.parse (string.take (Hex.strlen string))
  := by
  have hle := Hex.strlen_le string
  have hzero := Hex.getD_strlen string
  rw [hexstringToBytearray]
  generalize Hex.strlen string = n at hle hzero
  have hrest : (BitVec.ofNat 64 n - 2).toNat = if 2 ≤ n then n - 2 else 2 ^ 64 - 2 + n := by
    rw [BitVec.toNat_sub, BitVec.toNat_ofNat]
    split <;> simp <;> omega
  simp only [hrest]
  have hgroups (k : ℕ) (hmod : n % 3 = 2) (hk : 3 * k = n + 1) :
      convertGroups (some fresh) string n k = Hex.parse (string.take n) := by
    have hscan : Hex.scan storeInt string n (n + 1) 0 0 fresh = some
        ((Hex.parse ((string.take n).drop 0)).map (fun bs => Hex.stores storeInt 0 bs fresh)) :=
      Hex.scan_eq hle (by omega) (by omega)
    rw [List.drop_zero] at hscan
    rw [convertGroups, Option.bind_some, hscan, Option.bind_some, id]
    cases hparse : Hex.parse (string.take n) with
    | none => rfl
    | some bs =>
        have hlength := Hex.length_of_parse hparse
        rw [List.length_take, min_eq_left hle] at hlength
        obtain rfl : k = bs.length := by omega
        rw [Option.map_some, Option.map_some, Hex.slice_stores (fun _ => rfl)]
  rcases Nat.lt_or_ge n 2 with hshort | hlong
  · have htwo : n ≠ 2 := hshort.ne
    rw [if_neg htwo, if_neg (Nat.not_le.mpr hshort), parse_take_of_mod hle (by omega)]
    obtain rfl | rfl : n = 0 ∨ n = 1 := by omega
    · rfl
    · rw [if_pos (by rfl), convertGroups, Option.bind_some, Hex.scan, if_pos Nat.zero_lt_one,
        Nat.zero_add, hzero, Hex.byte_zero]
      rfl
  · rw [if_pos hlong]
    by_cases hmod : n % 3 = 2
    · rcases eq_or_ne n 2 with rfl | hne
      · apply hgroups 1 rfl rfl
      · rw [if_neg hne, if_pos (by omega)]
        apply hgroups _ hmod (by omega)
    · have hne : n ≠ 2 := by
        rintro rfl
        apply hmod rfl
      rw [if_neg hne, if_neg (by omega), parse_take_of_mod hle hmod]

/-- The text of some bytes is converted to these bytes. -/
theorem hexstringToBytearray_text {bytes : List UInt8} (hne : bytes ≠ [])
    (hlong : 3 * bytes.length < 2 ^ 64) :
  hexstringToBytearray (some fresh) (Hex.text bytes) = some bytes
  := by
  have hlength := Hex.length_text hne
  have hnull : Hex.strlen (Hex.text bytes) = (Hex.text bytes).length := by
    apply Hex.strlen_eq
    intro hmem
    apply Hex.ne_zero_of_mem_text 0 hmem rfl
  rw [hexstringToBytearray_eq (by omega), hnull, List.take_length, Hex.parse_text hne]

/-- What `ServerSocketThread` does with a segment. -/
theorem read_eq {g : Gateway} {segment : List UInt8} {fresh : Option (Memory UInt8)}
    (hne : segment ≠ []) (hshort : segment.length ≤ maxSendbuffLen - 1) :
  g.read (some segment) fresh =
    some { point := ((hexstringToBytearray fresh segment).map Point.append).getD .read
           shared := g
           events := [.received segment] }
  := by
  obtain ⟨c, rest, rfl⟩ := List.exists_cons_of_ne_nil hne
  rw [Gateway.read, if_pos hshort]
  cases hexstringToBytearray fresh (c :: rest) with
  | none => rfl
  | some pBuffer => rfl
  · exact fun h => absurd h hne

/-! ### Steps of `ServerSocketThread` -/

/-- The state of the gateway and its threads. -/
abbrev State : Type := Monitor.State Thread Point Gateway Unit Event

abbrev Move : Type := Monitor.Move Thread Unit Input

variable {s : State}

/-- `read` delivers a segment. -/
theorem read_step (fresh : Option (Memory UInt8)) {segment : List UInt8}
    (hpoint : s.point .serverSocket = .read) (hne : segment ≠ [])
    (hshort : segment.length ≤ maxSendbuffLen - 1) :
  ∃ s', (monitor.threads Thread).step s
      (.enter .serverSocket { segment := some segment, fresh := fresh } (fun _ => none)) = some s' ∧
    s'.point .serverSocket =
      ((hexstringToBytearray fresh segment).map Point.append).getD .read ∧
    s'.shared = s.shared ∧ s'.log = s.log ++ [(.serverSocket, .received segment)]
  := by
  use monitor.after s .serverSocket
    { point := ((hexstringToBytearray fresh segment).map Point.append).getD .read
      shared := s.shared
      events := [.received segment] } s.waiting
  constructor
  · apply Monitor.step_enter
    · rw [Monitor.Free, hpoint]
      nofun
    · rw [hpoint]
      apply read_eq hne hshort
    · rfl
  · exact ⟨Monitor.point_after .., rfl, rfl⟩

/-- The bytes of a segment are appended, however much there is in the buffer. -/
theorem append_step {pBuffer : List UInt8} (hpoint : s.point .serverSocket = .append pBuffer)
    (hexited : s.shared.exited = false)
    (hint : s.shared.sendbuffLen + pBuffer.length < 2 ^ 31) :
  ∃ s', (monitor.threads Thread).step s (.enter .serverSocket {} (fun _ => none)) = some s' ∧
    s'.point .serverSocket = .read ∧ s'.shared.exited = false ∧
    s'.shared.sendbuffLen = s.shared.sendbuffLen + pBuffer.length ∧
    s'.log = s.log ++ [(.serverSocket, .copied s.shared.sendbuffLen pBuffer.length),
      (.serverSocket, .appended pBuffer)]
  := by
  use monitor.after s .serverSocket
    { point := .read
      shared := { s.shared with
        sendbuff := s.shared.sendbuff.write s.shared.sendbuffLen pBuffer
        sendbuffLen := s.shared.sendbuffLen + pBuffer.length }
      notes := [.broadcast ()]
      events := [.copied s.shared.sendbuffLen pBuffer.length, .appended pBuffer] }
    (Function.update s.waiting () ∅)
  constructor
  · apply Monitor.step_enter
    · rw [Monitor.Free, hpoint]
      nofun
    · rw [hpoint]
      simp only [monitor, Gateway.enter, hexited, Bool.false_eq_true, if_false, Gateway.append,
        if_pos hint]
    · rfl
  · exact ⟨Monitor.point_after .., hexited, rfl, rfl⟩

end SerialServer
