import Orgrim.SerialServer.Gateway

/-!
# Forwarding to the UART

`SendThread` drops what is in `g_sendbuff` when there is as much as the buffer holds.  As long as
there is less, nothing is lost: what has been written, and then what is in the buffer, is what has
been appended (`forwarded_in_order`), however much each `write` takes.
-/

namespace SerialServer

/-! ### What the log tells -/

/-- What has been appended to `g_sendbuff`. -/
def appended (log : List (Thread × Event)) : List UInt8 :=
  log.flatMap (fun e =>
    match e.2 with
    | .appended bytes => bytes
    | _ => [])

/-- What has been written to the UART. -/
def written (log : List (Thread × Event)) : List UInt8 :=
  log.flatMap (fun e =>
    match e.2 with
    | .written bytes => bytes
    | _ => [])

variable {log events : List (Thread × Event)} {g : Gateway} {o : Result} {t : Thread}
  {p : Point} {i : Input}

theorem appended_append :
  appended (log ++ events) = appended log ++ appended events
  := List.flatMap_append

theorem written_append :
  written (log ++ events) = written log ++ written events
  := List.flatMap_append

/-! ### What the sections do -/

/-- What `SendThread` writes, and what it leaves in the buffer. -/
theorem shift_contents {writeLen : ℕ} (hle : writeLen ≤ g.sendbuffLen) :
  g.sendbuff.slice 0 writeLen ++
      (g.shift writeLen).shared.sendbuff.slice 0 (g.shift writeLen).shared.sendbuffLen =
    g.sendbuff.slice 0 g.sendbuffLen
  := by
  obtain ⟨rest, hrest⟩ := Nat.exists_eq_add_of_le hle
  rcases eq_or_ne writeLen g.sendbuffLen with heq | hne
  · rw [Gateway.shift, if_pos heq, heq]
    apply List.append_nil _
  · have hlen : g.sendbuffLen - writeLen = rest := by omega
    have htmp (m : Memory UInt8) : (m.write 0 (g.sendbuff.slice writeLen rest)).slice 0 rest =
        g.sendbuff.slice writeLen rest := by
      have hself := Memory.slice_write_self m 0 (g.sendbuff.slice writeLen rest)
      rw [Memory.length_slice] at hself
      exact hself
    simp only [Gateway.shift, if_neg hne, hlen, htmp]
    rw [hrest, Memory.slice_add, Nat.zero_add]

/-- What is in the buffer after something has been appended. -/
theorem append_contents {pBuffer : List UInt8} (ho : g.append pBuffer = some o) :
  o.shared.sendbuff.slice 0 o.shared.sendbuffLen =
    g.sendbuff.slice 0 g.sendbuffLen ++ pBuffer
  := by
  obtain ⟨-, ho⟩ := Option.ite_none_right_eq_some.mp ho
  obtain rfl := Option.some.inj ho
  have hbehind := Memory.slice_write_append g.sendbuff 0 g.sendbuffLen pBuffer
  rw [Nat.zero_add] at hbehind
  exact hbehind

/-- A section that leaves the buffer as it is, and neither appends nor writes. -/
structure Quiet (g : Gateway) (t : Thread) (o : Result) : Prop where
  sendbuff : o.shared.sendbuff = g.sendbuff
  sendbuffLen : o.shared.sendbuffLen = g.sendbuffLen
  appended : appended (o.events.map (fun e => (t, e))) = []
  written : written (o.events.map (fun e => (t, e))) = []
  copied : ∀ off n, .copied off n ∉ o.events

/-- What a section does to the buffer: nothing; `SendThread` empties a full buffer, or writes;
`ServerSocketThread` appends. -/
inductive BufferStep (g : Gateway) (t : Thread) (p : Point) (o : Result) : Prop
  | quiet : Quiet g t o → BufferStep g t p o
  | full : maxSendbuffLen ≤ g.sendbuffLen →
      o = { point := .send, shared := { g with sendbuffLen := 0 } } → BufferStep g t p o
  | shift (writeLen : ℕ) : g.sendbuffLen < maxSendbuffLen → writeLen ≤ g.sendbuffLen →
      o = g.shift writeLen → BufferStep g t p o
  | append (pBuffer : List UInt8) : p = .append pBuffer → g.append pBuffer = some o →
      BufferStep g t p o

theorem send_step {writeLen : Option ℕ} (ho : g.send writeLen = some o) :
  BufferStep g t p o
  := by
  simp only [Gateway.send] at ho
  split_ifs at ho with hempty hfull
  · obtain rfl := Option.some.inj ho
    exact .quiet ⟨rfl, rfl, rfl, rfl, by simp⟩
  · exact .full hfull (Option.some.inj ho).symm
  · cases writeLen with
    | none =>
        obtain rfl := Option.some.inj ho
        exact .quiet ⟨rfl, rfl, rfl, rfl, by simp⟩
    | some writeLen =>
        obtain ⟨hle, ho⟩ := Option.ite_none_right_eq_some.mp ho
        exact .shift writeLen (Nat.not_le.mp hfull) hle (Option.some.inj ho).symm

theorem read_quiet {segment : Option (List UInt8)} {fresh : Option (Memory UInt8)}
    (ho : g.read segment fresh = some o) :
  Quiet g t o
  := by
  match segment with
  | none =>
      obtain rfl := Option.some.inj ho
      exact ⟨rfl, rfl, rfl, rfl, by simp⟩
  | some [] =>
      obtain rfl := Option.some.inj ho
      exact ⟨rfl, rfl, rfl, rfl, by simp⟩
  | some (c :: readbuff) =>
      obtain ⟨-, ho⟩ := Option.ite_none_right_eq_some.mp ho
      cases hconvert : hexstringToBytearray fresh (c :: readbuff) with
      | none =>
          rw [hconvert] at ho
          obtain rfl := Option.some.inj ho
          exact ⟨rfl, rfl, rfl, rfl, by simp⟩
      | some pBuffer =>
          rw [hconvert] at ho
          obtain rfl := Option.some.inj ho
          exact ⟨rfl, rfl, rfl, rfl, by simp⟩

theorem enter_step (ho : g.enter i p = some o) :
  BufferStep g t p o
  := by
  cases p with
  | send =>
      obtain ⟨-, ho⟩ := Option.ite_none_left_eq_some.mp ho
      apply send_step ho
  | sendWaits =>
      obtain ⟨-, ho⟩ := Option.ite_none_left_eq_some.mp ho
      apply send_step ho
  | sendExited => cases ho
  | accept =>
      obtain rfl := Option.some.inj ho
      exact .quiet ⟨rfl, rfl, rfl, rfl, by simp⟩
  | read => exact .quiet (read_quiet ho)
  | append pBuffer =>
      obtain ⟨-, ho⟩ := Option.ite_none_left_eq_some.mp ho
      exact .append pBuffer rfl ho
  | serverExited => cases ho

/-! ### Nothing is lost -/

/-- What has been written, and then what is in the buffer, is what has been appended. -/
def Forwarded (g : Gateway) (log : List (Thread × Event)) : Prop :=
  written log ++ g.sendbuff.slice 0 g.sendbuffLen = appended log

theorem Forwarded.step (h : Forwarded g log) (hbelow : g.sendbuffLen < maxSendbuffLen)
    (hstep : BufferStep g t p o) :
  Forwarded o.shared (log ++ o.events.map (fun e => (t, e)))
  := by
  rw [Forwarded, written_append, appended_append]
  cases hstep with
  | quiet hquiet =>
      obtain ⟨hbuff, hlen, happended, hwritten, -⟩ := hquiet
      rw [hbuff, hlen, happended, hwritten, List.append_nil, List.append_nil]
      exact h
  | full hfull => exact absurd hfull (Nat.not_le.mpr hbelow)
  | shift writeLen _ hle ho =>
      have hwritten : written (o.events.map (fun e => (t, e))) = g.sendbuff.slice 0 writeLen := by
        rw [ho, Gateway.shift]
        split_ifs
        · apply List.append_nil _
        · apply List.append_nil _
      have happended : appended (o.events.map (fun e => (t, e))) = [] := by
        rw [ho, Gateway.shift]
        split_ifs <;> rfl
      rw [hwritten, happended, ho, List.append_assoc, shift_contents hle, List.append_nil]
      exact h
  | append pBuffer _ ho =>
      rw [append_contents ho]
      obtain ⟨-, ho⟩ := Option.ite_none_right_eq_some.mp ho
      obtain rfl := Option.some.inj ho
      have happended : appended (([.copied g.sendbuffLen pBuffer.length, .appended pBuffer] :
          List Event).map (fun e => (t, e))) = pBuffer := List.append_nil _
      have hwritten : written (([.copied g.sendbuffLen pBuffer.length, .appended pBuffer] :
          List Event).map (fun e => (t, e))) = [] := rfl
      rw [happended, hwritten, List.append_nil, ← List.append_assoc]
      apply congrArg (· ++ pBuffer) h

/-- As long as there is less in `g_sendbuff` than it holds, the bytes that have been written to the
UART, and then those in `g_sendbuff`, are those that have been appended. -/
theorem forwarded_in_order {sendbuff tmpbuff : Memory UInt8} {moves : List Move} {s : State}
    (hfinal : (monitor.threads Thread).final (start sendbuff tmpbuff) moves = some s)
    (hbelow : (monitor.threads Thread).Throughout
      (fun s => s.shared.sendbuffLen < maxSendbuffLen) (start sendbuff tmpbuff) moves) :
  written s.log ++ s.shared.sendbuff.slice 0 s.shared.sendbuffLen = appended s.log
  := by
  have hstart : Forwarded (start sendbuff tmpbuff).shared (start sendbuff tmpbuff).log := rfl
  apply Machine.final_of_invariant (fun s : State => Forwarded s.shared s.log) _ hstart
    (Machine.along_of_throughout hbelow) hfinal
  intro s a h hlt s' hs'
  rcases Monitor.step_cases hs' with ⟨c, t, -, rfl⟩ | ⟨t, i, pick, o, waiting, -, -, ho, -, rfl⟩
  · exact h
  · apply h.step hlt (enter_step ho)

/-- Three bytes arrive, one of them is written, then one more arrives. -/
theorem forwarded_in_order_four :
  ∃ s, (monitor.threads Thread).final (start (fun _ => 0) (fun _ => 0))
      [.enter .serverSocket {} (fun _ => none),
        .enter .serverSocket
          { segment := some [52, 49, 32, 52, 50, 32, 52, 51], fresh := some (fun _ => 7) }
          (fun _ => none),
        .enter .serverSocket {} (fun _ => none),
        .enter .send { writeLen := some 1 } (fun _ => none),
        .enter .serverSocket { segment := some [52, 52], fresh := some (fun _ => 7) }
          (fun _ => none),
        .enter .serverSocket {} (fun _ => none)] = some s ∧
    written s.log = [65] ∧ appended s.log = [65, 66, 67, 68] ∧
    written s.log ++ s.shared.sendbuff.slice 0 s.shared.sendbuffLen = appended s.log
  := by
  apply Machine.exists_final (by decide +kernel)
  intro s hs
  refine ⟨?_, ?_, forwarded_in_order hs (by decide +kernel)⟩
  · revert s
    decide +kernel
  · revert s
    decide +kernel

end SerialServer
