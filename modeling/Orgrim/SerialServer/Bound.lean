import Orgrim.SerialServer.Forwarding

/-!
# The bound of the send buffer

`ServerSocketThread` appends to `g_sendbuff` without looking at how much is in it.  The buffer is
not overrun exactly as long as every message finds room for it (`bounded_iff`); four long messages
before `SendThread` runs are too many (`bounded_fails`).
-/

namespace SerialServer

/-- There is no more in `g_sendbuff` than it holds, and no `memcpy` has gone past its end. -/
def Bounded (s : State) : Prop :=
  s.shared.sendbuffLen ≤ maxSendbuffLen ∧
    ∀ t off n, (t, .copied off n) ∈ s.log → off + n ≤ maxSendbuffLen

/-- A message that is appended finds room for it. -/
def Fits (s : State) (a : Move) : Prop :=
  ∀ t i pick pBuffer, a = .enter t i pick → s.point t = .append pBuffer →
    ((monitor.threads Thread).step s a).isSome →
      s.shared.sendbuffLen + pBuffer.length ≤ maxSendbuffLen

variable {g : Gateway} {log : List (Thread × Event)} {o : Result} {t : Thread} {p : Point}
  {waiting : Unit → Finset Thread} {s s' : State} {a : Move}

theorem bounded_after (h : Bounded s) (hlen : o.shared.sendbuffLen ≤ maxSendbuffLen)
    (hcopied : ∀ off n, .copied off n ∈ o.events → off + n ≤ maxSendbuffLen) :
  Bounded (monitor.after s t o waiting)
  := by
  use hlen
  intro t' off n he
  rcases List.mem_append.mp he with he | he
  · exact h.2 t' off n he
  · obtain ⟨e, he, heq⟩ := List.mem_map.mp he
    obtain ⟨-, rfl⟩ := Prod.mk.inj heq
    apply hcopied off n he

/-- What is moved to the front of the buffer is a part of what was in it. -/
theorem shift_le (g : Gateway) (writeLen : ℕ) :
  (g.shift writeLen).shared.sendbuffLen ≤ g.sendbuffLen ∧
    ∀ off n, .copied off n ∈ (g.shift writeLen).events → off + n ≤ g.sendbuffLen
  := by
  rw [Gateway.shift]
  split_ifs
  · use Nat.zero_le _
    intro off n he
    cases List.mem_singleton.mp he
  · use Nat.sub_le _ _
    intro off n he
    rcases List.mem_pair.mp he with he | he
    · cases he
    · obtain ⟨rfl, rfl⟩ := Event.copied.inj he
      rw [Nat.zero_add]
      apply Nat.sub_le _ _

/-- Sections other than those that append keep the bound. -/
theorem bounded_other (h : Bounded s) (hstep : BufferStep s.shared t p o)
    (hp : ∀ pBuffer, p ≠ .append pBuffer) :
  Bounded (monitor.after s t o waiting)
  := by
  cases hstep with
  | quiet hquiet =>
      apply bounded_after h (hquiet.sendbuffLen.trans_le h.1)
      exact fun off n he => absurd he (hquiet.copied off n)
  | full _ ho =>
      subst ho
      apply bounded_after h (Nat.zero_le _)
      exact fun off n he => absurd he List.not_mem_nil
  | shift writeLen _ _ ho =>
      subst ho
      obtain ⟨hlen, hcopied⟩ := shift_le s.shared writeLen
      apply bounded_after h (hlen.trans h.1)
      exact fun off n he => (hcopied off n he).trans h.1
  | append pBuffer hpoint _ => exact absurd hpoint (hp pBuffer)

/-- A section that appends keeps the bound exactly when there is room. -/
theorem bounded_append {pBuffer : List UInt8} (h : Bounded s)
    (ho : s.shared.append pBuffer = some o) :
  Bounded (monitor.after s t o waiting) ↔
    s.shared.sendbuffLen + pBuffer.length ≤ maxSendbuffLen
  := by
  obtain ⟨-, ho⟩ := Option.ite_none_right_eq_some.mp ho
  obtain rfl := Option.some.inj ho
  constructor
  · exact fun hbounded => hbounded.1
  · intro hroom
    apply bounded_after h hroom
    intro off n he
    rcases List.mem_pair.mp he with he | he
    · obtain ⟨rfl, rfl⟩ := Event.copied.inj he
      exact hroom
    · cases he

theorem bounded_step (h : Bounded s) (hs' : (monitor.threads Thread).step s a = some s') :
  Bounded s' ↔ Fits s a
  := by
  have hsome : ((monitor.threads Thread).step s a).isSome := Option.isSome_of_eq_some hs'
  rcases Monitor.step_cases hs' with
    ⟨c, t, rfl, rfl⟩ | ⟨t, i, pick, o, waiting, rfl, -, ho, -, rfl⟩
  · apply iff_of_true h (fun _ _ _ _ ha => nomatch ha)
  · by_cases hpoint : ∃ pBuffer, s.point t = .append pBuffer
    · obtain ⟨pBuffer, hpoint⟩ := hpoint
      have happend : s.shared.append pBuffer = some o := by
        have ho : s.shared.enter i (s.point t) = some o := ho
        rw [hpoint] at ho
        exact (Option.ite_none_left_eq_some.mp ho).2
      rw [bounded_append h happend]
      constructor
      · rintro hroom t' i' pick' pBuffer' ⟨⟩ hpoint' _
        obtain rfl := Point.append.inj (hpoint.symm.trans hpoint')
        exact hroom
      · intro hfits
        apply hfits t i pick pBuffer rfl hpoint hsome
    · apply iff_of_true
      · apply bounded_other h (enter_step ho) (fun pBuffer h => hpoint ⟨pBuffer, h⟩)
      · rintro t' i' pick' pBuffer ⟨⟩ hpoint' _
        exact absurd ⟨pBuffer, hpoint'⟩ hpoint

/-- Throughout a run there is no more in `g_sendbuff` than it holds, and no `memcpy` goes past its
end, exactly when every message that is appended finds room for it. -/
theorem bounded_iff {sendbuff tmpbuff : Memory UInt8} {moves : List Move} :
  (monitor.threads Thread).Throughout Bounded (start sendbuff tmpbuff) moves ↔
    (monitor.threads Thread).Along Fits (start sendbuff tmpbuff) moves
  := by
  have hstart : Bounded (start sendbuff tmpbuff) :=
    ⟨Nat.zero_le _, fun _ _ _ he => absurd he List.not_mem_nil⟩
  rw [← and_iff_right (a := Bounded (start sendbuff tmpbuff))
    (b := (monitor.threads Thread).Along Fits (start sendbuff tmpbuff) moves) hstart]
  apply Machine.throughout_iff_along (fun _ => True) _ _ _ trivial
  · exact fun s a _ h s' hs' => bounded_step h hs'
  · intro s a _ _ hnone t i pick pBuffer _ _ hsome
    rw [hnone] at hsome
    cases hsome
  · exact fun _ _ _ _ _ => trivial

/-! ### Messages that fit and messages that do not -/

/-- `ServerSocketThread` reads a message and appends its bytes. -/
def message (bytes : List UInt8) : List Move :=
  [.enter .serverSocket { segment := some (Hex.text bytes), fresh := some (fun _ => 0) }
      (fun _ => none),
    .enter .serverSocket {} (fun _ => none)]

/-- A message is appended, however much there is in the buffer. -/
theorem message_final {bytes : List UInt8} (hne : bytes ≠ [])
    (hshort : 3 * bytes.length ≤ maxSendbuffLen) (hpoint : s.point .serverSocket = .read)
    (hexited : s.shared.exited = false) (hint : s.shared.sendbuffLen + bytes.length < 2 ^ 31) :
  ∃ s', (monitor.threads Thread).final s (message bytes) = some s' ∧
    s'.point .serverSocket = .read ∧ s'.shared.exited = false ∧
    s'.shared.sendbuffLen = s.shared.sendbuffLen + bytes.length ∧
    (.serverSocket, .copied s.shared.sendbuffLen bytes.length) ∈ s'.log
  := by
  rw [maxSendbuffLen] at hshort
  have hlength := Hex.length_text hne
  have hconvert : hexstringToBytearray (some (fun _ => 0)) (Hex.text bytes) = some bytes :=
    hexstringToBytearray_text hne (by omega)
  have hpos := List.length_pos_of_ne_nil hne
  have htext : Hex.text bytes ≠ [] := List.ne_nil_of_length_pos (by omega)
  obtain ⟨s₁, hs₁, hpoint₁, hshared₁, -⟩ :=
    read_step (some (fun _ => 0)) hpoint htext (by rw [maxSendbuffLen]; omega)
  rw [hconvert] at hpoint₁
  obtain ⟨s₂, hs₂, hpoint₂, hexited₂, hlen₂, hlog₂⟩ := append_step hpoint₁
    (by rw [hshared₁]; exact hexited) (by rw [hshared₁]; exact hint)
  rw [hshared₁] at hlen₂ hlog₂
  use s₂
  constructor
  · rw [message, Machine.final_of_step hs₁, Machine.final_of_step hs₂]
    rfl
  · use hpoint₂, hexited₂, hlen₂
    rw [hlog₂]
    apply List.mem_append_right _ List.mem_cons_self

/-- Five thousand bytes and more, which a message of 16397 characters carries. -/
def longBytes : List UInt8 := List.replicate 5466 0

/-- Four such messages arrive before `SendThread` gets the mutex. -/
theorem bounded_fails :
  ∃ s, (monitor.threads Thread).final (start (fun _ => 0) (fun _ => 0))
      (.enter .serverSocket {} (fun _ => none) :: (message longBytes ++ (message longBytes ++
        (message longBytes ++ message longBytes)))) = some s ∧
    (Hex.text longBytes).length = 16397 ∧ s.shared.sendbuffLen = 21864 ∧
    (.serverSocket, .copied 16398 5466) ∈ s.log ∧ ¬ Bounded s
  := by
  have hne : longBytes ≠ [] := List.cons_ne_nil 0 _
  have hlength : longBytes.length = 5466 := List.length_replicate
  have hshort : 3 * longBytes.length ≤ maxSendbuffLen := by
    rw [hlength]
    decide
  have hint : 4 * longBytes.length < 2 ^ 31 := by
    rw [hlength]
    decide
  obtain ⟨s₀, hs₀, hpoint₀, hexited₀, hlen₀⟩ : ∃ s₀, (monitor.threads Thread).step
      (start (fun _ => 0) (fun _ => 0)) (.enter .serverSocket {} (fun _ => none)) = some s₀ ∧
      s₀.point .serverSocket = .read ∧ s₀.shared.exited = false ∧ s₀.shared.sendbuffLen = 0 :=
    ⟨_, rfl, rfl, rfl, rfl⟩
  obtain ⟨s₁, hs₁, hpoint₁, hexited₁, hlen₁, -⟩ :=
    message_final hne hshort hpoint₀ hexited₀ (by omega)
  obtain ⟨s₂, hs₂, hpoint₂, hexited₂, hlen₂, -⟩ :=
    message_final hne hshort hpoint₁ hexited₁ (by omega)
  obtain ⟨s₃, hs₃, hpoint₃, hexited₃, hlen₃, -⟩ :=
    message_final hne hshort hpoint₂ hexited₂ (by omega)
  obtain ⟨s₄, hs₄, -, -, hlen₄, hcopied⟩ :=
    message_final hne hshort hpoint₃ hexited₃ (by omega)
  have hlen : s₃.shared.sendbuffLen = 16398 ∧ s₄.shared.sendbuffLen = 21864 := by
    omega
  use s₄
  constructor
  · rw [Machine.final_of_step hs₀, Machine.final_append hs₁, Machine.final_append hs₂,
      Machine.final_append hs₃]
    exact hs₄
  constructor
  · have htext := Hex.length_text hne
    omega
  use hlen.2
  rw [hlen.1, hlength] at hcopied
  use hcopied
  intro hbounded
  have hle := hbounded.1
  rw [hlen.2] at hle
  exact absurd hle (by decide)

end SerialServer
