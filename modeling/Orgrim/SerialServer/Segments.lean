import Orgrim.SerialServer.Forwarding

/-!
# The segments of a stream

`ServerSocketThread` converts what each `read` delivers by itself, and drops what is not a whole
text.  What it appends to `g_sendbuff` is the same for every way in which a stream is delivered
only for streams of which it never appends anything, where no two digits are next to each other
(`same_for_all_iff`).
-/

namespace SerialServer

/-- The segments that `read` has delivered. -/
def segments (log : List (Thread × Event)) : List (List UInt8) :=
  log.filterMap (fun e =>
    match e.2 with
    | .received segment => some segment
    | _ => none)

/-- The bytes of which a segment is the text, or none. -/
def decode (segment : List UInt8) : List UInt8 :=
  (Hex.parse (segment.take (Hex.strlen segment))).getD []

/-- What `ServerSocketThread` has converted and not yet appended. -/
def Point.pending : Point → List UInt8
  | .append pBuffer => pBuffer
  | _ => []

/-- `malloc` provides memory. -/
def Provides (s : State) (a : Move) : Prop :=
  ∀ t i pick, a = .enter t i pick → s.point t = .read → i.fresh.isSome

/-- A run in which a client has sent `x` over one connection, and all that has been read has been
processed. -/
structure Delivers (sendbuff tmpbuff : Memory UInt8) (x : List UInt8) (moves : List Move)
    (s : State) : Prop where
  final : (monitor.threads Thread).final (start sendbuff tmpbuff) moves = some s
  provides : (monitor.threads Thread).Along Provides (start sendbuff tmpbuff) moves
  point : s.point .serverSocket = .read
  stream : (segments s.log).flatten = x
  connection : (.serverSocket, .closed) ∉ s.log

/-- However `x` is delivered, the same bytes are appended. -/
def SameForAll (sendbuff tmpbuff : Memory UInt8) (x : List UInt8) : Prop :=
  ∀ moves moves' s s', Delivers sendbuff tmpbuff x moves s →
    Delivers sendbuff tmpbuff x moves' s' → appended s.log = appended s'.log

/-- Two digits are next to each other. -/
def DigitsMeet (x : List UInt8) : Prop :=
  ∃ before c c' rest, x = before ++ c :: c' :: rest ∧ (Hex.value c).isSome ∧ (Hex.value c').isSome

/-! ### What is appended in a run -/

theorem segments_append (log events : List (Thread × Event)) :
  segments (log ++ events) = segments log ++ segments events
  := List.filterMap_append ..

/-- A point of `SendThread`. -/
def Point.Sends : Point → Prop
  | .send => True
  | .sendWaits => True
  | .sendExited => True
  | _ => False

/-- Each thread is where it belongs, and what has been appended, and then what is about to be, is
what the segments carry. -/
structure Converted (s : State) : Prop where
  send : (s.point .send).Sends
  server : ¬ (s.point .serverSocket).Sends
  bytes : appended s.log ++ (s.point .serverSocket).pending = (segments s.log).flatMap decode

variable {g : Gateway} {o : Result} {p : Point} {i : Input} {s s' : State} {a : Move}

theorem send_silent {writeLen : Option ℕ} (ho : g.send writeLen = some o) (t : Thread) :
  o.point.Sends ∧ appended (o.events.map (fun e => (t, e))) = [] ∧
    segments (o.events.map (fun e => (t, e))) = []
  := by
  simp only [Gateway.send] at ho
  split_ifs at ho with hempty hfull
  · obtain rfl := Option.some.inj ho
    exact ⟨trivial, rfl, rfl⟩
  · obtain rfl := Option.some.inj ho
    exact ⟨trivial, rfl, rfl⟩
  · cases writeLen with
    | none =>
        obtain rfl := Option.some.inj ho
        exact ⟨trivial, rfl, rfl⟩
    | some writeLen =>
        obtain ⟨-, ho⟩ := Option.ite_none_right_eq_some.mp ho
        obtain rfl := Option.some.inj ho
        rw [Gateway.shift]
        split_ifs
        · exact ⟨trivial, rfl, rfl⟩
        · exact ⟨trivial, rfl, rfl⟩

/-- `SendThread` appends nothing. -/
theorem enter_send (hp : p.Sends) (ho : g.enter i p = some o) (t : Thread) :
  o.point.Sends ∧ appended (o.events.map (fun e => (t, e))) = [] ∧
    segments (o.events.map (fun e => (t, e))) = []
  := by
  cases p
  case send => apply send_silent (Option.ite_none_left_eq_some.mp ho).2 t
  case sendWaits => apply send_silent (Option.ite_none_left_eq_some.mp ho).2 t
  case sendExited => cases ho
  all_goals exact hp.elim

/-- What `ServerSocketThread` has converted and not appended changes by what it reads and
appends. -/
theorem enter_server (hp : ¬ p.Sends) (hfresh : p = .read → i.fresh.isSome)
    (ho : g.enter i p = some o) (t : Thread) :
  ¬ o.point.Sends ∧ p.pending ++ (segments (o.events.map (fun e => (t, e)))).flatMap decode =
    appended (o.events.map (fun e => (t, e))) ++ o.point.pending
  := by
  cases p with
  | send => exact absurd trivial hp
  | sendWaits => exact absurd trivial hp
  | sendExited => exact absurd trivial hp
  | serverExited => cases ho
  | accept =>
      obtain rfl := Option.some.inj ho
      exact ⟨id, rfl⟩
  | append pBuffer =>
      obtain ⟨-, ho⟩ := Option.ite_none_left_eq_some.mp ho
      obtain ⟨-, ho⟩ := Option.ite_none_right_eq_some.mp ho
      obtain rfl := Option.some.inj ho
      use id
      simp [Point.pending, segments, appended]
  | read =>
      have ho : g.read i.segment i.fresh = some o := ho
      obtain ⟨fresh, hsome⟩ := Option.isSome_iff_exists.mp (hfresh rfl)
      rw [hsome] at ho
      match hsegment : i.segment with
      | none =>
          rw [hsegment] at ho
          obtain rfl := Option.some.inj ho
          exact ⟨id, rfl⟩
      | some [] =>
          rw [hsegment] at ho
          obtain rfl := Option.some.inj ho
          exact ⟨id, rfl⟩
      | some (c :: rest) =>
          rw [hsegment] at ho
          have hshort : (c :: rest).length ≤ maxSendbuffLen - 1 :=
            (Option.ite_none_right_eq_some.mp ho).1
          rw [read_eq (List.cons_ne_nil c rest) hshort, hexstringToBytearray_eq
            (hshort.trans_lt (by decide))] at ho
          obtain rfl := Option.some.inj ho
          have hdecode : (segments ([Event.received (c :: rest)].map (fun e => (t, e)))).flatMap
              decode = decode (c :: rest) := List.append_nil _
          simp only [hdecode]
          rw [decode]
          cases Hex.parse ((c :: rest).take (Hex.strlen (c :: rest))) with
          | none => exact ⟨id, rfl⟩
          | some bytes => exact ⟨id, rfl⟩

theorem Converted.step (h : Converted s) (hprovides : Provides s a)
    (hs' : (monitor.threads Thread).step s a = some s') :
  Converted s'
  := by
  rcases Monitor.step_cases hs' with
    ⟨c, t, -, rfl⟩ | ⟨t, i, pick, o, waiting, rfl, -, ho, -, rfl⟩
  · exact ⟨h.send, h.server, h.bytes⟩
  · obtain ⟨hsend, hserver, hbytes⟩ := h
    have ho : s.shared.enter i (s.point t) = some o := ho
    cases t with
    | send =>
        obtain ⟨hpoint, happended, hsegments⟩ := enter_send hsend ho .send
        constructor
        · rw [Monitor.point_after]
          exact hpoint
        · exact hserver
        · change appended (s.log ++ _) ++ _ = (segments (s.log ++ _)).flatMap decode
          rw [appended_append, segments_append, happended, hsegments, List.append_nil,
            List.append_nil]
          exact hbytes
    | serverSocket =>
        obtain ⟨hpoint, hpending⟩ :=
          enter_server hserver (hprovides .serverSocket i pick rfl) ho .serverSocket
        constructor
        · exact hsend
        · rw [Monitor.point_after]
          exact hpoint
        · rw [Monitor.point_after]
          change appended (s.log ++ _) ++ _ = (segments (s.log ++ _)).flatMap decode
          rw [appended_append, segments_append, List.flatMap_append, ← hbytes, List.append_assoc,
            List.append_assoc, hpending]

/-- In a run, what has been appended is what the segments carry. -/
theorem Delivers.appended_eq {sendbuff tmpbuff : Memory UInt8} {x : List UInt8}
    {moves : List Move} (h : Delivers sendbuff tmpbuff x moves s) :
  appended s.log = (segments s.log).flatMap decode
  := by
  have hstart : Converted (start sendbuff tmpbuff) := ⟨trivial, id, rfl⟩
  have hconverted : Converted s :=
    Machine.final_of_invariant Converted (fun s a h hprovides s' hs' => h.step hprovides hs')
      hstart h.provides h.final
  have hbytes := hconverted.bytes
  rw [h.point] at hbytes
  rw [← hbytes]
  exact (List.append_nil _).symm

/-! ### Two ways of delivery -/

/-- A segment that carries something begins with two digits. -/
theorem digits_of_decode {segment : List UInt8} (h : decode segment ≠ []) :
  DigitsMeet segment
  := by
  cases hparse : Hex.parse (segment.take (Hex.strlen segment)) with
  | none =>
      rw [decode, hparse] at h
      exact absurd rfl h
  | some bytes =>
      obtain ⟨c, c', b, rest, htake, hb, -⟩ := Hex.parse_cases hparse
      obtain ⟨n, hn, hb⟩ := Option.bind_eq_some_iff.mp hb
      obtain ⟨n', hn', -⟩ := Option.map_eq_some_iff.mp hb
      use [], c, c', rest ++ segment.drop (Hex.strlen segment)
      constructor
      · rw [List.nil_append, ← List.cons_append, ← List.cons_append, ← htake,
          List.take_append_drop]
      · rw [hn, hn']
        exact ⟨rfl, rfl⟩

theorem decode_singleton (c : UInt8) :
  decode [c] = []
  := by
  have hnone : Hex.parse ([c].take (Hex.strlen [c])) = none :=
    parse_take_of_mod (Hex.strlen_le [c]) (by
      have hle := Hex.strlen_le [c]
      rw [List.length_singleton] at hle
      omega)
  rw [decode, hnone]
  rfl

theorem decode_pair {c c' : UInt8} (hc : (Hex.value c).isSome) (hc' : (Hex.value c').isSome) :
  (decode [c, c']).length = 1
  := by
  obtain ⟨n, hn⟩ := Option.isSome_iff_exists.mp hc
  obtain ⟨n', hn'⟩ := Option.isSome_iff_exists.mp hc'
  have hstrlen : Hex.strlen [c, c'] = 2 := by
    rw [Hex.strlen_cons_of_ne (Hex.value_ne_zero hc).1,
      Hex.strlen_cons_of_ne (Hex.value_ne_zero hc').1]
    rfl
  have hparse : Hex.parse [c, c'] = some [UInt8.ofNat (16 * n + n')] := by
    rw [Hex.parse, Hex.byte, hn, hn']
    rfl
  have htake : [c, c'].take 2 = [c, c'] := rfl
  rw [decode, hstrlen, htake, hparse]
  rfl

/-- Any segments can be delivered, as long as the count of what they carry does not overflow. -/
theorem exists_run (list : List (List UInt8))
    (hsegments : ∀ segment ∈ list, segment ≠ [] ∧ segment.length ≤ maxSendbuffLen - 1)
    (hpoint : s.point .serverSocket = .read) (hexited : s.shared.exited = false)
    (hint : s.shared.sendbuffLen + (list.flatMap decode).length < 2 ^ 31) :
  ∃ moves s', (monitor.threads Thread).final s moves = some s' ∧
    (monitor.threads Thread).Along Provides s moves ∧ s'.point .serverSocket = .read ∧
    segments s'.log = segments s.log ++ list ∧
    ((.serverSocket, .closed) ∈ s'.log → (.serverSocket, .closed) ∈ s.log)
  := by
  induction list generalizing s with
  | nil => exact ⟨[], s, rfl, trivial, hpoint, (List.append_nil _).symm, id⟩
  | cons segment list ih =>
      obtain ⟨hne, hshort⟩ := hsegments segment List.mem_cons_self
      have hlist : ∀ segment ∈ list, segment ≠ [] ∧ segment.length ≤ maxSendbuffLen - 1 :=
        fun segment hmem => hsegments segment (List.mem_cons_of_mem _ hmem)
      rw [List.flatMap_cons, List.length_append] at hint
      obtain ⟨s₁, hs₁, hpoint₁, hshared₁, hlog₁⟩ :=
        read_step (some (fun _ => 0)) hpoint hne hshort
      rw [hexstringToBytearray_eq (hshort.trans_lt (by decide))] at hpoint₁
      have hsegments₁ : segments s₁.log = segments s.log ++ [segment] := by
        rw [hlog₁, segments_append]
        rfl
      have hclosed₁ : (.serverSocket, .closed) ∈ s₁.log → (.serverSocket, .closed) ∈ s.log := by
        simp [hlog₁]
      rw [decode] at hint
      cases hparse : Hex.parse (segment.take (Hex.strlen segment)) with
      | none =>
          rw [hparse] at hpoint₁ hint
          obtain ⟨moves, s', hfinal, hprovides, hpoint', hsegments', hclosed⟩ :=
            ih hlist hpoint₁ (by rw [hshared₁]; exact hexited) (by rw [hshared₁]; omega)
          refine ⟨_ :: moves, s', (Machine.final_of_step hs₁ moves).trans hfinal, ⟨?_, ?_⟩, hpoint',
            ?_, fun h => hclosed₁ (hclosed h)⟩
          · rintro t i pick ⟨⟩ -
            rfl
          · rintro s'' hs''
            obtain rfl := Option.some.inj (hs₁.symm.trans hs'')
            exact hprovides
          · rw [hsegments', hsegments₁, List.append_assoc]
            rfl
      | some bytes =>
          rw [hparse] at hpoint₁ hint
          obtain ⟨s₂, hs₂, hpoint₂, hexited₂, hlen₂, hlog₂⟩ := append_step hpoint₁
            (by rw [hshared₁]; exact hexited) (by rw [hshared₁]; exact lt_of_le_of_lt (by simp) hint)
          rw [hshared₁] at hlen₂
          have hsegments₂ : segments s₂.log = segments s₁.log := by
            rw [hlog₂, segments_append]
            apply List.append_nil _
          have hclosed₂ : (.serverSocket, .closed) ∈ s₂.log → (.serverSocket, .closed) ∈ s₁.log := by
            simp [hlog₂]
          obtain ⟨moves, s', hfinal, hprovides, hpoint', hsegments', hclosed⟩ :=
            ih hlist hpoint₂ hexited₂ (by rw [hlen₂]; exact lt_of_eq_of_lt (by simp; omega) hint)
          refine ⟨_ :: _ :: moves, s',
            ((Machine.final_of_step hs₁ _).trans (Machine.final_of_step hs₂ moves)).trans hfinal,
            ⟨?_, ?_⟩, hpoint', ?_, fun h => hclosed₁ (hclosed₂ (hclosed h))⟩
          · rintro t i pick ⟨⟩ -
            rfl
          · rintro s'' hs''
            obtain rfl := Option.some.inj (hs₁.symm.trans hs'')
            constructor
            · rintro t i pick ⟨⟩ hread
              rw [hpoint₁] at hread
              cases hread
            · rintro s'' hs''
              obtain rfl := Option.some.inj (hs₂.symm.trans hs'')
              exact hprovides
          · rw [hsegments', hsegments₂, hsegments₁, List.append_assoc]
            rfl

/-- Segments that make up a stream can be delivered to the gateway. -/
theorem exists_delivers (sendbuff tmpbuff : Memory UInt8) {list : List (List UInt8)}
    (hsegments : ∀ segment ∈ list, segment ≠ [] ∧ segment.length ≤ maxSendbuffLen - 1)
    (hint : (list.flatMap decode).length < 2 ^ 31) :
  ∃ moves s, Delivers sendbuff tmpbuff list.flatten moves s ∧ segments s.log = list
  := by
  obtain ⟨s₀, hs₀, hpoint₀, hexited₀, hlen₀, hlog₀⟩ : ∃ s₀, (monitor.threads Thread).step
      (start sendbuff tmpbuff) (.enter .serverSocket {} (fun _ => none)) = some s₀ ∧
      s₀.point .serverSocket = .read ∧ s₀.shared.exited = false ∧ s₀.shared.sendbuffLen = 0 ∧
      s₀.log = [] :=
    ⟨_, rfl, rfl, rfl, rfl, rfl⟩
  obtain ⟨moves, s, hfinal, hprovides, hpoint, hlist, hclosed⟩ :=
    exists_run list hsegments hpoint₀ hexited₀ (by rw [hlen₀, Nat.zero_add]; exact hint)
  rw [hlog₀] at hlist hclosed
  refine ⟨_ :: moves, s, ⟨(Machine.final_of_step hs₀ moves).trans hfinal, ⟨?_, ?_⟩, hpoint, ?_, ?_⟩,
    hlist⟩
  · rintro t i pick ⟨⟩ haccept
    cases haccept
  · rintro s' hs'
    obtain rfl := Option.some.inj (hs₀.symm.trans hs')
    exact hprovides
  · rw [hlist]
    rfl
  · exact fun hmem => absurd (hclosed hmem) List.not_mem_nil

/-- One character at a time. -/
def singles (x : List UInt8) : List (List UInt8) := x.map (fun c => [c])

theorem flatten_singles (x : List UInt8) :
  (singles x).flatten = x
  := by
  induction x with
  | nil => rfl
  | cons c x ih => apply congrArg (c :: ·) ih

theorem decode_singles (x : List UInt8) :
  (singles x).flatMap decode = []
  := by
  rw [List.flatMap_eq_nil_iff]
  intro segment hmem
  obtain ⟨c, -, rfl⟩ := List.mem_map.mp hmem
  apply decode_singleton c

theorem singles_short {x : List UInt8} :
  ∀ segment ∈ singles x, segment ≠ [] ∧ segment.length ≤ maxSendbuffLen - 1
  := by
  intro segment hmem
  obtain ⟨c, -, rfl⟩ := List.mem_map.mp hmem
  exact ⟨List.cons_ne_nil c [], (by decide : 1 ≤ maxSendbuffLen - 1)⟩

/-- Two digits that are next to each other are read in one segment, and not in two. -/
theorem not_sameForAll {sendbuff tmpbuff : Memory UInt8} {x : List UInt8} (h : DigitsMeet x) :
  ¬ SameForAll sendbuff tmpbuff x
  := by
  intro hsame
  obtain ⟨before, c, c', rest, rfl, hc, hc'⟩ := h
  have hpair := decode_pair hc hc'
  -- the two digits in one segment, all else one character at a time
  have hlist : ∀ segment ∈ singles before ++ [c, c'] :: singles rest,
      segment ≠ [] ∧ segment.length ≤ maxSendbuffLen - 1 := by
    intro segment hmem
    rcases List.mem_append.mp hmem with hmem | hmem
    · apply singles_short segment hmem
    · rcases List.mem_cons.mp hmem with rfl | hmem
      · exact ⟨List.cons_ne_nil c _, (by decide : 2 ≤ maxSendbuffLen - 1)⟩
      · apply singles_short segment hmem
  have hdecode : (singles before ++ [c, c'] :: singles rest).flatMap decode = decode [c, c'] := by
    rw [List.flatMap_append, List.flatMap_cons, decode_singles, decode_singles,
      List.nil_append, List.append_nil]
  have hflatten : (singles before ++ [c, c'] :: singles rest).flatten =
      before ++ c :: c' :: rest := by
    rw [List.flatten_append, List.flatten_cons, flatten_singles, flatten_singles]
    rfl
  obtain ⟨moves, s, h, hsegments⟩ := exists_delivers sendbuff tmpbuff hlist
    (by rw [hdecode, hpair]; decide)
  obtain ⟨moves', s', h', hsegments'⟩ := exists_delivers sendbuff tmpbuff
    (singles_short (x := before ++ c :: c' :: rest)) (by rw [decode_singles]; decide)
  rw [hflatten] at h
  rw [flatten_singles] at h'
  have heq := hsame moves moves' s s' h h'
  rw [h.appended_eq, h'.appended_eq, hsegments, hsegments', hdecode, decode_singles] at heq
  rw [heq] at hpair
  cases hpair

/-- Nothing is appended of a stream in which no two digits are next to each other. -/
theorem sameForAll_of_not_meet {sendbuff tmpbuff : Memory UInt8} {x : List UInt8}
    (hx : ¬ DigitsMeet x) :
  SameForAll sendbuff tmpbuff x
  := by
  have hnothing : ∀ {moves : List Move} {s : State},
      Delivers sendbuff tmpbuff x moves s → appended s.log = [] := by
    intro moves s h
    rw [h.appended_eq, List.flatMap_eq_nil_iff]
    intro segment hmem
    by_contra hne
    obtain ⟨before, c, c', rest, heq, hc, hc'⟩ := digits_of_decode hne
    apply hx
    obtain ⟨front, back, hsplit⟩ := List.append_of_mem hmem
    use front.flatten ++ before, c, c', rest ++ back.flatten
    rw [← h.stream, hsplit, List.flatten_append, List.flatten_cons, heq]
    exact ⟨by simp, hc, hc'⟩
  intro moves moves' s s' h h'
  rw [hnothing h, hnothing h']

/-- A stream is appended in the same way for every way of delivery exactly when no two digits are
next to each other in it. -/
theorem same_for_all_iff (sendbuff tmpbuff : Memory UInt8) (x : List UInt8) :
  SameForAll sendbuff tmpbuff x ↔ ¬ DigitsMeet x
  := by
  constructor
  · exact fun hsame hmeet => not_sameForAll hmeet hsame
  · exact sameForAll_of_not_meet

/-- The text of one byte, in one segment and in two. -/
theorem same_for_all_fails :
  ¬ SameForAll (fun _ => 0) (fun _ => 0) [52, 49]
  := not_sameForAll ⟨[], 52, 49, [], rfl, rfl, rfl⟩

end SerialServer
