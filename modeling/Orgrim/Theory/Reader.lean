import Mathlib.Data.Int.Notation
import Mathlib.Data.List.Basic

/-!
# Readers and scanners

A `Reader` is a loop that asks for at most `request s` bytes, is given the result of a
`read` and moves to the next state with some outputs.  A `Scanner` is a machine fed one
symbol at a time.  A list of pieces is a *cutting* of a stream when every piece is what a
`read` of the requested size may return: no more than was requested, and nothing only when
nothing was requested.

`Simulates` relates the two: along any cutting, a reader that simulates a scanner outputs
what the scanner outputs on the stream, whatever the pieces (`Simulates.output_eq`).  A
reader may owe an output: what it will do as soon as a read of size zero returns.
-/

/-- What a read of size one stores, if anything. -/
theorem eq_singleton {α : Type*} {p : List α} (hp : p ≠ []) (hlen : p.length ≤ 1) :
  ∃ a, p = [a]
  := by
  apply List.length_eq_one_iff.mp
  have hpos := List.length_pos_iff.mpr hp
  omega

/-- What a read of size two stores, if anything. -/
theorem eq_one_or_two {α : Type*} {p : List α} (hp : p ≠ []) (hlen : p.length ≤ 2) :
  (∃ a, p = [a]) ∨ ∃ a b, p = [a, b]
  := by
  have hpos := List.length_pos_iff.mpr hp
  by_cases hone : p.length = 1
  · left
    apply List.length_eq_one_iff.mp hone
  · right
    apply List.length_eq_two.mp
    omega

/-- What a call of `read` returns: `-1`, or the bytes it stored. -/
inductive ReadResult (α : Type*) where
  | error
  | data (bytes : List α)
deriving DecidableEq

namespace ReadResult

variable {α : Type*}

/-- The bytes stored by the call. -/
def bytes : ReadResult α → List α
  | .error => []
  | .data bs => bs

/-- The value returned by the call. -/
def len : ReadResult α → ℤ
  | .error => -1
  | .data bs => bs.length

@[simp] theorem bytes_data (bs : List α) : (data bs).bytes = bs := rfl
@[simp] theorem bytes_error : (error : ReadResult α).bytes = [] := rfl
@[simp] theorem len_data (bs : List α) : (data bs).len = bs.length := rfl
@[simp] theorem len_error : (error : ReadResult α).len = -1 := rfl

/-- A call that returned a positive number stored that many bytes. -/
theorem len_eq_length {r : ReadResult α} (h : 0 ≤ r.len) :
  r.len = r.bytes.length
  := by
  cases r with
  | error => simp at h
  | data bs => rfl

/-- A call that failed or returned nothing stored nothing. -/
theorem bytes_of_len_le {r : ReadResult α} (h : r.len ≤ 0) :
  r.bytes = []
  := by
  cases r with
  | error => rfl
  | data bs =>
      apply List.eq_nil_of_length_eq_zero
      simp only [len_data, bytes_data] at h ⊢
      omega

/-- The results of a read of size one. -/
theorem eq_of_length_le_one {r : ReadResult α} (h : r.bytes.length ≤ 1) :
  r.len ≤ 0 ∨ ∃ a, r = .data [a]
  := by
  cases r with
  | error => left; simp
  | data bs =>
      by_cases hbs : bs = []
      · left; simp [hbs]
      · right
        obtain ⟨a, rfl⟩ := eq_singleton hbs h
        use a

/-- The results of a read of size two. -/
theorem eq_of_length_le_two {r : ReadResult α} (h : r.bytes.length ≤ 2) :
  r.len ≤ 0 ∨ (∃ a, r = .data [a]) ∨ ∃ a b, r = .data [a, b]
  := by
  cases r with
  | error => left; simp
  | data bs =>
      by_cases hbs : bs = []
      · left; simp [hbs]
      · right
        rcases eq_one_or_two hbs h with ⟨a, rfl⟩ | ⟨a, b, rfl⟩
        · left; use a
        · right; use a, b

end ReadResult

/-- A loop that reads: the size of the read in each state, and the iteration made with its
result. -/
structure Reader (σ α ω : Type*) where
  request : σ → ℕ
  step : σ → ReadResult α → σ × List ω

namespace Reader

variable {σ α ω ω' : Type*} (M : Reader σ α ω)

/-- The state after a list of read results. -/
def final : σ → List (ReadResult α) → σ
  | s, [] => s
  | s, r :: rs => final (M.step s r).1 rs

/-- The outputs made over a list of read results. -/
def output : σ → List (ReadResult α) → List ω
  | _, [] => []
  | s, r :: rs => (M.step s r).2 ++ output (M.step s r).1 rs

/-- Every iteration over a list of read results satisfies `P`, a property of the state
before it and of its result. -/
def Along (P : σ → ReadResult α → Prop) : σ → List (ReadResult α) → Prop
  | _, [] => True
  | s, r :: rs => P s r ∧ Along P (M.step s r).1 rs

/-- `P` holds in every state met over a list of read results, the first and the last
included. -/
def Throughout (P : σ → Prop) : σ → List (ReadResult α) → Prop
  | s, [] => P s
  | s, r :: rs => P s ∧ Throughout P (M.step s r).1 rs

/-- The results are ones `read` can return: never more than was requested. -/
def Possible : σ → List (ReadResult α) → Prop :=
  M.Along (fun s r => r.bytes.length ≤ M.request s)

/-- The pieces cut a stream into reads: never more than was requested, and nothing only if
nothing was requested. -/
def Cuts (s : σ) (pieces : List (List α)) : Prop :=
  M.Along (fun s r => r.bytes.length ≤ M.request s ∧ (r.bytes = [] → M.request s = 0)) s
    (pieces.map .data)

instance decidableAlong (P : σ → ReadResult α → Prop) [∀ s r, Decidable (P s r)] :
    ∀ (s : σ) (rs : List (ReadResult α)), Decidable (M.Along P s rs)
  | _, [] => .isTrue trivial
  | s, _ :: rs => @instDecidableAnd _ _ _ (decidableAlong P (M.step s _).1 rs)

instance decidableThroughout (P : σ → Prop) [DecidablePred P] :
    ∀ (s : σ) (rs : List (ReadResult α)), Decidable (M.Throughout P s rs)
  | s, [] => inferInstanceAs (Decidable (P s))
  | s, r :: rs => @instDecidableAnd _ _ _ (decidableThroughout P (M.step s r).1 rs)

instance (s : σ) (rs : List (ReadResult α)) : Decidable (M.Possible s rs) :=
  M.decidableAlong _ s rs

instance [DecidableEq α] (s : σ) (pieces : List (List α)) : Decidable (M.Cuts s pieces) :=
  M.decidableAlong _ s (pieces.map .data)

variable {M}

theorem final_append : ∀ (s : σ) (rs rs' : List (ReadResult α)),
    M.final s (rs ++ rs') = M.final (M.final s rs) rs'
  | _, [], _ => rfl
  | _, _ :: rs, rs' => final_append _ rs rs'

theorem output_append : ∀ (s : σ) (rs rs' : List (ReadResult α)),
    M.output s (rs ++ rs') = M.output s rs ++ M.output (M.final s rs) rs'
  | _, [], _ => rfl
  | _, _ :: rs, rs' => by
      simp only [List.cons_append, output, final, List.append_assoc, output_append _ rs rs']

/-- An invariant that every iteration preserves where `Q` holds, and that gives `P` there,
gives `P` along every list of results along which `Q` holds. -/
theorem along_of_invariant
    {P Q : σ → ReadResult α → Prop} (I : σ → Prop)
    (hstep : ∀ s r, I s → Q s r → P s r ∧ I (M.step s r).1) :
  ∀ {s : σ} {rs : List (ReadResult α)}, I s → M.Along Q s rs → M.Along P s rs
  | _, [], _, _ => trivial
  | _, r :: _, hI, hQ => by
      obtain ⟨hP, hI'⟩ := hstep _ r hI hQ.1
      exact ⟨hP, along_of_invariant I hstep hI' hQ.2⟩

/-- Two properties of an iteration that agree under an invariant, which is preserved where
they hold, hold along the same lists of results. -/
theorem along_congr
    {P P' Q : σ → ReadResult α → Prop} (I : σ → Prop)
    (hiff : ∀ s r, I s → Q s r → (P s r ↔ P' s r))
    (hstep : ∀ s r, I s → Q s r → P s r → I (M.step s r).1)
    {s : σ} {rs : List (ReadResult α)} (hI : I s) (hQ : M.Along Q s rs) :
  M.Along P s rs ↔ M.Along P' s rs
  := by
  induction rs generalizing s with
  | nil => exact Iff.rfl
  | cons r rs ih =>
      have hhead := hiff s r hI hQ.1
      constructor
      · rintro ⟨hP, hPs⟩
        have hrest := ih (hstep s r hI hQ.1 hP) hQ.2
        exact ⟨hhead.mp hP, hrest.mp hPs⟩
      · rintro ⟨hP', hPs'⟩
        have hrest := ih (hstep s r hI hQ.1 (hhead.mpr hP')) hQ.2
        exact ⟨hhead.mpr hP', hrest.mpr hPs'⟩

/-- A property of states that, under an invariant, an iteration keeps exactly when it
satisfies `R`, holds throughout exactly when it holds at the start and `R` holds along the
results. -/
theorem throughout_iff_along
    {P : σ → Prop} {Q R : σ → ReadResult α → Prop} (I : σ → Prop)
    (hiff : ∀ s r, I s → Q s r → P s → (P (M.step s r).1 ↔ R s r))
    (hstep : ∀ s r, I s → Q s r → I (M.step s r).1)
    {s : σ} {rs : List (ReadResult α)} (hI : I s) (hQ : M.Along Q s rs) :
  M.Throughout P s rs ↔ P s ∧ M.Along R s rs
  := by
  induction rs generalizing s with
  | nil => exact (and_iff_left trivial).symm
  | cons r rs ih =>
      have hrest := ih (hstep s r hI hQ.1) hQ.2
      simp only [Throughout, Along]
      constructor
      · rintro ⟨hP, hPs⟩
        obtain ⟨hnext, hPs'⟩ := hrest.mp hPs
        exact ⟨hP, (hiff s r hI hQ.1 hP).mp hnext, hPs'⟩
      · rintro ⟨hP, hP', hPs'⟩
        have hnext := (hiff s r hI hQ.1 hP).mpr hP'
        exact ⟨hP, hrest.mpr ⟨hnext, hPs'⟩⟩

theorem along_of_forall {P : σ → ReadResult α → Prop} (h : ∀ s r, P s r) :
  ∀ {s : σ} {rs : List (ReadResult α)}, M.Along P s rs
  | _, [] => trivial
  | _, _ :: _ => ⟨h _ _, along_of_forall h⟩

theorem along_mono {P Q : σ → ReadResult α → Prop} (h : ∀ s r, Q s r → P s r) :
  ∀ {s : σ} {rs : List (ReadResult α)}, M.Along Q s rs → M.Along P s rs
  | _, [], _ => trivial
  | _, _ :: _, hQ => ⟨h _ _ hQ.1, along_mono h hQ.2⟩

theorem along_and {P Q : σ → ReadResult α → Prop} :
  ∀ {s : σ} {rs : List (ReadResult α)},
    M.Along P s rs → M.Along Q s rs → M.Along (fun s r => P s r ∧ Q s r) s rs
  | _, [], _, _ => trivial
  | _, _ :: _, hP, hQ => ⟨⟨hP.1, hQ.1⟩, along_and hP.2 hQ.2⟩

/-- The pieces of a cutting are results `read` can return. -/
theorem possible_of_cuts {s : σ} {pieces : List (List α)} (h : M.Cuts s pieces) :
  M.Possible s (pieces.map .data)
  := along_mono (fun _ _ hQ => hQ.1) h

/-! ### Cuttings of a stream -/

variable (M) in
/-- The cutting of a stream into at most `n` reads of the given sizes; the last may be shorter. -/
def cutBy (size : σ → ℕ) : ℕ → σ → List α → List (List α)
  | 0, _, _ => []
  | _ + 1, _, [] => []
  | n + 1, s, b :: bs =>
      (b :: bs).take (size s) ::
        cutBy size n (M.step s (.data ((b :: bs).take (size s)))).1 ((b :: bs).drop (size s))

@[simp]
theorem cutBy_nil (size : σ → ℕ) (n : ℕ) (s : σ) :
  M.cutBy size n s [] = []
  := by
  cases n with
  | zero => rfl
  | succ n => rfl

/-- Under an invariant that makes every size one a read may return, any stream is cut. -/
theorem cutBy_cuts {size : σ → ℕ} (I : σ → Prop)
    (hsize : ∀ s, I s → 0 < size s ∧ size s ≤ M.request s)
    (hstep : ∀ s p, I s → p ≠ [] → p.length ≤ M.request s → I (M.step s (.data p)).1)
    {n : ℕ} {s : σ} {bs : List α} (hs : I s) (hn : bs.length ≤ n) :
  (M.cutBy size n s bs).flatten = bs ∧ M.Cuts s (M.cutBy size n s bs)
  := by
  induction n generalizing s bs with
  | zero =>
      obtain rfl := List.eq_nil_of_length_eq_zero (Nat.le_zero.mp hn)
      exact ⟨rfl, trivial⟩
  | succ n ih =>
      cases bs with
      | nil => exact ⟨rfl, trivial⟩
      | cons b bs =>
          obtain ⟨hpos, hle⟩ := hsize s hs
          rw [List.length_cons] at hn
          have hne : (b :: bs).take (size s) ≠ [] := by
            apply List.length_pos_iff.mp
            rw [List.length_take, List.length_cons]
            omega
          have hlen : ((b :: bs).take (size s)).length ≤ M.request s := by
            rw [List.length_take]
            omega
          have hrest : ((b :: bs).drop (size s)).length ≤ n := by
            rw [List.length_drop, List.length_cons]
            omega
          obtain ⟨hflat, hcuts⟩ := ih (hstep s _ hs hne hlen) hrest
          constructor
          · rw [cutBy, List.flatten_cons, hflat, List.take_append_drop]
          · exact ⟨⟨hlen, fun h => absurd h hne⟩, hcuts⟩

variable (M) in
/-- The reader that shows of every output only what `view` shows of it. -/
def observe (view : ω → Option ω') : Reader σ α ω' where
  request := M.request
  step s r := ((M.step s r).1, (M.step s r).2.filterMap view)

@[simp]
theorem request_observe (view : ω → Option ω') (s : σ) :
  (M.observe view).request s = M.request s
  := rfl

@[simp]
theorem final_observe (view : ω → Option ω') :
  ∀ (s : σ) (rs : List (ReadResult α)), (M.observe view).final s rs = M.final s rs
  | _, [] => rfl
  | _, _ :: rs => final_observe view _ rs

@[simp]
theorem output_observe (view : ω → Option ω') :
  ∀ (s : σ) (rs : List (ReadResult α)),
    (M.observe view).output s rs = (M.output s rs).filterMap view
  | _, [] => rfl
  | s, r :: rs => by
      simp only [output, List.filterMap_append]
      congr 1
      apply output_observe view

theorem along_observe (view : ω → Option ω') (P : σ → ReadResult α → Prop) :
  ∀ (s : σ) (rs : List (ReadResult α)), (M.observe view).Along P s rs ↔ M.Along P s rs
  | _, [] => Iff.rfl
  | _, _ :: rs => and_congr Iff.rfl (along_observe view P _ rs)

theorem cuts_observe (view : ω → Option ω') (s : σ) (pieces : List (List α)) :
  (M.observe view).Cuts s pieces ↔ M.Cuts s pieces
  := along_observe view _ s _

variable (M) in
/-- The reader that keeps, next to its state, a record `ρ` of what has happened. -/
def recording {ρ : Type*} (record : σ → ReadResult α → ρ → ρ) : Reader (σ × ρ) α ω where
  request x := M.request x.1
  step x r := (((M.step x.1 r).1, record x.1 r x.2), (M.step x.1 r).2)

/-- The record does not influence the reader. -/
theorem along_recording {ρ : Type*} (record : σ → ReadResult α → ρ → ρ)
    (P : σ → ReadResult α → Prop) :
  ∀ (s : σ) (x : ρ) (rs : List (ReadResult α)),
    (M.recording record).Along (fun y r => P y.1 r) (s, x) rs ↔ M.Along P s rs
  | _, _, [] => Iff.rfl
  | _, _, _ :: rs => and_congr Iff.rfl (along_recording record P _ _ rs)

end Reader

/-- A machine fed one symbol at a time. -/
structure Scanner (τ α ω : Type*) where
  feed : τ → α → τ × List ω

namespace Scanner

variable {τ μ α ω ω' : Type*} (S : Scanner τ α ω)

/-- The state after a list of symbols. -/
def final : τ → List α → τ
  | t, [] => t
  | t, b :: bs => final (S.feed t b).1 bs

/-- The outputs made over a list of symbols. -/
def output : τ → List α → List ω
  | _, [] => []
  | t, b :: bs => (S.feed t b).2 ++ output (S.feed t b).1 bs

/-- `P` holds in every state met while scanning, the first and the last included. -/
def Throughout (P : τ → Prop) : τ → List α → Prop
  | t, [] => P t
  | t, b :: bs => P t ∧ Throughout P (S.feed t b).1 bs

variable {S}

theorem final_append : ∀ (t : τ) (as bs : List α),
    S.final t (as ++ bs) = S.final (S.final t as) bs
  | _, [], _ => rfl
  | _, _ :: as, bs => final_append _ as bs

theorem output_append : ∀ (t : τ) (as bs : List α),
    S.output t (as ++ bs) = S.output t as ++ S.output (S.final t as) bs
  | _, [], _ => rfl
  | _, _ :: as, bs => by
      simp only [List.cons_append, output, final, List.append_assoc, output_append _ as bs]

theorem Throughout.head {P : τ → Prop} {t : τ} :
  ∀ {bs : List α}, S.Throughout P t bs → P t
  | [], h => h
  | _ :: _, h => h.1

theorem throughout_append {P : τ → Prop} : ∀ {t : τ} {as bs : List α},
    S.Throughout P t (as ++ bs) ↔ S.Throughout P t as ∧ S.Throughout P (S.final t as) bs
  | _, [], _ => by
      constructor
      · intro h
        exact ⟨h.head, h⟩
      · intro h
        exact h.2
  | t, a :: as, bs => by
      simp only [List.cons_append, Throughout, final, throughout_append, and_assoc]

theorem Throughout.and {P Q : τ → Prop} :
  ∀ {t : τ} {bs : List α}, S.Throughout P t bs → S.Throughout Q t bs →
    S.Throughout (fun t => P t ∧ Q t) t bs
  | _, [], hP, hQ => ⟨hP, hQ⟩
  | _, _ :: _, hP, hQ => ⟨⟨hP.1, hQ.1⟩, hP.2.and hQ.2⟩

theorem Throughout.final {P : τ → Prop} :
  ∀ {t : τ} {bs : List α}, S.Throughout P t bs → P (S.final t bs)
  | _, [], h => h
  | _, _ :: _, h => h.2.final

theorem Throughout.mono {P Q : τ → Prop} (hPQ : ∀ t, P t → Q t) :
  ∀ {t : τ} {bs : List α}, S.Throughout P t bs → S.Throughout Q t bs
  | _, [], h => hPQ _ h
  | _, _ :: _, h => ⟨hPQ _ h.1, h.2.mono hPQ⟩

variable (S) in
/-- The outputs of `S`, fed to the scanner `T`. -/
def andThen (T : Scanner μ ω ω') : Scanner (τ × μ) α ω' where
  feed x b := (((S.feed x.1 b).1, T.final x.2 (S.feed x.1 b).2), T.output x.2 (S.feed x.1 b).2)

theorem final_andThen (T : Scanner μ ω ω') : ∀ (t : τ) (m : μ) (bs : List α),
    (S.andThen T).final (t, m) bs = (S.final t bs, T.final m (S.output t bs))
  | _, _, [] => rfl
  | t, m, b :: bs => by
      simp only [final, output, final_append]
      apply final_andThen T

theorem output_andThen (T : Scanner μ ω ω') : ∀ (t : τ) (m : μ) (bs : List α),
    (S.andThen T).output (t, m) bs = T.output m (S.output t bs)
  | _, _, [] => rfl
  | t, m, b :: bs => by
      simp only [output, output_append]
      congr 1
      apply output_andThen T

theorem throughout_andThen (T : Scanner μ ω ω') {P : τ → Prop} :
    ∀ {t : τ} {m : μ} {bs : List α},
      (S.andThen T).Throughout (fun x => P x.1) (t, m) bs ↔ S.Throughout P t bs
  | _, _, [] => Iff.rfl
  | _, _, _ :: _ => and_congr Iff.rfl (throughout_andThen T)

/-- What every output of `S` on a stream makes `T` preserve holds throughout. -/
theorem throughout_andThen_right (T : Scanner μ ω ω') {P : μ → Prop} {E : ω → Prop}
    (hfeed : ∀ m w, P m → E w → P (T.feed m w).1) :
    ∀ {t : τ} {m : μ} {bs : List α}, P m → (∀ w ∈ S.output t bs, E w) →
      (S.andThen T).Throughout (fun x => P x.2) (t, m) bs
  | _, _, [], hP, _ => hP
  | t, m, b :: bs, hP, hE => by
      obtain ⟨hfirst, hrest⟩ := List.forall_mem_append.mp hE
      have hfinal : ∀ {ws : List ω} {m : μ}, P m → (∀ w ∈ ws, E w) → P (T.final m ws) := by
        intro ws
        induction ws with
        | nil => exact fun hP _ => hP
        | cons w ws ih =>
            intro m hP hws
            obtain ⟨hw, hws⟩ := List.forall_mem_cons.mp hws
            apply ih (hfeed m w hP hw) hws
      constructor
      · exact hP
      · apply throughout_andThen_right T hfeed (hfinal hP hfirst) hrest

/-- The scanner that outputs `f` of every symbol. -/
def mapping (f : α → ω) : Scanner Unit α ω where
  feed _ a := ((), [f a])

theorem output_mapping (f : α → ω) : ∀ (t : Unit) (as : List α),
    (mapping f).output t as = as.map f
  | _, [] => rfl
  | _, _ :: as => congrArg (_ :: ·) (output_mapping f () as)

variable (S) in
/-- `S` with a count of the symbols fed since its last output. -/
def counting : Scanner (τ × ℕ) α ω where
  feed x b := (((S.feed x.1 b).1, if (S.feed x.1 b).2.isEmpty then x.2 + 1 else 0),
    (S.feed x.1 b).2)

theorem final_counting : ∀ (t : τ) (n : ℕ) (bs : List α),
    (S.counting.final (t, n) bs).1 = S.final t bs
  | _, _, [] => rfl
  | _, _, _ :: bs => final_counting _ _ bs

/-- Without output the count grows by the number of symbols fed. -/
theorem final_counting_of_output_nil : ∀ {t : τ} {n : ℕ} {bs : List α}, S.output t bs = [] →
    S.counting.final (t, n) bs = (S.final t bs, n + bs.length)
  | _, _, [], _ => rfl
  | t, n, b :: bs, h => by
      obtain ⟨hfeed, hrest⟩ := List.append_eq_nil_iff.mp h
      simp only [final, counting, hfeed, List.isEmpty_nil, if_true, List.length_cons]
      have ih := final_counting_of_output_nil (n := n + 1) hrest
      simp only [counting] at ih
      rw [ih]
      congr 1
      omega

theorem output_counting : ∀ (t : τ) (n : ℕ) (bs : List α),
    S.counting.output (t, n) bs = S.output t bs
  | _, _, [] => rfl
  | t, n, b :: bs => by
      simp only [output]
      congr 1
      apply output_counting

theorem throughout_counting {P : τ → Prop} : ∀ {t : τ} {n : ℕ} {bs : List α},
    S.counting.Throughout (fun x => P x.1) (t, n) bs ↔ S.Throughout P t bs
  | _, _, [] => Iff.rfl
  | _, _, _ :: _ => and_congr Iff.rfl throughout_counting

/-- The count never exceeds the number of symbols fed. -/
theorem throughout_count_le : ∀ {t : τ} {n k : ℕ} {bs : List α}, n + bs.length ≤ k →
    S.counting.Throughout (fun x => x.2 ≤ k) (t, n) bs
  | _, _, _, [], h => h
  | t, n, k, b :: bs, h => by
      simp only [List.length_cons] at h
      constructor
      · show n ≤ k
        omega
      · apply throughout_count_le
        split
        · omega
        · omega

end Scanner

/-- The reader `M` simulates the scanner `S`: from states related by `rel`, an iteration
with a piece a read may return makes the outputs `S` makes on that piece, up to what the
states before and after it owe; a state whose request is not zero owes nothing. -/
structure Simulates {σ τ α ω : Type*} (M : Reader σ α ω) (S : Scanner τ α ω)
    (rel : σ → τ → Prop) (owed : σ → List ω) : Prop where
  piece : ∀ {s t} (p : List α), rel s t → p.length ≤ M.request s →
    (p = [] → M.request s = 0) →
    rel (M.step s (.data p)).1 (S.final t p) ∧
      (M.step s (.data p)).2 ++ owed (M.step s (.data p)).1 = owed s ++ S.output t p
  settled : ∀ {s}, M.request s ≠ 0 → owed s = []

namespace Simulates

variable {σ τ α ω : Type*} {M : Reader σ α ω} {S : Scanner τ α ω}
  {rel : σ → τ → Prop} {owed : σ → List ω} (h : Simulates M S rel owed)

include h

/-- Reader and scanner stay related along every cutting. -/
theorem rel_final :
    ∀ {s : σ} {t : τ} {pieces : List (List α)}, rel s t → M.Cuts s pieces →
      rel (M.final s (pieces.map .data)) (S.final t pieces.flatten)
  | _, _, [], hrel, _ => hrel
  | s, t, p :: ps, hrel, ⟨⟨hle, hnil⟩, hps⟩ => by
      rw [List.flatten_cons, Scanner.final_append]
      apply rel_final (h.piece p hrel hle hnil).1 hps

/-- Along every cutting the reader outputs what the scanner outputs, up to what it owes. -/
theorem output_owed :
    ∀ {s : σ} {t : τ} {pieces : List (List α)}, rel s t → M.Cuts s pieces →
      M.output s (pieces.map .data) ++ owed (M.final s (pieces.map .data))
        = owed s ++ S.output t pieces.flatten
  | s, _, [], _, _ => by
      simp [Reader.output, Reader.final, Scanner.output]
  | s, t, p :: ps, hrel, ⟨⟨hle, hnil⟩, hps⟩ => by
      obtain ⟨hrel', hout⟩ := h.piece p hrel hle hnil
      have hrest := output_owed hrel' hps
      rw [List.flatten_cons, Scanner.output_append, ← List.append_assoc, ← hout,
        List.append_assoc, ← hrest]
      simp only [List.map_cons, Reader.output, Reader.final, List.append_assoc]

/-- A reader that starts owing nothing and ends with a request outputs, however the stream
was cut, what the scanner outputs on it. -/
theorem output_eq {s : σ} {t : τ} {pieces : List (List α)} (hrel : rel s t)
    (howed : owed s = []) (hcuts : M.Cuts s pieces)
    (hend : M.request (M.final s (pieces.map .data)) ≠ 0) :
  M.output s (pieces.map .data) = S.output t pieces.flatten
  := by
  have hout := h.output_owed hrel hcuts
  rw [h.settled hend, howed, List.append_nil, List.nil_append] at hout
  apply hout

/-- Two cuttings of one stream that end owing the same have the same outputs. -/
theorem output_unique {s : σ} {t : τ} {pieces pieces' : List (List α)} (hrel : rel s t)
    (hsame : pieces.flatten = pieces'.flatten)
    (hcuts : M.Cuts s pieces) (hcuts' : M.Cuts s pieces')
    (hend : owed (M.final s (pieces.map .data)) = owed (M.final s (pieces'.map .data))) :
  M.output s (pieces.map .data) = M.output s (pieces'.map .data)
  := by
  have hout := h.output_owed hrel hcuts
  have hout' := h.output_owed hrel hcuts'
  rw [← hsame, ← hout, hend] at hout'
  apply List.append_cancel_right hout'.symm

/-- What holds of every state related to one the scanner meets on the stream holds before
every iteration along any cutting of it. -/
theorem along {P : τ → Prop} {Q : σ → ReadResult α → Prop}
    (hPQ : ∀ s t p, rel s t → P t → p.length ≤ M.request s → Q s (.data p)) :
    ∀ {s : σ} {t : τ} {pieces : List (List α)}, rel s t → M.Cuts s pieces →
      S.Throughout P t pieces.flatten → M.Along Q s (pieces.map .data)
  | _, _, [], _, _, _ => trivial
  | s, t, p :: ps, hrel, ⟨⟨hle, hnil⟩, hps⟩, hP => by
      rw [List.flatten_cons, Scanner.throughout_append] at hP
      constructor
      · apply hPQ s t _ hrel hP.1.head hle
      · apply along hPQ (h.piece p hrel hle hnil).1 hps hP.2

end Simulates
