import Orgrim.Theory.Chain
import Orgrim.Threadpool.Pool

/-!
# The queue of the thread pool

Whatever the threads do, the list that starts at `head` has as many nodes as `queue_cur_num`
says, the jobs are taken out of the queue in the order in which they were accepted, each of them
once, and a thread calls the callbacks of the jobs that it took (`jobs_in_order`).  What the
sections preserve is `Holds`.
-/

namespace Threadpool

open Links

/-! ### What the log tells -/

section

variable {T F A : Type*}

/-- The jobs that `threadpool_add_job` has accepted. -/
def accepted (log : List (T × Event F A)) : List (F × A) :=
  log.filterMap (fun e =>
    match e.2 with
    | .accepted callbackFunc arg => some (callbackFunc, arg)
    | _ => none)

/-- The jobs that have been taken out of the queue. -/
def dequeued (log : List (T × Event F A)) : List (F × A) :=
  log.filterMap (fun e =>
    match e.2 with
    | .dequeued callbackFunc arg => some (callbackFunc, arg)
    | _ => none)

/-- The jobs whose callbacks have been called. -/
def executed (log : List (T × Event F A)) : List (F × A) :=
  log.filterMap (fun e =>
    match e.2 with
    | .executed callbackFunc arg => some (callbackFunc, arg)
    | _ => none)

/-- What a thread did. -/
def doneBy [DecidableEq T] (t : T) (log : List (T × Event F A)) : List (T × Event F A) :=
  log.filter (fun e => e.1 = t)

end

variable {T X F A : Type*}

/-! ### The invariant -/

/-- The callback of a node, and its argument. -/
def Pool.job (pool : Pool X F A) (pjob : X) : F × A :=
  ((pool.heap.cell pjob).callbackFunc, (pool.heap.cell pjob).arg)

/-- The nodes of the queue. -/
structure Pool.Queued (pool : Pool X F A) (nodes : List X) : Prop where
  chain : Chain (fun x => (pool.heap.cell x).next) pool.head nodes
  tail : pool.tail = nodes.getLast?
  count : pool.queueCurNum = nodes.length

/-- The node that a thread has taken and not freed. -/
def Point.held : Point X F A → Option X
  | .callback pjob => some pjob
  | .freeJob pjob => some pjob
  | _ => none

/-- The job whose callback a thread is about to call. -/
def Pool.pending (pool : Pool X F A) : Point X F A → List (F × A)
  | .callback pjob => [pool.job pjob]
  | _ => []

/-- The flags that a thread has set on its way. -/
def Pool.Closing (pool : Pool X F A) : Point X F A → Prop
  | .destoryWaits => pool.queueClose
  | .wakeRoutines => pool.poolClose
  | .wakeAddJobs => pool.poolClose
  | .join => pool.poolClose
  | _ => True

/-- What holds of a pool and its threads. -/
structure Holds [DecidableEq T] (queueMaxNum : ℤ) (pool : Pool X F A) (point : T → Point X F A)
    (log : List (T × Event F A)) (nodes : List X) : Prop extends pool.Queued nodes where
  max : pool.queueMaxNum = queueMaxNum
  bound : nodes.length ≤ queueMaxNum
  live : ∀ x ∈ nodes, x ∈ pool.heap.live
  heldLive : ∀ t x, (point t).held = some x → x ∈ pool.heap.live ∧ x ∉ nodes
  heldOnce : ∀ t t' x, (point t).held = some x → (point t').held = some x → t = t'
  order : accepted log = dequeued log ++ nodes.map pool.job
  called : ∀ t, dequeued (doneBy t log) = executed (doneBy t log) ++ pool.pending (point t)
  closed : pool.poolClose → pool.queueClose ∧ nodes = []
  closing : ∀ t, pool.Closing (point t)

section

variable [DecidableEq X] {pool pool' : Pool X F A} {o : Result X F A} {nodes : List X}
  {callbackFunc : F} {arg : A} {answer : Option X} {x pjob : X}

/-! ### What the sections do -/

theorem addJobLoop_cases (h : pool.addJobLoop callbackFunc arg answer = some o) :
  (pool.queueCurNum = pool.queueMaxNum ∧
      o = { point := .addJobWaits callbackFunc arg, shared := pool }) ∨
    o = { point := .addJob, shared := pool, events := [.refused] } ∨
    ∃ pjob pool', pool.queueCurNum ≠ pool.queueMaxNum ∧ ¬ pool.poolClose ∧
      pjob ∉ pool.heap.live ∧
      Pool.append { pool with heap := pool.heap.add pjob (fun _ => ⟨callbackFunc, arg, none⟩) }
        pjob = some pool' ∧
      o = { point := .addJob
            shared := pool'
            notes := if pool.head = none then [.broadcast .queueNotEmpty] else []
            events := [.accepted callbackFunc arg] }
  := by
  by_cases hwait : pool.queueCurNum = pool.queueMaxNum ∧ ¬ (pool.poolClose ∨ pool.queueClose)
  · left
    rw [Pool.addJobLoop, if_pos hwait] at h
    exact ⟨hwait.1, (Option.some.inj h).symm⟩
  rw [Pool.addJobLoop, if_neg hwait] at h
  by_cases hclose : pool.queueClose ∨ pool.poolClose
  · right
    left
    rw [if_pos hclose] at h
    exact (Option.some.inj h).symm
  rw [if_neg hclose] at h
  right
  rcases Heap.malloc_cases pool.heap answer (fun _ => ⟨callbackFunc, arg, none⟩) with
    hmalloc | ⟨pjob, -, hpjob, hmalloc⟩
  · left
    rw [hmalloc] at h
    exact (Option.some.inj h).symm
  · right
    rw [hmalloc] at h
    obtain ⟨pool', happend, rfl⟩ := Option.map_eq_some_iff.mp h
    use pjob, pool'
    constructor
    · intro hfull
      apply hwait
      use hfull
      intro hany
      apply hclose hany.symm
    · exact ⟨fun hpool => hclose (Or.inr hpool), hpjob, happend, rfl⟩

theorem routine_cases (h : pool.routine = some o) :
  (pool.queueCurNum = 0 ∧ o = { point := .routineWaits, shared := pool }) ∨
    (pool.poolClose ∧
      o = { point := .exited, shared := { pool with exited := pool.exited + 1 } }) ∨
    ∃ pjob pool', pool.queueCurNum ≠ 0 ∧ ¬ pool.poolClose ∧ pool.head = some pjob ∧
      pool.takeHead pjob = some pool' ∧
      o = { point := .callback pjob
            shared := pool'
            notes := pool'.notes
            events := [.dequeued (pool.job pjob).1 (pool.job pjob).2] }
  := by
  simp only [Pool.routine] at h
  split_ifs at h with hwait hclose
  · left
    exact ⟨hwait.1, (Option.some.inj h).symm⟩
  · right
    left
    exact ⟨hclose, (Option.some.inj h).symm⟩
  · right
    right
    obtain ⟨pjob, hhead, h⟩ := Option.bind_eq_some_iff.mp h
    obtain ⟨pool', htake, rfl⟩ := Option.map_eq_some_iff.mp h
    have hsome : pool.queueCurNum ≠ 0 := fun hzero => hwait ⟨hzero, hclose⟩
    exact ⟨pjob, pool', hsome, hclose, hhead, htake, rfl⟩

/-- What putting a node into the queue leaves as it is. -/
structure SameFlags (pool pool' : Pool X F A) : Prop where
  max : pool'.queueMaxNum = pool.queueMaxNum
  queueClose : pool'.queueClose = pool.queueClose
  poolClose : pool'.poolClose = pool.poolClose

theorem append_flags (happend : pool.append pjob = some pool') :
  SameFlags pool pool'
  := by
  cases hhead : pool.head with
  | none =>
      simp only [Pool.append, hhead] at happend
      obtain rfl := Option.some.inj happend
      exact ⟨rfl, rfl, rfl⟩
  | some first =>
      simp only [Pool.append, hhead] at happend
      obtain ⟨last, -, happend⟩ := Option.bind_eq_some_iff.mp happend
      obtain ⟨heap, -, rfl⟩ := Option.map_eq_some_iff.mp happend
      exact ⟨rfl, rfl, rfl⟩

theorem takeHead_flags (htake : pool.takeHead pjob = some pool') :
  pool'.heap = pool.heap ∧ pool'.queueCurNum = pool.queueCurNum - 1 ∧ SameFlags pool pool'
  := by
  simp only [Pool.takeHead] at htake
  split_ifs at htake with hzero
  · obtain rfl := Option.some.inj htake
    exact ⟨rfl, rfl, rfl, rfl, rfl⟩
  · obtain ⟨job, -, rfl⟩ := Option.map_eq_some_iff.mp htake
    exact ⟨rfl, rfl, rfl, rfl, rfl⟩

/-- A new node is put at the end of the queue, and the jobs of the nodes stay what they are. -/
theorem append_queued (h : pool.Queued nodes) (hnext : (pool.heap.cell pjob).next = none)
    (hnew : pjob ∉ nodes) (happend : pool.append pjob = some pool') :
  pool'.Queued (nodes ++ [pjob]) ∧ pool'.heap.live = pool.heap.live ∧ pool'.job = pool.job
  := by
  obtain ⟨hchain, htail, hcount⟩ := h
  cases hhead : pool.head with
  | none =>
      simp only [Pool.append, hhead] at happend
      obtain rfl := Option.some.inj happend
      rw [hhead] at hchain
      obtain rfl := chain_none.mp hchain
      constructor
      · constructor
        case chain => exact ⟨rfl, hnext⟩
        case tail => rfl
        case count =>
          rw [hcount]
          rfl
      · exact ⟨rfl, rfl⟩
  | some first =>
      simp only [Pool.append, hhead] at happend
      obtain ⟨last, hlast, happend⟩ := Option.bind_eq_some_iff.mp happend
      obtain ⟨heap, hheap, rfl⟩ := Option.map_eq_some_iff.mp happend
      obtain ⟨-, rfl⟩ := Heap.modify_eq_some.mp hheap
      rw [hlast] at htail
      obtain ⟨front, rfl⟩ := List.getLast?_eq_some_iff.mp htail.symm
      rw [hhead] at hchain
      have hne : pjob ≠ last := by
        rintro rfl
        apply hnew (List.mem_append_right _ List.mem_cons_self)
      constructor
      · constructor
        case chain =>
          have hlinks : (fun x => ((pool.heap.put last
              { pool.heap.cell last with next := some pjob }).cell x).next) =
              Function.update (fun x => (pool.heap.cell x).next) last (some pjob) := by
            funext x
            rcases eq_or_ne x last with rfl | hx
            · rw [Heap.cell_put_self, Function.update_self]
            · rw [Heap.cell_put_of_ne _ _ hx, Function.update_of_ne hx]
          rw [hlinks]
          apply segment_append.mpr
          use some pjob, Chain.relink hchain (some pjob), rfl
          rw [Function.update_of_ne hne]
          exact hnext
        case tail => exact List.getLast?_concat.symm
        case count =>
          change pool.queueCurNum + 1 = _
          simp only [hcount, List.length_append, List.length_singleton]
          omega
      · use rfl
        funext x
        rcases eq_or_ne x last with rfl | hx
        · simp only [Pool.job, Heap.cell_put_self]
        · simp only [Pool.job, Heap.cell_put_of_ne _ _ hx]

/-- A job gets a node of its own, at the end of the queue. -/
theorem append_new (h : pool.Queued nodes) (hlive : ∀ x ∈ nodes, x ∈ pool.heap.live)
    (hnew : pjob ∉ pool.heap.live)
    (happend : Pool.append
      { pool with heap := pool.heap.add pjob (fun _ => ⟨callbackFunc, arg, none⟩) } pjob
        = some pool') :
  pool'.Queued (nodes ++ [pjob]) ∧ pool'.heap.live = insert pjob pool.heap.live ∧
    (∀ x, x ≠ pjob → pool'.job x = pool.job x) ∧ pool'.job pjob = (callbackFunc, arg)
  := by
  set pool₁ : Pool X F A :=
    { pool with heap := pool.heap.add pjob (fun _ => ⟨callbackFunc, arg, none⟩) } with hpool₁
  have hnot : pjob ∉ nodes := fun hmem => hnew (hlive pjob hmem)
  have hcell : ∀ x, x ≠ pjob → pool₁.heap.cell x = pool.heap.cell x :=
    fun x hx => Heap.cell_add_of_ne pool.heap (fun _ => ⟨callbackFunc, arg, none⟩) hx
  have hqueued₁ : pool₁.Queued nodes := by
    constructor
    case chain =>
      apply h.chain.congr
      intro x hx
      simp only [hcell x (ne_of_mem_of_not_mem hx hnot)]
    case tail => apply h.tail
    case count => apply h.count
  have hnull : (pool₁.heap.cell pjob).next = none :=
    congrArg Job.next (Heap.cell_add_self pool.heap pjob (fun _ => ⟨callbackFunc, arg, none⟩))
  obtain ⟨hqueued, hlive', hjob⟩ := append_queued hqueued₁ hnull hnot happend
  use hqueued, hlive'
  constructor
  · intro x hx
    rw [hjob]
    simp only [Pool.job, hcell x hx]
  · rw [hjob]
    simp only [Pool.job, hpool₁, Heap.cell_add_self]

/-- The node at the head is taken out of the queue. -/
theorem takeHead_queued (h : pool.Queued nodes) (hhead : pool.head = some pjob)
    (htake : pool.takeHead pjob = some pool') :
  ∃ rest, nodes = pjob :: rest ∧ pool'.Queued rest
  := by
  obtain ⟨hchain, htail, hcount⟩ := h
  cases nodes with
  | nil =>
      rw [hhead] at hchain
      cases hchain
  | cons x rest =>
      rw [hhead] at hchain
      obtain ⟨⟨⟩, hrest⟩ := hchain
      have hlength : pool.queueCurNum - 1 = rest.length := by
        rw [hcount, List.length_cons, Int.natCast_succ, Int.add_sub_cancel]
      use rest, rfl
      simp only [Pool.takeHead] at htake
      split_ifs at htake with hzero
      · obtain rfl := Option.some.inj htake
        rw [hlength] at hzero
        obtain rfl := List.eq_nil_of_length_eq_zero (Int.ofNat_eq_zero.mp hzero)
        exact ⟨rfl, rfl, hlength⟩
      · obtain ⟨job, hjob, rfl⟩ := Option.map_eq_some_iff.mp htake
        obtain ⟨-, rfl⟩ := Heap.load_eq_some.mp hjob
        constructor
        case chain => exact hrest
        case tail =>
          cases rest with
          | nil =>
              rw [hlength] at hzero
              exact absurd rfl hzero
          | cons y rest =>
              change pool.tail = _
              rw [htail, List.getLast?_cons_cons]
        case count => exact hlength

/-! ### The log grows -/

section

variable {log events : List (T × Event F A)} {t t' : T} {e : Event F A}

theorem accepted_append :
  accepted (log ++ events) = accepted log ++ accepted events
  := List.filterMap_append ..

theorem dequeued_append :
  dequeued (log ++ events) = dequeued log ++ dequeued events
  := List.filterMap_append ..

theorem executed_append :
  executed (log ++ events) = executed log ++ executed events
  := List.filterMap_append ..

variable [DecidableEq T]

theorem doneBy_append :
  doneBy t (log ++ events) = doneBy t log ++ doneBy t events
  := List.filter_append ..

theorem doneBy_self {events : List (Event F A)} :
  doneBy t (events.map (fun e => (t, e))) = events.map (fun e => (t, e))
  := by
  apply List.filter_eq_self.mpr
  intro x hx
  obtain ⟨e, -, rfl⟩ := List.mem_map.mp hx
  apply decide_eq_true rfl

theorem doneBy_of_ne {events : List (Event F A)} (hne : t' ≠ t) :
  doneBy t' (events.map (fun e => (t, e))) = []
  := by
  apply List.filter_eq_nil_iff.mpr
  intro x hx
  obtain ⟨e, -, rfl⟩ := List.mem_map.mp hx
  simpa using hne.symm

end

/-! ### What the sections preserve -/

variable [DecidableEq T] {queueMaxNum : ℤ} {point : T → Point X F A}
  {log : List (T × Event F A)} {t : T} {p : Point X F A} {events : List (Event F A)}
  {nodes' : List X}

omit [DecidableEq X] in
theorem pending_of_held (h : p.held = none) :
  pool.pending p = []
  := by
  cases p with
  | callback pjob => cases h
  | _ => rfl

omit [DecidableEq X] in
/-- What a thread is about to call depends on the node that it holds. -/
theorem pending_congr (h : ∀ x, p.held = some x → pool'.job x = pool.job x) :
  pool'.pending p = pool.pending p
  := by
  cases p with
  | callback pjob => simp only [Pool.pending, h pjob rfl]
  | _ => rfl

/-- No flag is taken back. -/
structure KeepsFlags (pool pool' : Pool X F A) : Prop where
  queueClose : pool.queueClose → pool'.queueClose
  poolClose : pool.poolClose → pool'.poolClose

omit [DecidableEq X] in
theorem KeepsFlags.closing (h : KeepsFlags pool pool') (hp : pool.Closing p) :
  pool'.Closing p
  := by
  cases p
  case destoryWaits => apply h.queueClose hp
  case wakeRoutines => apply h.poolClose hp
  case wakeAddJobs => apply h.poolClose hp
  case join => apply h.poolClose hp
  all_goals trivial

omit [DecidableEq X] in
theorem SameFlags.keeps (h : SameFlags pool pool') :
  KeepsFlags pool pool'
  := ⟨fun hclose => h.queueClose ▸ hclose, fun hclose => h.poolClose ▸ hclose⟩

omit [DecidableEq X] in
/-- A section of the thread `t`: what there is to show of the queue, of the thread, and of what
the others hold. -/
theorem Holds.step (h : Holds queueMaxNum pool point log nodes) (hqueued : pool'.Queued nodes')
    (hmax : pool'.queueMaxNum = pool.queueMaxNum) (hbound : nodes'.length ≤ queueMaxNum)
    (hlive : ∀ x ∈ nodes', x ∈ pool'.heap.live)
    (horder : accepted (log ++ events.map (fun e => (t, e))) =
      dequeued (log ++ events.map (fun e => (t, e))) ++ nodes'.map pool'.job)
    (hclosed : pool'.poolClose → pool'.queueClose ∧ nodes' = [])
    (hkeep : KeepsFlags pool pool') (hclosing : pool'.Closing p)
    (hheld : ∀ x, p.held = some x → x ∈ pool'.heap.live ∧ x ∉ nodes')
    (honce : ∀ t' ≠ t, ∀ x, p.held = some x → (point t').held ≠ some x)
    (hcalled : pool.pending (point t) ++ dequeued (events.map (fun e => (t, e))) =
      Threadpool.executed (events.map (fun e => (t, e))) ++ pool'.pending p)
    (hothers : ∀ t' ≠ t, ∀ x, (point t').held = some x →
      (x ∈ pool'.heap.live ∧ x ∉ nodes') ∧ pool'.job x = pool.job x) :
  Holds queueMaxNum pool' (Function.update point t p) (log ++ events.map (fun e => (t, e))) nodes'
  := by
  constructor
  case toQueued => exact hqueued
  case max => apply hmax.trans h.max
  case bound => exact hbound
  case live => exact hlive
  case order => exact horder
  case closed => exact hclosed
  case heldLive =>
    apply (Function.forall_update_iff point (fun _ q => ∀ x, q.held = some x →
      x ∈ pool'.heap.live ∧ x ∉ nodes')).mpr
    use hheld
    intro t' hne x hx
    exact (hothers t' hne x hx).1
  case heldOnce =>
    intro t₁ t₂ x h₁ h₂
    rcases eq_or_ne t₁ t₂ with heq | hne
    · exact heq
    rcases eq_or_ne t₁ t with rfl | hne₁
    · rw [Function.update_self] at h₁
      rw [Function.update_of_ne hne.symm] at h₂
      exact absurd h₂ (honce t₂ hne.symm x h₁)
    rw [Function.update_of_ne hne₁] at h₁
    rcases eq_or_ne t₂ t with rfl | hne₂
    · rw [Function.update_self] at h₂
      exact absurd h₁ (honce t₁ hne₁ x h₂)
    · rw [Function.update_of_ne hne₂] at h₂
      apply h.heldOnce t₁ t₂ x h₁ h₂
  case called =>
    apply (Function.forall_update_iff point (fun t' q =>
      dequeued (doneBy t' (log ++ events.map (fun e => (t, e)))) =
        Threadpool.executed (doneBy t' (log ++ events.map (fun e => (t, e)))) ++
          pool'.pending q)).mpr
    constructor
    · rw [doneBy_append, dequeued_append, executed_append, doneBy_self, h.called t,
        List.append_assoc, hcalled, List.append_assoc]
    · intro t' hne
      rw [doneBy_append, dequeued_append, executed_append, doneBy_of_ne hne, h.called t',
        pending_congr (fun x hx => (hothers t' hne x hx).2)]
      simp only [dequeued, Threadpool.executed, List.filterMap_nil, List.append_nil]
  case closing =>
    apply (Function.forall_update_iff point (fun _ q => pool'.Closing q)).mpr
    use hclosing
    intro t' _
    apply hkeep.closing (h.closing t')

omit [DecidableEq X] in
/-- A section that changes nothing of the queue, of a thread that holds no node. -/
theorem Holds.quiet (h : Holds queueMaxNum pool point log nodes)
    (hmax : pool'.queueMaxNum = pool.queueMaxNum) (hqueued : pool'.Queued nodes)
    (hheap : pool'.heap = pool.heap) (hnone : (point t).held = none) (hp : p.held = none)
    (hevents : events = [] ∨ events = [.refused])
    (hclosed : pool'.poolClose → pool'.queueClose ∧ nodes = [])
    (hkeep : KeepsFlags pool pool') (hclosing : pool'.Closing p) :
  Holds queueMaxNum pool' (Function.update point t p) (log ++ events.map (fun e => (t, e))) nodes
  := by
  have hjob : pool'.job = pool.job := by
    funext x
    simp only [Pool.job, hheap]
  have hsilent : accepted (events.map (fun e => (t, e))) = [] ∧
      dequeued (events.map (fun e => (t, e))) = [] ∧
      Threadpool.executed (events.map (fun e => (t, e))) = [] := by
    rcases hevents with rfl | rfl
    all_goals exact ⟨rfl, rfl, rfl⟩
  apply h.step hqueued hmax h.bound _ _ hclosed hkeep hclosing
  · intro x hx
    rw [hp] at hx
    cases hx
  · intro _ _ x hx
    rw [hp] at hx
    cases hx
  · rw [hsilent.2.1, hsilent.2.2, pending_of_held hnone, pending_of_held hp]
  · intro t' _ x hx
    rw [hheap, hjob]
    exact ⟨h.heldLive t' x hx, rfl⟩
  · rw [hheap]
    apply h.live
  · rw [accepted_append, dequeued_append, hsilent.1, hsilent.2.1, List.append_nil,
      List.append_nil, hjob]
    apply h.order

/-- `threadpool_add_job` puts a job into the queue. -/
theorem Holds.accept (h : Holds queueMaxNum pool point log nodes)
    (hspace : pool.queueCurNum ≠ pool.queueMaxNum) (hopen : ¬ pool.poolClose)
    (hnew : pjob ∉ pool.heap.live) (hnone : (point t).held = none)
    (happend : Pool.append
      { pool with heap := pool.heap.add pjob (fun _ => ⟨callbackFunc, arg, none⟩) } pjob
        = some pool') :
  Holds queueMaxNum pool' (Function.update point t .addJob)
    (log ++ [Event.accepted callbackFunc arg].map (fun e => (t, e))) (nodes ++ [pjob])
  := by
  have hnot : pjob ∉ nodes := fun hmem => hnew (h.live pjob hmem)
  obtain ⟨hqueued, hlive, hjobs, hlast⟩ := append_new h.toQueued h.live hnew happend
  have hflags := append_flags happend
  have hlive' : ∀ x ∈ pool.heap.live, x ∈ pool'.heap.live := by
    intro x hx
    rw [hlive]
    apply Finset.mem_insert_of_mem hx
  have hclose : ¬ pool'.poolClose := by
    rw [hflags.poolClose]
    exact hopen
  have hkeep : KeepsFlags pool pool' := ⟨hflags.keeps.queueClose, hflags.keeps.poolClose⟩
  apply h.step hqueued hflags.max
  · have hbound := h.bound
    have hcount := h.count
    have hmax := h.max
    rw [List.length_append, List.length_singleton]
    omega
  · intro x hx
    rcases List.mem_append.mp hx with hx | hx
    · apply hlive' x (h.live x hx)
    · obtain rfl := List.mem_singleton.mp hx
      rw [hlive]
      apply Finset.mem_insert_self _ _
  · have hold : nodes.map pool'.job = nodes.map pool.job := by
      apply List.map_congr_left
      intro x hx
      apply hjobs x (ne_of_mem_of_not_mem hx hnot)
    rw [accepted_append, dequeued_append, h.order, List.map_append, hold]
    simp [accepted, dequeued, hlast]
  · exact fun hpool => absurd hpool hclose
  · exact hkeep
  · trivial
  · intro x hx
    cases hx
  · intro _ _ x hx
    cases hx
  · rw [pending_of_held hnone]
    rfl
  · intro t' _ x hx
    obtain ⟨hxlive, hxnot⟩ := h.heldLive t' x hx
    have hne : x ≠ pjob := ne_of_mem_of_not_mem hxlive hnew
    use ⟨hlive' x hxlive, ?_⟩, hjobs x hne
    intro hmem
    rcases List.mem_append.mp hmem with hmem | hmem
    · apply hxnot hmem
    · apply hne (List.mem_singleton.mp hmem)

/-- `threadpool_routine` takes a job out of the queue. -/
theorem Holds.dequeue (h : Holds queueMaxNum pool point log nodes) (hopen : ¬ pool.poolClose)
    (hhead : pool.head = some pjob) (hnone : (point t).held = none)
    (htake : pool.takeHead pjob = some pool') :
  ∃ rest, nodes = pjob :: rest ∧ Holds queueMaxNum pool' (Function.update point t (.callback pjob))
    (log ++ [Event.dequeued (pool.job pjob).1 (pool.job pjob).2].map (fun e => (t, e))) rest
  := by
  obtain ⟨rest, rfl, hqueued⟩ := takeHead_queued h.toQueued hhead htake
  obtain ⟨hheap, -, hflags⟩ := takeHead_flags htake
  have hjob : pool'.job = pool.job := by
    funext x
    simp only [Pool.job, hheap]
  have hnot : pjob ∉ rest := (List.nodup_cons.mp h.chain.nodup).1
  have hclose : ¬ pool'.poolClose := by
    rw [hflags.poolClose]
    exact hopen
  have hkeep : KeepsFlags pool pool' := hflags.keeps
  use rest, rfl
  apply h.step hqueued hflags.max
  · have hbound := h.bound
    rw [List.length_cons] at hbound
    omega
  · intro x hx
    rw [hheap]
    apply h.live x (List.mem_cons_of_mem pjob hx)
  · rw [accepted_append, dequeued_append, h.order, hjob]
    simp [accepted, dequeued]
  · exact fun hpool => absurd hpool hclose
  · exact hkeep
  · trivial
  · rintro x ⟨⟩
    rw [hheap]
    exact ⟨h.live pjob List.mem_cons_self, hnot⟩
  · rintro t' _ x ⟨⟩ hx
    exact (h.heldLive t' pjob hx).2 List.mem_cons_self
  · rw [pending_of_held hnone, Pool.pending, hjob]
    rfl
  · intro t' _ x hx
    obtain ⟨hxlive, hxnot⟩ := h.heldLive t' x hx
    rw [hheap, hjob]
    exact ⟨⟨hxlive, fun hmem => hxnot (List.mem_cons_of_mem pjob hmem)⟩, rfl⟩

omit [DecidableEq X] in
/-- A thread calls the callback of the job that it holds. -/
theorem Holds.callback (h : Holds queueMaxNum pool point log nodes)
    (hpoint : point t = .callback pjob) :
  Holds queueMaxNum pool (Function.update point t (.freeJob pjob))
    (log ++ [Event.executed (pool.job pjob).1 (pool.job pjob).2].map (fun e => (t, e))) nodes
  := by
  have hheld : (point t).held = some pjob := by rw [hpoint]; rfl
  have hclosing : pool.Closing (.freeJob pjob) := trivial
  apply h.step h.toQueued rfl h.bound h.live _ h.closed ⟨id, id⟩ hclosing
  · rintro x ⟨⟩
    apply h.heldLive t pjob hheld
  · rintro t' hne x ⟨⟩ hx
    apply hne (h.heldOnce t' t pjob hx hheld)
  · rw [hpoint]
    rfl
  · intro t' _ x hx
    exact ⟨h.heldLive t' x hx, rfl⟩
  · rw [accepted_append, dequeued_append, h.order]
    simp [accepted, dequeued]

/-- A thread frees the node that it holds. -/
theorem Holds.freeJob (h : Holds queueMaxNum pool point log nodes)
    (hpoint : point t = .freeJob pjob) :
  Holds queueMaxNum { pool with heap := pool.heap.remove pjob }
    (Function.update point t .routine) (log ++ [].map (fun e => (t, e))) nodes
  := by
  have hheld : (point t).held = some pjob := by rw [hpoint]; rfl
  have hnot := (h.heldLive t pjob hheld).2
  have hqueued : Pool.Queued { pool with heap := pool.heap.remove pjob } nodes :=
    ⟨h.chain, h.tail, h.count⟩
  have hclosing : Pool.Closing { pool with heap := pool.heap.remove pjob } .routine := trivial
  apply h.step hqueued rfl h.bound _ _ h.closed ⟨id, id⟩ hclosing
  · intro x hx
    cases hx
  · intro _ _ x hx
    cases hx
  · rw [hpoint]
    rfl
  · intro t' hne x hx
    obtain ⟨hxlive, hxnot⟩ := h.heldLive t' x hx
    refine ⟨⟨Finset.mem_erase.mpr ⟨?_, hxlive⟩, hxnot⟩, rfl⟩
    rintro rfl
    apply hne (h.heldOnce t' t x hx hheld)
  · intro x hx
    apply Finset.mem_erase.mpr ⟨ne_of_mem_of_not_mem hx hnot, h.live x hx⟩
  · rw [List.map_nil, List.append_nil]
    apply h.order

/-- `threadpool_add_job`, for a thread that holds no node. -/
theorem Holds.addJobLoop (h : Holds queueMaxNum pool point log nodes)
    (hnone : (point t).held = none) (ho : pool.addJobLoop callbackFunc arg answer = some o) :
  ∃ nodes', Holds queueMaxNum o.shared (Function.update point t o.point)
    (log ++ o.events.map (fun e => (t, e))) nodes'
  := by
  rcases addJobLoop_cases ho with ⟨-, rfl⟩ | rfl | ⟨pjob, pool', hspace, hopen, hnew, happend, rfl⟩
  · use nodes
    exact h.quiet rfl h.toQueued rfl hnone rfl (Or.inl rfl) h.closed ⟨id, id⟩ trivial
  · use nodes
    exact h.quiet rfl h.toQueued rfl hnone rfl (Or.inr rfl) h.closed ⟨id, id⟩ trivial
  · use nodes ++ [pjob]
    apply h.accept hspace hopen hnew hnone happend

/-- `threadpool_routine`, for a thread that holds no node. -/
theorem Holds.routine (h : Holds queueMaxNum pool point log nodes)
    (hnone : (point t).held = none) (ho : pool.routine = some o) :
  ∃ nodes', Holds queueMaxNum o.shared (Function.update point t o.point)
    (log ++ o.events.map (fun e => (t, e))) nodes'
  := by
  rcases routine_cases ho with ⟨-, rfl⟩ | ⟨-, rfl⟩ | ⟨pjob, pool', -, hopen, hhead, htake, rfl⟩
  · use nodes
    exact h.quiet rfl h.toQueued rfl hnone rfl (Or.inl rfl) h.closed ⟨id, id⟩ trivial
  · use nodes
    exact h.quiet rfl ⟨h.chain, h.tail, h.count⟩ rfl hnone rfl (Or.inl rfl) h.closed ⟨id, id⟩
      trivial
  · obtain ⟨rest, -, hrest⟩ := h.dequeue hopen hhead hnone htake
    exact ⟨rest, hrest⟩

omit [DecidableEq X] in
/-- The loop of `threadpool_destory`, with `queue_close` set. -/
theorem Holds.destoryLoop (h : Holds queueMaxNum pool point log nodes)
    (hnone : (point t).held = none)
    (ho : Pool.destoryLoop { pool with queueClose := true } = o) :
  Holds queueMaxNum o.shared (Function.update point t o.point)
    (log ++ o.events.map (fun e => (t, e))) nodes
  := by
  subst ho
  by_cases hcount : pool.queueCurNum ≠ 0
  · rw [Pool.destoryLoop, if_pos hcount]
    exact h.quiet rfl ⟨h.chain, h.tail, h.count⟩ rfl hnone rfl (Or.inl rfl)
      (fun hpool => ⟨rfl, (h.closed hpool).2⟩) ⟨fun _ => rfl, id⟩ rfl
  · rw [Pool.destoryLoop, if_neg hcount]
    have hnil : nodes = [] := by
      rw [h.count] at hcount
      apply List.eq_nil_of_length_eq_zero (Int.ofNat_eq_zero.mp (not_not.mp hcount))
    exact h.quiet rfl ⟨h.chain, h.tail, h.count⟩ rfl hnone rfl (Or.inl rfl)
      (fun _ => ⟨rfl, hnil⟩) ⟨fun _ => rfl, fun _ => rfl⟩ rfl

/-- The end of `threadpool_destory`: nothing is left in the queue. -/
theorem Holds.join (h : Holds queueMaxNum pool point log nodes) (hpoint : point t = .join)
    (ho : pool.join = some o) :
  Holds queueMaxNum o.shared (Function.update point t o.point)
    (log ++ o.events.map (fun e => (t, e))) nodes
  := by
  have hclosing := h.closing t
  rw [hpoint] at hclosing
  obtain ⟨hclose, rfl⟩ := h.closed hclosing
  have hhead : pool.head = none := h.chain
  obtain ⟨-, ho⟩ := Option.ite_none_right_eq_some.mp ho
  obtain ⟨heap, hheap, rfl⟩ := Option.map_eq_some_iff.mp ho
  rw [hhead] at hheap
  rw [Pool.freeJobs] at hheap
  obtain rfl := Option.some.inj hheap
  exact h.quiet rfl ⟨rfl, h.tail, h.count⟩ rfl (by rw [hpoint]; rfl) rfl (Or.inl rfl) h.closed
    ⟨id, id⟩ trivial

/-- What a thread does preserves what holds of the pool. -/
theorem Holds.enter {i : Input X F A} (h : Holds queueMaxNum pool point log nodes)
    (ho : pool.enter i (point t) = some o) :
  ∃ nodes', Holds queueMaxNum o.shared (Function.update point t o.point)
    (log ++ o.events.map (fun e => (t, e))) nodes'
  := by
  cases hpoint : point t <;> rw [hpoint] at ho
  case addJob =>
    have hnone : (point t).held = none := by rw [hpoint]; rfl
    cases hcallback : i.callbackFunc with
    | none =>
        simp only [Pool.enter, Pool.addJob, hcallback] at ho
        obtain rfl := Option.some.inj ho
        use nodes
        exact h.quiet rfl h.toQueued rfl hnone rfl (Or.inr rfl) h.closed ⟨id, id⟩ trivial
    | some callbackFunc =>
        simp only [Pool.enter, Pool.addJob, hcallback] at ho
        apply h.addJobLoop hnone ho
  case addJobWaits callbackFunc arg => apply h.addJobLoop (by rw [hpoint]; rfl) ho
  case routine => apply h.routine (by rw [hpoint]; rfl) ho
  case routineWaits => apply h.routine (by rw [hpoint]; rfl) ho
  case callback pjob =>
    obtain ⟨job, hjob, rfl⟩ := Option.map_eq_some_iff.mp ho
    obtain ⟨-, rfl⟩ := Heap.load_eq_some.mp hjob
    exact ⟨nodes, h.callback hpoint⟩
  case freeJob pjob =>
    obtain ⟨heap, hheap, rfl⟩ := Option.map_eq_some_iff.mp ho
    obtain ⟨-, rfl⟩ := Heap.free_eq_some.mp hheap
    exact ⟨nodes, h.freeJob hpoint⟩
  case exited => cases ho
  case destroyed => cases ho
  case destory =>
    have hnone : (point t).held = none := by rw [hpoint]; rfl
    obtain rfl := Option.some.inj ho
    by_cases hclose : pool.queueClose ∧ pool.poolClose
    · rw [Pool.destory, if_pos hclose]
      use nodes
      exact h.quiet rfl h.toQueued rfl hnone rfl (Or.inl rfl) h.closed ⟨id, id⟩ trivial
    · use nodes
      apply h.destoryLoop hnone
      rw [Pool.destory, if_neg hclose]
  case destoryWaits =>
    obtain rfl := Option.some.inj ho
    have hclosing : pool.queueClose = true := by
      have hclosing := h.closing t
      rw [hpoint] at hclosing
      exact hclosing
    use nodes
    apply h.destoryLoop (by rw [hpoint]; rfl)
    rw [← hclosing]
  case wakeRoutines =>
    obtain rfl := Option.some.inj ho
    have hclosing := h.closing t
    rw [hpoint] at hclosing
    use nodes
    exact h.quiet rfl h.toQueued rfl (by rw [hpoint]; rfl) rfl (Or.inl rfl) h.closed ⟨id, id⟩
      hclosing
  case wakeAddJobs =>
    obtain rfl := Option.some.inj ho
    have hclosing := h.closing t
    rw [hpoint] at hclosing
    use nodes
    exact h.quiet rfl h.toQueued rfl (by rw [hpoint]; rfl) rfl (Or.inl rfl) h.closed ⟨id, id⟩
      hclosing
  case join => exact ⟨nodes, h.join hpoint ho⟩

omit [DecidableEq X] in
/-- Before any thread has entered. -/
theorem start_holds (roles : T → Role) (threadNum : ℕ) (hmax : 0 ≤ queueMaxNum)
    (heap : Heap X (Job X F A)) :
  Holds queueMaxNum (Pool.init threadNum queueMaxNum heap) (fun t => (roles t).point)
    ([] : List (T × Event F A)) []
  := by
  have hnone : ∀ t, ((roles t).point : Point X F A).held = none := by
    intro t
    cases roles t <;> rfl
  constructor
  case toQueued => exact ⟨rfl, rfl, rfl⟩
  case max => rfl
  case bound => exact hmax
  case live => exact fun x hx => absurd hx List.not_mem_nil
  case heldLive =>
    intro t x hx
    rw [hnone] at hx
    cases hx
  case heldOnce =>
    intro t t' x hx
    rw [hnone] at hx
    cases hx
  case order => rfl
  case called =>
    intro t
    rw [pending_of_held (hnone t)]
    rfl
  case closed =>
    intro hclose
    cases hclose
  case closing =>
    intro t
    cases roles t <;> trivial

end

/-! ### Every run -/

/-- Whatever the threads do: the queue is a list with as many nodes as `queue_cur_num` says, which
is at most `queue_max_num`; the jobs have been taken out in the order in which they were accepted,
each once; after `pool_close` has been set, they all have; and a thread has called the callbacks
of the jobs it took, in this order, but for the one it is about to call. -/
theorem jobs_in_order {T X F A : Type*} [DecidableEq T] [DecidableEq X] {roles : T → Role}
    {threadNum : ℕ} {queueMaxNum : ℤ} (hmax : 1 ≤ queueMaxNum) {heap : Heap X (Job X F A)}
    {moves : List (Monitor.Move T Cond (Input X F A))}
    {s : Monitor.State T (Point X F A) (Pool X F A) Cond (Event F A)}
    (hfinal : ((monitor X F A).threads T).final (start roles threadNum queueMaxNum heap) moves =
      some s) :
  (∃ nodes, s.shared.Queued nodes ∧ nodes.length ≤ queueMaxNum ∧
      accepted s.log = dequeued s.log ++ nodes.map s.shared.job) ∧
    (s.shared.poolClose → accepted s.log = dequeued s.log) ∧
    ∀ t, dequeued (doneBy t s.log) = executed (doneBy t s.log) ++ s.shared.pending (s.point t)
  := by
  have hall : ∃ nodes, Holds queueMaxNum s.shared s.point s.log nodes := by
    apply Monitor.final_invariant
      (fun pool point log => ∃ nodes, Holds queueMaxNum pool point log nodes) _ _ hfinal
    · rintro pool point log t i o ⟨nodes, h⟩ ho
      obtain ⟨-, ho⟩ := Option.ite_none_left_eq_some.mp ho
      apply h.enter ho
    · exact ⟨[], start_holds roles threadNum (by omega) heap⟩
  obtain ⟨nodes, h⟩ := hall
  constructor
  · exact ⟨nodes, h.toQueued, h.bound, h.order⟩
  constructor
  · intro hclose
    obtain ⟨-, rfl⟩ := h.closed hclose
    rw [h.order, List.map_nil, List.append_nil]
  · apply h.called

/-- A producer, a worker and a destroyer, with room for one job: the second job has to wait, and
is refused in the end. -/
theorem jobs_in_order_one :
  ∃ s, ((monitor ℕ ℕ Unit).threads (Fin 3)).final
      (start (fun t => [.producer, .worker, .destroyer].get t) 1 1 ⟨∅, fun _ => ⟨0, (), none⟩⟩)
      [.enter 0 ⟨some 5, (), some 0⟩ (fun _ => none),
        .enter 0 ⟨some 6, (), some 1⟩ (fun _ => none),
        .enter 1 ⟨none, (), none⟩ (fun _ => none), .enter 1 ⟨none, (), none⟩ (fun _ => none),
        .enter 2 ⟨none, (), none⟩ (fun _ => none), .enter 2 ⟨none, (), none⟩ (fun _ => none),
        .enter 2 ⟨none, (), none⟩ (fun _ => none),
        .enter 0 ⟨none, (), some 1⟩ (fun _ => none)] = some s ∧
    accepted s.log = [(5, ())] ∧ dequeued s.log = [(5, ())] ∧
    (∃ nodes, s.shared.Queued nodes ∧ (nodes.length : ℤ) ≤ 1 ∧
      accepted s.log = dequeued s.log ++ nodes.map s.shared.job) ∧
    (s.shared.poolClose → accepted s.log = dequeued s.log) ∧
    ∀ t, dequeued (doneBy t s.log) = executed (doneBy t s.log) ++ s.shared.pending (s.point t)
  := by
  apply Machine.exists_final (by decide)
  intro s hs
  refine ⟨?_, ?_, jobs_in_order (by decide) hs⟩
  · revert s
    decide
  · revert s
    decide

end Threadpool
