import Orgrim.LstTimer.List

/-!
# The server that closes idle connections

`nonactive_conn.cpp`.  The main loop handles the events that `epoll_wait` returns one after the
other, each with what the kernel answers to the calls it makes and with the time it asks for; when
the events of a round are through, it handles the timers if `SIGALRM` has come.  Timers have
addresses in `X`, as in the list that holds them, and `timer->user_data` is a place of `users`.

Whatever is undefined has no result: an access outside of `users`, and to a timer that has been
deleted.

Next to it stands what the server is for (`Reaper`): it knows when it has last heard from each of
its connections, and gives up those that have been silent for too long.
-/

namespace NonactiveConn

open LstTimer (SortTimerLst)

/-- `FD_LIMIT` -/
def fdLimit : ℕ := 65535

/-- `TIMESLOT` -/
def timeslot : ℤ := 5

/-- `client_data` -/
structure ClientData (X : Type*) where
  sockfd : ℕ
  timer : Option X

/-- The state of `main`, and the connections that are open. -/
structure Server (X : Type*) where
  timerLst : SortTimerLst X
  userData : X → ℕ
  users : ℕ → ClientData X
  conns : Finset ℕ
  timeout : Bool
  stopServer : Bool
  running : Bool

/-- A byte that a signal handler has sent. -/
inductive Signal where
  | alrm
  | term
  | other
  deriving DecidableEq

/-- What `recv` returns for a connection: some data, -1 with `EAGAIN`, -1 without it, or 0. -/
inductive Received where
  | data
  | again
  | error
  | closed
  deriving DecidableEq

/-- What the loop handles: a new connection, for which `new` returns `timer`, something from a
connection, signals, and the end of the events of a round. -/
inductive Action (X : Type*) where
  | accept (connfd : ℕ) (timer : X) (cur : ℤ)
  | recv (sockfd : ℕ) (ret : Received) (cur : ℤ)
  | signals (bytes : List Signal)
  | endOfEvents (cur : ℤ)
  deriving DecidableEq

namespace Server

variable {X : Type*}

/-- The server before the first round. -/
def init : Server X where
  timerLst := SortTimerLst.init
  userData _ := 0
  users _ := ⟨0, none⟩
  conns := ∅
  timeout := false
  stopServer := false
  running := true

/-- `cb_func` -/
def cbFunc (s : Server X) (userData : ℕ) : Server X :=
  { s with conns := s.conns.erase (s.users userData).sockfd }

variable [DecidableEq X]

/-- The server with a new connection, whose timer has been added to the list. -/
def enroll (s : Server X) (connfd : ℕ) (timer : X) (timerLst : SortTimerLst X) : Server X :=
  { s with
    timerLst := timerLst
    userData := Function.update s.userData timer connfd
    users := Function.update s.users connfd ⟨connfd, some timer⟩
    conns := insert connfd s.conns }

/-- A new connection is handled. -/
def accept (s : Server X) (connfd : ℕ) (timer : X) (cur : ℤ) : Option (Server X) :=
  if connfd < fdLimit then
    (LstTimer.calls.step s.timerLst (.addTimer timer (cur + 3 * timeslot))).map
      (s.enroll connfd timer)
  else none

/-- `cb_func`, and `del_timer` if there is a timer -/
def drop (s : Server X) (sockfd : ℕ) : Option (Server X) :=
  let s := s.cbFunc sockfd
  match (s.users sockfd).timer with
  | none => some s
  | some timer =>
      (LstTimer.calls.step s.timerLst (.delTimer timer)).map (fun timerLst =>
        { s with timerLst := timerLst })

/-- Something from a connection is handled. -/
def recv (s : Server X) (sockfd : ℕ) (ret : Received) (cur : ℤ) : Option (Server X) :=
  if sockfd < fdLimit then
    match ret with
    | .again => some s
    | .error => s.drop sockfd
    | .closed => s.drop sockfd
    | .data =>
        match (s.users sockfd).timer with
        | none => some s
        | some timer =>
            (LstTimer.calls.step s.timerLst (.adjustTimer timer (cur + 3 * timeslot))).map
              (fun timerLst => { s with timerLst := timerLst })
  else none

/-- The bytes of the signals are handled. -/
def handleSignals (s : Server X) (bytes : List Signal) : Server X :=
  { s with
    timeout := s.timeout || bytes.contains .alrm
    stopServer := s.stopServer || bytes.contains .term }

/-- `timer_handler` -/
def timerHandler (s : Server X) (cur : ℤ) : Option (Server X) :=
  (s.timerLst.tick cur).map (fun r =>
    { r.1.foldl (fun s timer => s.cbFunc (s.userData timer)) s with timerLst := r.2 })

/-- The end of a round -/
def endOfEvents (s : Server X) (cur : ℤ) : Option (Server X) :=
  (if s.timeout then s.timerHandler cur else some s).map (fun s =>
    { s with timeout := false, running := !s.stopServer })

/-- The server. -/
def machine : Machine (Server X) (Action X) where
  step s a :=
    if s.running then
      match a with
      | .accept connfd timer cur => s.accept connfd timer cur
      | .recv sockfd ret cur => s.recv sockfd ret cur
      | .signals bytes => some (s.handleSignals bytes)
      | .endOfEvents cur => s.endOfEvents cur
    else none

end Server

/-! ### What it is for -/

/-- When each connection has last been heard from, and the time of the last event. -/
structure Reaper where
  last : ℕ → Option ℤ
  now : ℤ
  alarm : Bool
  stop : Bool
  running : Bool

/-- What happens to the connections. -/
inductive Event where
  | opened (conn : ℕ) (now : ℤ)
  | heard (conn : ℕ) (now : ℤ)
  | nothing (conn : ℕ) (now : ℤ)
  | lost (conn : ℕ) (now : ℤ)
  | signals (alarm stop : Bool)
  | endOfRound (now : ℤ)
  deriving DecidableEq

namespace Reaper

/-- Before any connection. -/
def init (now : ℤ) : Reaper where
  last _ := none
  now := now
  alarm := false
  stop := false
  running := true

/-- A connection that has been silent for three time slots is given up. -/
def reap (last : ℕ → Option ℤ) (now : ℤ) (conn : ℕ) : Option ℤ :=
  (last conn).filter (fun t => now < t + 3 * timeslot)

/-- When a connection has last been heard from is now something else. -/
def note (r : Reaper) (conn : ℕ) (v : Option ℤ) (now : ℤ) : Reaper :=
  { r with last := Function.update r.last conn v, now := now }

/-- What an event does. -/
def react (r : Reaper) : Event → Reaper
  | .opened conn now => r.note conn (some now) now
  | .heard conn now => r.note conn (some now) now
  | .nothing _ now => { r with now := now }
  | .lost conn now => r.note conn none now
  | .signals alarm stop => { r with alarm := r.alarm || alarm, stop := r.stop || stop }
  | .endOfRound now =>
      { r with
        last := if r.alarm then reap r.last now else r.last
        now := now
        alarm := false
        running := !r.stop }

/-- A new connection is none of those there are, and what is heard comes from one of them; the
clock does not go back; the loop has not ended. -/
def Allows (r : Reaper) : Event → Prop
  | .opened conn now => r.running ∧ conn < fdLimit ∧ r.last conn = none ∧ r.now ≤ now
  | .heard conn now => r.running ∧ (r.last conn).isSome ∧ r.now ≤ now
  | .nothing conn now => r.running ∧ (r.last conn).isSome ∧ r.now ≤ now
  | .lost conn now => r.running ∧ (r.last conn).isSome ∧ r.now ≤ now
  | .signals _ _ => r.running
  | .endOfRound now => r.running ∧ r.now ≤ now

instance (r : Reaper) : DecidablePred r.Allows
  | .opened conn now =>
      inferInstanceAs (Decidable (r.running ∧ conn < fdLimit ∧ r.last conn = none ∧ r.now ≤ now))
  | .heard conn now =>
      inferInstanceAs (Decidable (r.running ∧ (r.last conn).isSome ∧ r.now ≤ now))
  | .nothing conn now =>
      inferInstanceAs (Decidable (r.running ∧ (r.last conn).isSome ∧ r.now ≤ now))
  | .lost conn now =>
      inferInstanceAs (Decidable (r.running ∧ (r.last conn).isSome ∧ r.now ≤ now))
  | .signals _ _ => inferInstanceAs (Decidable (r.running = true))
  | .endOfRound now => inferInstanceAs (Decidable (r.running ∧ r.now ≤ now))

/-- The reaper. -/
def machine : Machine Reaper Event where
  step r e := if r.Allows e then some (r.react e) else none

end Reaper

/-- What an action of the server means for the connections. -/
def Action.event {X : Type*} : Action X → Event
  | .accept connfd _ cur => .opened connfd cur
  | .recv sockfd .data cur => .heard sockfd cur
  | .recv sockfd .again cur => .nothing sockfd cur
  | .recv sockfd .error cur => .lost sockfd cur
  | .recv sockfd .closed cur => .lost sockfd cur
  | .signals bytes => .signals (bytes.contains .alrm) (bytes.contains .term)
  | .endOfEvents cur => .endOfRound cur

/-- `new` returns the address of a timer that does not exist. -/
def Fresh {X : Type*} (s : Server X) : Action X → Prop
  | .accept _ timer _ => timer ∉ s.timerLst.heap.live
  | _ => True

instance {X : Type*} [DecidableEq X] (s : Server X) : DecidablePred (Fresh s)
  | .accept _ timer _ => inferInstanceAs (Decidable (timer ∉ s.timerLst.heap.live))
  | .recv _ _ _ => .isTrue trivial
  | .signals _ => .isTrue trivial
  | .endOfEvents _ => .isTrue trivial

end NonactiveConn
