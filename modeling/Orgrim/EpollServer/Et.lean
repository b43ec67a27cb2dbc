import Mathlib.Algebra.Group.Nat.Defs
import Mathlib.Data.Finset.Erase
import Mathlib.Data.Finset.Filter
import Mathlib.Data.Finset.Insert
import Orgrim.Theory.Machine

/-!
# The edge-triggered server

`socket_server_epoll_et.cpp`.  Clients connect, send and end their connections; `epoll_wait`
delivers notifications, and `et` handles them.  There is one notification for each arrival, and
what arrives before a notification has been delivered coalesces with it; `epoll_ctl` with
`EPOLL_CTL_ADD` notifies of what is there already.

A descriptor is named by its connection.  `accept` succeeds when a connection waits, and every
notification has `EPOLLIN`, as those for the end of a connection have.
-/

namespace EpollServer

/-- `BUFFER_SIZE` -/
def bufferSize : ℕ := 10

/-- `MAX_EVENT_NUMBER` -/
def maxEventNumber : ℕ := 1024

/-- What becomes of a connection on the side of the server. -/
inductive Status where
  | unknown
  | queued
  | registered
  | closed
  deriving DecidableEq

/-- How a peer has ended its connection: in order, or by a reset. -/
inductive End where
  | shutdown
  | reset
  deriving DecidableEq

/-- `events[i].data.fd` -/
inductive Event (C : Type*) where
  | listenfd
  | connfd (c : C)
  deriving DecidableEq

/-- The sockets of the server and the notifications that have not been delivered; `closes` counts
the calls of `close` for a descriptor. -/
structure Server (C : Type*) where
  backlog : List C
  status : C → Status
  unread : C → ℕ
  ended : C → Option End
  closes : C → ℕ
  listenReady : Bool
  ready : Finset C

/-- What happens: a client connects, sends some bytes, or ends its connection, or `epoll_wait`
delivers notifications and `et` handles them. -/
inductive Action (C : Type*) where
  | connect (c : C)
  | data (c : C) (n : ℕ)
  | peerClose (c : C) (how : End)
  | et (events : List (Event C))

namespace Server

variable {C : Type*} [DecidableEq C]

/-! ### The sockets -/

/-- The server before any client has connected. -/
def start : Server C where
  backlog := []
  status _ := .unknown
  unread _ := 0
  ended _ := none
  closes _ := 0
  listenReady := false
  ready := ∅

/-- Something is there to be read, or to be learned, from a connection. -/
def Readable (s : Server C) (c : C) : Prop := 0 < s.unread c ∨ s.ended c ≠ none

instance (s : Server C) (c : C) : Decidable (s.Readable c) :=
  inferInstanceAs (Decidable (_ ∨ _))

/-- Notify of a connection, if it is registered. -/
def notify (s : Server C) (c : C) : Server C :=
  { s with ready := if s.status c = .registered then insert c s.ready else s.ready }

/-- A client connects. -/
def connect (s : Server C) (c : C) : Option (Server C) :=
  if s.status c = .unknown then
    some { s with
      backlog := s.backlog ++ [c]
      status := Function.update s.status c .queued
      listenReady := true }
  else none

/-- A connection that the peer can still use. -/
def Live (s : Server C) (c : C) : Prop :=
  (s.status c = .queued ∨ s.status c = .registered) ∧ s.ended c = none

instance (s : Server C) (c : C) : Decidable (s.Live c) :=
  inferInstanceAs (Decidable (_ ∧ _))

/-- Bytes arrive. -/
def data (s : Server C) (c : C) (n : ℕ) : Option (Server C) :=
  if s.Live c ∧ 0 < n then
    some (notify { s with unread := Function.update s.unread c (s.unread c + n) } c)
  else none

/-- The peer ends its connection. -/
def peerClose (s : Server C) (c : C) (how : End) : Option (Server C) :=
  if s.Live c then some (notify { s with ended := Function.update s.ended c (some how) } c)
  else none

/-- `close`; a descriptor that is closed is not in the set of `epollfd` any more. -/
def close (s : Server C) (c : C) : Server C :=
  { s with
    status := Function.update s.status c .closed
    closes := Function.update s.closes c (s.closes c + 1)
    ready := s.ready.erase c }

/-- `addfd(epollfd, connfd, true)` -/
def addfd (s : Server C) (c : C) : Server C :=
  let added : Server C := { s with status := Function.update s.status c .registered }
  if s.Readable c then added.notify c else added

/-! ### `et` -/

/-- The branch for `listenfd`: one `accept` -/
def handleListen (s : Server C) : Server C :=
  match s.backlog with
  | [] => s
  | c :: rest => addfd { s with backlog := rest } c

/-- The loop of `recv` of at most `fuel` iterations -/
def recvLoop (c : C) : ℕ → Server C → Option (Server C)
  | 0, _ => none
  | fuel + 1, s =>
      if s.status c ≠ .registered then some (s.close c)
      else if 0 < s.unread c then
        recvLoop c fuel
          { s with unread := Function.update s.unread c (s.unread c - (bufferSize - 1)) }
      else
        match s.ended c with
        | none => some s
        | some .reset => some (s.close c)
        | some .shutdown => recvLoop c fuel (s.close c)

/-- One iteration of the loop of `et` -/
def handle (s : Server C) : Event C → Option (Server C)
  | .listenfd => some s.handleListen
  | .connfd c => recvLoop c (s.unread c + 2) s

/-- `et` -/
def et : List (Event C) → Server C → Option (Server C)
  | [], s => some s
  | e :: events, s => (s.handle e).bind (et events)

/-- A notification has not been delivered. -/
def Pending (s : Server C) : Event C → Prop
  | .listenfd => s.listenReady = true
  | .connfd c => c ∈ s.ready

instance (s : Server C) (e : Event C) : Decidable (s.Pending e) :=
  match e with
  | .listenfd => inferInstanceAs (Decidable (s.listenReady = true))
  | .connfd c => inferInstanceAs (Decidable (c ∈ s.ready))

/-- `epoll_wait` delivers notifications. -/
def deliver (s : Server C) (events : List (Event C)) : Server C :=
  { s with
    listenReady := s.listenReady && decide (.listenfd ∉ events)
    ready := s.ready.filter (fun c => .connfd c ∉ events) }

/-- `epoll_wait`, and then `et` -/
def wait (s : Server C) (events : List (Event C)) : Option (Server C) :=
  if events.Nodup ∧ events.length ≤ maxEventNumber ∧ ∀ e ∈ events, s.Pending e then
    et events (s.deliver events)
  else none

end Server

/-- The server and its clients. -/
def machine (C : Type*) [DecidableEq C] : Machine (Server C) (Action C) where
  step s
    | .connect c => s.connect c
    | .data c n => s.data c n
    | .peerClose c how => s.peerClose c how
    | .et events => s.wait events

end EpollServer
