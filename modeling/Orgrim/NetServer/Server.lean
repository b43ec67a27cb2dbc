import Mathlib.Algebra.Group.Nat.Defs
import Orgrim.Theory.Monitor

/-!
# The net server

`NetServer.cpp`.  `ServerRoutine` accepts one client after the other and begins a `SendThread` for
each of them; `SendMessage` puts a message into `m_pSendBuffer`, which has room for one, and some
`SendThread` takes it out and writes it.

A section is what a thread does while it has the mutex of `m_condClientSend`, or a step without it.
What the calls of the system return is the input of a step.  Connections are numbered as they are
accepted, and `m_iClientFD` is the number of one; descriptors of clients are never closed.  `accept`
and `pthread_create` do not fail, and `write` hands over at once what it takes.
-/

namespace NetServer

/-! ### Messages -/

/-- A message in `m_pSendBuffer` or in the buffer of a `SendThread`.  It carries the number of the
connection that there was when `SendMessage` took it, and how many messages had been taken
before. -/
structure Message where
  bytes : List UInt8
  conn : ℕ
  stamp : ℕ
  deriving DecidableEq

/-- The members of `NetServer`, where `sendBuffer` is `m_pSendBuffer` with `m_SendBufferLen`, and
`sendThreads` counts the threads that have been created.  The others record what has happened: the
messages for which `SendMessage` has returned 0, each with its connection, the bytes written to
each connection, and the connections that have lost a message. -/
structure Server where
  iSendBufferSize : ℕ
  sendBuffer : Option Message
  iClientFD : ℕ
  bStopClient : Bool
  bStopServer : Bool
  sendThreads : ℕ
  accepted : List (ℕ × List UInt8)
  written : ℕ → List UInt8
  lost : Finset ℕ

/-- The messages that `SendMessage` has accepted during a connection. -/
def Server.acceptedDuring (s : Server) (c : ℕ) : List (List UInt8) :=
  (s.accepted.filter (fun x => x.1 = c)).map Prod.snd

/-! ### The threads -/

/-- `ServerThread`, the `SendThread` of each connection, and those who call `SendMessage`. -/
inductive Thread (U : Type*) where
  | server
  | sender (k : ℕ)
  | caller (u : U)
  deriving DecidableEq

/-- Where a thread is: `ServerRoutine`, up to `serverDone`; `SendThread`, up to `senderDone`; and
`SendMessage`. -/
inductive Point where
  | accepting
  | accepted
  | cleared
  | serving
  | serverDone
  | unstarted (k : ℕ)
  | check
  | lock
  | waiting
  | holding (m : Message)
  | writing (fd : ℕ) (m : Message)
  | senderDone
  | idle
  | checked (pData : List UInt8)
  deriving DecidableEq

/-- How `ClientRecvHandle` ends: the client has disconnected, `read` fails, or `select` does. -/
inductive Ending where
  | disconnected
  | readFails
  | selectFails
  deriving DecidableEq

/-- How `ClientRecvHandle` ends, how many bytes `write` takes, and what `SendMessage` is called
with. -/
structure Input where
  ending : Ending := .disconnected
  taken : ℕ := 0
  pData : List UInt8 := []

abbrev Result : Type := Outcome Point Server Unit Unit

namespace Server

/-- `while (!m_bStopServer)`, and `accept`, which succeeds -/
def accept (s : Server) : Result :=
  if s.bStopServer then { point := .serverDone, shared := s }
  else { point := .accepted, shared := { s with iClientFD := s.iClientFD + 1 } }

/-- The end of `ClientRecvHandle` -/
def clientRecvHandle (s : Server) : Ending → Result
  | .disconnected => { point := .accepting, shared := { s with bStopClient := true } }
  | .readFails =>
      { point := .accepting, shared := { s with bStopClient := true, bStopServer := true } }
  | .selectFails => { point := .accepting, shared := s }

/-- `while (!m_bStopClient && m_iClientFD > 0)` -/
def sendCheck (s : Server) : Result :=
  if s.bStopClient = false ∧ 0 < s.iClientFD then { point := .lock, shared := s }
  else { point := .senderDone, shared := s }

/-- `SendRoutine` while it has the mutex -/
def take (s : Server) : Result :=
  match s.sendBuffer with
  | none => { point := .waiting, shared := s }
  | some m => { point := .holding m, shared := { s with sendBuffer := none } }

/-- `write` takes the first `taken` bytes of the message. -/
def write (s : Server) (fd : ℕ) (m : Message) (taken : ℕ) : Option Result :=
  if taken ≤ m.bytes.length then
    some
      { point := .check
        shared := { s with
          written := Function.update s.written fd (s.written fd ++ m.bytes.take taken)
          lost := if taken < m.bytes.length then insert m.conn s.lost else s.lost } }
  else none

/-- `SendMessage` is called, with no more than `m_iSendBufferSize` bytes, and looks for a client. -/
def sendMessageCheck (s : Server) (pData : List UInt8) : Option Result :=
  if pData.length ≤ s.iSendBufferSize then
    some
      { point := if s.iClientFD = 0 ∨ s.bStopClient then .idle else .checked pData
        shared := s }
  else none

/-- `SendMessage` while it has the mutex -/
def sendMessage (s : Server) (pData : List UInt8) : Result :=
  match s.sendBuffer with
  | some _ => { point := .idle, shared := s }
  | none =>
      { point := .idle
        shared := { s with
          sendBuffer := if pData = [] then none else some ⟨pData, s.iClientFD, s.accepted.length⟩
          accepted := s.accepted ++ [(s.iClientFD, pData)] }
        notes := [.signal ()] }

/-- What a thread does. -/
def enter (s : Server) (i : Input) : Point → Option Result
  | .accepting => some s.accept
  | .accepted => some { point := .cleared, shared := { s with bStopClient := false } }
  | .cleared => some { point := .serving, shared := { s with sendThreads := s.iClientFD } }
  | .serving => some (s.clientRecvHandle i.ending)
  | .serverDone => none
  | .unstarted k => if k ≤ s.sendThreads then some { point := .check, shared := s } else none
  | .check => some s.sendCheck
  | .lock => some s.take
  | .waiting => some s.take
  | .holding m => some { point := .writing s.iClientFD m, shared := s }
  | .writing fd m => s.write fd m i.taken
  | .senderDone => none
  | .idle => s.sendMessageCheck i.pData
  | .checked pData => some (s.sendMessage pData)

end Server

/-- The net server. -/
def monitor : Monitor Point Server Unit Input Unit where
  waits
    | .waiting => some ()
    | _ => none
  enter p i s := s.enter i p

/-- `StartServer`, before the first client; the connections are numbered from one on. -/
def start (U : Type*) (iSendBufferSize : ℕ) :
    Monitor.State (Thread U) Point Server Unit Unit :=
  Monitor.start
    { iSendBufferSize := iSendBufferSize
      sendBuffer := none
      iClientFD := 0
      bStopClient := false
      bStopServer := false
      sendThreads := 0
      accepted := []
      written := fun _ => []
      lost := ∅ }
    (fun
      | .server => .accepting
      | .sender k => .unstarted (k + 1)
      | .caller _ => .idle)

end NetServer
