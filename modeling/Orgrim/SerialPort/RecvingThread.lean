import Orgrim.SerialPort.Frame
import Orgrim.SerialPort.HexString

/-!
# The receiving thread of the serial port

`recvingThread` is the loop of `SerialPort::RecvingThread` as a `Reader`: one iteration of
the loop for each call of `read`, with the five states of `UART_RECV_STATE`.  An
iteration lists what it does outside its own variables: the copies into `errorBuff`, the
prints, the frames handed to `HandleRecvData` and the callbacks.

The counters that never hold a negative number are natural numbers; `errorBuffOffset` can
become negative and is an integer.  Memories are unbounded here, so that staying inside
`buf` and `errorBuff` is a statement about offsets: `Event.InBounds` for what an iteration
does, and `ReadInBounds` for its `read`.
-/

namespace SerialPort

/-- `UART_RECV_STATE` -/
inductive UartRecvState where
  | waitMagicNumber
  | waitMagicNumberSecondByte
  | waitLength
  | waitLengthSecondByte
  | waitRestFrameAndData
deriving DecidableEq

/-- The variables of `RecvingThread` that live over an iteration. -/
structure ThreadState where
  state : UartRecvState
  lenTemp : ℕ
  recvLen : ℕ
  last : ℕ
  buf : Memory UInt8
  errorBuff : Memory UInt8
  errorBuffOffset : ℤ

/-- What an iteration does outside its variables. -/
inductive Event where
  /-- `memcpy(errorBuff + offset, buf, size)` -/
  | errorCopy (offset size : ℤ)
  /-- `PrintAsHexString(3, errorBuff, len)` -/
  | printNoise (errorBuff : Memory UInt8) (len : ℤ)
  /-- `PrintAsHexString(3, pFrame, len)`, in `CheckRecvData` -/
  | printFrame (pFrame : UartFrame) (len : ℕ)
  /-- `HandleRecvData(pFrame)` -/
  | handed (pFrame : UartFrame)
  /-- `m_RecvCallBack(pFrame)` -/
  | callBack (pFrame : UartFrame)

/-- The event stays inside `errorBuff`, `buf` and `arrBuff`. -/
def Event.InBounds : Event → Prop
  | .errorCopy offset size =>
      0 ≤ offset ∧ 0 ≤ size ∧ size ≤ commBufferMaxLen ∧ offset + size ≤ commBufferMaxLen * 2
  | .printNoise errorBuff len => PrintSafe .recvErr errorBuff len.toNat
  | .printFrame pFrame len => PrintSafe .recvErr pFrame len
  | .handed _ => True
  | .callBack _ => True

/-- The variables when the loop is entered; `errorBuff` is not initialised. -/
def ThreadState.start (errorBuff : Memory UInt8) : ThreadState where
  state := .waitMagicNumber
  lenTemp := 0
  recvLen := 0
  last := 0
  buf := fun _ => 0
  errorBuff := errorBuff
  errorBuffOffset := 0

/-- `HandleRecvData`: what it returns, the frame after it, and what it does. -/
def handleRecvData (pFrame : UartFrame) : ℤ × UartFrame × List Event :=
  let (verdict, checked) := checkRecvData pFrame
  if verdict < 0 then
    (-2, checked,
      if pFrame.magic = uartFrameMagicNumber then
        [.printFrame checked (checked.length + uartFrameSizeBeforeWithLength)]
      else [])
  else (0, checked, [.callBack checked])

namespace ThreadState

/-- The number of bytes the iteration asks `read` for. -/
def request (s : ThreadState) : ℕ :=
  match s.state with
  | .waitMagicNumber => 2
  | .waitMagicNumberSecondByte => 1
  | .waitLength => 2
  | .waitLengthSecondByte => 1
  | .waitRestFrameAndData => s.lenTemp - s.last

/-- The offset in `buf` where `read` stores them. -/
def target (s : ThreadState) : ℕ :=
  match s.state with
  | .waitMagicNumber => 0
  | .waitRestFrameAndData => s.recvLen + s.last
  | _ => s.recvLen

/-- The `read` stays inside `buf`. -/
def ReadInBounds (s : ThreadState) : Prop := s.target + s.request ≤ commBufferMaxLen

/-- The variables after the `read`. -/
def received (s : ThreadState) (r : ReadResult UInt8) : ThreadState :=
  { s with buf := s.buf.write s.target r.bytes }

/-- `memcpy(errorBuff + errorBuffOffset, buf, iReadLen); errorBuffOffset += iReadLen` -/
def discard (s : ThreadState) (iReadLen : ℤ) : ThreadState × List Event :=
  ({ s with
      errorBuff := s.errorBuff.write s.errorBuffOffset.toNat (s.buf.slice 0 iReadLen.toNat)
      errorBuffOffset := s.errorBuffOffset + iReadLen },
    [.errorCopy s.errorBuffOffset iReadLen])

/-- `recv_len = 0; state = WAIT_MAGIC_NUMBER` -/
def restart (s : ThreadState) : ThreadState :=
  { s with recvLen := 0, state := .waitMagicNumber }

/-- The iteration in `WAIT_MAGIC_NUMBER`, after its `read`. -/
def onMagicNumber (s : ThreadState) (r : ReadResult UInt8) : ThreadState × List Event :=
  if r.len = 1 ∧ (s.buf 0).toNat = uartFrameMagicNumber >>> 8 then
    ({ s with
        state := .waitMagicNumberSecondByte
        recvLen := s.recvLen + r.bytes.length }, [])
  else if r.len = 2 then
    if (s.buf 1).toNat = uartFrameMagicNumber &&& 0xFF then
      if (s.buf 0).toNat = uartFrameMagicNumber >>> 8 then
        ({ s with state := .waitLength, recvLen := s.recvLen + r.bytes.length }, [])
      else
        ({ s with
            state := .waitMagicNumberSecondByte
            buf := s.buf.write 0 [s.buf 1]
            recvLen := s.recvLen + 1 }, [])
    else s.discard r.len
  else s.discard r.len

/-- The iteration in `WAIT_MAGIC_NUMBER_SECOND_BYTE`, after its `read`. -/
def onMagicNumberSecondByte (s : ThreadState) (r : ReadResult UInt8) :
    ThreadState × List Event :=
  if r.len = 1 ∧ (s.buf s.recvLen).toNat = uartFrameMagicNumber &&& 0xFF then
    ({ s with state := .waitLength, recvLen := s.recvLen + r.bytes.length }, [])
  else s.restart.discard r.len

/-- The end of the iterations that complete the length field: `len_temp` is too large for a
frame, or the rest of the frame is awaited. -/
def onLengthKnown (s : ThreadState) (r : ReadResult UInt8) : ThreadState × List Event :=
  if s.lenTemp > uartFrameMaxSize then s.restart.discard r.len else (s, [])

/-- The iteration in `WAIT_LENGTH`, after its `read`. -/
def onLength (s : ThreadState) (r : ReadResult UInt8) : ThreadState × List Event :=
  if r.len = 1 then
    ({ s with
        state := .waitLengthSecondByte
        lenTemp := (s.buf s.recvLen).toNat
        recvLen := s.recvLen + r.bytes.length }, [])
  else if r.len = 2 then
    onLengthKnown
      { s with
        state := .waitRestFrameAndData
        lenTemp := (((s.buf (s.recvLen + 1)).toNat <<< 8) &&& 0xFF00)
          + ((s.buf s.recvLen).toNat &&& 0xFF)
        recvLen := s.recvLen + r.bytes.length } r
  else (s, [])

/-- The iteration in `WAIT_LENGTH_SECOND_BYTE`, after its `read`. -/
def onLengthSecondByte (s : ThreadState) (r : ReadResult UInt8) : ThreadState × List Event :=
  if r.len = 1 then
    onLengthKnown
      { s with
        state := .waitRestFrameAndData
        lenTemp := s.lenTemp + (((s.buf s.recvLen).toNat <<< 8) &&& 0xFF00)
        recvLen := s.recvLen + r.bytes.length } r
  else (s, [])

/-- The end of a frame: the noise before it is printed and the frame handed over. -/
def handOver (s : ThreadState) : ThreadState × List Event :=
  let noise := if s.errorBuffOffset > 0 then [.printNoise s.errorBuff s.errorBuffOffset] else []
  let handled := handleRecvData s.buf
  ({ s with
      errorBuffOffset := if s.errorBuffOffset > 0 then 0 else s.errorBuffOffset
      last := 0
      state := .waitMagicNumber
      buf := handled.2.1
      recvLen := 0 },
    noise ++ .handed s.buf :: handled.2.2)

/-- The iteration in `WAIT_REST_FRAME_AND_DATA`, after its `read`.  A `read` that fails or
returns nothing is not a short one. -/
def onRestFrameAndData (s : ThreadState) (r : ReadResult UInt8) : ThreadState × List Event :=
  if r.len < (s.lenTemp : ℤ) - s.last ∧ r.len > 0 then
    ({ s with last := s.last + r.bytes.length }, [])
  else s.handOver

/-- One iteration, with the result of its `read`. -/
def iterate (s : ThreadState) (r : ReadResult UInt8) : ThreadState × List Event :=
  match s.state with
  | .waitMagicNumber => (s.received r).onMagicNumber r
  | .waitMagicNumberSecondByte => (s.received r).onMagicNumberSecondByte r
  | .waitLength => (s.received r).onLength r
  | .waitLengthSecondByte => (s.received r).onLengthSecondByte r
  | .waitRestFrameAndData => (s.received r).onRestFrameAndData r

end ThreadState

/-- `SerialPort::RecvingThread` -/
def recvingThread : Reader ThreadState UInt8 Event where
  request := ThreadState.request
  step := ThreadState.iterate

@[simp]
theorem recvingThread_request (s : ThreadState) :
  recvingThread.request s = s.request
  := rfl

@[simp]
theorem recvingThread_step (s : ThreadState) (r : ReadResult UInt8) :
  recvingThread.step s r = s.iterate r
  := rfl

/-- The frames handed to `HandleRecvData` and the callbacks, in order. -/
def delivery : Event → Option Event
  | .handed pFrame => some (.handed pFrame)
  | .callBack pFrame => some (.callBack pFrame)
  | _ => none

/-- The frame of a callback. -/
def calledBack : Event → Option UartFrame
  | .callBack pFrame => some pFrame
  | _ => none

end SerialPort
