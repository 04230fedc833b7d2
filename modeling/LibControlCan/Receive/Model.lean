import LibControlCan.LineProcess
import LibControlCan.Framework.System
import LibControlCan.Framework.Lines
import LibControlCan.Framework.Asio

/-! # VCI_Receive

    `CanImpCanNet::async_read` and `CanImpCanNet::VCI_Receive`.

    While `VCI_Receive` is inside `io_context_.run()` it has at most one
    `async_read_until` on the socket and one wait on the deadline timer.
    `ReadLoop` is the state during that time and `ReadEvent` lists what can
    happen next: the network delivers bytes or an error to a read that is
    waiting, the deadline passes, or the context runs a queued handler.  A
    schedule (a list of events) fixes every segmentation of the stream and
    every order of the two handlers; `vciReceive` runs the whole call under
    a schedule.

    Bytes of `rx_buff_` carry, as a ghost, the number of the connection
    they were received on. -/

namespace LibControlCan

open ByteMemory Asio Lines Bytes

/-! ## Section 1: The receive buffer -/

/-- A byte of `rx_buff_`. -/
structure RxByte where
  val : UInt8
  /-- Ghost: the connection that the byte was received on. -/
  conn : Nat
  deriving DecidableEq, Repr

/-- The delimiter of `async_read_until`. -/
def isNewline (b : RxByte) : Bool := b.val == 10

/-- The text of a piece of the buffer. -/
def vals (bs : List RxByte) : List UInt8 := bs.map RxByte.val

/-- Bytes as they come in on connection `conn`. -/
def onConn (conn : Nat) (bs : List UInt8) : List RxByte := bs.map fun b => ⟨b, conn⟩

/-- `std::find(begin, begin + avail_num, '\n')` on the buffer: the line
    before the first newline and what `consume` leaves. -/
def findLine (rxBuff : List RxByte) : Option (List RxByte × List RxByte) :=
  let pos := rxBuff.findIdx isNewline
  if pos = rxBuff.length then none else some (rxBuff.take pos, rxBuff.drop (pos + 1))

/-! ## Section 2: The state inside `io_context_.run()` -/

/-- The `async_read_until` operation. -/
inductive ReadOp where
  /-- No read is outstanding. -/
  | idle
  /-- The read waits for data. -/
  | waiting
  /-- The read got `chunk` and its completion is queued.  A read that
      found its delimiter already buffered got the empty chunk. -/
  | ready (chunk : List RxByte)
  /-- The read failed and its completion is queued. -/
  | failed (e : ErrorCode)
  deriving DecidableEq, Repr

/-- Bytes that a completed read has taken from the socket and that are not
    in `rx_buff_` yet. -/
def ReadOp.chunk : ReadOp → List RxByte
  | ready bs => bs
  | _ => []

/-- What can happen while `io_context_.run()` is running. -/
inductive ReadEvent where
  /-- The waiting read gets these bytes. -/
  | arrive (bs : List UInt8)
  /-- The waiting read fails. -/
  | fail (e : ErrorCode)
  /-- The deadline passes. -/
  | expire
  /-- The completion of the read runs. -/
  | runRead
  /-- The handler of the deadline wait runs. -/
  | runTimer
  deriving DecidableEq, Repr

/-- The bytes that an event brings in. -/
def ReadEvent.bytes : ReadEvent → List UInt8
  | arrive bs => bs
  | _ => []

/-- The bytes that a schedule brings in on connection `conn`. -/
def arrivals (conn : Nat) (sched : List ReadEvent) : List RxByte :=
  sched.flatMap fun ev => onConn conn ev.bytes

/-- `VCI_Receive` inside `io_context_.run()`. -/
structure ReadLoop where
  rxBuff : List RxByte
  /-- `can_objs_`, `len_` and `read_cnt_` of `asyncReadParam`. -/
  canObjs : Nat
  len : Nat
  readCnt : Nat
  ec : ErrorCode
  read : ReadOp
  timer : Timer
  mem : Memory
  /-- Ghost: the number of the connection. -/
  conn : Nat
  /-- Ghost: the bytes taken from the socket by this call. -/
  arrived : List RxByte
  /-- Ghost: the bytes that this call consumed from `rx_buff_`. -/
  consumed : List RxByte
  /-- Ghost: the arguments of the calls of `line_process`, in order. -/
  calls : List (List RxByte × Nat)

namespace ReadLoop

/-- `line_process(line, dst)` and `rx_buff_.consume(pos - begin + 1)`. -/
def processLine (s : ReadLoop) (line rest : List RxByte) (dst : Nat) : ReadLoop :=
  { s with
    mem := (lineProcess (vals line) dst s.mem).2
    rxBuff := rest
    consumed := s.consumed ++ s.rxBuff.take (line.length + 1)
    calls := s.calls ++ [(line, dst)] }

/-- `CanImpCanNet::async_read`. -/
def asyncRead (s : ReadLoop) : ReadLoop :=
  if s.readCnt ≥ s.len then { s with timer := s.timer.cancel }
  else if s.rxBuff.any isNewline then { s with read := .ready [] }
  else { s with read := .waiting }

/-- The handler that `async_read` passes to `async_read_until`. -/
def readHandler (resultError : ErrorCode) (s : ReadLoop) : ReadLoop :=
  let s := { s with ec := resultError, read := .idle }
  match findLine s.rxBuff with
  | some (line, rest) =>
    if resultError.isError then s
    else
      let s := s.processLine line rest s.canObjs
      if s.readCnt < s.len then
        asyncRead { s with readCnt := s.readCnt + 1, canObjs := s.canObjs + VciCanObj.size }
      else { s with timer := s.timer.cancel }
  | none => s

/-- A completed socket read of the composed `async_read_until`: commit the
    bytes, and go on reading until the delimiter is there. -/
def readCompleted (chunk : List RxByte) (s : ReadLoop) : ReadLoop :=
  let s := { s with rxBuff := s.rxBuff ++ chunk }
  if s.rxBuff.any isNewline then s.readHandler .ok else { s with read := .waiting }

/-- The handler of the deadline wait when it sees no error:
    `client_socket_.cancel()` aborts a read that is still waiting. -/
def timerHandler (s : ReadLoop) : ReadLoop :=
  match s.read with
  | .waiting => { s with timer := .idle, read := .failed operationAborted }
  | _ => { s with timer := .idle }

/-- One event. -/
def step (s : ReadLoop) : ReadEvent → Option ReadLoop
  | .arrive bs =>
    if s.read = .waiting ∧ bs ≠ [] then
      let chunk := onConn s.conn bs
      some { s with read := .ready chunk, arrived := s.arrived ++ chunk }
    else none
  | .fail e => if s.read = .waiting ∧ e.isError then some { s with read := .failed e } else none
  | .expire =>
    match s.timer with
    | .armed _ => some { s with timer := .expired }
    | _ => none
  | .runRead =>
    match s.read with
    | .ready chunk => some (s.readCompleted chunk)
    | .failed e => some (s.readHandler e)
    | _ => none
  | .runTimer =>
    match s.timer with
    | .expired => some s.timerHandler
    | .cancelled => some { s with timer := .idle }
    | _ => none

/-- `VCI_Receive` up to `io_context_.run()`. -/
def start (rxBuff : List RxByte) (conn : Nat) (pReceive len : Nat) (waitTime : Int) (m : Memory) :
    ReadLoop :=
  { asyncRead
      { rxBuff, canObjs := pReceive, len, readCnt := 0, ec := .ok, read := .idle, timer := .idle,
        mem := m, conn, arrived := [], consumed := [], calls := [] } with
    timer := .armed waitTime }

/-- `io_context_.run()` returns: no handler is outstanding. -/
def done (s : ReadLoop) : Bool := s.read == .idle && s.timer == .idle

/-- The loop of `VCI_Receive` after `io_context_.run()`.  The first
    argument is `len - read_num`, a bound on the rounds to go. -/
def postProcess (connected : Bool) (pReceive : Nat) : Nat → Nat → ReadLoop → Nat × ReadLoop
  | 0, readNum, s => (readNum, s)
  | fuel + 1, readNum, s =>
    if connected && s.rxBuff.length > 0 && readNum < s.len then
      match findLine s.rxBuff with
      | none => (readNum, s)
      | some (line, rest) =>
        postProcess connected pReceive fuel (readNum + 1)
          (s.processLine line rest (pReceive + VciCanObj.size * readNum))
    else (readNum, s)

/-- The error is not a cancellation, so the connection is given up. -/
def dead (s : ReadLoop) : Bool :=
  s.ec.isError && s.ec.value != operationCanceled && s.ec.value != operationAborted.value

end ReadLoop

/-! ## Section 3: The call -/

/-- The client object. -/
structure CanImpCanNet where
  strSockAddr : List UInt8
  strSockPort : List UInt8
  connected : Bool
  /-- `client_socket_` is open. -/
  sockOpen : Bool
  rxBuff : List RxByte
  /-- Ghost: the number of successful connects. -/
  conn : Nat
  deriving DecidableEq, Repr

/-- A connected client with an empty buffer. -/
def freshClient : CanImpCanNet :=
  { strSockAddr := ascii "127.0.0.1", strSockPort := ascii "9999", connected := true,
    sockOpen := true, rxBuff := [], conn := 1 }

/-- What a call of `VCI_Receive` leaves. -/
structure Received where
  /-- The returned value. -/
  num : Nat
  net : CanImpCanNet
  mem : Memory
  /-- Ghosts of the call, as in `ReadLoop`. -/
  arrived : List RxByte
  consumed : List RxByte
  calls : List (List RxByte × Nat)

/-- `VCI_Receive` after `io_context_.run()`. -/
def receiveReturn (net : CanImpCanNet) (pReceive : Nat) (s : ReadLoop) : Received :=
  let connected := net.connected && !s.dead
  let r := s.postProcess connected pReceive (s.len - s.readCnt) s.readCnt
  { num := r.1
    net := { net with connected, sockOpen := net.sockOpen && !s.dead, rxBuff := r.2.rxBuff }
    mem := r.2.mem
    arrived := r.2.arrived
    consumed := r.2.consumed
    calls := r.2.calls }

/-- The transition system of one `io_context_.run()` of `VCI_Receive`. -/
def readSystem : LTS.System ReadLoop ReadEvent where
  init s := ∃ rxBuff conn pReceive len waitTime m,
    0 < len ∧ s = ReadLoop.start rxBuff conn pReceive len waitTime m
  step := ReadLoop.step

/-- `VCI_Receive` under a schedule; `none` when the schedule is not a run
    of the call from its beginning to its end.  A null `pReceive` is `none`. -/
def vciReceive (net : CanImpCanNet) (pReceive : Option Nat) (len : Nat) (waitTime : Int)
    (sched : List ReadEvent) (m : Memory) : Option Received :=
  match pReceive with
  | none => if sched = [] then some ⟨0, net, m, [], [], []⟩ else none
  | some p =>
    if !net.connected || len == 0 then
      if sched = [] then some ⟨0, net, m, [], [], []⟩ else none
    else
      (readSystem.exec (.start net.rxBuff net.conn p len waitTime m) sched).bind fun s =>
        if s.done then some (receiveReturn net p s) else none

end LibControlCan
