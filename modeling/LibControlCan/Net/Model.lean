import LibControlCan.Net.Request
import LibControlCan.WriteLine
import LibControlCan.Receive.Model

/-! # The client object

    `CanImpCanNet::connect`, `VCI_OpenDevice`, `VCI_CloseDevice`, the
    commands that send one request line, and `VCI_Transmit`.

    Every function takes, besides its arguments, the schedules of the
    `io_context_.run()` calls that it makes.  Besides the returned value
    and the object it leaves the log of its writes: for each call of
    `write_line` the connection, the line, and how much of it went out. -/

namespace LibControlCan

open Asio ByteMemory

/-! ## Section 1: connect -/

/-- The `async_connect` operation. -/
inductive ConnectOp where
  | waiting
  /-- The operation is over and its handler is queued. -/
  | ready (result : ErrorCode)
  | done
  deriving DecidableEq, Repr

/-- What can happen while `io_context_.run()` is running. -/
inductive ConnectEvent where
  | establish
  | refuse (e : ErrorCode)
  | expire
  | runConnect
  | runTimer
  deriving DecidableEq, Repr

/-- `connect` inside `io_context_.run()`. -/
structure ConnectLoop where
  op : ConnectOp
  timer : Timer
  error : ErrorCode
  deriving DecidableEq, Repr

namespace ConnectLoop

/-- The handler that `connect` passes to `async_connect`. -/
def connectHandler (resultError : ErrorCode) (s : ConnectLoop) : ConnectLoop :=
  { op := .done
    error := resultError
    timer := if operationCanceled ≠ resultError.value then s.timer.cancel else s.timer }

/-- The handler of the timer when it sees no error. -/
def timerHandler (s : ConnectLoop) : ConnectLoop :=
  { timer := .idle
    error := ⟨timedOut⟩
    op := match s.op with
      | .waiting => .ready operationAborted
      | op => op }

/-- One event. -/
def step (s : ConnectLoop) : ConnectEvent → Option ConnectLoop
  | .establish => if s.op = .waiting then some { s with op := .ready .ok } else none
  | .refuse e => if s.op = .waiting ∧ e.isError then some { s with op := .ready e } else none
  | .expire =>
    match s.timer with
    | .armed _ => some { s with timer := .expired }
    | _ => none
  | .runConnect =>
    match s.op with
    | .ready result => some (s.connectHandler result)
    | _ => none
  | .runTimer =>
    match s.timer with
    | .expired => some s.timerHandler
    | .cancelled => some { s with timer := .idle }
    | _ => none

def start (timeoutMs : Int) : ConnectLoop :=
  { op := .waiting, timer := .armed timeoutMs, error := .ok }

def finished (s : ConnectLoop) : Bool := s.op == .done && s.timer == .idle

end ConnectLoop

/-- The transition system of one `io_context_.run()` of `connect`. -/
def connectSystem : LTS.System ConnectLoop ConnectEvent where
  init s := ∃ timeoutMs, s = ConnectLoop.start timeoutMs
  step := ConnectLoop.step

/-- What happens to a call of `connect`. -/
inductive ConnectRun where
  /-- `resolve` fails and throws. -/
  | resolveFails
  | run (sched : List ConnectEvent)
  deriving DecidableEq, Repr

/-- The exception that `resolve` throws. -/
inductive SystemError where
  | resolve
  deriving DecidableEq, Repr

/-- `CanImpCanNet::connect` after the name is resolved. -/
def connect (timeoutMs : Int) (sched : List ConnectEvent) : Option Int :=
  (connectSystem.exec (.start timeoutMs) sched).bind fun s =>
    if s.finished then some (if s.error.isError then s.error.value else 0) else none

/-! ## Section 2: The calls that send a line -/

/-- A call of `write_line`: how many bytes of the line went out, and where. -/
structure WriteRecord where
  conn : Nat
  req : Request
  n : Nat
  deriving DecidableEq, Repr

/-- What a call leaves. -/
structure Reply where
  ret : Except SystemError VciReturnType
  net : CanImpCanNet
  /-- Ghost: the writes of the call, in order. -/
  writes : List WriteRecord

namespace CanImpCanNet

/-- The constructor.  `controlIni` are `IpAddr` and `IpPort` of section
    `Server` of `control_can.ini`, if there is such a file. -/
def new (controlIni : Option (List UInt8 × List UInt8)) : CanImpCanNet :=
  { strSockAddr := (controlIni.map Prod.fst).getD []
    strSockPort := (controlIni.map Prod.snd).getD []
    connected := false
    sockOpen := false
    rxBuff := []
    conn := 0 }

/-- `_connected.store(false)` and `client_socket_.close()`. -/
def drop (net : CanImpCanNet) : CanImpCanNet := { net with connected := false, sockOpen := false }

/-- A call that returns before it writes anything. -/
def returns (net : CanImpCanNet) (ret : VciReturnType) (sched : List WriteEvent) : Option Reply :=
  if sched = [] then some ⟨.ok ret, net, []⟩ else none

/-- What the seven commands do with their line: write it, give up the
    connection on any error, and compare the size. -/
def command (net : CanImpCanNet) (req : Request) (sched : List WriteEvent) : Option Reply :=
  let size := req.line.length
  (writeLine size .ok sched).map fun w =>
    { ret := .ok (if (size : Int) ≠ w.ret then .statusErr else .statusOk)
      net := if w.ec.isError then net.drop else net
      writes := [⟨net.conn, req, w.written⟩] }

/-- A command on a client that has to be connected. -/
def request (net : CanImpCanNet) (req : Request) (sched : List WriteEvent) : Option Reply :=
  if !net.connected then net.returns .statusErr sched else net.command req sched

/-- `VCI_OpenDevice`.  `conn` is the run of `connect`, when it is called. -/
def vciOpenDevice (net : CanImpCanNet) (deviceType deviceInd reserved : UInt32)
    (conn : Option ConnectRun) (sched : List WriteEvent) : Option Reply :=
  let req := Request.openDevice deviceType deviceInd reserved
  if net.strSockAddr.length ≤ 0 || net.strSockPort.length ≤ 0 then
    if conn = none then net.returns .statusNetConnFail sched else none
  else if !net.connected then
    match conn with
    | none => none
    | some .resolveFails => if sched = [] then some ⟨.error .resolve, net, []⟩ else none
    | some (.run csched) =>
      -- `async_connect` opens the socket; only a connect that returns 0 counts as one.
      (connect 400 csched).bind fun ec =>
        if ec ≠ 0 then { net with sockOpen := true }.returns .statusNetConnFail sched
        else { net with connected := true, sockOpen := true, conn := net.conn + 1 }.command req sched
  else if conn = none then net.command req sched
  else none

/-- `VCI_CloseDevice`. -/
def vciCloseDevice (net : CanImpCanNet) (deviceType deviceInd : UInt32)
    (sched : List WriteEvent) : Option Reply :=
  (net.request (.closeDevice deviceType deviceInd) sched).map fun r =>
    match r.ret with
    -- Only after a line that was sent is the socket closed here.
    | .ok .statusOk => { r with net := r.net.drop }
    | _ => r

/-- `VCI_InitCAN`. -/
def vciInitCAN (net : CanImpCanNet) (deviceType deviceInd canInd : UInt32)
    (initConfig : VciInitConfig) (sched : List WriteEvent) : Option Reply :=
  net.request (.initCAN deviceType deviceInd canInd initConfig) sched

/-- `VCI_ReadErrInfo`; a null `pErrInfo` is `none`. -/
def vciReadErrInfo (net : CanImpCanNet) (deviceType deviceInd canInd : UInt32)
    (pErrInfo : Option VciErrInfo) (sched : List WriteEvent) : Option Reply :=
  match pErrInfo with
  | none => net.returns .statusErr sched
  | some errInfo => net.request (.readErrInfo deviceType deviceInd canInd errInfo) sched

/-- `VCI_ClearBuffer`. -/
def vciClearBuffer (net : CanImpCanNet) (deviceType deviceInd canInd : UInt32)
    (sched : List WriteEvent) : Option Reply :=
  net.request (.clearBuffer deviceType deviceInd canInd) sched

/-- `VCI_StartCAN`. -/
def vciStartCAN (net : CanImpCanNet) (deviceType deviceInd canInd : UInt32)
    (sched : List WriteEvent) : Option Reply :=
  net.request (.startCAN deviceType deviceInd canInd) sched

/-- `VCI_ResetCAN`. -/
def vciResetCAN (net : CanImpCanNet) (deviceType deviceInd canInd : UInt32)
    (sched : List WriteEvent) : Option Reply :=
  net.request (.resetCAN deviceType deviceInd canInd) sched

/-- `VCI_ReadBoardInfo`, `VCI_ReadCANStatus`, `VCI_GetReference` and
    `VCI_SetReference` ignore their arguments and fail. -/
def vciReadBoardInfo (net : CanImpCanNet) (sched : List WriteEvent) : Option Reply :=
  net.returns .statusErr sched

def vciReadCANStatus (net : CanImpCanNet) (sched : List WriteEvent) : Option Reply :=
  net.returns .statusErr sched

def vciGetReference (net : CanImpCanNet) (sched : List WriteEvent) : Option Reply :=
  net.returns .statusErr sched

def vciSetReference (net : CanImpCanNet) (sched : List WriteEvent) : Option Reply :=
  net.returns .statusErr sched

/-- `VCI_GetReceiveNum`, connected or not. -/
def vciGetReceiveNum : UInt32 := 1

/-- The loop of `VCI_Transmit` over the frames that are left, with one
    schedule for each `write_line` it makes.  Unlike the commands it gives
    up the connection only when `write_line` returned a negative value. -/
def transmitLoop (deviceType deviceInd canInd : UInt32) :
    CanImpCanNet → ErrorCode → List VciCanObj → List (List WriteEvent) → Option Reply
  | net, _, [], [] => some ⟨.ok .statusOk, net, []⟩
  | net, ec, obj :: pSend, sched :: scheds =>
    let req := Request.transmit deviceType deviceInd canInd obj
    (writeLine req.line.length ec sched).bind fun w =>
      -- `ec` is declared outside the loop, so each write finds the value of the one before.
      let net' := if w.ec.isError && w.ret < 0 then net.drop else net
      let record : WriteRecord := ⟨net.conn, req, w.written⟩
      if w.ret ≠ req.line.length then
        if scheds = [] then some ⟨.ok .statusErr, net', [record]⟩ else none
      else
        (transmitLoop deviceType deviceInd canInd net' w.ec pSend scheds).map fun r =>
          { r with writes := record :: r.writes }
  | _, _, _, _ => none

/-- `VCI_Transmit` for the frames `pSend[0..len)`. -/
def vciTransmit (net : CanImpCanNet) (deviceType deviceInd canInd : UInt32)
    (pSend : List VciCanObj) (scheds : List (List WriteEvent)) : Option Reply :=
  if !net.connected then
    if scheds = [] then some ⟨.ok .statusErr, net, []⟩ else none
  else transmitLoop deviceType deviceInd canInd net .ok pSend scheds

/-! ## Section 3: What the calls do -/

theorem returns_eq_some {net : CanImpCanNet} {ret : VciReturnType} {sched : List WriteEvent}
    {r : Reply} (h : net.returns ret sched = some r) : r = ⟨.ok ret, net, []⟩ := by
  unfold returns at h
  split at h
  · exact (Option.some.inj h).symm
  · cases h

/-- A command gives up the connection exactly when its write left an error,
    and reports success exactly when it did not. -/
theorem command_eq_some {net : CanImpCanNet} {req : Request} {sched : List WriteEvent} {r : Reply}
    (h : net.command req sched = some r) :
    ∃ w, writeLine req.line.length .ok sched = some w ∧
      r = { ret := .ok (if w.ec = .ok then .statusOk else .statusErr)
            net := if w.ec = .ok then net else net.drop
            writes := [⟨net.conn, req, w.written⟩] } := by
  obtain ⟨w, hw, rfl⟩ := Option.map_eq_some_iff.mp h
  refine ⟨w, hw, ?_⟩
  have hret : (req.line.length : Int) = w.ret ↔ w.ec = .ok := by
    rw [eq_comm, (writeLine_spec hw).ret, writeReturn_eq_len req.line_pos]
  by_cases hok : w.ec = .ok
  · simp [hret.mpr hok, hok]
  · have herr : w.ec.isError = true := ErrorCode.isError_iff_ne.mpr hok
    have hne : ¬ (req.line.length : Int) = w.ret := fun heq => hok (hret.mp heq)
    simp [hne, hok, herr]

/-- The ini file gave an address and a port. -/
def Configured (net : CanImpCanNet) : Prop := net.strSockAddr ≠ [] ∧ net.strSockPort ≠ []

/-- The ways through `VCI_OpenDevice`, by the run of `connect` that it makes. -/
inductive OpenPath (net : CanImpCanNet) (t i rsv : UInt32) (sched : List WriteEvent) (r : Reply) :
    Option ConnectRun → Prop where
  | unconfigured : ¬ net.Configured → r = ⟨.ok .statusNetConnFail, net, []⟩ →
      OpenPath net t i rsv sched r none
  | unresolved : net.Configured → net.connected = false → r = ⟨.error .resolve, net, []⟩ →
      OpenPath net t i rsv sched r (some .resolveFails)
  | failed (csched : List ConnectEvent) (ec : Int) : net.Configured → net.connected = false →
      connect 400 csched = some ec → ec ≠ 0 →
      r = ⟨.ok .statusNetConnFail, { net with sockOpen := true }, []⟩ →
      OpenPath net t i rsv sched r (some (.run csched))
  | connects (csched : List ConnectEvent) : net.Configured → net.connected = false →
      connect 400 csched = some 0 →
      { net with connected := true, sockOpen := true, conn := net.conn + 1 }.command
        (.openDevice t i rsv) sched = some r →
      OpenPath net t i rsv sched r (some (.run csched))
  | reuses : net.Configured → net.connected = true →
      net.command (.openDevice t i rsv) sched = some r → OpenPath net t i rsv sched r none

theorem openPath_of_vciOpenDevice {net : CanImpCanNet} {t i rsv : UInt32}
    {conn : Option ConnectRun} {sched : List WriteEvent} {r : Reply}
    (h : net.vciOpenDevice t i rsv conn sched = some r) : OpenPath net t i rsv sched r conn := by
  unfold vciOpenDevice at h
  by_cases hini : (decide (net.strSockAddr.length ≤ 0) || decide (net.strSockPort.length ≤ 0)) = true
  · have hnot : ¬ net.Configured := by
      rintro ⟨haddr, hport⟩
      simp [haddr, hport] at hini
    rw [if_pos hini] at h
    by_cases hc : conn = none
    · rw [if_pos hc] at h
      subst hc
      exact .unconfigured hnot (returns_eq_some h)
    · rw [if_neg hc] at h
      cases h
  · have hconf : net.Configured := by simpa [Configured] using hini
    rw [if_neg hini] at h
    cases hup : net.connected with
    | true =>
      simp only [hup, Bool.not_true, Bool.false_eq_true, if_false] at h
      by_cases hc : conn = none
      · rw [if_pos hc] at h
        subst hc
        exact .reuses hconf hup h
      · rw [if_neg hc] at h
        cases h
    | false =>
      simp only [hup, Bool.not_false, if_true] at h
      -- Without a run of `connect` there is no such call.
      match conn, h with
      | some .resolveFails, h =>
        by_cases hs : sched = []
        · simp only [hs, if_true, Option.some.injEq] at h
          exact .unresolved hconf hup h.symm
        · simp [hs] at h
      | some (.run csched), h =>
        obtain ⟨ec, hec, h⟩ := Option.bind_eq_some_iff.mp h
        by_cases hz : ec ≠ 0
        · rw [if_pos hz] at h
          exact .failed csched ec hconf hup hec hz (hup ▸ returns_eq_some h)
        · rw [if_neg hz] at h
          obtain rfl : ec = 0 := by simpa using hz
          exact .connects csched hconf hup hec h

/-- `VCI_OpenDevice` sends nothing and does not succeed, or it connects
    first, or it is connected already. -/
theorem vciOpenDevice_cases {net : CanImpCanNet} {t i rsv : UInt32} {conn : Option ConnectRun}
    {sched : List WriteEvent} {r : Reply} (h : net.vciOpenDevice t i rsv conn sched = some r) :
    (r.writes = [] ∧ r.ret ≠ .ok .statusOk ∧ ∃ sock, r.net = { net with sockOpen := sock }) ∨
    (net.connected = false ∧ (∃ csched, conn = some (.run csched) ∧ connect 400 csched = some 0) ∧
      { net with connected := true, sockOpen := true, conn := net.conn + 1 }.command
        (.openDevice t i rsv) sched = some r) ∨
    (net.connected = true ∧ net.command (.openDevice t i rsv) sched = some r) := by
  cases openPath_of_vciOpenDevice h with
  | unconfigured _ hr =>
    subst hr
    exact Or.inl ⟨rfl, nofun, net.sockOpen, rfl⟩
  | unresolved _ _ hr =>
    subst hr
    exact Or.inl ⟨rfl, nofun, net.sockOpen, rfl⟩
  | failed csched ec _ _ _ _ hr =>
    subst hr
    exact Or.inl ⟨rfl, nofun, true, rfl⟩
  | connects csched _ hdown hec hcmd => exact Or.inr (Or.inl ⟨hdown, ⟨csched, rfl, hec⟩, hcmd⟩)
  | reuses _ hup hcmd => exact Or.inr (Or.inr ⟨hup, hcmd⟩)

/-- A disconnected client connects before it sends an open request. -/
theorem vciOpenDevice_reconnects {net : CanImpCanNet} {t i rsv : UInt32}
    {conn : Option ConnectRun} {sched : List WriteEvent} {r : Reply}
    (hdown : net.connected = false) (h : net.vciOpenDevice t i rsv conn sched = some r)
    (hok : r.ret = .ok .statusOk) : r.net.conn = net.conn + 1 := by
  rcases vciOpenDevice_cases h with ⟨-, hne, -⟩ | ⟨-, -, hcmd⟩ | ⟨hup, -⟩
  · exact absurd hok hne
  · obtain ⟨w, -, rfl⟩ := command_eq_some hcmd
    by_cases hw : w.ec = .ok <;> simp [hw, drop]
  · rw [hdown] at hup
    cases hup

end CanImpCanNet

end LibControlCan
