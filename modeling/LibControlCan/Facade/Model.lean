import LibControlCan.Direct.Model
import LibControlCan.Net.Model

/-! # The exported functions

    `CanAbstract`, the object behind the exported `VCI_*` functions, and
    the backend that it has at a time.

    An `Env` is what the outside does during one call: the two ini files
    and the libraries on disk, what the kernel functions answer, and the
    schedules of the I/O context.  A call leaves an `Outcome`, which
    records besides the result what the backends did; `CanAbstract.Path`
    says which backends an exported function goes through. -/

namespace LibControlCan

open ByteMemory

/-! ## Section 1: Calls on the network backend -/

/-- The runs of the I/O context during a call. -/
structure Schedules where
  conn : Option ConnectRun
  write : List WriteEvent
  transmit : List (List WriteEvent)
  receive : List ReadEvent

/-- What a call on a `CanImpCanNet` leaves. -/
structure NetServed where
  ret : Except SystemError VciResult
  net : CanImpCanNet
  mem : Memory
  writes : List WriteRecord

/-- The functions that return a `vciReturnType`. -/
def Reply.served (m : Memory) (r : Reply) : NetServed :=
  { ret := r.ret.map VciResult.ofType, net := r.net, mem := m, writes := r.writes }

/-- `VCI_Receive`. -/
def Received.served (r : Received) : NetServed :=
  { ret := .ok (.count (UInt32.ofNat r.num)), net := r.net, mem := r.mem, writes := [] }

/-- A call on the object. -/
def CanImpCanNet.serve (net : CanImpCanNet) (io : Schedules) (m : Memory) :
    VciCall → Option NetServed
  | .openDevice t i r => (net.vciOpenDevice t i r io.conn io.write).map (Reply.served m)
  | .closeDevice t i => (net.vciCloseDevice t i io.write).map (Reply.served m)
  | .device (.readBoardInfo ..) => (net.vciReadBoardInfo io.write).map (Reply.served m)
  | .device (.initCAN t i c p) => (net.vciInitCAN t i c p.pointee io.write).map (Reply.served m)
  | .device (.readErrInfo t i c p) =>
    (net.vciReadErrInfo t i c (p.map Ptr.pointee) io.write).map (Reply.served m)
  | .device (.readCANStatus ..) => (net.vciReadCANStatus io.write).map (Reply.served m)
  | .device (.getReference ..) => (net.vciGetReference io.write).map (Reply.served m)
  | .device (.setReference ..) => (net.vciSetReference io.write).map (Reply.served m)
  | .device (.getReceiveNum ..) =>
    some { ret := .ok (.count CanImpCanNet.vciGetReceiveNum), net, mem := m, writes := [] }
  | .device (.clearBuffer t i c) => (net.vciClearBuffer t i c io.write).map (Reply.served m)
  | .device (.startCAN t i c) => (net.vciStartCAN t i c io.write).map (Reply.served m)
  | .device (.resetCAN t i c) => (net.vciResetCAN t i c io.write).map (Reply.served m)
  | .device (.transmit t i c p) => (net.vciTransmit t i c p.pointee io.transmit).map (Reply.served m)
  | .device (.receive _ _ _ p len wait) =>
    (vciReceive net p len.toNat wait.toInt io.receive m).map Received.served

/-! ## Section 2: Backends -/

/-- The classes of backends. -/
inductive BackendKind where
  | net
  | direct
  deriving DecidableEq, Repr

/-- The object of `can_imp_`. -/
inductive Backend where
  | net (o : CanImpCanNet)
  | direct (o : CanImpDirectCan2)

def Backend.kind : Backend → BackendKind
  | net _ => .net
  | direct _ => .direct

/-- The library that goes with the object when it is destroyed. -/
def Backend.libs : Backend → List Library
  | net _ => []
  | direct o => o.lib.toList

/-- What the outside does during a call. -/
structure Env where
  /-- `IpAddr` and `IpPort` of section `Server` of `control_can.ini`. -/
  controlIni : Option (List UInt8 × List UInt8)
  dir : KernelDir
  kernel : Kernel Memory
  io : Schedules

/-- The exceptions that can leave a call. -/
inductive Failure where
  | network (e : SystemError)
  | load (e : LoadError)
  deriving DecidableEq, Repr

/-- What a call leaves. -/
structure Outcome where
  ret : Except Failure VciResult
  /-- `can_imp_` after the call. -/
  canImp : Option Backend
  mem : Memory
  /-- Ghosts: the backends that were asked, the writes of the network
      backend, the calls to kernel libraries, the libraries released. -/
  asked : List BackendKind
  writes : List WriteRecord
  kernel : List KernelRecord
  released : List Library

/-- A virtual call on a backend. -/
def Backend.serve (env : Env) (call : VciCall) (m : Memory) : Backend → Option Outcome
  | net o => (o.serve env.io m call).map fun r =>
    { ret := r.ret.mapError .network, canImp := some (.net r.net), mem := r.mem, asked := [.net],
      writes := r.writes, kernel := [], released := [] }
  | direct o =>
    let r := o.serve env.kernel m env.dir call
    some
      { ret := r.ret.mapError .load, canImp := some (.direct r.obj), mem := r.world,
        asked := [.direct], writes := [], kernel := r.kernel.toList, released := r.released }

/-! ## Section 3: The facade -/

/-- `CanAbstract`. -/
structure CanAbstract where
  canImp : Option Backend

namespace CanAbstract

/-- The library that goes when the backend does. -/
def libs (cc : CanAbstract) : List Library := cc.canImp.toList.flatMap Backend.libs

/-- `VCI_DeirectOpenCan`. -/
def vciDeirectOpenCan (env : Env) (t i r : UInt32) (cc : CanAbstract) (m : Memory) :
    Option Outcome :=
  (cc.canImp.getD (.direct .new)).serve env (.openDevice t i r) m

/-- `VCI_OpenNetCan`. -/
def vciOpenNetCan (env : Env) (t i r : UInt32) (cc : CanAbstract) (m : Memory) : Option Outcome :=
  (cc.canImp.getD (.net (.new env.controlIni))).serve env (.openDevice t i r) m

/-- `VCI_OpenDevice`.  The new network backend replaces the one there was,
    which is destroyed. -/
def vciOpenDevice (env : Env) (t i r : UInt32) (cc : CanAbstract) (m : Memory) : Option Outcome :=
  ((Backend.net (.new env.controlIni)).serve env (.openDevice t i r) m).bind fun err =>
    if err.ret.toOption = some (.ofType .statusNetConnFail) then
      -- `can_imp_.reset()`, and the direct backend is asked.
      (vciDeirectOpenCan env t i r ⟨none⟩ err.mem).map fun o =>
        { o with
          asked := err.asked ++ o.asked
          writes := err.writes ++ o.writes
          kernel := err.kernel ++ o.kernel
          released := cc.libs ++ o.released }
    else some { err with released := cc.libs ++ err.released }

/-- A call that no backend is there for. -/
def refuse (call : VciCall) (m : Memory) : Outcome :=
  { ret := .ok call.refused, canImp := none, mem := m, asked := [], writes := [], kernel := [],
    released := [] }

/-- `VCI_CloseDevice`. -/
def vciCloseDevice (env : Env) (t i : UInt32) (cc : CanAbstract) (m : Memory) : Option Outcome :=
  match cc.canImp with
  | none => some (refuse (.closeDevice t i) m)
  | some imp => (imp.serve env (.closeDevice t i) m).map fun o =>
    { o with
      canImp := none
      released := o.released ++ o.canImp.toList.flatMap Backend.libs }

/-- What the other functions do: pass the call to the backend, if any. -/
def forward (env : Env) (call : DeviceCall) (cc : CanAbstract) (m : Memory) : Option Outcome :=
  match cc.canImp with
  | none => some (refuse (.device call) m)
  | some imp => imp.serve env (.device call) m

variable (env : Env) (cc : CanAbstract) (m : Memory)

def vciReadBoardInfo (t i : UInt32) (pInfo : Nat) : Option Outcome :=
  cc.forward env (.readBoardInfo t i pInfo) m

def vciInitCAN (t i c : UInt32) (pInitConfig : Ptr VciInitConfig) : Option Outcome :=
  cc.forward env (.initCAN t i c pInitConfig) m

def vciReadErrInfo (t i c : UInt32) (pErrInfo : Option (Ptr VciErrInfo)) : Option Outcome :=
  cc.forward env (.readErrInfo t i c pErrInfo) m

def vciReadCANStatus (t i c : UInt32) (pCANStatus : Nat) : Option Outcome :=
  cc.forward env (.readCANStatus t i c pCANStatus) m

def vciGetReference (t i c refType : UInt32) (pData : Nat) : Option Outcome :=
  cc.forward env (.getReference t i c refType pData) m

def vciSetReference (t i c refType : UInt32) (pData : Nat) : Option Outcome :=
  cc.forward env (.setReference t i c refType pData) m

def vciGetReceiveNum (t i c : UInt32) : Option Outcome := cc.forward env (.getReceiveNum t i c) m

def vciClearBuffer (t i c : UInt32) : Option Outcome := cc.forward env (.clearBuffer t i c) m

def vciStartCAN (t i c : UInt32) : Option Outcome := cc.forward env (.startCAN t i c) m

def vciResetCAN (t i c : UInt32) : Option Outcome := cc.forward env (.resetCAN t i c) m

def vciTransmit (t i c : UInt32) (pSend : Ptr (List VciCanObj)) : Option Outcome :=
  cc.forward env (.transmit t i c pSend) m

def vciReceive (t i c : UInt32) (pReceive : Option Nat) (len : UInt32) (waitTime : Int32) :
    Option Outcome :=
  cc.forward env (.receive t i c pReceive len waitTime) m

end CanAbstract

/-! ## Section 4: The process that uses the library -/

/-- The exported functions. -/
inductive ExportedCall where
  | openDevice (t i r : UInt32)
  | deirectOpenCan (t i r : UInt32)
  | openNetCan (t i r : UInt32)
  | closeDevice (t i : UInt32)
  | device (call : DeviceCall)
  deriving DecidableEq, Repr

/-- The interface function that an exported function stands for. -/
def ExportedCall.vciCall : ExportedCall → VciCall
  | openDevice t i r => .openDevice t i r
  | deirectOpenCan t i r => .openDevice t i r
  | openNetCan t i r => .openDevice t i r
  | closeDevice t i => .closeDevice t i
  | device call => .device call

/-- A call of an exported function on `g_lib_cc`.  The `DWORD` returned is
    `dword` of the result. -/
def CanAbstract.exported (env : Env) (cc : CanAbstract) (m : Memory) :
    ExportedCall → Option Outcome
  | .openDevice t i r => cc.vciOpenDevice env t i r m
  | .deirectOpenCan t i r => cc.vciDeirectOpenCan env t i r m
  | .openNetCan t i r => cc.vciOpenNetCan env t i r m
  | .closeDevice t i => cc.vciCloseDevice env t i m
  | .device (.readBoardInfo t i p) => cc.vciReadBoardInfo env m t i p
  | .device (.initCAN t i c p) => cc.vciInitCAN env m t i c p
  | .device (.readErrInfo t i c p) => cc.vciReadErrInfo env m t i c p
  | .device (.readCANStatus t i c p) => cc.vciReadCANStatus env m t i c p
  | .device (.getReference t i c ref p) => cc.vciGetReference env m t i c ref p
  | .device (.setReference t i c ref p) => cc.vciSetReference env m t i c ref p
  | .device (.getReceiveNum t i c) => cc.vciGetReceiveNum env m t i c
  | .device (.clearBuffer t i c) => cc.vciClearBuffer env m t i c
  | .device (.startCAN t i c) => cc.vciStartCAN env m t i c
  | .device (.resetCAN t i c) => cc.vciResetCAN env m t i c
  | .device (.transmit t i c p) => cc.vciTransmit env m t i c p
  | .device (.receive t i c p len wait) => cc.vciReceive env m t i c p len wait

theorem CanAbstract.exported_device (env : Env) (cc : CanAbstract) (m : Memory)
    (call : DeviceCall) : cc.exported env m (.device call) = cc.forward env call m := by
  cases call <;> rfl

/-- What an exported function does with the backends. -/
inductive CanAbstract.Path (env : Env) (cc : CanAbstract) (m : Memory) :
    ExportedCall → Outcome → Prop where
  /-- `VCI_OpenDevice` gets no connection, and a new direct backend serves
      the call. -/
  | fallsBack (t i r : UInt32) (err o : Outcome) :
      (Backend.net (.new env.controlIni)).serve env (.openDevice t i r) m = some err →
      err.ret.toOption = some (.ofType .statusNetConnFail) →
      (Backend.direct .new).serve env (.openDevice t i r) err.mem = some o →
      Path env cc m (.openDevice t i r)
        { o with
          asked := err.asked ++ o.asked
          writes := err.writes ++ o.writes
          kernel := err.kernel ++ o.kernel
          released := cc.libs ++ o.released }
  /-- `VCI_OpenDevice` with the answer of a new network backend. -/
  | opensNet (t i r : UInt32) (err : Outcome) :
      (Backend.net (.new env.controlIni)).serve env (.openDevice t i r) m = some err →
      err.ret.toOption ≠ some (.ofType .statusNetConnFail) →
      Path env cc m (.openDevice t i r) { err with released := cc.libs ++ err.released }
  | deirectOpens (t i r : UInt32) (o : Outcome) :
      (cc.canImp.getD (.direct .new)).serve env (.openDevice t i r) m = some o →
      Path env cc m (.deirectOpenCan t i r) o
  | netOpens (t i r : UInt32) (o : Outcome) :
      (cc.canImp.getD (.net (.new env.controlIni))).serve env (.openDevice t i r) m = some o →
      Path env cc m (.openNetCan t i r) o
  /-- There is no backend, and the call is not an open. -/
  | refused (c : ExportedCall) : cc.canImp = none → (∀ t i r, c.vciCall ≠ .openDevice t i r) →
      Path env cc m c (refuse c.vciCall m)
  | closes (t i : UInt32) (b : Backend) (o : Outcome) : cc.canImp = some b →
      b.serve env (.closeDevice t i) m = some o →
      Path env cc m (.closeDevice t i)
        { o with
          canImp := none
          released := o.released ++ o.canImp.toList.flatMap Backend.libs }
  | passes (call : DeviceCall) (b : Backend) (o : Outcome) : cc.canImp = some b →
      b.serve env (.device call) m = some o → Path env cc m (.device call) o

theorem CanAbstract.path_of_exported {env : Env} {cc : CanAbstract} {m : Memory}
    {c : ExportedCall} {o : Outcome} (h : cc.exported env m c = some o) : Path env cc m c o := by
  cases c with
  | openDevice t i r =>
    obtain ⟨err, herr, ho⟩ := Option.bind_eq_some_iff.mp h
    split at ho
    case isTrue hfail =>
      obtain ⟨o', ho', rfl⟩ := Option.map_eq_some_iff.mp ho
      exact .fallsBack t i r err o' herr hfail ho'
    case isFalse hok =>
      cases ho
      exact .opensNet t i r err herr hok
  | deirectOpenCan t i r => exact .deirectOpens t i r o h
  | openNetCan t i r => exact .netOpens t i r o h
  | closeDevice t i =>
    simp only [exported, vciCloseDevice] at h
    cases hb : cc.canImp with
    | none =>
      simp only [hb, Option.some.injEq] at h
      subst h
      exact .refused (.closeDevice t i) hb (fun _ _ _ hopen => by cases hopen)
    | some b =>
      simp only [hb] at h
      obtain ⟨o', ho', rfl⟩ := Option.map_eq_some_iff.mp h
      exact .closes t i b o' hb ho'
  | device call =>
    rw [exported_device, forward] at h
    cases hb : cc.canImp with
    | none =>
      simp only [hb, Option.some.injEq] at h
      subst h
      exact .refused (.device call) hb (fun _ _ _ hopen => by cases hopen)
    | some b =>
      simp only [hb] at h
      exact .passes call b o hb h

/-- The process: the static object `g_lib_cc`, and the memory. -/
structure Process where
  cc : CanAbstract
  mem : Memory

/-- What a process does with the library. -/
inductive ProcessEvent where
  | call (c : ExportedCall) (env : Env)
  /-- The process ends, and `g_lib_cc` is destroyed. -/
  | exit

namespace Process

/-- One event: the process after it, and the libraries that it released. -/
def run (p : Process) : ProcessEvent → Option (Process × List Library)
  | .call c env => (p.cc.exported env p.mem c).map fun o => (⟨⟨o.canImp⟩, o.mem⟩, o.released)
  | .exit => some (⟨⟨none⟩, p.mem⟩, p.cc.libs)

end Process

/-- Any sequence of calls, from the start of the process on. -/
def processSystem : LTS.System Process ProcessEvent where
  init p := p.cc.canImp = none
  step p ev := (p.run ev).map Prod.fst

end LibControlCan
