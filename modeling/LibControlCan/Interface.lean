import LibControlCan.Usbcan

/-! # The interface of the backends

    The functions of `CanImpInterface`, with their arguments, and the
    values they return.  The facade, the backends and the kernel libraries
    all have the same functions, so one type of calls serves for all of
    them. -/

namespace LibControlCan

/-! ## Section 1: Returned values -/

/-- The `int` values of the enumerators of `vciReturnType`. -/
def VciReturnType.code : VciReturnType → Int32
  | statusOk => 1
  | statusErr => 0
  | statusNetConnFail => -1

/-- What an interface function returns. -/
inductive VciResult where
  /-- A `vciReturnType`.  A value cast from a `DWORD` need not be one of
      the enumerators. -/
  | status (value : Int32)
  /-- A `ULONG`. -/
  | count (value : UInt32)
  deriving DecidableEq, Repr

namespace VciResult

/-- The `DWORD` or `ULONG` that the exported functions return. -/
def dword : VciResult → UInt32
  | status value => value.toUInt32
  | count value => value

/-- An enumerator. -/
def ofType (ret : VciReturnType) : VciResult := .status ret.code

/-- `static_cast<vciReturnType>` of the value of a kernel function. -/
def cast (err : UInt32) : VciResult := .status err.toInt32

@[simp] theorem dword_cast (err : UInt32) : (cast err).dword = err := by
  simp [cast, dword]

@[simp] theorem dword_count (n : UInt32) : (count n).dword = n := rfl

end VciResult

/-! ## Section 2: Calls -/

/-- A pointer argument that the callee reads through: the address, and
    what is there when the call is made. -/
structure Ptr (α : Type) where
  addr : Nat
  pointee : α
  deriving DecidableEq, Repr

/-- The functions for a device that has been opened. -/
inductive DeviceCall where
  | readBoardInfo (deviceType deviceInd : UInt32) (pInfo : Nat)
  | initCAN (deviceType deviceInd canInd : UInt32) (pInitConfig : Ptr VciInitConfig)
  | readErrInfo (deviceType deviceInd canInd : UInt32) (pErrInfo : Option (Ptr VciErrInfo))
  | readCANStatus (deviceType deviceInd canInd : UInt32) (pCANStatus : Nat)
  | getReference (deviceType deviceInd canInd refType : UInt32) (pData : Nat)
  | setReference (deviceType deviceInd canInd refType : UInt32) (pData : Nat)
  | getReceiveNum (deviceType deviceInd canInd : UInt32)
  | clearBuffer (deviceType deviceInd canInd : UInt32)
  | startCAN (deviceType deviceInd canInd : UInt32)
  | resetCAN (deviceType deviceInd canInd : UInt32)
  /-- The frames `pSend[0..len)`. -/
  | transmit (deviceType deviceInd canInd : UInt32) (pSend : Ptr (List VciCanObj))
  | receive (deviceType deviceInd canInd : UInt32) (pReceive : Option Nat) (len : UInt32)
      (waitTime : Int32)
  deriving DecidableEq, Repr

/-- The functions of `CanImpInterface`. -/
inductive VciCall where
  | openDevice (deviceType deviceInd reserved : UInt32)
  | closeDevice (deviceType deviceInd : UInt32)
  | device (call : DeviceCall)
  deriving DecidableEq, Repr

def DeviceCall.deviceType : DeviceCall → UInt32
  | readBoardInfo t _ _ => t
  | initCAN t _ _ _ => t
  | readErrInfo t _ _ _ => t
  | readCANStatus t _ _ _ => t
  | getReference t _ _ _ _ => t
  | setReference t _ _ _ _ => t
  | getReceiveNum t _ _ => t
  | clearBuffer t _ _ => t
  | startCAN t _ _ => t
  | resetCAN t _ _ => t
  | transmit t _ _ _ => t
  | receive t _ _ _ _ _ => t

def VciCall.deviceType : VciCall → UInt32
  | openDevice t _ _ => t
  | closeDevice t _ => t
  | device call => call.deviceType

/-- How a backend returns the value `err` of the kernel function: two of
    the functions return a `ULONG`, the others a `vciReturnType`. -/
def VciCall.result (err : UInt32) : VciCall → VciResult
  | device (.getReceiveNum ..) => .count err
  | device (.receive ..) => .count err
  | _ => .cast err

/-- What a function returns when nothing carries it out. -/
def VciCall.refused : VciCall → VciResult
  | device (.getReceiveNum ..) => .count 0
  | device (.receive ..) => .count 0
  | _ => .ofType .statusErr

@[simp] theorem VciCall.dword_result (call : VciCall) (err : UInt32) :
    (call.result err).dword = err := by
  unfold VciCall.result
  split <;> simp

@[simp] theorem VciCall.dword_refused (call : VciCall) : call.refused.dword = 0 := by
  unfold VciCall.refused
  split <;> rfl

end LibControlCan
