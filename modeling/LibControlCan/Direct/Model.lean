import LibControlCan.Interface
import LibControlCan.Framework.Bytes

/-! # The direct backends

    `CanImpDirectCan2`, which loads the kernel library of a device type when
    a device is opened, and `CanImpDirectCan`, which loads all libraries in
    its constructor.

    A kernel library is known by its path.  What its functions return, and
    what they do to the device and to the caller's memory, is given by a
    `Kernel`; loading or dropping a library has no effect of its own.  A
    call on a backend leaves, besides its result, the call that it made to
    a library, if any, and the libraries that it released. -/

namespace LibControlCan

open Bytes

/-! ## Section 1: Libraries -/

/-- What is on disk when a backend looks for libraries. -/
structure KernelDir where
  /-- Section `KERNELDLL` of `kerneldlls/kerneldll.ini`, in the order in
      which a loop visits its keys; `none` when there is no such file. -/
  kerneldll : Option (List (List UInt8 × List UInt8))
  /-- The files below `kerneldlls` that exist. -/
  present : List UInt8 → Bool
  /-- The files that can be loaded and have all the symbols. -/
  loads : List UInt8 → Bool

/-- The functions that the libraries export: what a call to the library
    at a path returns, and what it does to the rest of the world. -/
structure Kernel (W : Type) where
  call : List UInt8 → VciCall → W → UInt32 × W

/-- `dll_load_dll_type`: a library that a backend has loaded. -/
structure Library where
  path : List UInt8
  /-- Ghost: the calls made through this object, and what they returned. -/
  calls : List (VciCall × UInt32)

/-- A call through the object. -/
def Library.record (lib : Library) (call : VciCall) (err : UInt32) : Library :=
  { lib with calls := lib.calls ++ [(call, err)] }

/-- The exception of the constructor of `dll_load_dll_type`. -/
structure LoadError where
  path : List UInt8
  deriving DecidableEq, Repr

/-- `load_library_s`.  `new` never returns null, so the tests for a null
    pointer behind its calls have nothing to catch. -/
def loadLibraryS (dir : KernelDir) (path : List UInt8) : Except LoadError Library :=
  if dir.loads path then .ok ⟨path, []⟩ else .error ⟨path⟩

/-- Decimal digits, without a sign, of a number that fits. -/
def convertUnsigned (cs : List UInt8) : Option UInt32 :=
  let value := cs.foldl (fun n c => 10 * n + (c.toNat - 48)) 0
  if !cs.isEmpty && cs.all (fun c => 48 ≤ c.toNat && c.toNat ≤ 57) && value < 2 ^ 32 then
    some (UInt32.ofNat value)
  else none

/-- `boost::conversion::try_lexical_convert<uint32_t>`.  A minus sign is
    accepted and negates the number modulo 2 ^ 32. -/
def tryLexicalConvert (key : List UInt8) : Option UInt32 :=
  match key with
  | 43 :: cs => convertUnsigned cs
  | 45 :: cs => (convertUnsigned cs).map fun n => 0 - n
  | cs => convertUnsigned cs

example : tryLexicalConvert (ascii "04") = some 4 ∧ tryLexicalConvert (ascii "+4") = some 4 ∧
    tryLexicalConvert (ascii "-1") = some 4294967295 ∧ tryLexicalConvert (ascii "4 ") = none ∧
    tryLexicalConvert (ascii "4294967296") = none := by
  decide +kernel

/-- A call to a kernel library, and what it returned. -/
structure KernelRecord where
  path : List UInt8
  call : VciCall
  err : UInt32
  deriving DecidableEq, Repr

/-- What a call on a direct backend leaves. -/
structure Served (Obj W : Type) where
  ret : Except LoadError VciResult
  obj : Obj
  world : W
  kernel : Option KernelRecord
  released : List Library

section served

variable {Obj W : Type}

/-- The call is passed to the library at `path`. -/
def Served.passed (k : Kernel W) (path : List UInt8) (call : VciCall) (obj : UInt32 → Obj) (w : W) :
    Served Obj W :=
  let (err, w') := k.call path call w
  { ret := .ok (call.result err)
    obj := obj err
    world := w'
    kernel := some ⟨path, call, err⟩
    released := [] }

/-- No library is there for the call. -/
def Served.refused (call : VciCall) (obj : Obj) (w : W) : Served Obj W :=
  { ret := .ok call.refused, obj, world := w, kernel := none, released := [] }

end served

/-! ## Section 2: CanImpDirectCan2 -/

structure CanImpDirectCan2 where
  lib : Option Library
  devType : Option UInt32

namespace CanImpDirectCan2

variable {W : Type}

/-- The constructor. -/
def new : CanImpDirectCan2 := { lib := none, devType := none }

/-- The loop of `VCI_OpenDevice` over the section: the first entry of the
    type whose file exists. -/
def chooseLibrary (dir : KernelDir) (deviceType : UInt32) :
    List (List UInt8 × List UInt8) → Except LoadError (Option (UInt32 × Library))
  | [] => .ok none
  | (key, value) :: sec =>
    match tryLexicalConvert key with
    | none => chooseLibrary dir deviceType sec
    | some type =>
      if type ≠ deviceType then chooseLibrary dir deviceType sec
      else if !dir.present value then chooseLibrary dir deviceType sec
      else (loadLibraryS dir value).map fun up => some (type, up)

/-- `VCI_OpenDevice`. -/
def vciOpenDevice (k : Kernel W) (dir : KernelDir) (deviceType deviceInd reserved : UInt32)
    (o : CanImpDirectCan2) (w : W) : Served CanImpDirectCan2 W :=
  let call := VciCall.openDevice deviceType deviceInd reserved
  -- `_dev_type.reset()` and `_lib.reset()`, before anything else.
  let released := o.lib.toList
  match (dir.kerneldll.map (chooseLibrary dir deviceType)).getD (.ok none) with
  | .error e => { ret := .error e, obj := new, world := w, kernel := none, released }
  | .ok none => { Served.refused call new w with released }
  | .ok (some (type, up)) =>
    { Served.passed k up.path call
        (fun err => { lib := some (up.record call err), devType := some type }) w with released }

/-- What the other functions do: pass the call to the library, if one is
    loaded and it is the one of the device type. -/
def forward (k : Kernel W) (call : VciCall) (o : CanImpDirectCan2) (w : W) :
    Served CanImpDirectCan2 W :=
  match o.devType, o.lib with
  | some type, some lib =>
    if type = call.deviceType then
      Served.passed k lib.path call (fun err => { o with lib := some (lib.record call err) }) w
    else Served.refused call o w
  | _, _ => Served.refused call o w

/-- `VCI_CloseDevice`: both of its branches drop the library. -/
def vciCloseDevice (k : Kernel W) (deviceType deviceInd : UInt32) (o : CanImpDirectCan2) (w : W) :
    Served CanImpDirectCan2 W :=
  let r := o.forward k (.closeDevice deviceType deviceInd) w
  { r with obj := new, released := r.obj.lib.toList }

variable (k : Kernel W) (o : CanImpDirectCan2) (w : W)

def vciReadBoardInfo (t i : UInt32) (pInfo : Nat) : Served CanImpDirectCan2 W :=
  o.forward k (.device (.readBoardInfo t i pInfo)) w

def vciInitCAN (t i c : UInt32) (pInitConfig : Ptr VciInitConfig) : Served CanImpDirectCan2 W :=
  o.forward k (.device (.initCAN t i c pInitConfig)) w

def vciReadErrInfo (t i c : UInt32) (pErrInfo : Option (Ptr VciErrInfo)) :
    Served CanImpDirectCan2 W :=
  o.forward k (.device (.readErrInfo t i c pErrInfo)) w

def vciReadCANStatus (t i c : UInt32) (pCANStatus : Nat) : Served CanImpDirectCan2 W :=
  o.forward k (.device (.readCANStatus t i c pCANStatus)) w

def vciGetReference (t i c refType : UInt32) (pData : Nat) : Served CanImpDirectCan2 W :=
  o.forward k (.device (.getReference t i c refType pData)) w

def vciSetReference (t i c refType : UInt32) (pData : Nat) : Served CanImpDirectCan2 W :=
  o.forward k (.device (.setReference t i c refType pData)) w

def vciGetReceiveNum (t i c : UInt32) : Served CanImpDirectCan2 W :=
  o.forward k (.device (.getReceiveNum t i c)) w

def vciClearBuffer (t i c : UInt32) : Served CanImpDirectCan2 W :=
  o.forward k (.device (.clearBuffer t i c)) w

def vciStartCAN (t i c : UInt32) : Served CanImpDirectCan2 W :=
  o.forward k (.device (.startCAN t i c)) w

def vciResetCAN (t i c : UInt32) : Served CanImpDirectCan2 W :=
  o.forward k (.device (.resetCAN t i c)) w

def vciTransmit (t i c : UInt32) (pSend : Ptr (List VciCanObj)) : Served CanImpDirectCan2 W :=
  o.forward k (.device (.transmit t i c pSend)) w

def vciReceive (t i c : UInt32) (pReceive : Option Nat) (len : UInt32) (waitTime : Int32) :
    Served CanImpDirectCan2 W :=
  o.forward k (.device (.receive t i c pReceive len waitTime)) w

/-- A call on the object. -/
def serve (dir : KernelDir) : VciCall → Served CanImpDirectCan2 W
  | .openDevice t i r => o.vciOpenDevice k dir t i r w
  | .closeDevice t i => o.vciCloseDevice k t i w
  | .device (.readBoardInfo t i p) => o.vciReadBoardInfo k w t i p
  | .device (.initCAN t i c p) => o.vciInitCAN k w t i c p
  | .device (.readErrInfo t i c p) => o.vciReadErrInfo k w t i c p
  | .device (.readCANStatus t i c p) => o.vciReadCANStatus k w t i c p
  | .device (.getReference t i c ref p) => o.vciGetReference k w t i c ref p
  | .device (.setReference t i c ref p) => o.vciSetReference k w t i c ref p
  | .device (.getReceiveNum t i c) => o.vciGetReceiveNum k w t i c
  | .device (.clearBuffer t i c) => o.vciClearBuffer k w t i c
  | .device (.startCAN t i c) => o.vciStartCAN k w t i c
  | .device (.resetCAN t i c) => o.vciResetCAN k w t i c
  | .device (.transmit t i c p) => o.vciTransmit k w t i c p
  | .device (.receive t i c p len wait) => o.vciReceive k w t i c p len wait

theorem serve_device (dir : KernelDir) (call : DeviceCall) :
    o.serve k w dir (.device call) = o.forward k (.device call) w := by
  cases call <;> rfl

/-- A call is refused, or it is passed to the library that is loaded. -/
theorem forward_cases (call : VciCall) :
    ((∀ lib, o.lib = some lib → o.devType ≠ some call.deviceType) ∧
      o.forward k call w = Served.refused call o w) ∨
    ∃ lib, o.lib = some lib ∧ o.devType = some call.deviceType ∧
      o.forward k call w = Served.passed k lib.path call
        (fun err => { o with lib := some (lib.record call err) }) w := by
  unfold forward
  split
  case h_1 type lib htype hlib =>
    by_cases heq : type = call.deviceType
    · rw [if_pos heq]
      exact Or.inr ⟨lib, hlib, heq ▸ htype, rfl⟩
    · rw [if_neg heq]
      exact Or.inl ⟨fun _ _ => by simpa [htype] using heq, rfl⟩
  case h_2 hnot => exact Or.inl ⟨fun lib hlib htype => hnot _ lib htype hlib, rfl⟩

/-- The library that the loop chooses is new and of the device type. -/
theorem chooseLibrary_eq_some {dir : KernelDir} {t type : UInt32} {up : Library}
    {sec : List (List UInt8 × List UInt8)}
    (h : chooseLibrary dir t sec = .ok (some (type, up))) : type = t ∧ up.calls = [] := by
  induction sec with
  | nil => cases h
  | cons kv sec ih =>
    obtain ⟨key, value⟩ := kv
    simp only [chooseLibrary] at h
    split at h
    case h_1 => exact ih h
    case h_2 type' _ =>
      split at h
      case isTrue => exact ih h
      case isFalse htype =>
        split at h
        case isTrue => exact ih h
        case isFalse =>
          unfold loadLibraryS at h
          split at h
          case isTrue =>
            cases h
            exact ⟨by simpa using htype, rfl⟩
          case isFalse => cases h

/-- An open releases the library there was.  It throws, or it finds no
    library, or it passes the call to a new one. -/
theorem vciOpenDevice_cases (dir : KernelDir) (t i r : UInt32) :
    (∃ e, o.vciOpenDevice k dir t i r w =
      { ret := .error e, obj := new, world := w, kernel := none, released := o.lib.toList }) ∨
    o.vciOpenDevice k dir t i r w =
      { Served.refused (.openDevice t i r) new w with released := o.lib.toList } ∨
    ∃ path, o.vciOpenDevice k dir t i r w =
      { Served.passed k path (.openDevice t i r)
          (fun err => { lib := some ⟨path, [(.openDevice t i r, err)]⟩, devType := some t }) w with
        released := o.lib.toList } := by
  unfold vciOpenDevice
  split
  case h_1 e _ => exact Or.inl ⟨e, rfl⟩
  case h_2 => exact Or.inr (Or.inl rfl)
  case h_3 type up hup =>
    cases hsec : dir.kerneldll with
    | none => simp [hsec] at hup
    | some sec =>
      simp only [hsec, Option.map_some, Option.getD_some] at hup
      obtain ⟨rfl, hcalls⟩ := chooseLibrary_eq_some hup
      refine Or.inr (Or.inr ⟨up.path, ?_⟩)
      simp [Library.record, hcalls]

end CanImpDirectCan2

/-! ## Section 3: CanImpDirectCan -/

/-- The object: the libraries of `lib_map_`, by device type. -/
structure CanImpDirectCan where
  libMap : List (UInt32 × List UInt8)

namespace CanImpDirectCan

variable {W : Type}

/-- `std::map::insert`: an entry that is there is kept. -/
def insert (libMap : List (UInt32 × List UInt8)) (type : UInt32) (path : List UInt8) :
    List (UInt32 × List UInt8) :=
  if (libMap.lookup type).isSome then libMap else libMap ++ [(type, path)]

/-- The loop of the constructor over the section. -/
def loadLibraries (dir : KernelDir) :
    List (List UInt8 × List UInt8) → List (UInt32 × List UInt8) →
      Except LoadError (List (UInt32 × List UInt8))
  | [], libMap => .ok libMap
  | (key, value) :: sec, libMap =>
    match tryLexicalConvert key with
    | none => loadLibraries dir sec libMap
    | some type =>
      if !dir.present value then loadLibraries dir sec libMap
      else
        match loadLibraryS dir value with
        | .error e => .error e
        | .ok up => loadLibraries dir sec (insert libMap type up.path)

/-- The constructor. -/
def new (dir : KernelDir) : Except LoadError CanImpDirectCan :=
  ((dir.kerneldll.map fun sec => loadLibraries dir sec []).getD (.ok [])).map fun libMap => ⟨libMap⟩

/-- What all the functions do: pass the call to the library of the device
    type, if there is one. -/
def forward (k : Kernel W) (call : VciCall) (o : CanImpDirectCan) (w : W) :
    Served CanImpDirectCan W :=
  match o.libMap.lookup call.deviceType with
  | some path => Served.passed k path call (fun _ => o) w
  | none => Served.refused call o w

variable (k : Kernel W) (o : CanImpDirectCan) (w : W)

def vciOpenDevice (t i r : UInt32) : Served CanImpDirectCan W := o.forward k (.openDevice t i r) w

def vciCloseDevice (t i : UInt32) : Served CanImpDirectCan W := o.forward k (.closeDevice t i) w

def vciReadBoardInfo (t i : UInt32) (pInfo : Nat) : Served CanImpDirectCan W :=
  o.forward k (.device (.readBoardInfo t i pInfo)) w

def vciInitCAN (t i c : UInt32) (pInitConfig : Ptr VciInitConfig) : Served CanImpDirectCan W :=
  o.forward k (.device (.initCAN t i c pInitConfig)) w

def vciReadErrInfo (t i c : UInt32) (pErrInfo : Option (Ptr VciErrInfo)) :
    Served CanImpDirectCan W :=
  o.forward k (.device (.readErrInfo t i c pErrInfo)) w

def vciReadCANStatus (t i c : UInt32) (pCANStatus : Nat) : Served CanImpDirectCan W :=
  o.forward k (.device (.readCANStatus t i c pCANStatus)) w

def vciGetReference (t i c refType : UInt32) (pData : Nat) : Served CanImpDirectCan W :=
  o.forward k (.device (.getReference t i c refType pData)) w

def vciSetReference (t i c refType : UInt32) (pData : Nat) : Served CanImpDirectCan W :=
  o.forward k (.device (.setReference t i c refType pData)) w

def vciGetReceiveNum (t i c : UInt32) : Served CanImpDirectCan W :=
  o.forward k (.device (.getReceiveNum t i c)) w

def vciClearBuffer (t i c : UInt32) : Served CanImpDirectCan W :=
  o.forward k (.device (.clearBuffer t i c)) w

def vciStartCAN (t i c : UInt32) : Served CanImpDirectCan W :=
  o.forward k (.device (.startCAN t i c)) w

def vciResetCAN (t i c : UInt32) : Served CanImpDirectCan W :=
  o.forward k (.device (.resetCAN t i c)) w

def vciTransmit (t i c : UInt32) (pSend : Ptr (List VciCanObj)) : Served CanImpDirectCan W :=
  o.forward k (.device (.transmit t i c pSend)) w

def vciReceive (t i c : UInt32) (pReceive : Option Nat) (len : UInt32) (waitTime : Int32) :
    Served CanImpDirectCan W :=
  o.forward k (.device (.receive t i c pReceive len waitTime)) w

/-- A call on the object. -/
def serve : VciCall → Served CanImpDirectCan W
  | .openDevice t i r => o.vciOpenDevice k w t i r
  | .closeDevice t i => o.vciCloseDevice k w t i
  | .device (.readBoardInfo t i p) => o.vciReadBoardInfo k w t i p
  | .device (.initCAN t i c p) => o.vciInitCAN k w t i c p
  | .device (.readErrInfo t i c p) => o.vciReadErrInfo k w t i c p
  | .device (.readCANStatus t i c p) => o.vciReadCANStatus k w t i c p
  | .device (.getReference t i c ref p) => o.vciGetReference k w t i c ref p
  | .device (.setReference t i c ref p) => o.vciSetReference k w t i c ref p
  | .device (.getReceiveNum t i c) => o.vciGetReceiveNum k w t i c
  | .device (.clearBuffer t i c) => o.vciClearBuffer k w t i c
  | .device (.startCAN t i c) => o.vciStartCAN k w t i c
  | .device (.resetCAN t i c) => o.vciResetCAN k w t i c
  | .device (.transmit t i c p) => o.vciTransmit k w t i c p
  | .device (.receive t i c p len wait) => o.vciReceive k w t i c p len wait

theorem serve_eq (call : VciCall) : o.serve k w call = o.forward k call w := by
  cases call with
  | openDevice t i r => rfl
  | closeDevice t i => rfl
  | device call => cases call <;> rfl

end CanImpDirectCan

end LibControlCan
