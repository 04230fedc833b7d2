import LibControlCan.Framework.Bytes
import LibControlCan.Framework.Memory

/-! # The data types of the CAN interface

    `VCI_CAN_OBJ`, `VCI_INIT_CONFIG`, `VCI_ERR_INFO` and `vciReturnType` of
    `usbcan.h`.  A structure's `bytes` are its object bytes in memory: the
    members in order, words little-endian.  None of the three has padding,
    so `sizeof` is the sum of the members' sizes. -/

namespace LibControlCan

open ByteMemory Bytes

/-- `vciReturnType`. -/
inductive VciReturnType where
  | statusOk
  | statusErr
  | statusNetConnFail
  deriving DecidableEq, Repr

/-! ## Section 1: One CAN frame -/

theorem ofLeBytes_word (w : UInt32) : UInt32.ofNat (ofLeBytes (leBytes 4 w.toNat)) = w := by
  rw [ofLeBytes_leBytes (by have := w.toNat_lt; omega)]
  simp

/-- `VCI_CAN_OBJ`. -/
structure VciCanObj where
  id : UInt32
  timeStamp : UInt32
  timeFlag : UInt8
  sendType : UInt8
  remoteFlag : UInt8
  externFlag : UInt8
  dataLen : UInt8
  data : Vector UInt8 8
  reserved : Vector UInt8 3
  deriving DecidableEq, Repr

namespace VciCanObj

/-- `sizeof(VCI_CAN_OBJ)`. -/
def size : Nat := 24

def bytes (o : VciCanObj) : List UInt8 :=
  leBytes 4 o.id.toNat ++ (leBytes 4 o.timeStamp.toNat ++
    ([o.timeFlag, o.sendType, o.remoteFlag, o.externFlag, o.dataLen] ++
      (o.data.toList ++ o.reserved.toList)))

/-- The frame that object bytes stand for. -/
def ofBytes (bs : List UInt8) : VciCanObj where
  id := UInt32.ofNat (ofLeBytes (bs.take 4))
  timeStamp := UInt32.ofNat (ofLeBytes ((bs.drop 4).take 4))
  timeFlag := bs.getD 8 0
  sendType := bs.getD 9 0
  remoteFlag := bs.getD 10 0
  externFlag := bs.getD 11 0
  dataLen := bs.getD 12 0
  data := Vector.ofFn fun i => bs.getD (13 + i) 0
  reserved := Vector.ofFn fun i => bs.getD (21 + i) 0

/-- The value-initialised `VCI_CAN_OBJ`. -/
def zero : VciCanObj := ⟨0, 0, 0, 0, 0, 0, 0, Vector.replicate 8 0, Vector.replicate 3 0⟩

/-- The frame at address `p`. -/
def read (m : Memory) (p : Nat) : VciCanObj := ofBytes (readBytes m p size)

@[simp] theorem length_bytes (o : VciCanObj) : o.bytes.length = size := by
  simp [bytes, size]

/-- The members after the two words. -/
theorem getD_bytes (o : VciCanObj) (i : Nat) :
    o.bytes.getD (8 + i) 0 =
      ([o.timeFlag, o.sendType, o.remoteFlag, o.externFlag, o.dataLen] ++
        (o.data.toList ++ o.reserved.toList)).getD i 0 := by
  rw [bytes, ← List.append_assoc]
  simp only [List.getD_eq_getElem?_getD]
  rw [List.getElem?_append_right (by simp)]
  simp

theorem getD_bytes_data (o : VciCanObj) {i : Nat} (hi : i < 8) :
    o.bytes.getD (13 + i) 0 = o.data[i] := by
  rw [show 13 + i = 8 + (5 + i) from by omega, getD_bytes]
  simp only [List.getD_eq_getElem?_getD]
  rw [List.getElem?_append_right (by simp), List.getElem?_append_left (by simp; omega)]
  simp [hi]

theorem getD_bytes_reserved (o : VciCanObj) {i : Nat} (hi : i < 3) :
    o.bytes.getD (21 + i) 0 = o.reserved[i] := by
  rw [show 21 + i = 8 + (13 + i) from by omega, getD_bytes]
  simp only [List.getD_eq_getElem?_getD]
  rw [List.getElem?_append_right (by simp; omega), List.getElem?_append_right (by simp; omega)]
  simp [show 13 + i - 5 - 8 = i from by omega, hi]

/-- The object bytes determine the frame. -/
theorem ofBytes_bytes (o : VciCanObj) : ofBytes o.bytes = o := by
  have hid : UInt32.ofNat (ofLeBytes (o.bytes.take 4)) = o.id := by
    simp [bytes, ofLeBytes_word]
  have hts : UInt32.ofNat (ofLeBytes ((o.bytes.drop 4).take 4)) = o.timeStamp := by
    simp [bytes, ofLeBytes_word]
  have hd : (Vector.ofFn fun i : Fin 8 => o.bytes.getD (13 + i) 0) = o.data := by
    apply Vector.ext
    intro i hi
    rw [Vector.getElem_ofFn]
    exact getD_bytes_data o hi
  have hr : (Vector.ofFn fun i : Fin 3 => o.bytes.getD (21 + i) 0) = o.reserved := by
    apply Vector.ext
    intro i hi
    rw [Vector.getElem_ofFn]
    exact getD_bytes_reserved o hi
  have hflags := getD_bytes o
  unfold ofBytes
  rw [hid, hts, hd, hr, hflags 0, hflags 1, hflags 2, hflags 3, hflags 4]
  rfl

end VciCanObj

/-! ## Section 2: Arguments of the commands -/

/-- Word `k` of the object bytes. -/
def dwordAt (k : Nat) (bs : List UInt8) : UInt32 :=
  UInt32.ofNat (ofLeBytes ((bs.drop (4 * k)).take 4))

@[simp] theorem dwordAt_zero (w : UInt32) (bs : List UInt8) :
    dwordAt 0 (leBytes 4 w.toNat ++ bs) = w := by
  simp [dwordAt, ofLeBytes_word]

@[simp] theorem dwordAt_word (w : UInt32) : dwordAt 0 (leBytes 4 w.toNat) = w := by
  simpa using dwordAt_zero w []

@[simp] theorem dwordAt_succ (k n : Nat) (bs : List UInt8) :
    dwordAt (k + 1) (leBytes 4 n ++ bs) = dwordAt k bs := by
  simp [dwordAt, Nat.mul_succ, Nat.add_comm, ← List.drop_drop]

/-- `VCI_INIT_CONFIG`. -/
structure VciInitConfig where
  accCode : UInt32
  accMask : UInt32
  reserved : UInt32
  filter : UInt8
  timing0 : UInt8
  timing1 : UInt8
  mode : UInt8
  deriving DecidableEq, Repr

def VciInitConfig.bytes (c : VciInitConfig) : List UInt8 :=
  leBytes 4 c.accCode.toNat ++ leBytes 4 c.accMask.toNat ++ leBytes 4 c.reserved.toNat ++
    [c.filter, c.timing0, c.timing1, c.mode]

/-- The configuration that object bytes stand for. -/
def VciInitConfig.ofBytes (bs : List UInt8) : VciInitConfig where
  accCode := dwordAt 0 bs
  accMask := dwordAt 1 bs
  reserved := dwordAt 2 bs
  filter := bs.getD 12 0
  timing0 := bs.getD 13 0
  timing1 := bs.getD 14 0
  mode := bs.getD 15 0

theorem VciInitConfig.ofBytes_bytes (c : VciInitConfig) : ofBytes c.bytes = c := by
  simp only [ofBytes, bytes, List.append_assoc, dwordAt_zero, dwordAt_succ]
  simp [List.getD_eq_getElem?_getD]

/-- `VCI_ERR_INFO`. -/
structure VciErrInfo where
  errCode : UInt32
  passiveErrData : Vector UInt8 3
  arLostErrData : UInt8
  deriving DecidableEq, Repr

def VciErrInfo.bytes (e : VciErrInfo) : List UInt8 :=
  leBytes 4 e.errCode.toNat ++ e.passiveErrData.toList ++ [e.arLostErrData]

/-- The error information that object bytes stand for. -/
def VciErrInfo.ofBytes (bs : List UInt8) : VciErrInfo where
  errCode := dwordAt 0 bs
  passiveErrData := Vector.ofFn fun i => bs.getD (4 + i) 0
  arLostErrData := bs.getD 7 0

theorem VciErrInfo.ofBytes_bytes (e : VciErrInfo) : ofBytes e.bytes = e := by
  have hdata : (Vector.ofFn fun i : Fin 3 => e.bytes.getD (4 + i) 0) = e.passiveErrData := by
    apply Vector.ext
    intro i hi
    rw [Vector.getElem_ofFn]
    simp [bytes, List.getD_eq_getElem?_getD, List.getElem?_append, hi]
  unfold ofBytes
  rw [hdata]
  simp only [bytes, List.append_assoc, dwordAt_zero]
  simp [List.getD_eq_getElem?_getD]

end LibControlCan
