import LibControlCan.LineProcess

/-! # Request lines

    The lines that `CanImpCanNet` sends: a name, the arguments in
    hexadecimal, and a newline, each built by one call of `bin2hex_fast`.

    A transmit line has a 24-digit header where `line_process` wants 32
    digits, so `line_process` takes 8 digits of the frame for header and
    rejects what is left: `transmit_line_rejected`. -/

namespace LibControlCan

open ByteMemory Bytes

/-! ## Section 1: The lines -/

/-- One request line. -/
inductive Request where
  | openDevice (deviceType deviceInd reserved : UInt32)
  | closeDevice (deviceType deviceInd : UInt32)
  | initCAN (deviceType deviceInd canInd : UInt32) (initConfig : VciInitConfig)
  | readErrInfo (deviceType deviceInd canInd : UInt32) (errInfo : VciErrInfo)
  | clearBuffer (deviceType deviceInd canInd : UInt32)
  | startCAN (deviceType deviceInd canInd : UInt32)
  | resetCAN (deviceType deviceInd canInd : UInt32)
  | transmit (deviceType deviceInd canInd : UInt32) (obj : VciCanObj)
  deriving DecidableEq, Repr

/-- A `DWORD` argument. -/
def dword (w : UInt32) : Arg := .pod (leBytes 4 w.toNat)

/-- The arguments of `bin2hex_fast` after the destination. -/
def Request.args : Request → List Arg
  | openDevice t i r => [.str ⟨ascii "VCI_OpenDevice,", by decide⟩, dword t, dword i, dword r, lr]
  | closeDevice t i => [.str ⟨ascii "VCI_CloseDevice,", by decide⟩, dword t, dword i, lr]
  | initCAN t i c cfg =>
    [.str ⟨ascii "VCI_InitCAN,", by decide⟩, dword t, dword i, dword c, .pod cfg.bytes, lr]
  | readErrInfo t i c e =>
    [.str ⟨ascii "VCI_ReadErrInfo,", by decide⟩, dword t, dword i, dword c, .pod e.bytes, lr]
  | clearBuffer t i c =>
    [.str ⟨ascii "VCI_ClearBuffer,", by decide⟩, dword t, dword i, dword c, lr]
  | startCAN t i c => [.str ⟨ascii "VCI_StartCAN,", by decide⟩, dword t, dword i, dword c, lr]
  | resetCAN t i c => [.str ⟨ascii "VCI_ResetCAN,", by decide⟩, dword t, dword i, dword c, lr]
  | transmit t i c o =>
    [.str ⟨transmitHead, by decide⟩, dword t, dword i, dword c, .pod o.bytes, lr]

/-- The characters that `write_line` gets. -/
def Request.line (r : Request) : List UInt8 := bin2hexLine r.args

/-- The name that a line begins with. -/
def Request.name : Request → List UInt8
  | openDevice .. => ascii "VCI_OpenDevice,"
  | closeDevice .. => ascii "VCI_CloseDevice,"
  | initCAN .. => ascii "VCI_InitCAN,"
  | readErrInfo .. => ascii "VCI_ReadErrInfo,"
  | clearBuffer .. => ascii "VCI_ClearBuffer,"
  | startCAN .. => ascii "VCI_StartCAN,"
  | resetCAN .. => ascii "VCI_ResetCAN,"
  | transmit .. => transmitHead

/-- The object bytes of the arguments, one after the other. -/
def Request.object : Request → List UInt8
  | closeDevice t i => leBytes 4 t.toNat ++ leBytes 4 i.toNat
  | openDevice t i c | clearBuffer t i c | startCAN t i c | resetCAN t i c =>
    leBytes 4 t.toNat ++ (leBytes 4 i.toNat ++ leBytes 4 c.toNat)
  | initCAN t i c cfg =>
    leBytes 4 t.toNat ++ (leBytes 4 i.toNat ++ (leBytes 4 c.toNat ++ cfg.bytes))
  | readErrInfo t i c e =>
    leBytes 4 t.toNat ++ (leBytes 4 i.toNat ++ (leBytes 4 c.toNat ++ e.bytes))
  | transmit t i c o =>
    leBytes 4 t.toNat ++ (leBytes 4 i.toNat ++ (leBytes 4 c.toNat ++ o.bytes))

/-- A line is a name, the digits of the arguments and a newline. -/
theorem Request.line_eq (r : Request) : r.line = r.name ++ hexText r.object ++ [10] := by
  rw [line, bin2hexLine_eq]
  cases r <;>
    simp only [args, argsText, dword, lr, List.flatMap_cons, List.flatMap_nil, Arg.text, name,
      object, hexText_append, List.append_assoc, List.append_nil] <;>
    rfl

theorem Request.line_pos (r : Request) : 0 < r.line.length := by
  simp [line_eq]

/-! ## Section 2: Transmit lines as line_process sees them -/

/-- The digits of a transmit line: 24 for the three words, 48 for the frame. -/
theorem transmit_line_eq (t i c : UInt32) (o : VciCanObj) :
    (Request.transmit t i c o).line =
      transmitHead ++ (hexText (leBytes 4 t.toNat ++ (leBytes 4 i.toNat ++
        (leBytes 4 c.toNat ++ o.bytes)))) ++ [10] :=
  (Request.transmit t i c o).line_eq

theorem length_transmit_line (t i c : UInt32) (o : VciCanObj) :
    (Request.transmit t i c o).line.length = 86 := by
  rw [transmit_line_eq]
  simp [transmitHead, ascii, VciCanObj.size]

/-- No payload of the right length is left after a 32-digit header. -/
theorem payload?_transmit_line (t i c : UInt32) (o : VciCanObj) :
    payload? (Request.transmit t i c o).line.dropLast = none := by
  rw [transmit_line_eq, List.dropLast_concat]
  cases h : payload? _ with
  | none => rfl
  | some pl =>
    obtain ⟨head, hdr, hhead, hstr, hlen, -, -, -, hlong⟩ := payload?_eq_some_iff.mp h
    rcases hhead with rfl | rfl
    · exact absurd hstr.symm heads_disjoint
    · -- 72 digits in all, of which the header takes 32.
      have hdigits := congrArg List.length (List.append_cancel_left hstr)
      simp [VciCanObj.size] at hdigits
      omega

/-- `line_process` rejects the line of every `VCI_Transmit` request and
    leaves `dst` as it was. -/
theorem transmit_line_rejected (t i c : UInt32) (o : VciCanObj) (dst : Nat) (m : Memory) :
    lineProcess (Request.transmit t i c o).line.dropLast dst m = (-1, m) ∧
    ¬ ((lineProcess (Request.transmit t i c o).line.dropLast dst m).1 = 0 ∧
      VciCanObj.read (lineProcess (Request.transmit t i c o).line.dropLast dst m).2 dst = o) := by
  have hrej : lineProcess (Request.transmit t i c o).line.dropLast dst m = (-1, m) := by
    rw [lineProcess_payload?, payload?_transmit_line]
  refine ⟨hrej, ?_⟩
  rw [hrej]
  rintro ⟨hzero, -⟩
  have hneg : (-1 : Int) = 0 := hzero
  omega

/-- The frame of zeros: `line_process` returns -1 for its transmit line. -/
theorem transmit_line_of_zeros_rejected :
    (lineProcess (Request.transmit 4 0 0 .zero).line.dropLast 0 (fun _ => 0)).1 = -1 := by
  decide +kernel

end LibControlCan
