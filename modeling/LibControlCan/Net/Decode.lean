import LibControlCan.Framework.Lines
import LibControlCan.Net.Request

/-! # Reading requests back

    A decoder for the stream that `CanImpCanNet` sends: it cuts the stream
    into lines, takes the name of a line up to its comma, and reads the
    arguments off the digits behind it.  `decodeRequests_lines` says that it
    reads every sequence of requests back, so no two sequences have the same
    bytes: `request_stream_eq_iff`. -/

namespace LibControlCan

open Bytes Lines

/-! ## Section 1: One line -/

/-- How the arguments of each request are read off their object bytes. -/
def readers : List (List UInt8 × (List UInt8 → Request)) := [
  (ascii "VCI_OpenDevice,", fun bs => .openDevice (dwordAt 0 bs) (dwordAt 1 bs) (dwordAt 2 bs)),
  (ascii "VCI_CloseDevice,", fun bs => .closeDevice (dwordAt 0 bs) (dwordAt 1 bs)),
  (ascii "VCI_InitCAN,", fun bs =>
    .initCAN (dwordAt 0 bs) (dwordAt 1 bs) (dwordAt 2 bs) (.ofBytes (bs.drop 12))),
  (ascii "VCI_ReadErrInfo,", fun bs =>
    .readErrInfo (dwordAt 0 bs) (dwordAt 1 bs) (dwordAt 2 bs) (.ofBytes (bs.drop 12))),
  (ascii "VCI_ClearBuffer,", fun bs => .clearBuffer (dwordAt 0 bs) (dwordAt 1 bs) (dwordAt 2 bs)),
  (ascii "VCI_StartCAN,", fun bs => .startCAN (dwordAt 0 bs) (dwordAt 1 bs) (dwordAt 2 bs)),
  (ascii "VCI_ResetCAN,", fun bs => .resetCAN (dwordAt 0 bs) (dwordAt 1 bs) (dwordAt 2 bs)),
  (transmitHead, fun bs =>
    .transmit (dwordAt 0 bs) (dwordAt 1 bs) (dwordAt 2 bs) (.ofBytes (bs.drop 12)))]

/-- The request of a line without its newline. -/
def decodeRequest (l : List UInt8) : Option Request :=
  let nameLen := l.findIdx (· == 44) + 1
  (readers.lookup (l.take nameLen)).map fun reader => reader (decodeHex (l.drop nameLen))

/-- The name of a line ends at its only comma. -/
theorem Request.findIdx_name (r : Request) : r.name.findIdx (· == 44) + 1 = r.name.length := by
  cases r <;> rfl

/-- What stands behind the three words. -/
theorem drop_words (a b c : Nat) (bs : List UInt8) :
    (leBytes 4 a ++ (leBytes 4 b ++ (leBytes 4 c ++ bs))).drop 12 = bs := by
  simp only [← List.append_assoc]
  exact List.drop_left' (by simp)

/-- The reader of its name reads the arguments of a request. -/
theorem Request.read_object (r : Request) :
    (readers.lookup r.name).map (fun reader => reader r.object) = some r := by
  -- The names are closed terms, so looking one up computes to its reader.
  cases r <;> refine congrArg some (?_ : _ = _) <;>
    simp [object, drop_words, VciInitConfig.ofBytes_bytes, VciErrInfo.ofBytes_bytes,
      VciCanObj.ofBytes_bytes]

theorem decodeRequest_text (r : Request) : decodeRequest (r.name ++ hexText r.object) = some r := by
  have hlen : (r.name ++ hexText r.object).findIdx (· == 44) + 1 = r.name.length := by
    have hname := r.findIdx_name
    rw [List.findIdx_append, if_pos (by omega), hname]
  unfold decodeRequest
  simp only [hlen, List.take_left, List.drop_left, decodeHex_hexText]
  exact r.read_object

/-! ## Section 2: The stream -/

/-- The requests of a stream. -/
def decodeRequests (stream : List UInt8) : List Request :=
  (lines (· == 10) stream).filterMap decodeRequest

theorem Request.free_text (r : Request) : Free (· == 10) (r.name ++ hexText r.object) := by
  intro c hc
  rcases List.mem_append.mp hc with hname | hdigit
  · have hnames : ∀ c ∈ r.name, (c == 10) = false := by
      cases r <;> simp only [name] <;> decide +kernel
    exact hnames c hname
  · have hhex := isHexDigit_of_mem_hexText hdigit
    by_contra hten
    have hc10 : c = 10 := by simpa using hten
    rw [hc10] at hhex
    exact absurd hhex (by decide)

/-- The decoder reads every sequence of requests back. -/
theorem decodeRequests_lines (reqs : List Request) :
    decodeRequests (reqs.flatMap Request.line) = reqs := by
  have hstream : reqs.flatMap Request.line =
      joinLines 10 (reqs.map fun r => r.name ++ hexText r.object) := by
    simp only [joinLines, List.flatMap_map]
    exact List.flatMap_congr fun r _ => r.line_eq
  rw [hstream]
  exact filterMap_lines_joinLines rfl Request.free_text decodeRequest_text reqs

/-- Two sequences of requests have the same bytes only if they are the same:
    the same number of requests, of the same kinds, with the same arguments. -/
theorem request_stream_eq_iff (reqs reqs' : List Request) :
    reqs.flatMap Request.line = reqs'.flatMap Request.line ↔ reqs = reqs' := by
  constructor
  · intro hstream
    rw [← decodeRequests_lines reqs, hstream, decodeRequests_lines]
  · rintro rfl
    rfl

end LibControlCan
