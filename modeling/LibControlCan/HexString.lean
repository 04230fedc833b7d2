import LibControlCan.HexDump
import LibControlCan.Framework.Checked
import LibControlCan.Framework.OStream

/-! # Conversions between strings and vectors

    The functions of `hex_dump.hpp` that allocate what they return:
    `bin2hex_fast2`, the stream versions `bin2hex` and `bin2hex_dump`,
    `hex_string_to_bin`, and `hex_string_to_bin_fastest` on a `std::string`.
    They are modelled over arrays, with every access logged.

    * `decodeLoop_result` and `doConvLoop_result` connect the loops over
      arrays with the same loops on the byte memory: they return what the
      memory holds afterwards, as long as it fits into the array.
    * `hex_codec_round_trips` and `fast_and_plain_agree` are the laws of the
      conversions.
    * `vector_decoder_within_iff` says on which strings the fast decoder
      stays inside its arrays.  The plain one does on all
      (`hexStringToBin_within`).
-/

namespace LibControlCan

open ByteMemory Bytes Checked OStream

/-! ## Section 1: The functions -/

/-- The arrays of a conversion. -/
inductive Buffer where
  | source
  | table
  | output

/-- How many elements they have. -/
def sizes (source table output : Nat) : Buffer → Nat
  | .source => source
  | .table => table
  | .output => output

/-- The loop of `do_conv` with `n` rounds to go; the next digit goes to
    `dst[pdst]`. -/
def doConvLoop (psrc : List UInt8) : Nat → Nat → Nat → List UInt8 → Run Buffer (List UInt8)
  | 0, _, _, dst => pure dst
  | n + 1, i, pdst, dst => do
    let b ← get .source psrc i
    let high ← get .table hexmap ((b &&& 0xF0) >>> 4).toNat
    let dst ← set .output dst pdst high
    let b ← get .source psrc i
    let low ← get .table hexmap (b &&& 0x0F).toNat
    let dst ← set .output dst (pdst + 1) low
    doConvLoop psrc n (i + 1) (pdst + 2) dst

/-- `bin2hex_fast2`. -/
def bin2hexFast2 (p : List UInt8) (len : Nat) : Run Buffer (List UInt8) :=
  doConvLoop p len 0 0 (List.replicate (len * 2) 32)

/-- The loop that `bin2hex` and `bin2hex_dump` share, with `n` rounds to
    go.  The width is set anew in each round, the fill stays set. -/
def streamLoop (separator pbin : List UInt8) : Nat → Nat → Stream → Run Buffer Stream
  | 0, _, oss => pure oss
  | n + 1, i, oss => do
    let b ← get .source pbin i
    let oss := ((oss.setw 2).setfill 48).insertInt (Int32.ofNat b.toNat)
    streamLoop separator pbin n (i + 1) (separator.foldl Stream.insertChar oss)

/-- The stream after the loop, with base and fill set back.  What the
    function returns is the `str` of this stream. -/
def streamHex (separator : List UInt8) (oss : Stream) (pbin : List UInt8) (len : Nat) :
    Run Buffer Stream := do
  let oss ← streamLoop separator pbin len 0 oss.hex.nouppercase
  pure (oss.dec.setfill 32)

/-- `bin2hex` and `bin2hex_dump` on the stream of the caller.  The dump has
    a blank after each byte. -/
def bin2hexStream : Stream → List UInt8 → Nat → Run Buffer Stream := streamHex []
def bin2hexDumpStream : Stream → List UInt8 → Nat → Run Buffer Stream := streamHex (ascii " ")

/-- `bin2hex` on a stream of its own. -/
def bin2hex (pbin : List UInt8) (len : Nat) : Run Buffer (List UInt8) := do
  let oss ← bin2hexStream OStream.new pbin len
  pure oss.str

/-- `bin2hex_dump` on a stream of its own. -/
def bin2hexDump (pbin : List UInt8) (len : Nat) : Run Buffer (List UInt8) := do
  let oss ← bin2hexDumpStream OStream.new pbin len
  pure oss.str

/-- The byte for the two characters at `pos`. -/
def pairAt (table : List UInt8) (index : UInt8 → UInt8) (src : List UInt8) (pos : Nat) :
    Run Buffer UInt8 := do
  let idx0 := index (← get .source src pos)
  let idx1 := index (← get .source src (pos + 1))
  let h0 ← get .table table idx0.toNat
  let h1 ← get .table table idx1.toNat
  pure ((h0 <<< 4) ||| h1)

/-- `hashmap` of `hex_string_to_bin`. -/
def foldedMap : List UInt8 := [
    0x00, 0x01, 0x02, 0x03, 0x04, 0x05, 0x06, 0x07,
    0x08, 0x09, 0x00, 0x00, 0x00, 0x00, 0x00, 0x00,
    0x00, 0x0a, 0x0b, 0x0c, 0x0d, 0x0e, 0x0f, 0x00,
    0x00, 0x00, 0x00, 0x00, 0x00, 0x00, 0x00, 0x00]

/-- The index that `hex_string_to_bin` folds a character to. -/
def foldedIndex (c : UInt8) : UInt8 := (c &&& 0x1F) ^^^ 0x10

/-- The loop of `hex_string_to_bin`, with `n` rounds to go. -/
def pushLoop (str : List UInt8) : Nat → Nat → List UInt8 → Run Buffer (List UInt8)
  | 0, _, v => pure v
  | n + 1, pos, v => do
    let b ← pairAt foldedMap foldedIndex str pos
    pushLoop str n (pos + 2) (v ++ [b])

/-- `hex_string_to_bin`.  Behind the characters of a string lies a NUL that
    may be read. -/
def hexStringToBin (str : List UInt8) : Run Buffer (List UInt8) :=
  pushLoop (str ++ [0]) ((str.length + 1) / 2) 0 []

/-- The loop of `hex_string_to_bin_fastest` over arrays, with `n` rounds
    to go. -/
def decodeLoop (src : List UInt8) : Nat → Nat → List UInt8 → Run Buffer (List UInt8)
  | 0, _, out => pure out
  | n + 1, pos, out => do
    let b ← pairAt hashmap id src pos
    let out ← set .output out (pos / 2) b
    decodeLoop src n (pos + 2) out

/-- `hex_string_to_bin_fastest(const char*, size_t, uint8_t*)`. -/
def hexStringToBinFastestArray (src : List UInt8) (srcLen : Nat) (out : List UInt8) :
    Run Buffer (List UInt8) :=
  decodeLoop src ((srcLen + 1) / 2) 0 out

/-- `hex_string_to_bin_fastest(const std::string&, uint8_t*)`. -/
def hexStringToBinFastestString (str out : List UInt8) : Run Buffer (List UInt8) :=
  hexStringToBinFastestArray (str ++ [0]) str.length out

/-- `hex_string_to_bin_fastest(const std::string&)`, which allocates the
    vector. -/
def hexStringToBinFastestVector (str : List UInt8) : Run Buffer (List UInt8) :=
  hexStringToBinFastestString str (List.replicate (str.length / 2) 0)

/-! ## Section 2: Encoding -/

theorem length_hexmap : hexmap.length = 16 := by decide

/-- A table that is indexed in range gives the entry that `getD` gives. -/
theorem table_get {table : List UInt8} {i : Nat} (h : i < table.length) :
    table[i]? = some (table.getD i 0) := by
  rw [List.getD_eq_getElem?_getD, List.getElem?_eq_getElem h]
  rfl

theorem hexmap_get_high (b : UInt8) :
    hexmap[((b &&& 0xF0) >>> 4).toNat]? = some (highDigit b) := by
  apply table_get
  have hb := b.toNat_lt
  rw [toNat_high, length_hexmap]
  omega

theorem hexmap_get_low (b : UInt8) : hexmap[(b &&& 0x0F).toNat]? = some (lowDigit b) := by
  apply table_get
  rw [toNat_low, length_hexmap]
  omega

/-- **`do_conv` over arrays** returns what `do_conv` leaves in a block of
    the memory. -/
theorem doConvLoop_result (psrc : List UInt8) (m : Memory) (a k n i pdst : Nat)
    (hsrc : i + n ≤ psrc.length) (hdst : pdst + 2 * n ≤ k) :
    (doConvLoop psrc n i pdst (readBytes m a k)).result =
      some (readBytes (doConv m (a + pdst) ((psrc.drop i).take n)) a k) := by
  induction n generalizing m i pdst with
  | zero => simp [doConvLoop, doConv]
  | succ n ih =>
    have hi : i < psrc.length := by omega
    have hhigh : pdst < k := by omega
    have hlow : pdst + 1 < k := by omega
    have hdrop : (psrc.drop i).take (n + 1) = psrc[i] :: (psrc.drop (i + 1)).take n := by
      rw [List.drop_eq_getElem_cons hi, List.take_succ_cons]
    -- The two stores of a round are stores to the block.
    simp only [doConvLoop, Run.result_bind, result_get, List.getElem?_eq_getElem hi,
      Option.bind_some, hexmap_get_high, hexmap_get_low, result_set, length_readBytes,
      if_pos hhigh, if_pos hlow, ← readBytes_write]
    rw [ih _ (i + 1) (pdst + 2) (by omega) (by omega), hdrop]
    rfl

/-- `bin2hex_fast2` returns the digits. -/
theorem bin2hexFast2_result (b rest : List UInt8) :
    (bin2hexFast2 (b ++ rest) b.length).result = some (hexText b) := by
  have hloop := doConvLoop_result (b ++ rest) (fun _ => 32) 0 (b.length * 2) b.length 0 0
    (by simp) (by omega)
  rw [readBytes_const, doConv_eq, List.drop_zero, List.take_left, Nat.zero_add, ← length_hexText,
    readBytes_writeBytes] at hloop
  rw [bin2hexFast2, ← length_hexText]
  exact hloop

theorem digit_digitChar : ∀ n : Fin 16, Stream.digit false (Nat.digitChar n) = hexChar n := by
  decide

/-- One round of the stream versions. -/
theorem insertInt_eq {oss : Stream} (hbase : oss.base = .hex) (hcase : oss.uppercase = false)
    (b : UInt8) :
    ((oss.setw 2).setfill 48).insertInt (Int32.ofNat b.toNat) =
      { oss with width := 0, fill := 48, str := oss.str ++ byteDigits b } := by
  have hb := b.toNat_lt
  have hhigh := digit_digitChar ⟨b.toNat / 16, by omega⟩
  have hlow := digit_digitChar ⟨b.toNat % 16, by omega⟩
  rw [Stream.insertInt_byte hbase hcase hb]
  show { oss with
    width := 0
    fill := 48
    str := oss.str ++ [Stream.digit false (b.toNat / 16).digitChar,
      Stream.digit false (b.toNat % 16).digitChar] } = _
  rw [hhigh, hlow]
  rfl

/-- The loop of the stream versions; `pre` has been inserted, `bs` is next. -/
theorem streamLoop_str (separator rest bs pre : List UInt8) (oss : Stream)
    (hbase : oss.base = .hex) (hcase : oss.uppercase = false) :
    (streamLoop separator (pre ++ (bs ++ rest)) bs.length pre.length oss).result.map Stream.str =
      some (oss.str ++ bs.flatMap fun b => byteDigits b ++ separator) := by
  -- Base and case stay set; the width is used up by each byte, so a separator is not padded.
  induction bs generalizing pre oss with
  | nil => simp [streamLoop]
  | cons b bs ih =>
    have hget : (pre ++ (b :: bs ++ rest))[pre.length]? = some b := by simp
    have hpre : pre ++ (b :: bs ++ rest) = (pre ++ [b]) ++ (bs ++ rest) := by simp
    have hnext := ih (pre ++ [b])
      { oss with width := 0, fill := 48, str := oss.str ++ byteDigits b ++ separator } hbase hcase
    rw [List.length_append, List.length_singleton] at hnext
    simp only [List.length_cons, streamLoop, Run.result_bind, result_get, hget, Option.bind_some,
      insertInt_eq hbase hcase]
    rw [Stream.foldl_insertChar rfl, hpre, hnext]
    simp

/-- What the stream versions append. -/
theorem streamHex_str (separator : List UInt8) (oss : Stream) (bs rest : List UInt8) :
    (streamHex separator oss (bs ++ rest) bs.length).result.map Stream.str =
      some (oss.str ++ bs.flatMap fun b => byteDigits b ++ separator) := by
  have hloop := streamLoop_str separator rest bs [] oss.hex.nouppercase rfl rfl
  obtain ⟨oss', hres, hstr⟩ := Option.map_eq_some_iff.mp hloop
  rw [List.nil_append, List.length_nil] at hres
  simp only [streamHex, Run.result_bind, hres, Option.bind_some, Run.result_pure, Option.map_some]
  exact congrArg some hstr

/-- The text on a stream of its own. -/
theorem streamHex_new (separator b rest : List UInt8) :
    (streamHex separator OStream.new (b ++ rest) b.length >>= fun oss => pure oss.str).result =
      some (b.flatMap fun c => byteDigits c ++ separator) := by
  obtain ⟨oss, hres, hstr⟩ := Option.map_eq_some_iff.mp
    (streamHex_str separator OStream.new b rest)
  rw [Run.result_bind, hres, Option.bind_some, Run.result_pure, hstr]
  rfl

theorem bin2hex_result (b rest : List UInt8) :
    (bin2hex (b ++ rest) b.length).result = some (b.flatMap byteDigits) := by
  have hnew := streamHex_new [] b rest
  simp only [List.append_nil] at hnew
  exact hnew

/-- The dump has a blank after every byte, also after the last one. -/
theorem bin2hexDump_result (b rest : List UInt8) :
    (bin2hexDump (b ++ rest) b.length).result =
      some (b.flatMap fun c => byteDigits c ++ ascii " ") :=
  streamHex_new (ascii " ") b rest

/-! ## Section 3: Decoding -/

theorem pairAt_result (src : List UInt8) (pos : Nat) :
    (pairAt hashmap id src pos).result =
      src[pos]?.bind fun c0 => src[pos + 1]?.bind fun c1 => decodePair c0 c1 := by
  unfold pairAt decodePair
  simp only [Run.result_bind, result_get, Run.result_pure, id, Option.map_eq_bind]
  rfl

/-- **The decoder over arrays** returns what the decoder leaves in a block
    of the memory, as long as the stores stay in the block. -/
theorem decodeLoop_result (src : List UInt8) (m : Memory) (out k n pos : Nat) :
    (decodeLoop src n pos (readBytes m out k)).result =
      if n = 0 ∨ pos / 2 + n ≤ k then (hexLoop src out n pos m).map (readBytes · out k)
      else none := by
  induction n generalizing m pos with
  | zero => simp [decodeLoop, hexLoop]
  | succ n ih =>
    simp only [decodeLoop, Run.result_bind, pairAt_result, result_set, length_readBytes, hexLoop]
    cases src[pos]? with
    | none => simp
    | some c0 =>
      cases src[pos + 1]? with
      | none => simp
      | some c1 =>
        cases hpair : decodePair c0 c1 with
        | none => simp [hpair]
        | some v =>
          simp only [Option.bind_some, hpair]
          by_cases hfit : pos / 2 < k
          · rw [if_pos hfit, Option.bind_some, ← readBytes_write, ih]
            have hiff : (n = 0 ∨ (pos + 2) / 2 + n ≤ k) ↔ (n + 1 = 0 ∨ pos / 2 + (n + 1) ≤ k) := by
              omega
            simp only [hiff]
          · have hout : ¬ (n + 1 = 0 ∨ pos / 2 + (n + 1) ≤ k) := by omega
            rw [if_neg hfit, if_neg hout]
            rfl

/-- Characters behind those that are read do not matter. -/
theorem hexLoop_append (str tail : List UInt8) (m : Memory) (out n pos : Nat)
    (h : pos + 2 * n ≤ str.length) :
    hexLoop (str ++ tail) out n pos m = hexLoop str out n pos m := by
  induction n generalizing m pos with
  | zero => rfl
  | succ n ih =>
    have h0 : pos < str.length := by omega
    have h1 : pos + 1 < str.length := by omega
    simp only [hexLoop, List.getElem?_append_left h0, List.getElem?_append_left h1]
    simp only [ih _ (pos + 2) (by omega)]

/-- Character `i` is there and indexes into `hashmap`. -/
def Indexes (src : List UInt8) (i : Nat) : Prop := ∃ c, src[i]? = some c ∧ c.toNat < 103

theorem indexes_iff {src : List UInt8} {i : Nat} {c : UInt8} (h : src[i]? = some c) :
    Indexes src i ↔ c.toNat < 103 := by
  simp [Indexes, h]

theorem not_indexes {src : List UInt8} {i : Nat} (h : src[i]? = none) : ¬ Indexes src i := by
  simp [Indexes, h]

theorem decodePair_isSome_iff (c0 c1 : UInt8) :
    (decodePair c0 c1).isSome = true ↔ c0.toNat < 103 ∧ c1.toNat < 103 := by
  rw [← show hashmap.length = 103 from rfl]
  by_cases h0 : c0.toNat < hashmap.length
  · by_cases h1 : c1.toNat < hashmap.length
    · simp [decodePair, h0, h1]
    · simp [decodePair, h0, h1]
  · simp [decodePair, h0]

/-- The loop gets through exactly when all characters that it reads index
    into `hashmap`. -/
theorem hexLoop_isSome_iff (src : List UInt8) (m : Memory) (out n pos : Nat) :
    (hexLoop src out n pos m).isSome = true ↔
      ∀ i < n, Indexes src (pos + 2 * i) ∧ Indexes src (pos + 2 * i + 1) := by
  induction n generalizing m pos with
  | zero => simp [hexLoop]
  | succ n ih =>
    have hrest : ∀ i, pos + 2 * (i + 1) = pos + 2 + 2 * i := by
      intro i
      omega
    simp only [Nat.forall_lt_succ_left, Nat.mul_zero, Nat.add_zero, hrest, hexLoop]
    cases h0 : src[pos]? with
    | none => simp [not_indexes h0]
    | some c0 =>
      cases h1 : src[pos + 1]? with
      | none => simp [not_indexes h1]
      | some c1 =>
        rw [indexes_iff h0, indexes_iff h1, ← decodePair_isSome_iff]
        cases hpair : decodePair c0 c1 with
        | none => simp [hpair]
        | some v => simp [hpair, ← ih (write m (out + pos / 2) v)]

/-- The vector version, in terms of the pointer version. -/
theorem hexStringToBinFastestVector_result (str : List UInt8) :
    (hexStringToBinFastestVector str).result =
      if str.length % 2 = 0 then
        (hexStringToBinFastest (str ++ [0]) str.length 0 fun _ => 0).map
          (readBytes · 0 (str.length / 2))
      else none := by
  have hloop := decodeLoop_result (str ++ [0]) (fun _ => 0) 0 (str.length / 2)
    ((str.length + 1) / 2) 0
  -- The last round of an odd number stores behind the vector.
  have hfit : ((str.length + 1) / 2 = 0 ∨ 0 / 2 + (str.length + 1) / 2 ≤ str.length / 2) ↔
      str.length % 2 = 0 := by omega
  rw [readBytes_const] at hloop
  simp only [hfit] at hloop
  exact hloop

/-- A string that hex digits in pairs make up. -/
structure HexString where
  chars : List UInt8
  digits : ∀ c ∈ chars, isHexDigit c = true
  even : chars.length % 2 = 0

/-- **Induction over the pairs of digits.** -/
theorem HexString.pairs {motive : List UInt8 → Prop} (nil : motive [])
    (pair : ∀ c0 c1 cs, isHexDigit c0 = true → isHexDigit c1 = true → motive cs →
      motive (c0 :: c1 :: cs)) : ∀ s : HexString, motive s.chars
  | ⟨[], _, _⟩ => nil
  | ⟨[_], _, heven⟩ => absurd heven (by simp)
  | ⟨c0 :: c1 :: cs, hdigits, heven⟩ => by
    obtain ⟨h0, h1, hcs⟩ : isHexDigit c0 = true ∧ isHexDigit c1 = true ∧
        ∀ c ∈ cs, isHexDigit c = true := by simpa using hdigits
    have heven' : cs.length % 2 = 0 := by
      simp only [List.length_cons] at heven
      omega
    exact pair c0 c1 cs h0 h1 (pairs nil pair ⟨cs, hcs, heven'⟩)
termination_by s => s.chars.length

/-- The fast decoder, on digits. -/
theorem HexString.vector_result (s : HexString) :
    (hexStringToBinFastestVector s.chars).result = some (decodeHex s.chars) := by
  have hlen : s.chars.length = 2 * (s.chars.length / 2) := by
    have heven := s.even
    omega
  have hloop : hexStringToBinFastest (s.chars ++ [0]) s.chars.length 0 (fun _ => 0) =
      some (writeBytes (fun _ => 0) 0 (decodeHex s.chars)) := by
    rw [← hexStringToBinFastest_eq 0 _ s.digits hlen]
    unfold hexStringToBinFastest
    exact hexLoop_append s.chars [0] _ 0 _ 0 (by omega)
  rw [hexStringToBinFastestVector_result, if_pos s.even, hloop, Option.map_some, ← length_decodeHex,
    readBytes_writeBytes]

/-! ### The plain decoder -/

/-- The bytes that `hex_string_to_bin` makes of characters of any kind. -/
def foldedBytes : List UInt8 → List UInt8
  | c0 :: c1 :: cs =>
    ((foldedMap.getD (foldedIndex c0).toNat 0 <<< 4) ||| foldedMap.getD (foldedIndex c1).toNat 0) ::
      foldedBytes cs
  | _ => []

/-- The folded index is always in range. -/
theorem foldedMap_get (c : UInt8) :
    foldedMap[(foldedIndex c).toNat]? = some (foldedMap.getD (foldedIndex c).toNat 0) := by
  apply table_get
  have heq : (foldedIndex c).toNat = (c.toNat &&& (2 ^ 5 - 1)) ^^^ 16 := by simp [foldedIndex]
  rw [heq, Nat.and_two_pow_sub_one_eq_mod]
  exact Nat.xor_lt_two_pow (n := 5) (by omega) (by omega)

theorem pushLoop_result : ∀ (cs pre v : List UInt8),
    (pushLoop (pre ++ cs) (cs.length / 2) pre.length v).result = some (v ++ foldedBytes cs)
  | [], pre, v => by simp [pushLoop, foldedBytes]
  | [_], pre, v => by simp [pushLoop, foldedBytes]
  | c0 :: c1 :: cs, pre, v => by
    have hget0 : (pre ++ c0 :: c1 :: cs)[pre.length]? = some c0 := by simp
    have hget1 : (pre ++ c0 :: c1 :: cs)[pre.length + 1]? = some c1 := by simp
    have hlen : (c0 :: c1 :: cs).length / 2 = cs.length / 2 + 1 := by
      simp only [List.length_cons]
      omega
    have hpre : pre ++ c0 :: c1 :: cs = (pre ++ [c0, c1]) ++ cs := by simp
    have ih := pushLoop_result cs (pre ++ [c0, c1])
    rw [List.length_append, ← hpre] at ih
    rw [hlen]
    simp only [pushLoop, pairAt, Run.result_bind, result_get, hget0, hget1, Option.bind_some,
      foldedMap_get, Run.result_pure]
    rw [show pre.length + 2 = pre.length + [c0, c1].length from rfl, ih]
    simp [foldedBytes]

/-- The plain decoder returns on every string.  To an odd number of
    characters it adds the NUL. -/
theorem hexStringToBin_result (str : List UInt8) :
    (hexStringToBin str).result = some (foldedBytes (str ++ [0])) := by
  have hloop := pushLoop_result (str ++ [0]) [] []
  rw [List.length_append] at hloop
  exact hloop

/-- On digits both tables hold the same values. -/
theorem foldedMap_eq_digitValue {c : UInt8} (h : isHexDigit c = true) :
    foldedMap.getD (foldedIndex c).toNat 0 = digitValue c := by
  apply forall_isHexDigit (motive := fun c =>
    foldedMap.getD (foldedIndex c).toNat 0 = digitValue c) _ h
  decide

theorem HexString.foldedBytes_eq (s : HexString) (tail : UInt8) :
    foldedBytes (s.chars ++ [tail]) = decodeHex s.chars := by
  apply HexString.pairs (motive := fun cs => foldedBytes (cs ++ [tail]) = decodeHex cs)
  · rfl
  · intro c0 c1 cs h0 h1 ih
    simp only [List.cons_append, foldedBytes, decodeHex, foldedMap_eq_digitValue h0,
      foldedMap_eq_digitValue h1, ih]

/-- The plain decoder, on digits. -/
theorem HexString.plain_result (s : HexString) :
    (hexStringToBin s.chars).result = some (decodeHex s.chars) := by
  rw [hexStringToBin_result, s.foldedBytes_eq]

/-! ## Section 4: Bounds -/

section Bounds

variable {source output : Nat}

theorem doConvLoop_sized {psrc dst : List UInt8} (n i pdst : Nat) (hsrc : psrc.length = source)
    (hdst : dst.length = output) :
    (doConvLoop psrc n i pdst dst).Sized (sizes source 16 output) := by
  have htable : hexmap.length = sizes source 16 output .table := length_hexmap
  induction n generalizing i pdst dst with
  | zero => exact Run.sized_pure dst
  | succ n ih =>
    apply (Run.sized_get i hsrc).bind
    intro b _
    apply (Run.sized_get _ htable).bind
    intro high _
    apply (Run.sized_set pdst high hdst).bind
    intro dst' hset
    have hdst' : dst'.length = output := (length_of_result_set hset).trans hdst
    apply (Run.sized_get i hsrc).bind
    intro b' _
    apply (Run.sized_get _ htable).bind
    intro low _
    apply (Run.sized_set (pdst + 1) low hdst').bind
    intro dst'' hset'
    exact ih (i + 1) (pdst + 2) ((length_of_result_set hset').trans hdst')

theorem pairAt_sized {table src : List UInt8} {entries : Nat} (index : UInt8 → UInt8) (pos : Nat)
    (hsrc : src.length = source) (htable : table.length = entries) :
    (pairAt table index src pos).Sized (sizes source entries output) := by
  apply (Run.sized_get pos hsrc).bind
  intro c0 _
  apply (Run.sized_get (pos + 1) hsrc).bind
  intro c1 _
  apply (Run.sized_get _ htable).bind
  intro h0 _
  apply (Run.sized_get _ htable).bind
  intro h1 _
  exact Run.sized_pure _

theorem decodeLoop_sized {src out : List UInt8} (n pos : Nat) (hsrc : src.length = source)
    (hout : out.length = output) :
    (decodeLoop src n pos out).Sized (sizes source 103 output) := by
  induction n generalizing pos out with
  | zero => exact Run.sized_pure out
  | succ n ih =>
    apply (pairAt_sized id pos hsrc rfl).bind
    intro b _
    apply (Run.sized_set (pos / 2) b hout).bind
    intro out' hset
    exact ih (pos + 2) ((length_of_result_set hset).trans hout)

theorem pushLoop_sized {str : List UInt8} (n pos : Nat) (v : List UInt8)
    (hstr : str.length = source) :
    (pushLoop str n pos v).Sized (sizes source 32 output) := by
  induction n generalizing pos v with
  | zero => exact Run.sized_pure v
  | succ n ih =>
    apply (pairAt_sized foldedIndex pos hstr rfl).bind
    intro b _
    exact ih (pos + 2) (v ++ [b])

end Bounds

/-- `bin2hex_fast2` stays in its arrays. -/
theorem bin2hexFast2_within (b : List UInt8) :
    (bin2hexFast2 b b.length).Within (sizes b.length 16 (b.length * 2)) := by
  have hres := bin2hexFast2_result b []
  rw [List.append_nil] at hres
  apply (doConvLoop_sized b.length 0 0 rfl (List.length_replicate ..)).within_iff.mpr
  exact Option.isSome_of_eq_some hres

/-- The vector version stays in its arrays exactly when it returns. -/
theorem hexStringToBinFastestVector_within_iff (str : List UInt8) :
    (hexStringToBinFastestVector str).Within (sizes (str.length + 1) 103 (str.length / 2)) ↔
      (hexStringToBinFastestVector str).result.isSome = true := by
  apply Run.Sized.within_iff
  exact decodeLoop_sized _ 0 (List.length_append ..) (List.length_replicate ..)

/-- **The plain decoder stays in its arrays** on every string: the index is
    folded into the table, and an odd string is read up to its NUL. -/
theorem hexStringToBin_within (str : List UInt8) :
    (hexStringToBin str).Within (sizes (str.length + 1) 32 0) := by
  apply (pushLoop_sized _ 0 [] (List.length_append ..)).within_iff.mpr
  exact Option.isSome_of_eq_some (hexStringToBin_result str)

/-! ## Section 5: The laws -/

/-- The lower case of a letter. -/
def toLower (c : UInt8) : UInt8 := if 65 ≤ c.toNat ∧ c.toNat ≤ 90 then c + 32 else c

theorem hexChar_hexValue {c : UInt8} (h : isHexDigit c = true) :
    hexChar (hexValue c) = toLower c := by
  apply forall_isHexDigit (motive := fun c => hexChar (hexValue c) = toLower c) _ h
  decide

/-- The digits of the byte that two digits spell. -/
theorem byteDigits_pair {c0 c1 : UInt8} (h0 : isHexDigit c0 = true) (h1 : isHexDigit c1 = true) :
    byteDigits (UInt8.ofNat (16 * hexValue c0 + hexValue c1)) = [toLower c0, toLower c1] := by
  have hlt0 := (digitValue_eq h0).2
  have hlt1 := (digitValue_eq h1).2
  have hbyte : (UInt8.ofNat (16 * hexValue c0 + hexValue c1)).toNat =
      16 * hexValue c0 + hexValue c1 := by
    rw [UInt8.toNat_ofNat']
    omega
  have hhigh : (16 * hexValue c0 + hexValue c1) / 16 = hexValue c0 := by omega
  have hlow : (16 * hexValue c0 + hexValue c1) % 16 = hexValue c1 := by omega
  rw [byteDigits, hbyte, hhigh, hlow, hexChar_hexValue h0, hexChar_hexValue h1]

theorem HexString.lower_eq (s : HexString) :
    hexText (spelledBytes s.chars) = s.chars.map toLower := by
  apply HexString.pairs (motive := fun cs => hexText (spelledBytes cs) = cs.map toLower)
  · rfl
  · intro c0 c1 cs h0 h1 ih
    rw [hexText_eq] at ih ⊢
    rw [spelledBytes, List.flatMap_cons, byteDigits_pair h0 h1, ih]
    rfl

/-- The text of some bytes, as a string of digits. -/
def HexString.ofBytes (b : List UInt8) : HexString where
  chars := hexText b
  digits := fun _ hc => isHexDigit_of_mem_hexText hc
  even := by simp

/-- **Round trips.** Decoding the digits of some bytes gives the bytes, and
    encoding what some digits spell gives the digits in lower case.  All
    four conversions stay in their arrays. -/
theorem hex_codec_round_trips :
    (∀ b : List UInt8, ∃ s,
      (bin2hexFast2 b b.length).result = some s ∧
      (hexStringToBinFastestVector s).result = some b ∧
      (bin2hexFast2 b b.length).Within (sizes b.length 16 (b.length * 2)) ∧
      (hexStringToBinFastestVector s).Within (sizes (s.length + 1) 103 (s.length / 2))) ∧
    (∀ s : HexString, ∃ v,
      (hexStringToBinFastestVector s.chars).result = some v ∧
      (bin2hexFast2 v v.length).result = some (s.chars.map toLower) ∧
      (hexStringToBinFastestVector s.chars).Within
        (sizes (s.chars.length + 1) 103 (s.chars.length / 2)) ∧
      (bin2hexFast2 v v.length).Within (sizes v.length 16 (v.length * 2))) := by
  have hencode : ∀ b, (bin2hexFast2 b b.length).result = some (hexText b) := by
    intro b
    have hres := bin2hexFast2_result b []
    rwa [List.append_nil] at hres
  have hdecode : ∀ s : HexString, (hexStringToBinFastestVector s.chars).Within
      (sizes (s.chars.length + 1) 103 (s.chars.length / 2)) := by
    intro s
    apply (hexStringToBinFastestVector_within_iff s.chars).mpr
    exact Option.isSome_of_eq_some s.vector_result
  constructor
  · intro b
    have hback := (HexString.ofBytes b).vector_result
    rw [show (HexString.ofBytes b).chars = hexText b from rfl, decodeHex_hexText] at hback
    exact ⟨hexText b, hencode b, hback, bin2hexFast2_within b, hdecode (.ofBytes b)⟩
  · intro s
    refine ⟨decodeHex s.chars, s.vector_result, ?_, hdecode s, bin2hexFast2_within _⟩
    rw [hencode, decodeHex_eq_spelledBytes s.digits, s.lower_eq]

/-- **The fast conversions agree with the plain ones**, in both directions,
    and both give what the digits stand for.  Behind the bytes that are
    encoded there may be others. -/
theorem fast_and_plain_agree :
    (∀ b rest : List UInt8,
      (bin2hex (b ++ rest) b.length).result = some (b.flatMap byteDigits) ∧
      (bin2hexFast2 (b ++ rest) b.length).result = some (b.flatMap byteDigits)) ∧
    (∀ s : HexString,
      (hexStringToBin s.chars).result = some (spelledBytes s.chars) ∧
      (hexStringToBinFastestVector s.chars).result = some (spelledBytes s.chars)) := by
  constructor
  · intro b rest
    rw [← hexText_eq]
    exact ⟨hexText_eq b ▸ bin2hex_result b rest, bin2hexFast2_result b rest⟩
  · intro s
    rw [← decodeHex_eq_spelledBytes s.digits]
    exact ⟨s.plain_result, s.vector_result⟩

/-- **When the public decoder stays in its arrays**: on an even number of
    characters, all of them below the end of `hashmap`. -/
theorem vector_decoder_within_iff (str : List UInt8) :
    (hexStringToBinFastestVector str).Within (sizes (str.length + 1) 103 (str.length / 2)) ↔
      str.length % 2 = 0 ∧ ∀ c ∈ str, c.toNat < 103 := by
  rw [hexStringToBinFastestVector_within_iff, hexStringToBinFastestVector_result]
  by_cases heven : str.length % 2 = 0
  · have hchars : ∀ j (hj : j < str.length), Indexes (str ++ [0]) j ↔ str[j].toNat < 103 := by
      intro j hj
      apply indexes_iff
      rw [List.getElem?_append_left hj, List.getElem?_eq_getElem hj]
    rw [if_pos heven, Option.isSome_map, hexStringToBinFastest, hexLoop_isSome_iff]
    simp only [heven, true_and, Nat.zero_add]
    constructor
    · intro hall c hc
      obtain ⟨j, hj, rfl⟩ := List.mem_iff_getElem.mp hc
      obtain ⟨h0, h1⟩ := hall (j / 2) (by omega)
      -- Character `j` is the first or the second of its pair.
      apply (hchars j hj).mp
      rcases Nat.mod_two_eq_zero_or_one j with hmod | hmod
      · rwa [show 2 * (j / 2) = j by omega] at h0
      · rwa [show 2 * (j / 2) + 1 = j by omega] at h1
    · intro hall i hi
      have h0 : 2 * i < str.length := by omega
      have h1 : 2 * i + 1 < str.length := by omega
      exact ⟨(hchars _ h0).mpr (hall _ (List.getElem_mem h0)),
        (hchars _ h1).mpr (hall _ (List.getElem_mem h1))⟩
  · simp [heven]

/-- One digit: the store goes to an empty vector.  A letter behind `f`: the
    index is the size of `hashmap`. -/
theorem vector_decoder_out_of_range :
    ¬ (hexStringToBinFastestVector (ascii "a")).Within (sizes 2 103 0) ∧
    ¬ (hexStringToBinFastestVector (ascii "g0")).Within (sizes 3 103 1) := by
  decide +kernel

end LibControlCan
