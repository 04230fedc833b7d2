import LibControlCan.Framework.CStrings
import LibControlCan.Usbcan

/-! # Hexadecimal text of objects

    `bin2hex::bin2hex_fast`, `do_conv` and `hex_string_to_bin_fastest` of
    `hex_dump.hpp`, on the byte memory they write to.

    * `bin2hexFast_spec`: the variadic encoder leaves the text of its
      arguments and a terminating NUL at `dst`, and returns the length.
    * `hexStringToBinFastest_eq`: on an even number of hex digits the
      decoder stores one byte for every two digits.
    * `decodeHex_hexText`: decoding the text of some bytes gives the bytes.
    * `bin2hexFast_correct`: the encoder, in terms of numbers and not of its
      tables, on a buffer that may hold an older text.
-/

namespace LibControlCan

open ByteMemory Bytes CStrings

/-! ## Section 1: The encoder -/

/-- `hexmap` of `do_conv`. -/
def hexmap : List UInt8 := ascii "0123456789abcdef"

/-- The digit of the high half of a byte. -/
def highDigit (b : UInt8) : UInt8 := hexmap.getD ((b &&& 0xF0) >>> 4).toNat 0

/-- The digit of the low half of a byte. -/
def lowDigit (b : UInt8) : UInt8 := hexmap.getD (b &&& 0x0F).toNat 0

/-- `do_conv`: two digits for each byte of `psrc`. -/
def doConv (m : Memory) (pdst : Nat) : List UInt8 → Memory
  | [] => m
  | b :: psrc => doConv (write (write m pdst (highDigit b)) (pdst + 1) (lowDigit b)) (pdst + 2) psrc

/-- A C string: its characters up to the terminating NUL. -/
structure CString where
  chars : List UInt8
  nul_free : (0 : UInt8) ∉ chars

/-- An argument of `bin2hex_fast`: a C string, or the object bytes of a
    plain value (given by value or through a pointer). -/
inductive Arg where
  | str (src : CString)
  | pod (object : List UInt8)

/-- The newline that ends every line, the last argument of every call. -/
def lr : Arg := .str ⟨ascii "\n", by decide⟩

/-- `bin2hex_fast`: the returned length and the memory it leaves. -/
def bin2hexFast (m : Memory) (dst : Nat) : List Arg → Nat × Memory
  | [] => (0, write m dst 0)
  | .str src :: args =>
    let srcBytes := src.chars.length
    let (restSize, m') := bin2hexFast (writeBytes m dst src.chars) (dst + srcBytes) args
    (srcBytes + restSize, m')
  | .pod object :: args =>
    let bytes := object.length
    let (restSize, m') := bin2hexFast (doConv m dst object) (dst + bytes * 2) args
    (bytes * 2 + restSize, m')

/-- The digits of a sequence of bytes. -/
def hexText (bs : List UInt8) : List UInt8 := bs.flatMap fun b => [highDigit b, lowDigit b]

/-- The text of one argument. -/
def Arg.text : Arg → List UInt8
  | .str src => src.chars
  | .pod object => hexText object

/-- The text of an argument list. -/
def argsText (args : List Arg) : List UInt8 := args.flatMap Arg.text

@[simp] theorem hexText_nil : hexText [] = [] := rfl

@[simp] theorem hexText_cons (b : UInt8) (bs : List UInt8) :
    hexText (b :: bs) = highDigit b :: lowDigit b :: hexText bs := rfl

@[simp] theorem hexText_append (xs ys : List UInt8) :
    hexText (xs ++ ys) = hexText xs ++ hexText ys := by
  simp [hexText]

@[simp] theorem length_hexText (bs : List UInt8) : (hexText bs).length = bs.length * 2 := by
  induction bs with
  | nil => rfl
  | cons b bs ih => simp [ih, Nat.succ_mul]

theorem doConv_eq (m : Memory) (pdst : Nat) (psrc : List UInt8) :
    doConv m pdst psrc = writeBytes m pdst (hexText psrc) := by
  induction psrc generalizing m pdst with
  | nil => rfl
  | cons b psrc ih => simp only [doConv, ih, hexText_cons, writeBytes]

/-- **Encoder.** The text of the arguments, a NUL after it, and its length. -/
theorem bin2hexFast_spec (m : Memory) (dst : Nat) (args : List Arg) :
    bin2hexFast m dst args =
      ((argsText args).length, writeBytes m dst (argsText args ++ [0])) := by
  -- Each argument moves `dst` on by its own text; the base case writes the NUL.
  induction args generalizing m dst with
  | nil => rfl
  | cons a args ih =>
    cases a with
    | str src =>
      simp only [bin2hexFast, ih, argsText, List.flatMap_cons, Arg.text, List.length_append,
        List.append_assoc, writeBytes_append]
    | pod object =>
      have hlen : object.length * 2 = (hexText object).length := (length_hexText object).symm
      simp only [bin2hexFast, ih, doConv_eq, argsText, List.flatMap_cons, Arg.text,
        List.length_append, List.append_assoc, hlen]
      rw [writeBytes_append m dst (hexText object)]

/-- The `size` characters that a caller of `bin2hex_fast` reads from its buffer. -/
def bin2hexLine (args : List Arg) : List UInt8 :=
  let (size, m) := bin2hexFast (fun _ => 0) 0 args
  readBytes m 0 size

theorem bin2hexLine_eq (args : List Arg) : bin2hexLine args = argsText args := by
  unfold bin2hexLine
  rw [bin2hexFast_spec]
  show readBytes (writeBytes (fun _ => 0) 0 (argsText args ++ [0])) 0 (argsText args).length = _
  rw [readBytes_writeBytes_take (by simp)]
  simp

/-! ## Section 2: The decoder -/

/-- `hashmap` of `hex_string_to_bin_fastest`. -/
def hashmap : List UInt8 := [
    0,  0,  0,  0,  0,  0,  0, 0, 0, 0, 0, 0, 0, 0, 0, 0,
    0,  0,  0,  0,  0,  0,  0, 0, 0, 0, 0, 0, 0, 0, 0, 0, 0, 0, 0, 0, 0,
    0,  0,  0,  0,  0,  0,  0, 0, 0, 0, 0, 0, 1, 2, 3, 4, 5, 6, 7, 8, 9,
    0,  0,  0,  0,  0,  0,  0,
    10, 11, 12, 13, 14, 15,
    0,  0,  0,  0,  0,  0,  0, 0, 0, 0, 0, 0, 0,
    0,  0,  0,  0,  0,  0,  0, 0, 0, 0, 0, 0, 0,
    10, 11, 12, 13, 14, 15]

/-- The byte for two characters; `none` when an index is outside `hashmap`. -/
def decodePair (c0 c1 : UInt8) : Option UInt8 :=
  (hashmap[c0.toNat]?).bind fun h0 =>
    (hashmap[c1.toNat]?).map fun h1 => (h0 <<< 4) ||| h1

/-- The loop of `hex_string_to_bin_fastest` with `n` rounds to go.  It
    stops with `none` at a read outside `src` or outside `hashmap`. -/
def hexLoop (src : List UInt8) (out : Nat) : Nat → Nat → Memory → Option Memory
  | 0, _, m => some m
  | n + 1, pos, m =>
    match src[pos]?, src[pos + 1]? with
    | some c0, some c1 =>
      match decodePair c0 c1 with
      | some v => hexLoop src out n (pos + 2) (write m (out + pos / 2) v)
      | none => none
    | _, _ => none

/-- `hex_string_to_bin_fastest`: the loop `pos = 0, 2, 4, ...` below `srcLen`. -/
def hexStringToBinFastest (src : List UInt8) (srcLen : Nat) (out : Nat) (m : Memory) :
    Option Memory :=
  hexLoop src out ((srcLen + 1) / 2) 0 m

/-- The character class `[0-9a-fA-F]`. -/
def isHexDigit (c : UInt8) : Bool :=
  (48 ≤ c.toNat && c.toNat ≤ 57) || (97 ≤ c.toNat && c.toNat ≤ 102) ||
    (65 ≤ c.toNat && c.toNat ≤ 70)

/-- The value of a digit. -/
def digitValue (c : UInt8) : UInt8 := hashmap.getD c.toNat 0

/-- The bytes that pairs of digits spell. -/
def decodeHex : List UInt8 → List UInt8
  | c0 :: c1 :: cs => ((digitValue c0 <<< 4) ||| digitValue c1) :: decodeHex cs
  | _ => []

theorem length_decodeHex : ∀ cs : List UInt8, (decodeHex cs).length = cs.length / 2
  | [] => rfl
  | [_] => by simp [decodeHex]
  | c0 :: c1 :: cs => by
    have ih := length_decodeHex cs
    simp only [decodeHex, List.length_cons, ih]
    omega

theorem isHexDigit_lt {c : UInt8} (h : isHexDigit c = true) : c.toNat < 103 := by
  simp only [isHexDigit, Bool.or_eq_true, Bool.and_eq_true, decide_eq_true_eq] at h
  omega

theorem decodePair_eq {c0 c1 : UInt8} (h0 : isHexDigit c0 = true) (h1 : isHexDigit c1 = true) :
    decodePair c0 c1 = some ((digitValue c0 <<< 4) ||| digitValue c1) := by
  have hlen : hashmap.length = 103 := rfl
  have hlt0 : c0.toNat < hashmap.length := by rw [hlen]; exact isHexDigit_lt h0
  have hlt1 : c1.toNat < hashmap.length := by rw [hlen]; exact isHexDigit_lt h1
  simp [decodePair, digitValue, hlt0, hlt1]

/-- The loop invariant: from an even position on, the rest of the digits
    is decoded to the rest of the output. -/
theorem hexLoop_eq {src : List UInt8} (out : Nat) (hsrc : ∀ c ∈ src, isHexDigit c = true)
    (n k : Nat) (m : Memory) (h : src.length = 2 * k + 2 * n) :
    hexLoop src out n (2 * k) m = some (writeBytes m (out + k) (decodeHex (src.drop (2 * k)))) := by
  -- On the rounds to go; the position is kept even, as `2 * k`.
  induction n generalizing k m with
  | zero =>
    have hnil : src.drop (2 * k) = [] := List.drop_eq_nil_of_le (by omega)
    simp [hexLoop, hnil, decodeHex]
  | succ n ih =>
    have hk : 2 * k < src.length := by omega
    have hk' : 2 * k + 1 < src.length := by omega
    have hdrop : src.drop (2 * k) = src[2 * k] :: src[2 * k + 1] :: src.drop (2 * (k + 1)) := by
      rw [List.drop_eq_getElem_cons hk, List.drop_eq_getElem_cons hk']
      rfl
    have hpair := decodePair_eq (hsrc _ (List.getElem_mem hk)) (hsrc _ (List.getElem_mem hk'))
    simp only [hexLoop, List.getElem?_eq_getElem hk, List.getElem?_eq_getElem hk', hpair]
    rw [show 2 * k + 2 = 2 * (k + 1) from by omega, ih (k + 1) _ (by omega), hdrop,
      show 2 * k / 2 = k from by omega]
    rfl

/-- **Decoder.** -/
theorem hexStringToBinFastest_eq {src : List UInt8} (out : Nat) (m : Memory)
    (hsrc : ∀ c ∈ src, isHexDigit c = true) {k : Nat} (hlen : src.length = 2 * k) :
    hexStringToBinFastest src src.length out m = some (writeBytes m out (decodeHex src)) := by
  have hloop := hexLoop_eq out hsrc k 0 m (by omega)
  rw [hexStringToBinFastest, show (src.length + 1) / 2 = k from by omega]
  simpa using hloop

/-! ## Section 3: Digits as numbers

    What the digits are, said without the tables and the bit operations of
    the code. -/

/-- The lowercase digit of a number below 16. -/
def hexChar (n : Nat) : UInt8 := UInt8.ofNat (if n < 10 then 48 + n else 87 + n)

/-- The digits of a byte, high half first. -/
def byteDigits (b : UInt8) : List UInt8 := [hexChar (b.toNat / 16), hexChar (b.toNat % 16)]

/-- A C string stands for itself, a value for the digits of its bytes. -/
def Arg.spelling : Arg → List UInt8
  | .str src => src.chars
  | .pod object => object.flatMap byteDigits

/-- The texts of all arguments. -/
def spelling (args : List Arg) : List UInt8 := args.flatMap Arg.spelling

/-- The value of a digit, in either case. -/
def hexValue (c : UInt8) : Nat :=
  if c.toNat ≤ 57 then c.toNat - 48 else if c.toNat ≤ 70 then c.toNat - 55 else c.toNat - 87

/-- The bytes that digits spell, high half first. -/
def spelledBytes : List UInt8 → List UInt8
  | c0 :: c1 :: cs => UInt8.ofNat (16 * hexValue c0 + hexValue c1) :: spelledBytes cs
  | _ => []

theorem hexmap_eq_hexChar : ∀ n : Fin 16, hexmap.getD n 0 = hexChar n := by decide

/-- Each of the sixteen digits is a digit and has its own value. -/
theorem hexChar_digit : ∀ n : Fin 16,
    isHexDigit (hexChar n) = true ∧ hexValue (hexChar n) = n := by
  decide

/-- The high half of a byte, as `do_conv` takes it. -/
theorem toNat_high (b : UInt8) : ((b &&& 0xF0) >>> 4).toNat = b.toNat / 16 := by
  have hb := b.toNat_lt
  have heq : ((b &&& 0xF0) >>> 4).toNat = (b.toNat &&& 240) / 2 ^ 4 := by
    simp [Nat.shiftRight_eq_div_pow]
  rw [heq, Nat.and_div_two_pow, show 240 / 2 ^ 4 = 2 ^ 4 - 1 from rfl,
    Nat.and_two_pow_sub_one_eq_mod]
  omega

/-- The low half of a byte, as `do_conv` takes it. -/
theorem toNat_low (b : UInt8) : (b &&& 0x0F).toNat = b.toNat % 16 := by
  have heq : (b &&& 0x0F).toNat = b.toNat &&& (2 ^ 4 - 1) := by simp
  rw [heq, Nat.and_two_pow_sub_one_eq_mod]

theorem highDigit_eq (b : UInt8) : highDigit b = hexChar (b.toNat / 16) := by
  have hb := b.toNat_lt
  rw [highDigit, toNat_high]
  exact hexmap_eq_hexChar ⟨b.toNat / 16, by omega⟩

theorem lowDigit_eq (b : UInt8) : lowDigit b = hexChar (b.toNat % 16) := by
  rw [lowDigit, toNat_low]
  exact hexmap_eq_hexChar ⟨b.toNat % 16, by omega⟩

/-- The encoder spells. -/
theorem hexText_eq (bs : List UInt8) : hexText bs = bs.flatMap byteDigits := by
  refine List.flatMap_congr fun b _ => ?_
  rw [byteDigits, highDigit_eq, lowDigit_eq]

theorem spelling_eq (args : List Arg) : spelling args = argsText args := by
  refine List.flatMap_congr fun a _ => ?_
  cases a with
  | str src => rfl
  | pod object => exact (hexText_eq object).symm

/-- What holds of the digits among the first 103 characters holds of all
    digits, so that it can be decided. -/
theorem forall_isHexDigit {motive : UInt8 → Prop}
    (h : ∀ n : Fin 103, isHexDigit (UInt8.ofNat n) = true → motive (UInt8.ofNat n))
    {c : UInt8} (hc : isHexDigit c = true) : motive c := by
  have hn := h ⟨c.toNat, isHexDigit_lt hc⟩
  rw [UInt8.ofNat_toNat] at hn
  exact hn hc

/-- `hashmap` holds the value of every digit. -/
theorem digitValue_eq {c : UInt8} (h : isHexDigit c = true) :
    digitValue c = UInt8.ofNat (hexValue c) ∧ hexValue c < 16 := by
  apply forall_isHexDigit (motive := fun c =>
    digitValue c = UInt8.ofNat (hexValue c) ∧ hexValue c < 16) _ h
  decide

theorem halves_eq : ∀ x y : Fin 16,
    (UInt8.ofNat x <<< 4) ||| UInt8.ofNat y = UInt8.ofNat (16 * x + y) := by
  decide

/-- The decoder spells. -/
theorem decodeHex_eq_spelledBytes : ∀ {cs : List UInt8}, (∀ c ∈ cs, isHexDigit c = true) →
    decodeHex cs = spelledBytes cs
  | [], _ => rfl
  | [_], _ => rfl
  | c0 :: c1 :: cs, h => by
    obtain ⟨h0, h1, hcs⟩ : isHexDigit c0 = true ∧ isHexDigit c1 = true ∧
        ∀ c ∈ cs, isHexDigit c = true := by simpa using h
    obtain ⟨hv0, hlt0⟩ := digitValue_eq h0
    obtain ⟨hv1, hlt1⟩ := digitValue_eq h1
    rw [decodeHex, spelledBytes, hv0, hv1, decodeHex_eq_spelledBytes hcs,
      halves_eq ⟨_, hlt0⟩ ⟨_, hlt1⟩]

theorem take_decodeHex : ∀ (n : Nat) (cs : List UInt8),
    (decodeHex cs).take n = decodeHex (cs.take (2 * n))
  | 0, _ => by simp [decodeHex]
  | _ + 1, [] => by simp [decodeHex]
  | _ + 1, [_] => by simp [decodeHex, Nat.mul_succ]
  | n + 1, c0 :: c1 :: cs => by
    simp only [decodeHex, Nat.mul_succ, List.take_succ_cons, take_decodeHex n cs]

/-! ## Section 4: Texts -/

theorem isHexDigit_of_mem_hexText {bs : List UInt8} {c : UInt8} (h : c ∈ hexText bs) :
    isHexDigit c = true := by
  obtain ⟨b, _, hc⟩ := List.mem_flatMap.mp h
  have hb := b.toNat_lt
  rcases List.mem_cons.mp hc with rfl | hc
  · rw [highDigit_eq]
    exact (hexChar_digit ⟨b.toNat / 16, by omega⟩).1
  · rw [List.mem_singleton.mp hc, lowDigit_eq]
    exact (hexChar_digit ⟨b.toNat % 16, by omega⟩).1

/-- **Round trip**: the digits of some bytes spell these bytes. -/
theorem decodeHex_hexText (bs : List UInt8) : decodeHex (hexText bs) = bs := by
  rw [decodeHex_eq_spelledBytes fun c hc => isHexDigit_of_mem_hexText hc, hexText_eq]
  induction bs with
  | nil => rfl
  | cons b bs ih =>
    have hb := b.toNat_lt
    have hhigh := (hexChar_digit ⟨b.toNat / 16, by omega⟩).2
    have hlow := (hexChar_digit ⟨b.toNat % 16, by omega⟩).2
    have hhalves : 16 * (b.toNat / 16) + b.toNat % 16 = b.toNat := by omega
    simp only [List.flatMap_cons, byteDigits, List.cons_append, List.nil_append, spelledBytes, ih]
    rw [hhigh, hlow, hhalves, UInt8.ofNat_toNat]

/-- The text of arguments has no NUL. -/
theorem nul_not_mem_argsText (args : List Arg) : (0 : UInt8) ∉ argsText args := by
  intro h
  obtain ⟨a, _, ha⟩ := List.mem_flatMap.mp h
  cases a with
  | str src => exact src.nul_free ha
  | pod object => exact absurd (isHexDigit_of_mem_hexText ha) (by decide)

/-- **A filled buffer.** An array that `bin2hex_fast` filled holds the text
    of the arguments, whether it is read by length or up to the NUL, and
    whatever it held before. -/
theorem readBytes_bin2hexFast (m : Memory) {dst cap : Nat} {args : List Arg}
    (h : (argsText args).length < cap) :
    (readBytes (bin2hexFast m dst args).2 dst cap).take (bin2hexFast m dst args).1 =
        argsText args ∧
      cstr (readBytes (bin2hexFast m dst args).2 dst cap) = argsText args := by
  obtain ⟨n, rfl⟩ : ∃ n, cap = (argsText args ++ [0]).length + n :=
    ⟨cap - (argsText args).length - 1, by simp; omega⟩
  rw [bin2hexFast_spec]
  -- The array is the text, the NUL, and whatever lay behind it.
  simp only [readBytes_add, readBytes_writeBytes, List.append_assoc]
  refine ⟨by simp, ?_⟩
  have hchars : ∀ c ∈ argsText args, decide (c ≠ 0) = true := by
    intro c hc
    have hne : c ≠ 0 := fun h0 => nul_not_mem_argsText args (h0 ▸ hc)
    simpa using hne
  rw [cstr, List.takeWhile_append_of_pos hchars]
  simp

/-- **The variadic encoder.** Whatever the memory held before, it returns
    the length of the texts of its arguments, leaves them and one NUL at
    `dst`, and they hold no NUL.  An array that it filled, with `spare` bytes
    behind the NUL, gives the same bytes whether it is inserted as a C string
    or written by its length. -/
theorem bin2hexFast_correct (m : Memory) (dst : Nat) (args : List Arg) (spare : Nat) :
    (bin2hexFast m dst args).1 = (spelling args).length ∧
    readBytes (bin2hexFast m dst args).2 dst ((spelling args).length + 1) = spelling args ++ [0] ∧
    (0 : UInt8) ∉ spelling args ∧
    cstr (readBytes (bin2hexFast m dst args).2 dst ((spelling args).length + 1 + spare)) =
      spelling args ∧
    (readBytes (bin2hexFast m dst args).2 dst ((spelling args).length + 1 + spare)).take
        (bin2hexFast m dst args).1 = spelling args := by
  rw [spelling_eq]
  have hcap : (argsText args).length < (argsText args).length + 1 + spare := by omega
  obtain ⟨hlen, hnul⟩ := @readBytes_bin2hexFast m dst _ args hcap
  refine ⟨by rw [bin2hexFast_spec], ?_, nul_not_mem_argsText args, hnul, hlen⟩
  have hread := readBytes_writeBytes m dst (argsText args ++ [0])
  rw [List.length_append] at hread
  rw [bin2hexFast_spec]
  exact hread

/-- A shorter text over a longer one: the rest of the longer one stays
    behind the NUL. -/
example : readBytes (bin2hexFast (bin2hexFast (fun _ => 0) 0 [.pod [0x12, 0xAB, 0xFF]]).2 0
    [.pod [0x5C]]).2 0 7 = ascii "5c" ++ [0] ++ ascii "bff" ++ [0] := by
  decide

end LibControlCan
