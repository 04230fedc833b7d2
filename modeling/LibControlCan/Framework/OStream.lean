import Mathlib.Tactic

/-! # Formatted output streams

    The part of `std::ostringstream` that formats numbers: the flags that
    stay set until they are changed (`hex`, `dec`, `nouppercase`,
    `setfill`), the field width that only the next insertion sees (`setw`),
    and the insertion of an `int` and of a `char`.  The other flags are at
    their defaults: no base prefix, no plus sign, padding on the left.

    * `insertInt_byte`: in hexadecimal, with width two and zeros as fill, a
      number below 256 is always two digits.
    * `foldl_insertChar`: without a width, characters are appended.
-/

namespace OStream

/-- `basefield`. -/
inductive Base where
  | dec
  | hex
  deriving DecidableEq

/-- A stream: its format and the text so far. -/
structure Stream where
  base : Base
  uppercase : Bool
  width : Nat
  fill : UInt8
  str : List UInt8

/-- A new `std::ostringstream`. -/
def new : Stream := { base := .dec, uppercase := false, width := 0, fill := 32, str := [] }

namespace Stream

/-! ## Section 1: Manipulators and insertions -/

def hex (s : Stream) : Stream := { s with base := .hex }

def dec (s : Stream) : Stream := { s with base := .dec }

def nouppercase (s : Stream) : Stream := { s with uppercase := false }

def setw (s : Stream) (width : Nat) : Stream := { s with width }

def setfill (s : Stream) (fill : UInt8) : Stream := { s with fill }

/-- The character of a digit. -/
def digit (uppercase : Bool) (c : Char) : UInt8 :=
  UInt8.ofNat (if uppercase then c.toUpper else c).toNat

/-- The digits of a number, most significant first. -/
def digits (s : Stream) (base n : Nat) : List UInt8 := (Nat.toDigits base n).map (digit s.uppercase)

/-- The text of an `int`: in hexadecimal it is taken as unsigned. -/
def intText (s : Stream) (n : Int32) : List UInt8 :=
  match s.base with
  | .hex => s.digits 16 n.toUInt32.toNat
  | .dec => (if n < 0 then [45] else []) ++ s.digits 10 n.toInt.natAbs

/-- Pad a text to the field width, append it, and forget the width. -/
def put (s : Stream) (text : List UInt8) : Stream :=
  { s with
    width := 0
    str := s.str ++ (List.replicate (s.width - text.length) s.fill ++ text) }

def insertInt (s : Stream) (n : Int32) : Stream := s.put (s.intText n)

def insertChar (s : Stream) (c : UInt8) : Stream := s.put [c]

/-! ## Section 2: Two digits for a byte -/

/-- A number below 256, padded with a zero if it has one digit only. -/
theorem padded_digits {s : Stream} (hcase : s.uppercase = false) {n : Nat} (h : n < 256) :
    List.replicate (2 - (s.digits 16 n).length) 48 ++ s.digits 16 n =
      [digit false (n / 16).digitChar, digit false (n % 16).digitChar] := by
  unfold digits
  rw [hcase]
  by_cases hlt : n < 16
  · have hdiv : n / 16 = 0 := by omega
    have hmod : n % 16 = n := by omega
    rw [Nat.toDigits_of_lt_base hlt, hdiv, hmod]
    rfl
  · have hdiv : n / 16 < 16 := by omega
    rw [Nat.toDigits_eq_if (by omega), if_neg hlt, Nat.toDigits_of_lt_base hdiv]
    rfl

/-- **Two digits.** -/
theorem insertInt_byte {s : Stream} (hbase : s.base = .hex) (hcase : s.uppercase = false)
    {n : Nat} (h : n < 256) :
    ((s.setw 2).setfill 48).insertInt (Int32.ofNat n) =
      { s with
        width := 0
        fill := 48
        str := s.str ++ [digit false (n / 16).digitChar, digit false (n % 16).digitChar] } := by
  have hval : (Int32.ofNat n).toUInt32.toNat = n := by
    show n % 2 ^ 32 = n
    omega
  have htext : ((s.setw 2).setfill 48).intText (Int32.ofNat n) = s.digits 16 n := by
    simp only [intText, setw, setfill, hbase, hval]
    rfl
  rw [insertInt, htext, ← padded_digits hcase h]
  rfl

/-- Without a width, characters are appended as they are. -/
theorem foldl_insertChar {s : Stream} (h : s.width = 0) (cs : List UInt8) :
    cs.foldl insertChar s = { s with str := s.str ++ cs } := by
  induction cs generalizing s with
  | nil => simp
  | cons c cs ih =>
    have hput : s.insertChar c = { s with str := s.str ++ [c] } := by
      unfold insertChar put
      simp [h]
    rw [List.foldl_cons, hput, ih (by exact h)]
    simp

end Stream

end OStream
