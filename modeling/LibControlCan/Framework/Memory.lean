import Mathlib.Tactic

/-! # Flat byte memory

    Addresses are natural numbers and a memory maps each of them to a byte.
    Every block of bytes that a program stores is written by `writeBytes`;
    a whole sequence of stores is `writeAll`.

    `ModifiesOnly f S` is the frame condition: whatever the memory holds
    before, `f` leaves every byte outside `S` as it was.  Because the bytes
    that `writeAll` stores do not depend on the memory, the frame condition
    of a sequence of stores is exactly that every stored address lies in
    `S` (`modifiesOnly_writeAll`). -/

namespace ByteMemory

/-- The contents of every address. -/
abbrev Memory : Type := Nat → UInt8

/-! ## Section 1: Reading and writing -/

/-- Store one byte. -/
def write (m : Memory) (a : Nat) (b : UInt8) : Memory := Function.update m a b

/-- Store the bytes `bs` at `a`, `a + 1`, and so on. -/
def writeBytes (m : Memory) (a : Nat) : List UInt8 → Memory
  | [] => m
  | b :: bs => writeBytes (write m a b) (a + 1) bs

/-- The `n` bytes from `a` on. -/
def readBytes (m : Memory) (a : Nat) (n : Nat) : List UInt8 :=
  (List.range n).map fun i => m (a + i)

@[simp] theorem writeBytes_nil (m : Memory) (a : Nat) : writeBytes m a [] = m := rfl

@[simp] theorem length_readBytes (m : Memory) (a : Nat) (n : Nat) :
    (readBytes m a n).length = n := by
  simp [readBytes]

theorem writeBytes_of_lt {m : Memory} {a x : Nat} {bs : List UInt8} (h : x < a) :
    writeBytes m a bs x = m x := by
  induction bs generalizing m a with
  | nil => rfl
  | cons b bs ih =>
    rw [writeBytes, ih (by omega)]
    exact Function.update_of_ne (by omega) _ _

theorem writeBytes_of_ge {m : Memory} {a x : Nat} {bs : List UInt8}
    (h : a + bs.length ≤ x) : writeBytes m a bs x = m x := by
  induction bs generalizing m a with
  | nil => rfl
  | cons b bs ih =>
    simp only [List.length_cons] at h
    rw [writeBytes, ih (by omega)]
    exact Function.update_of_ne (by omega) _ _

theorem writeBytes_getElem {m : Memory} {a : Nat} {bs : List UInt8} {i : Nat}
    (h : i < bs.length) : writeBytes m a bs (a + i) = bs[i] := by
  induction bs generalizing m a i with
  | nil => simp at h
  | cons b bs ih =>
    cases i with
    | zero =>
      rw [writeBytes, writeBytes_of_lt (by omega)]
      simp [write]
    | succ i =>
      simp only [List.length_cons] at h
      have hi : i < bs.length := by omega
      have hstep := ih (m := write m a b) (a := a + 1) hi
      rw [show a + (i + 1) = a + 1 + i from by omega, writeBytes, hstep]
      rfl

theorem writeBytes_append (m : Memory) (a : Nat) (xs ys : List UInt8) :
    writeBytes m a (xs ++ ys) = writeBytes (writeBytes m a xs) (a + xs.length) ys := by
  induction xs generalizing m a with
  | nil => rfl
  | cons x xs ih =>
    simp only [List.cons_append, writeBytes, List.length_cons]
    rw [ih, show a + 1 + xs.length = a + (xs.length + 1) from by omega]

/-- Reading back what was stored, or the beginning of it. -/
theorem readBytes_writeBytes_take {m : Memory} {a : Nat} {bs : List UInt8} {n : Nat}
    (h : n ≤ bs.length) : readBytes (writeBytes m a bs) a n = bs.take n := by
  apply List.ext_getElem
  · simp [h]
  · intro i hi _
    have hin : i < n := by simpa using hi
    have hib : i < bs.length := by omega
    simp [readBytes, writeBytes_getElem hib]

/-- A read in two pieces. -/
theorem readBytes_add (m : Memory) (a k n : Nat) :
    readBytes m a (k + n) = readBytes m a k ++ readBytes m (a + k) n := by
  simp [readBytes, List.range_add, Nat.add_assoc, Function.comp_def]

theorem readBytes_writeBytes (m : Memory) (a : Nat) (bs : List UInt8) :
    readBytes (writeBytes m a bs) a bs.length = bs := by
  rw [readBytes_writeBytes_take (Nat.le_refl _), List.take_length]

/-- A store of one byte, seen in the block it falls into. -/
theorem readBytes_write (m : Memory) (a i : Nat) (b : UInt8) (n : Nat) :
    readBytes (write m (a + i) b) a n = (readBytes m a n).set i b := by
  apply List.ext_getElem
  · simp
  · intro j hj _
    by_cases hij : i = j
    · subst hij
      simp [readBytes, write]
    · have hne : a + j ≠ a + i := by omega
      simp [readBytes, write, hij, Function.update_of_ne hne]

theorem readBytes_const (b : UInt8) (a n : Nat) :
    readBytes (fun _ => b) a n = List.replicate n b := by
  simp [readBytes]

/-- A store leaves what lies below it. -/
theorem readBytes_writeBytes_below {m : Memory} {a b : Nat} {bs : List UInt8} {n : Nat}
    (h : b + n ≤ a) : readBytes (writeBytes m a bs) b n = readBytes m b n := by
  unfold readBytes
  apply List.map_congr_left
  intro i hi
  have hin : i < n := List.mem_range.mp hi
  exact writeBytes_of_lt (by omega)

/-! ## Section 2: Sequences of stores and the frame condition -/

/-- Perform the stores of a list, in order. -/
def writeAll (ws : List (Nat × List UInt8)) (m : Memory) : Memory :=
  ws.foldl (fun m w => writeBytes m w.1 w.2) m

@[simp] theorem writeAll_nil (m : Memory) : writeAll [] m = m := rfl

@[simp] theorem writeAll_append (ws₁ ws₂ : List (Nat × List UInt8)) (m : Memory) :
    writeAll (ws₁ ++ ws₂) m = writeAll ws₂ (writeAll ws₁ m) := by
  simp [writeAll]

@[simp] theorem writeAll_singleton (w : Nat × List UInt8) (m : Memory) :
    writeAll [w] m = writeBytes m w.1 w.2 := rfl

/-- The address `x` is stored to by `w`. -/
def Covers (w : Nat × List UInt8) (x : Nat) : Prop := w.1 ≤ x ∧ x < w.1 + w.2.length

instance (w : Nat × List UInt8) (x : Nat) : Decidable (Covers w x) :=
  inferInstanceAs (Decidable (_ ∧ _))

/-- `f` changes no byte outside `S`, whatever the memory holds. -/
def ModifiesOnly (f : Memory → Memory) (S : Set Nat) : Prop :=
  ∀ m x, x ∉ S → f m x = m x

theorem writeBytes_of_not_covers {m : Memory} {w : Nat × List UInt8} {x : Nat}
    (h : ¬ Covers w x) : writeBytes m w.1 w.2 x = m x := by
  by_cases hlt : x < w.1
  · exact writeBytes_of_lt hlt
  · refine writeBytes_of_ge ?_
    unfold Covers at h
    omega

/-- What a store leaves at an address it covers does not depend on the memory. -/
theorem writeBytes_of_covers {m m' : Memory} {w : Nat × List UInt8} {x : Nat}
    (h : Covers w x) : writeBytes m w.1 w.2 x = writeBytes m' w.1 w.2 x := by
  obtain ⟨hle, hlt⟩ := h
  have hi : x - w.1 < w.2.length := by omega
  have hx : x = w.1 + (x - w.1) := by omega
  rw [hx, writeBytes_getElem hi, writeBytes_getElem hi]

theorem writeAll_of_not_covers {ws : List (Nat × List UInt8)} {m : Memory} {x : Nat}
    (h : ∀ w ∈ ws, ¬ Covers w x) : writeAll ws m x = m x := by
  induction ws generalizing m with
  | nil => rfl
  | cons w ws ih =>
    have hrest := ih (m := writeBytes m w.1 w.2) (fun v hv => h v (List.mem_cons_of_mem _ hv))
    calc writeAll (w :: ws) m x
        = writeAll ws (writeBytes m w.1 w.2) x := rfl
      _ = writeBytes m w.1 w.2 x := hrest
      _ = m x := writeBytes_of_not_covers (h w List.mem_cons_self)

/-- The stores of a list see the memory only where none of them covers. -/
theorem writeAll_congr {ws : List (Nat × List UInt8)} {m m' : Memory} {x : Nat}
    (h : m x = m' x) : writeAll ws m x = writeAll ws m' x := by
  induction ws generalizing m m' with
  | nil => exact h
  | cons w ws ih =>
    have hfirst : writeBytes m w.1 w.2 x = writeBytes m' w.1 w.2 x := by
      by_cases hc : Covers w x
      · exact writeBytes_of_covers hc
      · rw [writeBytes_of_not_covers hc, writeBytes_of_not_covers hc, h]
    exact ih hfirst

theorem writeAll_of_covers {ws : List (Nat × List UInt8)} {m m' : Memory} {x : Nat}
    (h : ∃ w ∈ ws, Covers w x) : writeAll ws m x = writeAll ws m' x := by
  induction ws generalizing m m' with
  | nil => simp at h
  | cons w ws ih =>
    by_cases hc : Covers w x
    · -- From here on the two memories agree at `x`.
      show writeAll ws _ x = writeAll ws _ x
      exact writeAll_congr (writeBytes_of_covers hc)
    · apply ih
      obtain ⟨v, hv, hvc⟩ := h
      rcases List.mem_cons.mp hv with rfl | hv
      · exact absurd hvc hc
      · exact ⟨v, hv, hvc⟩

/-- **Frame condition of a sequence of stores**: it holds exactly when
    every stored address is in `S`. -/
theorem modifiesOnly_writeAll (ws : List (Nat × List UInt8)) (S : Set Nat) :
    ModifiesOnly (writeAll ws) S ↔ ∀ w ∈ ws, ∀ x, Covers w x → x ∈ S := by
  constructor
  · intro hmod w hw x hx
    by_contra hxS
    -- A memory that already holds another byte at `x` shows the store.
    have hone := hmod (fun _ => 0) x hxS
    have htwo := hmod (fun _ => 1) x hxS
    have hsame : writeAll ws (fun _ => 0) x = writeAll ws (fun _ => 1) x :=
      writeAll_of_covers ⟨w, hw, hx⟩
    rw [hone, htwo] at hsame
    exact absurd hsame (by decide)
  · intro hcov m x hxS
    refine writeAll_of_not_covers ?_
    intro w hw hc
    exact hxS (hcov w hw x hc)

end ByteMemory
