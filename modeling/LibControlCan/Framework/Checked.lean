import Mathlib.Tactic

/-! # Checked accesses to arrays

    A run over arrays that logs every access and stops at the first one
    outside its array, where a program without bounds checks has no
    defined behaviour left.

    * `Run` carries the log and the result, and the law between them: a
      run returns exactly when all its accesses were in range.
    * `get` and `set` are the accesses.  `Run` is a monad, so that a loop
      over arrays is written down as it stands in the program.
    * `Run.Sized` says which size every array had when it was accessed;
      with it, `Run.Sized.within_iff` reduces bounds to the result.
-/

namespace Checked

universe u v

variable {ρ : Type u} {α β : Type v}

/-- One access: the array by its name, the index, and how many elements
    the array had. -/
structure Access (ρ : Type u) where
  array : ρ
  index : Nat
  size : Nat

/-- A run: its accesses in order, and what it returns. -/
structure Run (ρ : Type u) (α : Type v) where
  accesses : List (Access ρ)
  result : Option α
  returns_iff : result.isSome = true ↔ ∀ a ∈ accesses, a.index < a.size

namespace Run

/-! ## Section 1: Programs -/

/-- Return without an access. -/
def ret (x : α) : Run ρ α where
  accesses := []
  result := some x
  returns_iff := by simp

/-- The accesses of `f`, if there is something to go on with. -/
def nextAccesses (x : Run ρ α) (f : α → Run ρ β) : List (Access ρ) :=
  (x.result.map fun a => (f a).accesses).getD []

theorem nextAccesses_of_some {x : Run ρ α} {a : α} (f : α → Run ρ β) (h : x.result = some a) :
    x.nextAccesses f = (f a).accesses := by
  simp [nextAccesses, h]

/-- Go on with what `x` returned; a run that has stopped stays so. -/
def andThen (x : Run ρ α) (f : α → Run ρ β) : Run ρ β where
  accesses := x.accesses ++ x.nextAccesses f
  result := x.result.bind fun a => (f a).result
  returns_iff := by
    have hx := x.returns_iff
    cases hres : x.result with
    | none =>
      -- The access that stopped `x` is still in the log.
      rw [hres] at hx
      simp only [Option.isSome_none, Bool.false_eq_true, false_iff] at hx
      simp only [Option.bind_none, Option.isSome_none, Bool.false_eq_true, false_iff]
      intro hall
      apply hx
      intro a ha
      exact hall a (List.mem_append_left _ ha)
    | some a =>
      rw [hres] at hx
      have hin : ∀ b ∈ x.accesses, b.index < b.size := hx.mp rfl
      rw [Option.bind_some, (f a).returns_iff, nextAccesses_of_some f hres]
      simp only [List.forall_mem_append]
      exact ⟨fun hf => ⟨hin, hf⟩, fun h => h.2⟩

instance : Monad (Run ρ) where
  pure := ret
  bind := andThen

@[simp] theorem result_pure (x : α) : (pure x : Run ρ α).result = some x := rfl

@[simp] theorem result_bind (x : Run ρ α) (f : α → Run ρ β) :
    (x >>= f).result = x.result.bind fun a => (f a).result := rfl

theorem accesses_bind (x : Run ρ α) (f : α → Run ρ β) :
    (x >>= f).accesses = x.accesses ++ x.nextAccesses f := rfl

end Run

/-- Read element `i` of the array `name`, which holds `xs`. -/
def get (name : ρ) (xs : List α) (i : Nat) : Run ρ α where
  accesses := [⟨name, i, xs.length⟩]
  result := xs[i]?
  returns_iff := by simp

/-- Store `x` at element `i` of the array `name`, which holds `xs`. -/
def set (name : ρ) (xs : List α) (i : Nat) (x : α) : Run ρ (List α) where
  accesses := [⟨name, i, xs.length⟩]
  result := if i < xs.length then some (xs.set i x) else none
  returns_iff := by
    by_cases h : i < xs.length
    · simp [h]
    · simp [h]

@[simp] theorem result_get (name : ρ) (xs : List α) (i : Nat) :
    (get name xs i).result = xs[i]? := rfl

@[simp] theorem result_set (name : ρ) (xs : List α) (i : Nat) (x : α) :
    (set name xs i x).result = if i < xs.length then some (xs.set i x) else none := rfl

/-- A store keeps the size of the array. -/
theorem length_of_result_set {name : ρ} {xs ys : List α} {i : Nat} {x : α}
    (h : (set name xs i x).result = some ys) : ys.length = xs.length := by
  rw [result_set] at h
  split at h
  · cases h
    exact List.length_set
  · cases h

/-! ## Section 2: Bounds -/

namespace Run

/-- Every array had this size whenever it was accessed. -/
def Sized (size : ρ → Nat) (r : Run ρ α) : Prop := ∀ a ∈ r.accesses, a.size = size a.array

/-- Every index is below the size of its array. -/
def Within (size : ρ → Nat) (r : Run ρ α) : Prop := ∀ a ∈ r.accesses, a.index < size a.array

instance (size : ρ → Nat) (r : Run ρ α) : Decidable (r.Within size) :=
  inferInstanceAs (Decidable (∀ a ∈ r.accesses, a.index < size a.array))

variable {size : ρ → Nat}

theorem sized_pure (x : α) : (pure x : Run ρ α).Sized size := by
  intro a ha
  cases ha

/-- **Sequence rule.** -/
theorem Sized.bind {x : Run ρ α} {f : α → Run ρ β} (hx : x.Sized size)
    (hf : ∀ a, x.result = some a → (f a).Sized size) : (x >>= f).Sized size := by
  intro b hb
  rw [accesses_bind] at hb
  rcases List.mem_append.mp hb with hb | hb
  · exact hx b hb
  · cases hres : x.result with
    | none => simp [nextAccesses, hres] at hb
    | some a =>
      rw [nextAccesses_of_some f hres] at hb
      exact hf a hres b hb

theorem sized_get {name : ρ} {xs : List α} (i : Nat) (h : xs.length = size name) :
    (get name xs i).Sized size := by
  intro a ha
  rw [List.mem_singleton.mp ha]
  exact h

theorem sized_set {name : ρ} {xs : List α} (i : Nat) (x : α) (h : xs.length = size name) :
    (set name xs i x).Sized size := by
  intro a ha
  rw [List.mem_singleton.mp ha]
  exact h

/-- **Bounds rule**: on arrays of known sizes, all indices are in range
    exactly when the run returns. -/
theorem Sized.within_iff {r : Run ρ α} (h : r.Sized size) :
    r.Within size ↔ r.result.isSome = true := by
  rw [r.returns_iff]
  unfold Within
  constructor
  · intro hall a ha
    rw [h a ha]
    exact hall a ha
  · intro hall a ha
    rw [← h a ha]
    exact hall a ha

end Run

end Checked
