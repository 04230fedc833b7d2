import Mathlib.Tactic

/-! # Machines with inputs and outputs

    A `Machine` answers every input with an output.  Two machines are
    compared on the inputs that a `Protocol` allows: the protocol has a
    state of its own, and an input may be given only when the protocol has
    a next state for it.

    * `Simulation m n prot` relates the states of two machines, given the
      state of the protocol.
    * `Simulation.outputs_eq`: related machines give the same outputs on
      every sequence of allowed inputs.
-/

namespace LTS

universe u v w x y

variable {S : Type u} {T : Type v} {I : Type w} {O : Type x} {P : Type y}

/-- A deterministic machine. -/
structure Machine (S : Type u) (I : Type w) (O : Type x) where
  step : S → I → S × O

/-- The outputs for a sequence of inputs. -/
def Machine.outputs (m : Machine S I O) (s : S) : List I → List O
  | [] => []
  | i :: is => (m.step s i).2 :: m.outputs (m.step s i).1 is

/-- Which inputs may come next. -/
structure Protocol (P : Type y) (I : Type w) where
  next : P → I → Option P

/-- The inputs are allowed one after the other, from state `p` on. -/
def Protocol.Allows (prot : Protocol P I) (p : P) : List I → Prop
  | [] => True
  | i :: is => ∃ p', prot.next p i = some p' ∧ prot.Allows p' is

/-- A relation that allowed inputs keep, with equal outputs. -/
structure Simulation (m : Machine S I O) (n : Machine T I O) (prot : Protocol P I) where
  Rel : P → S → T → Prop
  step : ∀ {p p' s t i}, Rel p s t → prot.next p i = some p' →
    (m.step s i).2 = (n.step t i).2 ∧ Rel p' (m.step s i).1 (n.step t i).1

/-- **Simulation rule.** -/
theorem Simulation.outputs_eq {m : Machine S I O} {n : Machine T I O} {prot : Protocol P I}
    (sim : Simulation m n prot) {p : P} {s : S} {t : T} {is : List I} (hrel : sim.Rel p s t)
    (hallow : prot.Allows p is) : m.outputs s is = n.outputs t is := by
  induction is generalizing p s t with
  | nil => rfl
  | cons i is ih =>
    obtain ⟨p', hnext, hrest⟩ := hallow
    obtain ⟨hout, hrel'⟩ := sim.step hrel hnext
    rw [Machine.outputs, Machine.outputs, hout, ih hrel' hrest]

end LTS
