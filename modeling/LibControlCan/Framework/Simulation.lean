import LibControlCan.Framework.System

/-! # Forward simulation

    A relation between the states of two systems under which every step of
    the first is answered by a run of the second.  The run may be empty, so
    the first system can take steps that the second one does not see, and
    it may be longer than one step.

    * `System.reachable_of_simulation`: every state that the first system
      reaches is related to one that the second system reaches.
    * `System.execWithin` runs labels that meet a guard; it makes reachability
      under a guard computable. -/

namespace LTS

universe u v w x

variable {State : Type u} {Label : Type v} {State' : Type w} {Label' : Type x}

namespace System

variable (sys : System State Label) (sys' : System State' Label')

/-- Two runs, one after the other. -/
theorem exec_append {s t u : State} {ls ks : List Label} (hs : sys.exec s ls = some t)
    (ht : sys.exec t ks = some u) : sys.exec s (ls ++ ks) = some u := by
  induction ls generalizing s with
  | nil =>
    cases hs
    exact ht
  | cons l ls ih =>
    obtain ⟨r, hr, hrest⟩ := sys.exec_cons_eq_some hs
    rw [List.cons_append, exec_cons, hr, Option.bind_some]
    exact ih hrest

/-- A run of one step. -/
theorem exec_singleton {s t : State} {l : Label} (h : sys.step s l = some t) :
    sys.exec s [l] = some t := by
  rw [exec_cons, h, Option.bind_some, exec_nil]

/-- **Simulation rule.** -/
theorem reachable_of_simulation {G : State → Label → Prop} {R : State → State' → Prop}
    (hinit : ∀ s, sys.init s → ∃ t, sys'.init t ∧ R s t)
    (hstep : ∀ s t l s', R s t → sys'.Reachable t → G s l → sys.step s l = some s' →
      ∃ ls t', sys'.exec t ls = some t' ∧ R s' t')
    {s : State} (h : sys.ReachableBy G s) : ∃ t, sys'.Reachable t ∧ R s t := by
  induction h with
  | init hs =>
    obtain ⟨t, ht, hrel⟩ := hinit _ hs
    exact ⟨t, .init ht, hrel⟩
  | step l _ hg hs ih =>
    obtain ⟨t, ht, hrel⟩ := ih
    obtain ⟨ls, t', hexec, hrel'⟩ := hstep _ t l _ hrel ht hg hs
    exact ⟨t', Reachable.exec sys' ht hexec, hrel'⟩

/-- Run a list of labels, as far as each meets the guard `g`. -/
def execWithin (g : State → Label → Bool) (s : State) : List Label → Option State
  | [] => some s
  | l :: ls => if g s l then (sys.step s l).bind fun s' => execWithin g s' ls else none

/-- A run within the guard keeps to it. -/
theorem ReachableBy.execWithin {G : State → Label → Prop} {g : State → Label → Bool}
    (hg : ∀ s l, g s l = true → G s l) {s s' : State} {ls : List Label}
    (hs : sys.ReachableBy G s) (h : sys.execWithin g s ls = some s') : sys.ReachableBy G s' := by
  induction ls generalizing s with
  | nil =>
    cases h
    exact hs
  | cons l ls ih =>
    unfold System.execWithin at h
    split at h
    case isFalse => cases h
    case isTrue hgl =>
      obtain ⟨t, ht, hrest⟩ := Option.bind_eq_some_iff.mp h
      exact ih (.step l hs (hg s l hgl) ht) hrest

end System

end LTS
