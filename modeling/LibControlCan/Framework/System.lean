import Mathlib.Tactic

/-! # Executable labelled transition systems

    A small framework for systems whose steps are computed by a partial
    function: `step s l = some s'` means that label `l` is enabled in `s`
    and leads to `s'`.

    * `System` bundles the initial states and the step function.
    * `System.exec` runs a list of labels; `none` means that some label of
      the list was not enabled.
    * `System.ReachableBy G` is reachability through steps that all meet
      the guard `G`; `System.Reachable` is reachability without a guard.
    * `System.reachableBy_invariant` and `System.reachable_invariant` are
      the induction rules: an invariant that holds initially and is kept
      by every (guarded) step holds in every state reached.
-/

namespace LTS

universe u v

variable {State : Type u} {Label : Type v}

/-- A transition system with a computable step function. -/
structure System (State : Type u) (Label : Type v) where
  init : State → Prop
  step : State → Label → Option State

namespace System

variable (sys : System State Label)

/-! ## Runs -/

/-- Run a list of labels from `s`. -/
def exec (s : State) : List Label → Option State
  | [] => some s
  | l :: ls => (sys.step s l).bind fun s' => exec s' ls

@[simp] theorem exec_nil (s : State) : sys.exec s [] = some s := rfl

theorem exec_cons (s : State) (l : Label) (ls : List Label) :
    sys.exec s (l :: ls) = (sys.step s l).bind fun s' => sys.exec s' ls := rfl

/-- The step and the rest of a run that begins with `l`. -/
theorem exec_cons_eq_some {s s' : State} {l : Label} {ls : List Label}
    (h : sys.exec s (l :: ls) = some s') :
    ∃ t, sys.step s l = some t ∧ sys.exec t ls = some s' := by
  rw [exec_cons] at h
  cases ht : sys.step s l with
  | none => rw [ht] at h; cases h
  | some t => rw [ht] at h; exact ⟨t, rfl, h⟩

/-- **Run rule**: what every step keeps, a whole run keeps. -/
theorem exec_invariant {Inv : State → Prop}
    (hstep : ∀ s l s', Inv s → sys.step s l = some s' → Inv s') :
    ∀ {s s' : State} {ls : List Label}, Inv s → sys.exec s ls = some s' → Inv s' := by
  intro s s' ls
  induction ls generalizing s with
  | nil => intro hinv h; cases h; exact hinv
  | cons l ls ih =>
    intro hinv h
    obtain ⟨t, ht, hrest⟩ := sys.exec_cons_eq_some h
    exact ih (hstep s l t hinv ht) hrest

/-- **Trace rule**: an invariant of the labels run so far and the state. -/
theorem exec_trace_invariant {Inv : List Label → State → Prop} {s₀ : State} (hinit : Inv [] s₀)
    (hstep : ∀ tr s l s', Inv tr s → sys.step s l = some s' → Inv (tr ++ [l]) s') :
    ∀ {s : State} {ls : List Label}, sys.exec s₀ ls = some s → Inv ls s := by
  -- Generalised over the labels that have run, so that the run can be split in front.
  suffices hgen : ∀ (ls tr : List Label) (s s' : State), Inv tr s → sys.exec s ls = some s' →
      Inv (tr ++ ls) s' from fun {s ls} h => hgen ls [] s₀ s hinit h
  intro ls
  induction ls with
  | nil =>
    intro tr s s' hinv h
    cases h
    rwa [List.append_nil]
  | cons l ls ih =>
    intro tr s s' hinv h
    obtain ⟨t, ht, hrest⟩ := sys.exec_cons_eq_some h
    have hrun := ih (tr ++ [l]) t s' (hstep tr s l t hinv ht) hrest
    rwa [List.append_assoc, List.singleton_append] at hrun

/-! ## Reachability -/

/-- States reached from an initial state by steps that all meet `G`. -/
inductive ReachableBy (G : State → Label → Prop) : State → Prop where
  | init : ∀ {s}, sys.init s → ReachableBy G s
  | step : ∀ {s s'} l, ReachableBy G s → G s l → sys.step s l = some s' → ReachableBy G s'

/-- States reached by any steps. -/
def Reachable (s : State) : Prop := sys.ReachableBy (fun _ _ => True) s

/-- **Guarded invariant rule.** -/
theorem reachableBy_invariant {G : State → Label → Prop} {Inv : State → Prop}
    (hinit : ∀ s, sys.init s → Inv s)
    (hstep : ∀ s l s', Inv s → G s l → sys.step s l = some s' → Inv s')
    {s : State} (h : sys.ReachableBy G s) : Inv s := by
  induction h with
  | init hs => exact hinit _ hs
  | step l _ hg hs ih => exact hstep _ l _ ih hg hs

/-- **Invariant rule.** -/
theorem reachable_invariant {Inv : State → Prop}
    (hinit : ∀ s, sys.init s → Inv s)
    (hstep : ∀ s l s', Inv s → sys.step s l = some s' → Inv s')
    {s : State} (h : sys.Reachable s) : Inv s :=
  sys.reachableBy_invariant hinit (fun s l s' hinv _ hs => hstep s l s' hinv hs) h

/-- A run whose labels meet the guard in every state keeps to it. -/
theorem ReachableBy.exec {G : State → Label → Prop} {s s' : State} {ls : List Label}
    (hs : sys.ReachableBy G s) (hg : ∀ l ∈ ls, ∀ t, G t l) (h : sys.exec s ls = some s') :
    sys.ReachableBy G s' := by
  -- The guard holds of these labels in every state, so the states need no tracking.
  induction ls generalizing s with
  | nil => cases h; exact hs
  | cons l ls ih =>
    obtain ⟨t, ht, hrest⟩ := sys.exec_cons_eq_some h
    exact ih (.step l hs (hg l List.mem_cons_self s) ht)
      (fun k hk => hg k (List.mem_cons_of_mem _ hk)) hrest

/-- A run from a reachable state ends in a reachable state. -/
theorem Reachable.exec {s s' : State} {ls : List Label}
    (hs : sys.Reachable s) (h : sys.exec s ls = some s') : sys.Reachable s' :=
  ReachableBy.exec sys hs (fun _ _ _ => trivial) h

/-- A run that can be computed shows what its last state is like. -/
theorem exists_reachable_of_exec (s₀ : State) (ls : List Label) (p : State → Bool)
    (hinit : sys.init s₀) (h : (sys.exec s₀ ls).map p = some true) :
    ∃ s, sys.Reachable s ∧ p s = true := by
  obtain ⟨s, hs, hp⟩ := Option.map_eq_some_iff.mp h
  exact ⟨s, Reachable.exec sys (ReachableBy.init hinit) hs, hp⟩

/-- A guarded reachable state is reachable. -/
theorem ReachableBy.reachable {G : State → Label → Prop} {s : State}
    (h : sys.ReachableBy G s) : sys.Reachable s :=
  sys.reachableBy_invariant (fun _ hs => ReachableBy.init hs)
    (fun _ l _ hr _ hstep => ReachableBy.step l hr trivial hstep) h

end System

end LTS
