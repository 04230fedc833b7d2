import LibControlCan.Framework.System

/-! # Progress

    A measure that some step lowers, as long as a goal is not reached: then
    a run of no more steps than the measure says reaches the goal.  If every
    step lowers it, no run is longer. -/

namespace LTS

universe u v w

variable {State : Type u} {Label : Type v} {Label' : Type w}

namespace System

variable (sys : System State Label)

/-- **Guarded progress rule**: as long as the goal `P` is not reached, a
    label that meets `Q` lowers the measure. -/
theorem exec_of_measure_by {I P : State → Prop} {Q : Label → Prop} (μ : State → Nat)
    (hstep : ∀ s, I s → ¬ P s → ∃ l s', Q l ∧ sys.step s l = some s' ∧ I s' ∧ μ s' < μ s)
    {s : State} (hs : I s) :
    ∃ ls s', ls.length ≤ μ s ∧ (∀ l ∈ ls, Q l) ∧ sys.exec s ls = some s' ∧ I s' ∧ P s' := by
  induction hμ : μ s using Nat.strong_induction_on generalizing s with
  | _ k ih =>
    by_cases hP : P s
    · exact ⟨[], s, Nat.zero_le _, by simp, rfl, hs, hP⟩
    · obtain ⟨l, t, hl, ht, hI, hlt⟩ := hstep s hs hP
      obtain ⟨ls, s', hlen, hls, hexec, hI', hP'⟩ := ih (μ t) (hμ ▸ hlt) hI rfl
      refine ⟨l :: ls, s', ?_, List.forall_mem_cons.mpr ⟨hl, hls⟩, ?_, hI', hP'⟩
      · rw [List.length_cons]
        omega
      · rw [exec_cons, ht, Option.bind_some, hexec]

/-- **Progress rule.** -/
theorem exec_of_measure {I P : State → Prop} (μ : State → Nat)
    (hstep : ∀ s, I s → ¬ P s → ∃ l s', sys.step s l = some s' ∧ I s' ∧ μ s' < μ s)
    {s : State} (hs : I s) :
    ∃ ls s', ls.length ≤ μ s ∧ sys.exec s ls = some s' ∧ I s' ∧ P s' := by
  obtain ⟨ls, s', hlen, -, hexec, hI, hP⟩ :=
    sys.exec_of_measure_by (Q := fun _ => True) μ (fun t ht hnot => by
      obtain ⟨l, t', hstep'⟩ := hstep t ht hnot
      exact ⟨l, t', trivial, hstep'⟩) hs
  exact ⟨ls, s', hlen, hexec, hI, hP⟩

/-- **Run rule** for the labels that meet `Q`. -/
theorem exec_invariant_by {I : State → Prop} {Q : Label → Prop}
    (hstep : ∀ s l s', I s → Q l → sys.step s l = some s' → I s')
    {s s' : State} {ls : List Label} (hs : I s) (hls : ∀ l ∈ ls, Q l)
    (h : sys.exec s ls = some s') : I s' := by
  induction ls generalizing s with
  | nil =>
    cases h
    exact hs
  | cons l ls ih =>
    obtain ⟨t, ht, hrest⟩ := sys.exec_cons_eq_some h
    obtain ⟨hl, hls'⟩ := List.forall_mem_cons.mp hls
    exact ih (hstep s l t hs hl ht) hls' hrest

/-- **Termination rule**: a run takes no more steps than the measure says,
    if each of them lowers it. -/
theorem exec_length_le {I : State → Prop} {Q : Label → Prop} (μ : State → Nat)
    (hstep : ∀ s l s', I s → Q l → sys.step s l = some s' → I s' ∧ μ s' < μ s)
    {s s' : State} {ls : List Label} (hs : I s) (hls : ∀ l ∈ ls, Q l)
    (h : sys.exec s ls = some s') : ls.length + μ s' ≤ μ s := by
  induction ls generalizing s with
  | nil =>
    cases h
    simp
  | cons l ls ih =>
    obtain ⟨t, ht, hrest⟩ := sys.exec_cons_eq_some h
    obtain ⟨hI, hlt⟩ := hstep s l t hs (hls l List.mem_cons_self) ht
    have hlen := ih hI (fun k hk => hls k (List.mem_cons_of_mem _ hk)) hrest
    rw [List.length_cons]
    omega

/-- The run of a system that is a part of another one. -/
theorem exec_map (sys' : System State Label') {f : Label → Label'}
    (hstep : ∀ s l, sys'.step s (f l) = sys.step s l) (s : State) (ls : List Label) :
    sys'.exec s (ls.map f) = sys.exec s ls := by
  induction ls generalizing s with
  | nil => rfl
  | cons l ls ih =>
    rw [List.map_cons, exec_cons, exec_cons, hstep]
    exact congrArg _ (funext ih)

end System

end LTS
