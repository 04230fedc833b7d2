import Mathlib.Tactic
import Mathlib.Data.Finset.Card

/-! # What links lead to

    Objects that hold links to each other, and some of them as roots.

    * `Reached`: what the roots lead to, over any number of links.
    * `reach` computes it round by round, and `mem_reach_iff` says that as
      many rounds as there are objects are enough. -/

namespace Links

universe u

variable {α : Type u} {links : α → List α} {roots found : List α}

/-- The roots lead to the object. -/
inductive Reached (links : α → List α) (roots : List α) : α → Prop where
  | root {p : α} : p ∈ roots → Reached links roots p
  | link {p q : α} : Reached links roots p → q ∈ links p → Reached links roots q

variable [DecidableEq α]

/-- One round: what has been found, and what its links lead to. -/
def extend (links : α → List α) (found : List α) : List α := found.flatMap links ∪ found

/-- What is found in some rounds. -/
def reach (links : α → List α) : Nat → List α → List α
  | 0, found => found
  | rounds + 1, found => reach links rounds (extend links found)

theorem mem_extend {q : α} : q ∈ extend links found ↔ q ∈ found ∨ ∃ p ∈ found, q ∈ links p := by
  rw [extend, List.mem_union_iff, List.mem_flatMap, or_comm]

theorem subset_reach (links : α → List α) (rounds : Nat) (found : List α) :
    found ⊆ reach links rounds found := by
  induction rounds generalizing found with
  | zero => exact List.Subset.refl found
  | succ rounds ih => exact fun p hp => ih _ (mem_extend.mpr (Or.inl hp))

/-- **Soundness.** -/
theorem reached_of_mem_reach {rounds : Nat} {q : α} (h : q ∈ reach links rounds roots) :
    Reached links roots q := by
  induction rounds generalizing roots with
  | zero => exact .root h
  | succ rounds ih =>
    -- One round from the roots is one link.
    have hround := ih h
    clear h ih
    induction hround with
    | root hp =>
      rcases mem_extend.mp hp with hp | ⟨p, hp, hq⟩
      · exact .root hp
      · exact .link (.root hp) hq
    | link _ hq ih => exact .link ih hq

/-- No link leads out. -/
def Closed (links : α → List α) (found : List α) : Prop := ∀ p ∈ found, ∀ q ∈ links p, q ∈ found

theorem Closed.reach_subset (h : Closed links found) (rounds : Nat) :
    reach links rounds found ⊆ found := by
  suffices hsub : ∀ now ⊆ found, reach links rounds now ⊆ found from hsub found fun _ hp => hp
  induction rounds with
  | zero => exact fun now hnow => hnow
  | succ rounds ih =>
    intro now hnow
    refine ih _ fun q hq => ?_
    rcases mem_extend.mp hq with hq | ⟨p, hp, hq⟩
    · exact hnow hq
    · exact h p (hnow hp) q hq

/-- Every round finds something new, until there is nothing more to find. -/
theorem closed_or_grows (rounds : Nat) (found : List α) :
    Closed links (reach links rounds found) ∨
      rounds + found.toFinset.card ≤ (reach links rounds found).toFinset.card := by
  induction rounds generalizing found with
  | zero => exact Or.inr (by rw [Nat.zero_add]; rfl)
  | succ rounds ih =>
    by_cases hclosed : Closed links found
    · left
      intro p hp q hq
      exact subset_reach _ _ _ (hclosed p (hclosed.reach_subset _ hp) q hq)
    · refine (ih (extend links found)).imp id fun hgrows => ?_
      have hlt : found.toFinset.card < (extend links found).toFinset.card := by
        refine Finset.card_lt_card (Finset.ssubset_iff_subset_ne.mpr ⟨?_, fun heq => hclosed ?_⟩)
        · exact fun p hp => List.mem_toFinset.mpr (mem_extend.mpr (Or.inl (List.mem_toFinset.mp hp)))
        · intro p hp q hq
          rw [← List.mem_toFinset, heq, List.mem_toFinset]
          exact mem_extend.mpr (Or.inr ⟨p, hp, hq⟩)
      show rounds + 1 + found.toFinset.card ≤ (reach links rounds (extend links found)).toFinset.card
      omega

/-- **Completeness.**  As many rounds as there are objects find all that the
    roots lead to. -/
theorem mem_reach_iff {objects : Finset α} (hroots : ∀ p ∈ roots, p ∈ objects)
    (hlinks : ∀ p ∈ objects, ∀ q ∈ links p, q ∈ objects) {q : α} :
    q ∈ reach links objects.card roots ↔ Reached links roots q := by
  refine ⟨reached_of_mem_reach, fun h => ?_⟩
  have hobjects : ∀ p, Reached links roots p → p ∈ objects := by
    intro p hp
    induction hp with
    | root hp => exact hroots _ hp
    | link _ hq ih => exact hlinks _ ih _ hq
  have hclosed : Closed links (reach links objects.card roots) := by
    refine (closed_or_grows objects.card roots).resolve_right fun hgrows => ?_
    have hle : (reach links objects.card roots).toFinset.card ≤ objects.card :=
      Finset.card_le_card fun p hp =>
        hobjects p (reached_of_mem_reach (List.mem_toFinset.mp hp))
    -- There is a root, since something is reached.
    have hpos : 0 < roots.toFinset.card := by
      obtain ⟨p, hp⟩ : ∃ p, p ∈ roots := by
        induction h with
        | root hp => exact ⟨_, hp⟩
        | link _ _ ih => exact ih
      exact Finset.card_pos.mpr ⟨p, List.mem_toFinset.mpr hp⟩
    omega
  induction h with
  | root hp => exact subset_reach _ _ _ hp
  | link _ hq ih => exact hclosed _ ih _ hq

end Links
