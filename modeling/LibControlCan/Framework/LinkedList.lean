import Mathlib.Tactic

/-! # Linked lists whose removed nodes keep their links

    A doubly linked list to which nodes are only ever appended, and a walk
    along its `next` links while nodes are appended and removed.  A node
    that is removed keeps its own links, so that a walk that stands on it
    can go on.  Nodes are numbered in the order in which they are appended.

    * `Shape`: what the links of all nodes have in common.
    * `Shape.append` and `Shape.unlink`: the two edits.
    * `Finds` and `FindsAfter`: the nodes on the list that a walk will still
      come to.  The edits and the steps of the walk change them as they
      should: an appended node may be found or not, a removed one is not,
      and nothing else changes.
-/

namespace LinkedList

variable {next previous next' previous' : Nat → Option Nat} {size : Nat} {live : List Nat}

/-! ## Section 1: The links -/

/-- The links of `size` nodes, of which `live` are on the list. -/
structure Shape (next previous : Nat → Option Nat) (size : Nat) (live : List Nat) : Prop where
  sorted : live.Pairwise (· < ·)
  lt_size : ∀ p ∈ live, p < size
  links : ∀ xs p ys, live = xs ++ p :: ys → previous p = xs.getLast? ∧ next p = ys.head?
  /-- A link leads forwards and passes over no node of the list. -/
  forward : ∀ p q, p < size → next p = some q →
    p < q ∧ q < size ∧ ∀ x ∈ live, x ≤ p ∨ q ≤ x

theorem shape_nil : Shape (fun _ => none) (fun _ => none) 0 [] :=
  ⟨List.Pairwise.nil, by simp, by simp, by simp⟩

theorem Shape.nodup (h : Shape next previous size live) : live.Nodup :=
  h.sorted.imp (fun hlt => Nat.ne_of_lt hlt)

/-- The order around one node of the list. -/
theorem Shape.around {xs ys : List Nat} {p : Nat} (h : Shape next previous size (xs ++ p :: ys)) :
    (∀ x ∈ xs, x < p) ∧ (∀ y ∈ ys, p < y) ∧ ∀ x ∈ xs, ∀ y ∈ ys, x < y := by
  obtain ⟨-, hcons, hcross⟩ := List.pairwise_append.mp h.sorted
  have hys := List.pairwise_cons.mp hcons
  refine ⟨?_, hys.1, ?_⟩
  · intro x hx
    exact hcross x hx p List.mem_cons_self
  · intro x hx y hy
    exact hcross x hx y (List.mem_cons_of_mem _ hy)

/-- **Append**: the new node follows the last one. -/
theorem Shape.append (h : Shape next previous size live)
    (hnext : ∀ p, next' p =
      if p = size then none else if live.getLast? = some p then some size else next p)
    (hprev : ∀ p, previous' p = if p = size then live.getLast? else previous p) :
    Shape next' previous' (size + 1) (live ++ [size]) := by
  refine ⟨?_, ?_, ?_, ?_⟩
  · refine List.pairwise_append.mpr ⟨h.sorted, List.pairwise_singleton _ _, ?_⟩
    intro x hx y hy
    rw [List.mem_singleton.mp hy]
    exact h.lt_size x hx
  · intro p hp
    rcases List.mem_append.mp hp with hp | hp
    · exact Nat.lt_succ_of_lt (h.lt_size p hp)
    · rw [List.mem_singleton.mp hp]
      exact Nat.lt_succ_self size
  · intro xs p ys hsplit
    rcases List.eq_nil_or_concat ys with rfl | ⟨ys', y, rfl⟩
    · -- The new node itself.
      obtain ⟨rfl, hp⟩ := List.append_inj' hsplit rfl
      obtain rfl : size = p := by simpa using hp
      simp [hnext, hprev]
    · rw [List.concat_eq_append, ← List.cons_append, ← List.append_assoc] at hsplit
      obtain ⟨hlive, hy⟩ := List.append_inj' hsplit rfl
      obtain rfl : size = y := by simpa using hy
      have hp : p < size := h.lt_size p (by simp [hlive])
      obtain ⟨hprev_p, hnext_p⟩ := h.links xs p ys' hlive
      rw [hnext, hprev, if_neg hp.ne, if_neg hp.ne, List.concat_eq_append]
      refine ⟨hprev_p, ?_⟩
      -- The last node before the new one is the only one whose link changes.
      rcases List.eq_nil_or_concat ys' with rfl | ⟨zs, z, rfl⟩
      · rw [if_pos (by simp [hlive])]
        rfl
      · have hne : live.getLast? ≠ some p := by
          have hsorted := h.sorted
          rw [hlive] at hsorted
          have hlt := (List.pairwise_cons.mp (List.pairwise_append.mp hsorted).2.1).1 z (by simp)
          rw [hlive, List.concat_eq_append, ← List.cons_append, ← List.append_assoc,
            List.getLast?_concat]
          simp only [ne_eq, Option.some.injEq]
          omega
        rw [if_neg hne, hnext_p]
        cases zs <;> simp
  · intro p q hp hq
    rw [hnext] at hq
    split at hq
    case isTrue => cases hq
    case isFalse hne =>
      have hlt : p < size := by omega
      split at hq
      case isTrue hlast =>
        cases hq
        refine ⟨hlt, Nat.lt_succ_self _, ?_⟩
        intro x hx
        obtain ⟨front, rfl⟩ := List.getLast?_eq_some_iff.mp hlast
        rcases List.mem_append.mp hx with hx | hx
        · left
          rcases List.mem_append.mp hx with hx | hx
          · exact (h.around.1 x hx).le
          · exact (List.mem_singleton.mp hx).le
        · right
          exact (List.mem_singleton.mp hx).ge
      case isFalse =>
        obtain ⟨hpq, hqs, hskip⟩ := h.forward p q hlt hq
        refine ⟨hpq, by omega, ?_⟩
        intro x hx
        rcases List.mem_append.mp hx with hx | hx
        · exact hskip x hx
        · right
          rw [List.mem_singleton.mp hx]
          exact hqs.le

/-- **Unlink**: the neighbours of the node are linked to each other. -/
theorem Shape.unlink {xs ys : List Nat} {p : Nat} (h : Shape next previous size (xs ++ p :: ys))
    (hnext : ∀ q, next' q = if xs.getLast? = some q then ys.head? else next q)
    (hprev : ∀ q, previous' q = if ys.head? = some q then xs.getLast? else previous q) :
    Shape next' previous' size (xs ++ ys) := by
  obtain ⟨hxs, hys, hcross⟩ := h.around
  have hsub : ∀ x ∈ xs ++ ys, x ∈ xs ++ p :: ys := by
    intro x hx
    rcases List.mem_append.mp hx with hx | hx
    · exact List.mem_append_left _ hx
    · exact List.mem_append_right _ (List.mem_cons_of_mem _ hx)
  refine ⟨h.sorted.sublist (by simp), fun q hq => h.lt_size q (hsub q hq), ?_, ?_⟩
  · intro as q bs hsplit
    rcases List.append_eq_append_iff.mp hsplit with ⟨cs, rfl, rfl⟩ | ⟨cs, rfl, hbs⟩
    · -- A node behind the removed one: only the first of these gets a new predecessor.
      obtain ⟨hp, hn⟩ := h.links (xs ++ p :: cs) q bs (by simp)
      have hq : xs.getLast? ≠ some q := by
        intro hlast
        have hlt := hcross q (List.mem_of_getLast? hlast) q (by simp)
        omega
      rw [hnext, if_neg hq, hprev, hn]
      refine ⟨?_, rfl⟩
      cases cs with
      | nil => simp
      | cons c cs =>
        have hne : (c :: cs ++ q :: bs).head? ≠ some q := by
          have hsorted := h.sorted
          simp only [List.cons_append, List.head?_cons, ne_eq, Option.some.injEq]
          have hlt := (List.pairwise_cons.mp
            (List.pairwise_cons.mp (List.pairwise_append.mp hsorted).2.1).2).1 q (by simp)
          omega
        rw [if_neg hne, hp]
        simp [List.getLast?_append]
    · cases cs with
      | nil =>
        obtain rfl : q :: bs = ys := by simpa using hbs
        obtain ⟨-, hn⟩ := h.links (as ++ [] ++ [p]) q bs (by simp)
        have hq : (as ++ []).getLast? ≠ some q := by
          intro hlast
          have hlt := hcross q (List.mem_of_getLast? hlast) q (by simp)
          omega
        rw [hnext, if_neg hq, hprev]
        simpa using hn
      | cons c cs =>
        -- A node in front of it: only the last of these gets a new successor.
        obtain ⟨rfl, rfl⟩ := List.cons_eq_cons.mp hbs
        obtain ⟨hp, hn⟩ := h.links as q (cs ++ p :: ys) (by simp)
        have hq : ys.head? ≠ some q := by
          intro hhead
          have hlt := hcross q (by simp) q (List.mem_of_head? hhead)
          omega
        rw [hnext, hprev, if_neg hq, hp]
        refine ⟨rfl, ?_⟩
        rcases List.eq_nil_or_concat cs with rfl | ⟨ds, d, rfl⟩
        · simp
        · have hne : (as ++ q :: ds.concat d).getLast? ≠ some q := by
            rw [List.concat_eq_append, ← List.cons_append, ← List.append_assoc,
              List.getLast?_concat]
            have hsorted := (List.pairwise_append.mp h.sorted).1
            have hlt := (List.pairwise_cons.mp (List.pairwise_append.mp hsorted).2.1).1 d (by simp)
            simp only [ne_eq, Option.some.injEq]
            omega
          rw [if_neg hne, hn]
          cases ds <;> simp
  · intro q r hq hr
    rw [hnext] at hr
    split at hr
    case isTrue hlast =>
      have hmem := List.mem_of_getLast? hlast
      have hrmem := List.mem_of_head? hr
      refine ⟨hcross q hmem r hrmem, h.lt_size r (hsub r (List.mem_append_right _ hrmem)), ?_⟩
      intro x hx
      rcases List.mem_append.mp hx with hx | hx
      · left
        obtain ⟨front, rfl⟩ := List.getLast?_eq_some_iff.mp hlast
        rcases List.mem_append.mp hx with hx | hx
        · have hsorted := (List.pairwise_append.mp h.sorted).1
          exact ((List.pairwise_append.mp hsorted).2.2 x hx q (by simp)).le
        · exact (List.mem_singleton.mp hx).le
      · right
        obtain ⟨rest, rfl⟩ := List.head?_eq_some_iff.mp hr
        rcases List.mem_cons.mp hx with rfl | hx
        · exact le_rfl
        · have hsorted := (List.pairwise_cons.mp (List.pairwise_append.mp h.sorted).2.1).2
          exact ((List.pairwise_cons.mp hsorted).1 x hx).le
    case isFalse =>
      obtain ⟨hqr, hrs, hskip⟩ := h.forward q r hq hr
      exact ⟨hqr, hrs, fun x hx => hskip x (hsub x hx)⟩

/-! ## Section 2: Walks -/

/-- A walk that stands on the node comes to a node of the list, which may
    be the node itself. -/
inductive Reaches (next : Nat → Option Nat) (live : List Nat) : Nat → Prop where
  | here {p : Nat} : p ∈ live → Reaches next live p
  | hop {p q : Nat} : p ∉ live → next p = some q → Reaches next live q → Reaches next live p

/-- A walk that stands there comes to its end without finding any node of
    the list. -/
inductive Ended (next : Nat → Option Nat) (size : Nat) (live : List Nat) : Option Nat → Prop where
  | null : Ended next size live none
  | hop {p : Nat} : p < size → p ∉ live → Ended next size live (next p) →
      Ended next size live (some p)

/-- The nodes of the list that a walk which stands at `node` will find. -/
inductive Finds (next : Nat → Option Nat) (size : Nat) (live : List Nat) :
    Option Nat → List Nat → Prop where
  | reaches {p : Nat} : p < size → Reaches next live p →
      Finds next size live (some p) (live.filter (p ≤ ·))
  | ended {node : Option Nat} : Ended next size live node → Finds next size live node []

/-- The nodes of the list that a walk which is done with `p` will find. -/
inductive FindsAfter (next : Nat → Option Nat) (size : Nat) (live : List Nat) :
    Nat → List Nat → Prop where
  | reaches {p : Nat} : p < size → Reaches next live p →
      FindsAfter next size live p (live.filter (p < ·))
  | ended {p : Nat} : Ended next size live (some p) → FindsAfter next size live p []

theorem Finds.subset {node : Option Nat} {found : List Nat}
    (h : Finds next size live node found) {p : Nat} (hp : p ∈ found) : p ∈ live := by
  cases h with
  | reaches => exact List.mem_of_mem_filter hp
  | ended => cases hp

theorem FindsAfter.subset {q : Nat} {found : List Nat}
    (h : FindsAfter next size live q found) {p : Nat} (hp : p ∈ found) : p ∈ live := by
  cases h with
  | reaches => exact List.mem_of_mem_filter hp
  | ended => cases hp

theorem FindsAfter.lt_size {q : Nat} {found : List Nat}
    (h : FindsAfter next size live q found) : q < size := by
  cases h with
  | reaches hlt _ => exact hlt
  | ended hended =>
    cases hended with
    | hop hlt _ _ => exact hlt

/-- A walk from the first node finds the whole list. -/
theorem Shape.finds_head (h : Shape next previous size live) :
    Finds next size live live.head? live := by
  cases hl : live with
  | nil => exact .ended .null
  | cons p ps =>
    have hmem : p ∈ live := by simp [hl]
    have hall : live.filter (p ≤ ·) = live := by
      rw [List.filter_eq_self]
      intro x hx
      rw [hl] at hx
      have hsorted := h.sorted
      rw [hl] at hsorted
      rcases List.mem_cons.mp hx with rfl | hx
      · simp
      · simpa using ((List.pairwise_cons.mp hsorted).1 x hx).le
    have hfinds : Finds next size live (some p) _ := .reaches (h.lt_size p hmem) (.here hmem)
    rw [hall, hl] at hfinds
    exact hfinds

/-- The walk passes a node of the list, which it finds first. -/
theorem Shape.finds_live (h : Shape next previous size live) {p : Nat} {found : List Nat}
    (hfinds : Finds next size live (some p) found) (hp : p ∈ live) :
    ∃ rest, found = p :: rest ∧ FindsAfter next size live p rest := by
  cases hfinds with
  | ended hended =>
    cases hended with
    | hop _ hnot _ => exact absurd hp hnot
  | reaches hlt hreaches =>
    obtain ⟨xs, ys, rfl⟩ := List.append_of_mem hp
    obtain ⟨hxs, hys, -⟩ := h.around
    have hnone : xs.filter (p ≤ ·) = [] ∧ xs.filter (p < ·) = [] := by
      constructor <;> rw [List.filter_eq_nil_iff] <;> intro x hx <;>
        have := hxs x hx <;> simp <;> omega
    have hall : ys.filter (p ≤ ·) = ys ∧ ys.filter (p < ·) = ys := by
      constructor <;> rw [List.filter_eq_self] <;> intro y hy <;>
        have := hys y hy <;> simp <;> omega
    refine ⟨_, ?_, FindsAfter.reaches hlt hreaches⟩
    rw [List.filter_append, List.filter_append, hnone.1, hnone.2, List.filter_cons_of_pos (by simp),
      List.filter_cons_of_neg (by simp), hall.1, hall.2]
    rfl

/-- The walk passes a node that is not on the list. -/
theorem finds_removed {p : Nat} {found : List Nat} (hfinds : Finds next size live (some p) found)
    (hp : p ∉ live) : FindsAfter next size live p found := by
  cases hfinds with
  | ended hended => exact .ended hended
  | reaches hlt hreaches =>
    have hsame : live.filter (p ≤ ·) = live.filter (p < ·) := by
      refine List.filter_congr fun x hx => ?_
      have hne : x ≠ p := fun heq => hp (heq ▸ hx)
      simp only [decide_eq_decide]
      omega
    rw [hsame]
    exact .reaches hlt hreaches

/-- **Advance**: following a link changes nothing in what will be found. -/
theorem Shape.finds_next (h : Shape next previous size live) {p : Nat} {found : List Nat}
    (hfinds : FindsAfter next size live p found) : Finds next size live (next p) found := by
  cases hfinds with
  | ended hended =>
    cases hended with
    | hop _ _ hrest => exact .ended hrest
  | reaches hlt hreaches =>
    cases hreaches with
    | here hp =>
      obtain ⟨xs, ys, rfl⟩ := List.append_of_mem hp
      obtain ⟨hxs, hys, -⟩ := h.around
      rw [(h.links xs p ys rfl).2]
      have hnone : xs.filter (p < ·) = [] := by
        rw [List.filter_eq_nil_iff]
        intro x hx
        have := hxs x hx
        simp
        omega
      cases ys with
      | nil =>
        rw [List.filter_append, hnone, List.filter_cons_of_neg (by simp)]
        exact .ended .null
      | cons q ys =>
        have hq : q ∈ xs ++ p :: q :: ys := by simp
        have hpq := hys q List.mem_cons_self
        have hsame : (xs ++ p :: q :: ys).filter (p < ·) = (xs ++ p :: q :: ys).filter (q ≤ ·) := by
          refine List.filter_congr fun x hx => ?_
          have hstep := (h.forward p q hlt ((h.links xs p (q :: ys) rfl).2)).2.2 x hx
          simp only [decide_eq_decide]
          omega
        rw [hsame]
        exact .reaches (h.lt_size q hq) (.here hq)
    | @hop _ q hp hnext hq =>
      obtain ⟨hpq, hqs, hskip⟩ := h.forward p q hlt hnext
      have hsame : live.filter (p < ·) = live.filter (q ≤ ·) := by
        refine List.filter_congr fun x hx => ?_
        have hstep := hskip x hx
        have hne : x ≠ p := fun heq => hp (heq ▸ hx)
        simp only [decide_eq_decide]
        omega
      rw [hnext, hsame]
      exact .reaches hqs hq

/-! ## Section 3: Walks while the list is edited -/

section Append

variable (hnext : ∀ p, next' p =
  if p = size then none else if live.getLast? = some p then some size else next p)

include hnext

/-- The link of a node that is not on the list does not change. -/
theorem next_append_of_not_mem {p : Nat} (hlt : p < size) (hp : p ∉ live) : next' p = next p := by
  have hlast : live.getLast? ≠ some p := fun heq => hp (List.mem_of_getLast? heq)
  rw [hnext, if_neg hlt.ne, if_neg hlast]

theorem ended_append {node : Option Nat} (hended : Ended next size live node) :
    Ended next' (size + 1) (live ++ [size]) node := by
  induction hended with
  | null => exact .null
  | hop hlt hp _ ih =>
    refine .hop (Nat.lt_succ_of_lt hlt) ?_ ?_
    · simp [hp, hlt.ne]
    · rw [next_append_of_not_mem hnext hlt hp]
      exact ih

variable (h : Shape next previous size live)

include h

theorem reaches_append {p : Nat} (hlt : p < size) (hreaches : Reaches next live p) :
    Reaches next' (live ++ [size]) p := by
  induction hreaches with
  | here hp => exact .here (List.mem_append_left _ hp)
  | hop hp hq _ ih =>
    refine .hop ?_ ?_ (ih (h.forward _ _ hlt hq).2.1)
    · simp [hp, hlt.ne]
    · rw [next_append_of_not_mem hnext hlt hp, hq]

/-- An appended node is found last, unless the walk has lost the list. -/
theorem finds_append {node : Option Nat} {found : List Nat}
    (hfinds : Finds next size live node found) :
    ∃ joins : Bool, Finds next' (size + 1) (live ++ [size]) node
      (found ++ if joins then [size] else []) := by
  cases hfinds with
  | reaches hlt hreaches =>
    refine ⟨true, ?_⟩
    have hfound := Finds.reaches (Nat.lt_succ_of_lt hlt) (reaches_append hnext h hlt hreaches)
    rwa [List.filter_append, List.filter_cons_of_pos (by simpa using hlt.le)] at hfound
  | ended hended => exact ⟨false, .ended (ended_append hnext hended)⟩

theorem findsAfter_append {p : Nat} {found : List Nat}
    (hfinds : FindsAfter next size live p found) :
    ∃ joins : Bool, FindsAfter next' (size + 1) (live ++ [size]) p
      (found ++ if joins then [size] else []) := by
  cases hfinds with
  | reaches hlt hreaches =>
    refine ⟨true, ?_⟩
    have hfound := FindsAfter.reaches (Nat.lt_succ_of_lt hlt) (reaches_append hnext h hlt hreaches)
    rwa [List.filter_append, List.filter_cons_of_pos (by simpa using hlt)] at hfound
  | ended hended => exact ⟨false, .ended (ended_append hnext hended)⟩

end Append

section Unlink

variable {xs ys : List Nat} {r : Nat}

theorem Shape.not_mem_unlink (h : Shape next previous size (xs ++ r :: ys)) : r ∉ xs ++ ys := by
  obtain ⟨hxs, hys, -⟩ := h.around
  intro hr
  rcases List.mem_append.mp hr with hr | hr
  · exact absurd (hxs r hr) (lt_irrefl r)
  · exact absurd (hys r hr) (lt_irrefl r)

theorem Shape.filter_unlink (h : Shape next previous size (xs ++ r :: ys)) (f : Nat → Bool) :
    ((xs ++ r :: ys).filter f).filter (· ≠ r) = (xs ++ ys).filter f := by
  obtain ⟨hxs, hys, -⟩ := h.around
  have hkeep : ∀ zs : List Nat, (∀ z ∈ zs, z ≠ r) → zs.filter (fun x => (x ≠ r : Bool) && f x) =
      zs.filter f := by
    intro zs hzs
    refine List.filter_congr fun z hz => ?_
    simp [hzs z hz]
  rw [List.filter_filter, List.filter_append, List.filter_cons_of_neg (by simp), hkeep, hkeep,
    List.filter_append]
  · exact fun z hz => (hys z hz).ne'
  · exact fun z hz => (hxs z hz).ne

variable (hnext : ∀ q, next' q = if xs.getLast? = some q then ys.head? else next q)

include hnext

theorem next_unlink_of_not_mem {p : Nat} (hp : p ∉ xs ++ r :: ys) : next' p = next p := by
  have hlast : xs.getLast? ≠ some p := fun heq =>
    hp (List.mem_append_left _ (List.mem_of_getLast? heq))
  rw [hnext, if_neg hlast]

theorem ended_unlink {node : Option Nat} (hended : Ended next size (xs ++ r :: ys) node) :
    Ended next' size (xs ++ ys) node := by
  induction hended with
  | null => exact .null
  | hop hlt hp _ ih =>
    refine .hop hlt ?_ ?_
    · simp only [List.mem_append, List.mem_cons, not_or] at hp ⊢
      exact ⟨hp.1, hp.2.2⟩
    · rw [next_unlink_of_not_mem hnext hp]
      exact ih

variable (h : Shape next previous size (xs ++ r :: ys))

include h

/-- The link of the removed node stays. -/
theorem next_unlink_self : next' r = ys.head? := by
  have hlast : xs.getLast? ≠ some r := by
    intro heq
    have := h.around.1 r (List.mem_of_getLast? heq)
    omega
  rw [hnext, if_neg hlast, (h.links xs r ys rfl).2]

/-- After the removal the walk still comes to the list, or it has come to
    its end with no node of the list ahead of it. -/
theorem reaches_unlink {p : Nat} (hlt : p < size) (hreaches : Reaches next (xs ++ r :: ys) p) :
    Reaches next' (xs ++ ys) p ∨
      (Ended next' size (xs ++ ys) (some p) ∧ ∀ x ∈ xs ++ ys, x < p) := by
  induction hreaches with
  | @here p hp =>
    rcases eq_or_ne p r with rfl | hne
    · -- The walk stands on the removed node itself.
      have hself := next_unlink_self hnext h
      have hnot := h.not_mem_unlink
      cases ys with
      | nil =>
        right
        refine ⟨.hop hlt hnot (by rw [hself]; exact .null), ?_⟩
        intro x hx
        exact h.around.1 x (by simpa using hx)
      | cons y ys =>
        left
        exact .hop hnot hself (.here (by simp))
    · left
      refine .here ?_
      simp only [List.mem_append, List.mem_cons] at hp ⊢
      tauto
  | @hop p q hp hq _ ih =>
    obtain ⟨hpq, hqs, hskip⟩ := h.forward p q hlt hq
    have hnot : p ∉ xs ++ ys := by
      simp only [List.mem_append, List.mem_cons, not_or] at hp ⊢
      exact ⟨hp.1, hp.2.2⟩
    have hq' : next' p = some q := by rw [next_unlink_of_not_mem hnext hp, hq]
    rcases ih hqs with hreach | ⟨hend, hbelow⟩
    · exact Or.inl (.hop hnot hq' hreach)
    · right
      refine ⟨.hop hlt hnot (by rw [hq']; exact hend), ?_⟩
      intro x hx
      have hxq := hbelow x hx
      have hne : x ≠ p := fun heq => hnot (heq ▸ hx)
      have hmem : x ∈ xs ++ r :: ys := by
        simp only [List.mem_append, List.mem_cons] at hx ⊢
        tauto
      have := hskip x hmem
      omega

/-- A removed node is not found any more; everything else is. -/
theorem finds_unlink {node : Option Nat} {found : List Nat}
    (hfinds : Finds next size (xs ++ r :: ys) node found) :
    Finds next' size (xs ++ ys) node (found.filter (· ≠ r)) := by
  cases hfinds with
  | ended hended => exact .ended (ended_unlink hnext hended)
  | @reaches p hlt hreaches =>
    rw [h.filter_unlink]
    rcases reaches_unlink hnext h hlt hreaches with hreach | ⟨hend, hbelow⟩
    · exact .reaches hlt hreach
    · have hnone : (xs ++ ys).filter (p ≤ ·) = [] := by
        rw [List.filter_eq_nil_iff]
        intro x hx
        have := hbelow x hx
        simp
        omega
      rw [hnone]
      exact .ended hend

theorem findsAfter_unlink {p : Nat} {found : List Nat}
    (hfinds : FindsAfter next size (xs ++ r :: ys) p found) :
    FindsAfter next' size (xs ++ ys) p (found.filter (· ≠ r)) := by
  cases hfinds with
  | ended hended => exact .ended (ended_unlink hnext hended)
  | reaches hlt hreaches =>
    rw [h.filter_unlink]
    rcases reaches_unlink hnext h hlt hreaches with hreach | ⟨hend, hbelow⟩
    · exact .reaches hlt hreach
    · have hnone : (xs ++ ys).filter (p < ·) = [] := by
        rw [List.filter_eq_nil_iff]
        intro x hx
        have := hbelow x hx
        simp
        omega
      rw [hnone]
      exact .ended hend

end Unlink

end LinkedList
