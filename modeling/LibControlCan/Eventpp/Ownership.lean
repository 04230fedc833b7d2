import LibControlCan.Eventpp.CallbackList
import LibControlCan.Framework.Links

/-! # Which listeners are alive

    Nodes are held by shared pointers: `head` and `tail` of the list, the
    pointer of a dispatch, and the links of other nodes.  A node that was
    removed keeps its links, so the one that a dispatch stands at can hold
    others that were removed after it.

    * `Notifier.alive` computes the nodes that are held, and
      `mem_alive_iff` says that it follows all links.
    * `Notifier.Kept` is the invariant: links never lead from a node that
      the dispatch may hold to one that was removed before it began.
    * `alive_of_linked` and `linked_or_recent_of_alive` say which nodes
      these are. -/

namespace LibControlCan

open LinkedList Links

/-! ## Section 1: Owners -/

/-- The node that the thread holds. -/
def WalkCursor.node : WalkCursor → Option Nat
  | .load node => node
  | .test _ node => node
  | .call _ node => some node
  | .advance _ node => some node

namespace CallbackList

variable {C : Type} {l : CallbackList C} {live : List Nat}

/-- The nodes that a node holds. -/
def linksOf (l : CallbackList C) (p : Nat) : List Nat :=
  (l.nextOf p).toList ++ (l.previousOf p).toList

theorem mem_linksOf {p q : Nat} :
    q ∈ l.linksOf p ↔ l.nextOf p = some q ∨ l.previousOf p = some q := by
  rw [linksOf, List.mem_append, Option.mem_toList, Option.mem_toList]

theorem linksOf_of_le {p : Nat} (h : l.nodes.length ≤ p) : l.linksOf p = [] := by
  have hnone : l.nodes[p]? = none := List.getElem?_eq_none h
  simp [linksOf, nextOf, previousOf, hnone]

/-- From the list no link leads off it. -/
theorem Represents.mem_of_mem_linksOf (h : l.Represents live) {p q : Nat} (hp : p ∈ live)
    (hq : q ∈ l.linksOf p) : q ∈ live := by
  obtain ⟨xs, ys, rfl⟩ := List.append_of_mem hp
  obtain ⟨hprev, hnext⟩ := h.shape.links xs p ys rfl
  rcases mem_linksOf.mp hq with hq | hq
  · rw [hnext] at hq
    exact List.mem_append_right _ (List.mem_cons_of_mem _ (List.mem_of_head? hq))
  · rw [hprev] at hq
    exact List.mem_append_left _ (List.mem_of_getLast? hq)

/-- The links that `append` makes are to the new node and to the list. -/
theorem Represents.linksOf_append (h : l.Represents live) {callback : C} {counter : UInt32}
    {p q : Nat} (hq : q ∈ (l.append callback counter).linksOf p) :
    q ∈ l.linksOf p ∨ q ∈ live ++ [l.nodes.length] := by
  obtain ⟨hnext, hprev, -⟩ := h.append_fields callback counter
  rcases mem_linksOf.mp hq with hq | hq
  · rw [hnext] at hq
    split at hq
    · cases hq
    · split at hq
      · cases hq
        exact Or.inr (by simp)
      · exact Or.inl (mem_linksOf.mpr (Or.inl hq))
  · rw [hprev] at hq
    split at hq
    · exact Or.inr (List.mem_append_left _ (List.mem_of_getLast? hq))
    · exact Or.inl (mem_linksOf.mpr (Or.inr hq))

/-- Those that `doFreeNode` makes are to the list. -/
theorem Represents.linksOf_doFreeNode {xs ys : List Nat} {r : Nat}
    (h : l.Represents (xs ++ r :: ys)) {p q : Nat} (hq : q ∈ (l.doFreeNode r).linksOf p) :
    q ∈ l.linksOf p ∨ q ∈ xs ++ r :: ys := by
  obtain ⟨hnext, hprev, -⟩ := h.doFreeNode_fields
  rcases mem_linksOf.mp hq with hq | hq
  · rw [hnext] at hq
    split at hq
    · exact Or.inr (List.mem_append_right _ (List.mem_cons_of_mem _ (List.mem_of_head? hq)))
    · exact Or.inl (mem_linksOf.mpr (Or.inl hq))
  · rw [hprev] at hq
    split at hq
    · exact Or.inr (List.mem_append_left _ (List.mem_of_getLast? hq))
    · exact Or.inl (mem_linksOf.mpr (Or.inr hq))

end CallbackList

namespace Notifier

variable {C : Type} {n n' : Notifier C} {live ahead : List Nat}

/-- The nodes that are held from outside. -/
def roots (n : Notifier C) : List Nat :=
  n.list.head.toList ++ n.list.tail.toList ++ (n.cursor.bind WalkCursor.node).toList

/-- The nodes that are alive. -/
def alive (n : Notifier C) : List Nat := reach n.list.linksOf n.list.nodes.length n.roots

/-- The node was on the list when the dispatch began, or was linked since:
    it was not removed before. -/
def Recent (n : Notifier C) (p : Nat) : Prop := p ∈ n.present ∨ n.before ≤ p

/-! ## Section 2: Every interleaving -/

/-- What the dispatch may hold. -/
structure Kept (n : Notifier C) (live : List Nat) : Prop where
  live : ∀ p ∈ live, n.Recent p
  bound : ∀ p, ∀ q ∈ n.list.linksOf p, q < n.list.nodes.length
  links : ∀ p, n.Recent p → ∀ q ∈ n.list.linksOf p, n.Recent q
  node : ∀ p, n.cursor.bind WalkCursor.node = some p → n.Recent p ∧ p < n.list.nodes.length

theorem kept_new : (new : Notifier C).Kept [] := by
  have hnone : ∀ p, (new : Notifier C).list.linksOf p = [] := fun p =>
    CallbackList.linksOf_of_le (Nat.zero_le p)
  refine ⟨fun p hp => (by cases hp), ?_, ?_, fun p hp => (by cases hp)⟩
  · intro p q hq
    rw [hnone] at hq
    cases hq
  · intro p _ q hq
    rw [hnone] at hq
    cases hq

/-- A new dispatch can come to the list only. -/
theorem kept_dispatch (htracks : n.Tracks live ahead) (h : n.Kept live)
    (hstep : n.step .dispatch = some n') : n'.Kept live := by
  have hlinked := htracks.represents.linked_eq
  have hlt := htracks.represents.shape.lt_size
  simp only [step] at hstep
  split at hstep
  case h_2 => cases hstep
  case h_1 =>
    cases hstep
    refine ⟨fun p hp => Or.inl (hlinked ▸ hp), h.bound, ?_, ?_⟩
    · intro p hp q hq
      left
      show q ∈ n.linked
      rw [hlinked]
      rcases hp with hp | hp
      · exact htracks.represents.mem_of_mem_linksOf (hlinked ▸ hp) hq
      · -- There is no such node yet.
        rw [CallbackList.linksOf_of_le hp] at hq
        cases hq
    · intro p hp
      replace hp : n.list.head = some p := hp
      rw [htracks.represents.head] at hp
      have hmem := List.mem_of_head? hp
      exact ⟨Or.inl (hlinked.symm ▸ hmem), hlt p hmem⟩

theorem kept_walk (h : n.Kept live) (hstep : n.step .walk = some n') : n'.Kept live := by
  obtain ⟨cursor, hcursor, rfl⟩ := Option.map_eq_some_iff.mp hstep
  refine ⟨h.live, h.bound, h.links, ?_⟩
  have hnode : ∀ p, cursor.node = some p → n.Recent p ∧ p < n.list.nodes.length := by
    intro p hp
    exact h.node p (by rw [hcursor]; exact hp)
  intro p hp
  replace hp : (n.list.doForEachIf cursor).bind WalkCursor.node = some p := hp
  cases cursor with
  | load node => exact hnode p hp
  | test counter node =>
    cases node with
    | none => cases hp
    | some q =>
      refine hnode p ?_
      simp only [CallbackList.doForEachIf] at hp
      split at hp <;> exact hp
  | call counter q => exact hnode p hp
  | advance counter q =>
    -- The node may have been removed; its link was good when it was.
    have hq : p ∈ n.list.linksOf q := CallbackList.mem_linksOf.mpr (Or.inl hp)
    exact ⟨h.links q (hnode q rfl).1 p hq, h.bound q p hq⟩

/-- An edit of the list whose new links lead to nodes that are recent. -/
theorem Kept.edit (h : n.Kept live) {list : CallbackList C} {appending : Appending C}
    {live' both : List Nat} (hsize : n.list.nodes.length ≤ list.nodes.length)
    (hlive : ∀ p ∈ live', p ∈ both)
    (hboth : ∀ p ∈ both, n.Recent p ∧ p < list.nodes.length)
    (hlinks : ∀ p, ∀ q ∈ list.linksOf p, q ∈ n.list.linksOf p ∨ q ∈ both) :
    Kept { n with list, appending } live' where
  live p hp := (hboth p (hlive p hp)).1
  bound p q hq := (hlinks p q hq).elim (fun hq => Nat.lt_of_lt_of_le (h.bound p q hq) hsize)
    fun hq => (hboth q hq).2
  links p hp q hq := (hlinks p q hq).elim (h.links p hp q) fun hq => (hboth q hq).1
  node p hp := ⟨(h.node p hp).1, Nat.lt_of_lt_of_le (h.node p hp).2 hsize⟩

/-- **Step lemma.** -/
theorem kept_step {ev : NotifierEvent C} (htracks : n.Tracks live ahead)
    (hrec : n.Recorded live ahead) (h : n.Kept live) (hguard : n.Disciplined ev)
    (hstep : n.step ev = some n') : ∃ live' ahead', n'.Tracks live' ahead' ∧ n'.Kept live' := by
  have hold : ∀ p ∈ live, n.Recent p ∧ p < n.list.nodes.length := fun p hp =>
    ⟨h.live p hp, htracks.represents.shape.lt_size p hp⟩
  cases ev with
  | dispatch => exact ⟨live, live, (tracks_dispatch htracks hstep).1, kept_dispatch htracks h hstep⟩
  | walk =>
    obtain ⟨ahead', htracks', -⟩ := tracks_walk htracks hstep
    exact ⟨live, ahead', htracks', kept_walk h hstep⟩
  | count callback =>
    obtain ⟨htracks', -, -, hlist, hidle, -⟩ := tracks_count htracks hguard hstep
    refine ⟨live, ahead, htracks', ?_⟩
    simp only [step, hidle, Option.some.injEq] at hstep
    subst hstep
    exact h.edit (Nat.le_refl _) (fun _ hp => hp) hold fun p q hq => Or.inl hq
  | renumber =>
    rw [htracks.not_overflow.1] at hstep
    cases hstep
  | recount =>
    rw [htracks.not_overflow.2] at hstep
    cases hstep
  | link =>
    obtain ⟨joins, callback, counter, htracks', -, -, -, happ, -⟩ := tracks_link htracks hstep
    refine ⟨_, _, htracks', ?_⟩
    simp only [step, happ, Option.some.injEq] at hstep
    subst hstep
    have hlen := n.list.length_append callback counter
    refine h.edit (by rw [hlen]; exact Nat.le_succ _) (fun _ hp => hp) ?_
      fun p q hq => htracks.represents.linksOf_append hq
    intro p hp
    rw [hlen]
    rcases List.mem_append.mp hp with hp | hp
    · exact ⟨(hold p hp).1, Nat.lt_succ_of_lt (hold p hp).2⟩
    · -- The new node is younger than the dispatch.
      obtain rfl := List.mem_singleton.mp hp
      exact ⟨Or.inr hrec.before, Nat.lt_succ_self _⟩
  | remove node =>
    cases node with
    | none =>
      cases hstep
      exact ⟨live, ahead, htracks,
        h.edit (Nat.le_refl _) (fun _ hp => hp) hold fun p q hq => Or.inl hq⟩
    | some r =>
      obtain ⟨xs, ys, rfl⟩ := List.append_of_mem (htracks.represents.mem_iff.mpr hguard)
      obtain ⟨htracks', -⟩ := tracks_remove htracks hstep
      cases hstep
      -- The removed node was on the list, and so it stays recent.
      have hlen := n.list.length_doFreeNode r
      refine ⟨xs ++ ys, _, htracks', h.edit (Nat.le_of_eq hlen.symm) ?_ ?_
        fun p q hq => htracks.represents.linksOf_doFreeNode hq⟩
      · intro p hp
        simp only [List.mem_append, List.mem_cons] at hp ⊢
        tauto
      · intro p hp
        exact ⟨(hold p hp).1, Nat.lt_of_lt_of_eq (hold p hp).2 hlen.symm⟩

theorem kept_of_reachable (h : (notifierSystem C).ReachableBy Disciplined n) :
    ∃ live ahead, n.Tracks live ahead ∧ n.Kept live := by
  induction h with
  | init hn =>
    cases hn
    exact ⟨[], [], tracks_new, kept_new⟩
  | step ev hn hguard hstep ih =>
    obtain ⟨live, ahead, htracks, hkept⟩ := ih
    obtain ⟨live', ahead', htracks', hrec⟩ := recorded_of_reachable hn
    obtain rfl : live' = live := htracks'.represents.linked_eq.symm.trans htracks.represents.linked_eq
    exact kept_step htracks' hrec hkept hguard hstep

/-! ## Section 3: The nodes that are alive -/

/-- The computation follows all links. -/
theorem mem_alive_iff (h : (notifierSystem C).ReachableBy Disciplined n) {p : Nat} :
    p ∈ n.alive ↔ Reached n.list.linksOf n.roots p := by
  obtain ⟨live, ahead, htracks, hkept⟩ := kept_of_reachable h
  have hlt := htracks.represents.shape.lt_size
  have hroots : ∀ q ∈ n.roots, q ∈ Finset.range n.list.nodes.length := by
    intro q hq
    rw [Finset.mem_range]
    simp only [roots, List.mem_append, Option.mem_toList] at hq
    rcases hq with (hq | hq) | hq
    · rw [htracks.represents.head] at hq
      exact hlt q (List.mem_of_head? hq)
    · rw [htracks.represents.tail] at hq
      exact hlt q (List.mem_of_getLast? hq)
    · exact (hkept.node q hq).2
  have hlinks : ∀ q ∈ Finset.range n.list.nodes.length, ∀ r ∈ n.list.linksOf q,
      r ∈ Finset.range n.list.nodes.length :=
    fun q _ r hr => Finset.mem_range.mpr (hkept.bound q r hr)
  have hreach := mem_reach_iff hroots hlinks (q := p)
  rwa [Finset.card_range] at hreach

/-- The nodes on the list are alive. -/
theorem alive_of_linked (h : (notifierSystem C).ReachableBy Disciplined n) {p : Nat}
    (hp : p ∈ n.linked) : p ∈ n.alive := by
  rw [mem_alive_iff h]
  obtain ⟨live, ahead, htracks, -⟩ := kept_of_reachable h
  rw [htracks.represents.linked_eq] at hp
  obtain ⟨xs, ys, hlive⟩ := List.append_of_mem hp
  clear hp
  -- From `head` along the links to the node, whatever comes before it.
  induction xs using List.reverseRecOn generalizing p ys with
  | nil =>
    refine .root ?_
    have hhead : n.list.head = some p := by rw [htracks.represents.head, hlive]; rfl
    simp [roots, hhead]
  | append_singleton zs z ih =>
    rw [List.append_assoc] at hlive
    have hz := ih (p := z) (p :: ys) hlive
    have hnext := (htracks.represents.shape.links zs z (p :: ys) hlive).2
    exact hz.link (CallbackList.mem_linksOf.mpr (Or.inl hnext))

/-- A node that is alive is on the list, or it was not removed before the
    dispatch that is under way began. -/
theorem linked_or_recent_of_alive (h : (notifierSystem C).ReachableBy Disciplined n) {p : Nat}
    (hp : p ∈ n.alive) : p ∈ n.linked ∨ n.cursor ≠ none ∧ n.Recent p := by
  obtain ⟨live, ahead, htracks, hkept⟩ := kept_of_reachable h
  rw [htracks.represents.linked_eq]
  replace hp : Reached n.list.linksOf n.roots p := reached_of_mem_reach hp
  induction hp with
  | root hp =>
    simp only [roots, List.mem_append, Option.mem_toList] at hp
    rcases hp with (hp | hp) | hp
    · rw [htracks.represents.head] at hp
      exact Or.inl (List.mem_of_head? hp)
    · rw [htracks.represents.tail] at hp
      exact Or.inl (List.mem_of_getLast? hp)
    · refine Or.inr ⟨fun hnone => ?_, (hkept.node _ hp).1⟩
      rw [hnone] at hp
      cases hp
  | link _ hq ih =>
    rcases ih with hlive | ⟨hwalk, hrecent⟩
    · exact Or.inl (htracks.represents.mem_of_mem_linksOf hlive hq)
    · exact Or.inr ⟨hwalk, hkept.links _ hrecent _ hq⟩

end Notifier

end LibControlCan
