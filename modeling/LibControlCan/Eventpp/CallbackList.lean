import LibControlCan.Framework.LinkedList
import LibControlCan.Framework.Simulation

/-! # The listeners of the event queue

    The event queue keeps its listeners in a `CallbackList`: a doubly linked
    list of nodes, each with the number (`counter`) of its registration.
    One thread walks along the list and calls the listeners
    (`doForEachIf`) while another one appends and removes nodes; the mutex
    of the list is held for each access to the links, not for the walk.

    * `CallbackList` is the list on a heap of nodes, and `WalkCursor` is where a
      thread is in `doForEachIf`.
    * `Notifier` puts the two threads together.
    * `Represents` and `WalkCursor.Ahead` say what list the nodes represent, and
      which listeners a walk will still call.
    * `dispatch_calls_once` is the result: whatever is appended and removed
      meanwhile, a dispatch calls every listener that stays on the list, in
      the order of their registration, none of them twice, and none that was
      registered after it had read the counter. -/

namespace LibControlCan

open LinkedList

/-! ## Section 1: The list -/

/-- `Node`.  A pointer to a node is its number, in the order in which the
    nodes are linked. -/
structure CallbackNode (C : Type) where
  previous : Option Nat
  next : Option Nat
  callback : C
  counter : UInt32

/-- `removedCounter`. -/
def removedCounter : UInt32 := 0

/-- `CallbackListBase`.  A node that is removed stays in `nodes`, since its
    links may still be followed. -/
structure CallbackList (C : Type) where
  nodes : List (CallbackNode C)
  head : Option Nat
  tail : Option Nat
  currentCounter : UInt32

namespace CallbackList

variable {C : Type}

def new : CallbackList C := { nodes := [], head := none, tail := none, currentCounter := 0 }

/-- The fields of a node, through a pointer to it. -/
def nextOf (l : CallbackList C) (p : Nat) : Option Nat :=
  (l.nodes[p]?.map CallbackNode.next).getD none

def previousOf (l : CallbackList C) (p : Nat) : Option Nat :=
  (l.nodes[p]?.map CallbackNode.previous).getD none

def callbackOf (l : CallbackList C) (p : Nat) : Option C := l.nodes[p]?.map CallbackNode.callback

def counterOf (l : CallbackList C) (p : Nat) : UInt32 :=
  (l.nodes[p]?.map CallbackNode.counter).getD removedCounter

/-- Assign to the node that `p` points to; nothing happens for a null
    pointer. -/
def assign (l : CallbackList C) (p : Option Nat) (f : CallbackNode C → CallbackNode C) :
    CallbackList C :=
  match p with
  | some p => { l with nodes := l.nodes.modify p f }
  | none => l

/-- `append` of a node that has got its counter. -/
def append (l : CallbackList C) (callback : C) (counter : UInt32) : CallbackList C :=
  let node := l.nodes.length
  if l.head.isSome then
    let l' := l.assign l.tail fun n => { n with next := some node }
    { l' with
      nodes := l'.nodes ++ [{ previous := l.tail, next := none, callback, counter }]
      tail := some node }
  else
    { l with
      nodes := l.nodes ++ [{ previous := none, next := none, callback, counter }]
      head := some node
      tail := some node }

/-- `doFreeNode`: the node keeps its own links. -/
def doFreeNode (l : CallbackList C) (node : Nat) : CallbackList C :=
  let next := l.nextOf node
  let previous := l.previousOf node
  let l := l.assign next fun n => { n with previous }
  let l := l.assign previous fun n => { n with next }
  let l := l.assign (some node) fun n => { n with counter := removedCounter }
  { l with
    head := if l.head = some node then next else l.head
    tail := if l.tail = some node then previous else l.tail }

/-- `remove`; the argument is what `handle.lock()` returned. -/
def remove (l : CallbackList C) : Option Nat → CallbackList C × Bool
  | some node => (l.doFreeNode node, true)
  | none => (l, false)

/-- `++currentCounter`. -/
def increment (l : CallbackList C) : CallbackList C :=
  { l with currentCounter := l.currentCounter + 1 }

/-- The loop of `getNextCounter` that renumbers the nodes after an
    overflow; the first argument bounds its rounds. -/
def renumberLoop : Nat → Option Nat → CallbackList C → CallbackList C
  | fuel + 1, some p, l =>
    renumberLoop fuel (l.nextOf p) (l.assign (some p) fun n => { n with counter := 1 })
  | _, _, l => l

def renumber (l : CallbackList C) : CallbackList C := renumberLoop l.nodes.length l.head l

/-! ## Section 2: One walk along the list -/

end CallbackList

/-- Where a thread is in `doForEachIf`. -/
inductive WalkCursor where
  /-- It has read `head`, and will read `currentCounter`. -/
  | load (node : Option Nat)
  /-- It is at the head of the loop. -/
  | test (counter : UInt32) (node : Option Nat)
  /-- The counter of the node has passed the test; its callback is next. -/
  | call (counter : UInt32) (node : Nat)
  /-- It is done with the node, and will follow its link. -/
  | advance (counter : UInt32) (node : Nat)
  deriving DecidableEq, Repr

/-- The node whose callback is called next, if the thread is there. -/
def WalkCursor.calling : WalkCursor → List Nat
  | .call _ node => [node]
  | _ => []

/-- The counter that the thread has read. -/
def WalkCursor.counter : WalkCursor → Option UInt32
  | .load _ => none
  | .test counter _ => some counter
  | .call counter _ => some counter
  | .advance counter _ => some counter

namespace CallbackList

variable {C : Type}

/-- One step of `doForEachIf`: where the thread is then, `none` at the end
    of the loop. -/
def doForEachIf (l : CallbackList C) : WalkCursor → Option WalkCursor
  | .load node => some (.test l.currentCounter node)
  | .test _ none => none
  | .test counter (some node) =>
    if l.counterOf node ≠ removedCounter ∧ l.counterOf node ≤ counter then
      some (.call counter node)
    else some (.advance counter node)
  | .call counter node => some (.advance counter node)
  | .advance counter node => some (.test counter (l.nextOf node))

end CallbackList

/-! ## Section 3: The two threads -/

/-- Where a thread is in `append`. -/
inductive Appending (C : Type) where
  | idle
  /-- `getNextCounter` has found an overflow, and will renumber the nodes. -/
  | overflow (callback : C)
  /-- `getNextCounter` has renumbered the nodes, and will count again. -/
  | renumbered (callback : C)
  /-- The node has its counter, and will be linked. -/
  | counted (callback : C) (counter : UInt32)

/-- The list, the thread that dispatches and the one that appends. -/
structure Notifier (C : Type) where
  list : CallbackList C
  cursor : Option WalkCursor
  appending : Appending C
  /-- Ghosts, of the dispatch that is under way or the last one: the nodes
      that were on the list at its start, how many there had been by then,
      how many had got their counters when it read `currentCounter`, and the
      nodes whose callbacks were called. -/
  present : List Nat
  before : Nat
  horizon : Nat
  calls : List Nat

inductive NotifierEvent (C : Type) where
  /-- A dispatch begins: `node = head`. -/
  | dispatch
  /-- The next step of the dispatch. -/
  | walk
  /-- `append` begins: `++currentCounter`. -/
  | count (callback : C)
  /-- The nodes are renumbered. -/
  | renumber
  /-- `++currentCounter` once more. -/
  | recount
  /-- The new node is linked. -/
  | link
  /-- `remove`, with what `handle.lock()` returned. -/
  | remove (node : Option Nat)

namespace Notifier

variable {C : Type}

def new : Notifier C :=
  { list := .new, cursor := none, appending := .idle, present := [], before := 0, horizon := 0,
    calls := [] }

/-- How many nodes have got their counters, whether they are linked or
    not. -/
def numbered (n : Notifier C) : Nat :=
  match n.appending with
  | .counted _ _ => n.list.nodes.length + 1
  | _ => n.list.nodes.length

/-- The pointers of the nodes that have not been removed. -/
def linked (n : Notifier C) : List Nat :=
  (List.range n.list.nodes.length).filter (n.list.counterOf · ≠ removedCounter)

/-- One step of one of the threads. -/
def step (n : Notifier C) : NotifierEvent C → Option (Notifier C)
  | .dispatch =>
    match n.cursor with
    | none =>
      some { n with
        cursor := some (.load n.list.head)
        present := n.linked
        before := n.list.nodes.length
        calls := [] }
    | some _ => none
  | .walk =>
    n.cursor.map fun cursor =>
      { n with
        cursor := n.list.doForEachIf cursor
        horizon := if cursor.counter.isNone then n.numbered else n.horizon
        calls := n.calls ++ cursor.calling }
  | .count callback =>
    match n.appending with
    | .idle =>
      let list := n.list.increment
      some { n with
        list
        appending :=
          if list.currentCounter = 0 then .overflow callback
          else .counted callback list.currentCounter }
    | _ => none
  | .renumber =>
    match n.appending with
    | .overflow callback =>
      some { n with list := n.list.renumber, appending := .renumbered callback }
    | _ => none
  | .recount =>
    match n.appending with
    | .renumbered callback =>
      let list := n.list.increment
      some { n with list, appending := .counted callback list.currentCounter }
    | _ => none
  | .link =>
    match n.appending with
    | .counted callback counter =>
      some { n with list := n.list.append callback counter, appending := .idle }
    | _ => none
  | .remove node => some { n with list := (n.list.remove node).1 }

end Notifier

def notifierSystem (C : Type) : LTS.System (Notifier C) (NotifierEvent C) where
  init n := n = .new
  step := Notifier.step

/-- How the list is used: a handle is removed once, and fewer than `2 ^ 32`
    listeners are ever appended. -/
def Notifier.Disciplined {C : Type} (n : Notifier C) : NotifierEvent C → Prop
  | .count _ => n.list.currentCounter + 1 ≠ 0
  | .remove (some p) => n.list.counterOf p ≠ removedCounter
  | _ => True

instance {C : Type} (n : Notifier C) : DecidablePred n.Disciplined
  | .count _ => inferInstanceAs (Decidable (_ ≠ _))
  | .remove (some _) => inferInstanceAs (Decidable (_ ≠ _))
  | .remove none => inferInstanceAs (Decidable True)
  | .dispatch => inferInstanceAs (Decidable True)
  | .walk => inferInstanceAs (Decidable True)
  | .renumber => inferInstanceAs (Decidable True)
  | .recount => inferInstanceAs (Decidable True)
  | .link => inferInstanceAs (Decidable True)

/-! ## Section 4: What the nodes represent -/

namespace CallbackList

variable {C : Type} {l : CallbackList C} {live : List Nat}

theorem getElem?_assign (l : CallbackList C) (p : Option Nat) (f : CallbackNode C → CallbackNode C)
    (q : Nat) :
    (l.assign p f).nodes[q]? = if p = some q then l.nodes[q]?.map f else l.nodes[q]? := by
  cases p with
  | none => simp [assign]
  | some p =>
    rcases eq_or_ne p q with rfl | hne
    · simp [assign]
    · simp [assign, hne]

@[simp] theorem length_assign (l : CallbackList C) (p : Option Nat)
    (f : CallbackNode C → CallbackNode C) : (l.assign p f).nodes.length = l.nodes.length := by
  cases p <;> simp [assign]

@[simp] theorem head_assign (l : CallbackList C) (p : Option Nat)
    (f : CallbackNode C → CallbackNode C) : (l.assign p f).head = l.head := by
  cases p <;> rfl

@[simp] theorem tail_assign (l : CallbackList C) (p : Option Nat)
    (f : CallbackNode C → CallbackNode C) : (l.assign p f).tail = l.tail := by
  cases p <;> rfl

@[simp] theorem currentCounter_assign (l : CallbackList C) (p : Option Nat)
    (f : CallbackNode C → CallbackNode C) :
    (l.assign p f).currentCounter = l.currentCounter := by
  cases p <;> rfl

/-- The nodes `live` are on the list, in this order. -/
structure Represents (l : CallbackList C) (live : List Nat) : Prop where
  shape : Shape l.nextOf l.previousOf l.nodes.length live
  head : l.head = live.head?
  tail : l.tail = live.getLast?
  counted : ∀ p ∈ live, l.counterOf p ≠ removedCounter ∧ l.counterOf p ≤ l.currentCounter
  removed : ∀ p, p ∉ live → l.counterOf p = removedCounter

theorem represents_new : (new : CallbackList C).Represents [] := by
  refine ⟨?_, rfl, rfl, by simp, ?_⟩
  · exact shape_nil
  · intro p _
    rfl

theorem Represents.mem_iff (h : l.Represents live) {p : Nat} :
    p ∈ live ↔ l.counterOf p ≠ removedCounter := by
  constructor
  · exact fun hp => (h.counted p hp).1
  · intro hne
    by_contra hp
    exact hne (h.removed p hp)

/-- `live` is determined by the counters of the nodes. -/
theorem Represents.linked_eq {n : Notifier C} (h : n.list.Represents live) : n.linked = live := by
  have hperm : n.linked.Perm live := by
    refine (List.perm_ext_iff_of_nodup (List.nodup_range.filter _) h.shape.nodup).mpr ?_
    intro p
    rw [List.mem_filter, List.mem_range, h.mem_iff]
    simp only [decide_eq_true_eq, and_iff_right_iff_imp]
    intro hne
    exact h.shape.lt_size p (h.mem_iff.mpr hne)
  exact hperm.eq_of_pairwise (fun a b _ _ hab hba => absurd hab (by omega))
    (List.pairwise_lt_range.filter _) h.shape.sorted

/-- The nodes after `append`. -/
theorem Represents.nodes_append (h : l.Represents live) (callback : C) (counter : UInt32)
    (p : Nat) :
    (l.append callback counter).nodes[p]? =
      if p = l.nodes.length then
        some { previous := live.getLast?, next := none, callback, counter }
      else l.nodes[p]?.map fun n =>
        { n with next := if live.getLast? = some p then some l.nodes.length else n.next } := by
  have hconcat : ∀ (nodes : List (CallbackNode C)) node, nodes.length = l.nodes.length →
      (nodes ++ [node])[p]? = if p = l.nodes.length then some node else nodes[p]? := by
    intro nodes node hlen
    rw [← hlen]
    rcases lt_trichotomy p nodes.length with hlt | rfl | hgt
    · rw [List.getElem?_append_left hlt, if_neg hlt.ne]
    · simp
    · rw [List.getElem?_eq_none (by simp; omega), if_neg hgt.ne', List.getElem?_eq_none hgt.le]
  rw [← h.tail]
  cases hl : live with
  | nil =>
    have hhead : l.head = none := by rw [h.head, hl]; rfl
    have htail : l.tail = none := by rw [h.tail, hl]; rfl
    simp [append, hhead, htail, hconcat]
  | cons q qs =>
    have hhead : l.head = some q := by rw [h.head, hl]; rfl
    simp only [append, hhead, Option.isSome_some, if_true]
    rw [hconcat _ _ (length_assign _ _ _), getElem?_assign]
    split
    · rfl
    · split <;> simp [*]

/-- The links, the ends and the counters after `append`. -/
theorem Represents.append_fields (h : l.Represents live) (callback : C) (counter : UInt32) :
    let l' := l.append callback counter
    (∀ p, l'.nextOf p = if p = l.nodes.length then none
      else if live.getLast? = some p then some l.nodes.length else l.nextOf p) ∧
    (∀ p, l'.previousOf p = if p = l.nodes.length then live.getLast? else l.previousOf p) ∧
    (∀ p, l'.counterOf p = if p = l.nodes.length then counter else l.counterOf p) ∧
    ∀ p, l'.callbackOf p = if p = l.nodes.length then some callback else l.callbackOf p := by
  have hnodes := h.nodes_append callback counter
  refine ⟨?_, ?_, ?_, ?_⟩ <;> intro p
  · simp only [nextOf, hnodes p]
    split
    · rfl
    · split
      case isTrue hlast =>
        have hlt := h.shape.lt_size p (List.mem_of_getLast? hlast)
        rw [List.getElem?_eq_getElem hlt]
        rfl
      case isFalse => simp
  · simp only [previousOf, hnodes p]
    split <;> simp [Function.comp_def]
  · simp only [counterOf, hnodes p]
    split <;> simp [Function.comp_def]
  · simp only [callbackOf, hnodes p]
    split <;> simp [Function.comp_def]

theorem length_append (l : CallbackList C) (callback : C) (counter : UInt32) :
    (l.append callback counter).nodes.length = l.nodes.length + 1 := by
  unfold append
  split <;> simp

theorem Represents.ends_append (h : l.Represents live) (callback : C) (counter : UInt32) :
    (l.append callback counter).head = (live ++ [l.nodes.length]).head? ∧
    (l.append callback counter).tail = some l.nodes.length ∧
    (l.append callback counter).currentCounter = l.currentCounter := by
  unfold append
  cases hl : live with
  | nil =>
    have hhead : l.head = none := by rw [h.head, hl]; rfl
    simp [hhead]
  | cons q qs =>
    have hhead : l.head = some q := by rw [h.head, hl]; rfl
    simp [hhead]

theorem represents_append (h : l.Represents live) (callback : C) {counter : UInt32}
    (hne : counter ≠ removedCounter) (hle : counter ≤ l.currentCounter) :
    (l.append callback counter).Represents (live ++ [l.nodes.length]) := by
  obtain ⟨hnext, hprev, hcount, -⟩ := h.append_fields callback counter
  obtain ⟨hhead, htail, hcur⟩ := h.ends_append callback counter
  have hfresh : ∀ p ∈ live, p ≠ l.nodes.length := fun p hp => (h.shape.lt_size p hp).ne
  refine ⟨?_, hhead, ?_, ?_, ?_⟩
  · rw [length_append]
    exact h.shape.append hnext hprev
  · rw [htail, List.getLast?_concat]
  · intro p hp
    rw [hcount, hcur]
    rcases List.mem_append.mp hp with hp | hp
    · rw [if_neg (hfresh p hp)]
      exact h.counted p hp
    · rw [if_pos (List.mem_singleton.mp hp)]
      exact ⟨hne, hle⟩
  · intro p hp
    simp only [List.mem_append, List.mem_singleton, not_or] at hp
    rw [hcount, if_neg hp.2]
    exact h.removed p hp.1

/-- The nodes after `doFreeNode` of a node of the list. -/
theorem Represents.nodes_doFreeNode {xs ys : List Nat} {r : Nat} (h : l.Represents (xs ++ r :: ys))
    (p : Nat) :
    (l.doFreeNode r).nodes[p]? = l.nodes[p]?.map fun n =>
      { n with
        previous := if ys.head? = some p then xs.getLast? else n.previous
        next := if xs.getLast? = some p then ys.head? else n.next
        counter := if p = r then removedCounter else n.counter } := by
  obtain ⟨hprev, hnext⟩ := h.shape.links xs r ys rfl
  simp only [doFreeNode, hprev, hnext, getElem?_assign]
  cases l.nodes[p]? with
  | none => simp
  | some n =>
    simp only [Option.some.injEq, eq_comm (a := r), Option.map_some]
    split <;> split <;> split <;> simp

/-- The links and the counters after `doFreeNode` of a node of the list. -/
theorem Represents.doFreeNode_fields {xs ys : List Nat} {r : Nat}
    (h : l.Represents (xs ++ r :: ys)) :
    let l' := l.doFreeNode r
    (∀ p, l'.nextOf p = if xs.getLast? = some p then ys.head? else l.nextOf p) ∧
    (∀ p, l'.previousOf p = if ys.head? = some p then xs.getLast? else l.previousOf p) ∧
    (∀ p, l'.counterOf p = if p = r then removedCounter else l.counterOf p) ∧
    ∀ p, l'.callbackOf p = l.callbackOf p := by
  have hnodes := h.nodes_doFreeNode
  have hlt : ∀ p ∈ xs ++ r :: ys, p < l.nodes.length := h.shape.lt_size
  refine ⟨?_, ?_, ?_, ?_⟩ <;> intro p
  · simp only [nextOf, hnodes p, Option.map_map, Function.comp_def]
    split
    case isTrue hlast =>
      rw [List.getElem?_eq_getElem (hlt p (by simp [List.mem_of_getLast? hlast]))]
      rfl
    case isFalse => rfl
  · simp only [previousOf, hnodes p, Option.map_map, Function.comp_def]
    split
    case isTrue hfirst =>
      rw [List.getElem?_eq_getElem (hlt p (by simp [List.mem_of_head? hfirst]))]
      rfl
    case isFalse => rfl
  · simp only [counterOf, hnodes p, Option.map_map, Function.comp_def]
    split
    case isTrue heq =>
      rw [List.getElem?_eq_getElem (hlt p (by simp [heq]))]
      rfl
    case isFalse => rfl
  · simp [callbackOf, hnodes p, Function.comp_def]

@[simp] theorem length_doFreeNode (l : CallbackList C) (r : Nat) :
    (l.doFreeNode r).nodes.length = l.nodes.length := by
  simp [doFreeNode]

theorem Represents.ends_doFreeNode {xs ys : List Nat} {r : Nat} (h : l.Represents (xs ++ r :: ys)) :
    (l.doFreeNode r).head = (xs ++ ys).head? ∧ (l.doFreeNode r).tail = (xs ++ ys).getLast? ∧
    (l.doFreeNode r).currentCounter = l.currentCounter := by
  obtain ⟨hprev, hnext⟩ := h.shape.links xs r ys rfl
  obtain ⟨hxs, hys, -⟩ := h.shape.around
  simp only [doFreeNode, hprev, hnext, head_assign, tail_assign, h.head, h.tail]
  refine ⟨?_, ?_, by simp⟩
  · cases xs with
    | nil => simp
    | cons x xs =>
      have hne : x ≠ r := (hxs x List.mem_cons_self).ne
      simp [hne]
  · rcases List.eq_nil_or_concat ys with rfl | ⟨zs, z, rfl⟩
    · simp
    · have hne : z ≠ r := (hys z (by simp)).ne'
      rw [List.concat_eq_append, ← List.cons_append, ← List.append_assoc, ← List.append_assoc,
        List.getLast?_concat, List.getLast?_concat]
      simp [hne]

theorem represents_doFreeNode {xs ys : List Nat} {r : Nat} (h : l.Represents (xs ++ r :: ys)) :
    (l.doFreeNode r).Represents (xs ++ ys) := by
  obtain ⟨hnext, hprev, hcount, -⟩ := h.doFreeNode_fields
  obtain ⟨hhead, htail, hcur⟩ := h.ends_doFreeNode
  have hnot := h.shape.not_mem_unlink
  refine ⟨?_, hhead, htail, ?_, ?_⟩
  · rw [length_doFreeNode]
    exact h.shape.unlink hnext hprev
  · intro p hp
    have hne : p ≠ r := fun heq => hnot (heq ▸ hp)
    rw [hcount, if_neg hne, hcur]
    refine h.counted p ?_
    simp only [List.mem_append, List.mem_cons] at hp ⊢
    tauto
  · intro p hp
    rw [hcount]
    split
    · rfl
    · refine h.removed p ?_
      simp only [List.mem_append, List.mem_cons, not_or] at hp ⊢
      exact ⟨hp.1, ‹_›, hp.2⟩

end CallbackList

/-! ## Section 5: What a dispatch will call -/

section Ahead

variable {C : Type} {l : CallbackList C} {live : List Nat}

/-- The listeners that a thread in `doForEachIf` will still come to and
    call, apart from the one that it is about to call. -/
inductive WalkCursor.Ahead (l : CallbackList C) (live : List Nat) :
    WalkCursor → List Nat → Prop where
  | load {node : Option Nat} {found : List Nat} :
      Finds l.nextOf l.nodes.length live node found → Ahead l live (.load node) found
  | test {counter : UInt32} {node : Option Nat} {found : List Nat} :
      Finds l.nextOf l.nodes.length live node found →
      Ahead l live (.test counter node) (found.filter (l.counterOf · ≤ counter))
  | call {counter : UInt32} {node : Nat} {found : List Nat} :
      FindsAfter l.nextOf l.nodes.length live node found →
      Ahead l live (.call counter node) (found.filter (l.counterOf · ≤ counter))
  | advance {counter : UInt32} {node : Nat} {found : List Nat} :
      FindsAfter l.nextOf l.nodes.length live node found →
      Ahead l live (.advance counter node) (found.filter (l.counterOf · ≤ counter))

theorem WalkCursor.Ahead.subset {cursor : WalkCursor} {ahead : List Nat}
    (h : cursor.Ahead l live ahead) {p : Nat} (hp : p ∈ ahead) : p ∈ live := by
  cases h with
  | load hfinds => exact hfinds.subset hp
  | test hfinds => exact hfinds.subset (List.mem_of_mem_filter hp)
  | call hfinds => exact hfinds.subset (List.mem_of_mem_filter hp)
  | advance hfinds => exact hfinds.subset (List.mem_of_mem_filter hp)

theorem WalkCursor.Ahead.calling_lt {cursor : WalkCursor} {ahead : List Nat}
    (h : cursor.Ahead l live ahead) {p : Nat} (hp : p ∈ cursor.calling) : p < l.nodes.length := by
  cases h with
  | load => cases hp
  | test => cases hp
  | call hfinds =>
    obtain rfl := List.mem_singleton.mp hp
    exact hfinds.lt_size
  | advance => cases hp

theorem CallbackList.Represents.ahead_head (h : l.Represents live) :
    WalkCursor.Ahead l live (.load l.head) live := by
  rw [h.head]
  exact .load h.shape.finds_head

/-- **Walk**: a step of the loop leaves what is ahead as it is, or takes the
    first listener of it to be called.  The loop ends with nothing ahead. -/
theorem CallbackList.Represents.walk (h : l.Represents live) {cursor : WalkCursor}
    {ahead : List Nat} (hahead : cursor.Ahead l live ahead) :
    (l.doForEachIf cursor = none ∧ cursor.calling = [] ∧ ahead = []) ∨
    ∃ cursor' ahead', l.doForEachIf cursor = some cursor' ∧ cursor'.Ahead l live ahead' ∧
      ahead = cursor'.calling ++ ahead' ∧ ∀ p ∈ cursor'.calling, p ∈ live := by
  cases hahead with
  | @load node _ hfinds =>
    right
    refine ⟨_, ahead, rfl, ?_, rfl, by simp [WalkCursor.calling]⟩
    -- Every listener that is found was counted before the counter is read.
    have hall : ahead.filter (l.counterOf · ≤ l.currentCounter) = ahead := by
      rw [List.filter_eq_self]
      intro p hp
      simpa using (h.counted p (hfinds.subset hp)).2
    have htest : WalkCursor.Ahead l live (.test l.currentCounter node) _ := .test hfinds
    rwa [hall] at htest
  | @test counter node found hfinds =>
    cases node with
    | none =>
      left
      cases hfinds
      exact ⟨rfl, rfl, rfl⟩
    | some p =>
      right
      by_cases hpass : l.counterOf p ≠ removedCounter ∧ l.counterOf p ≤ counter
      · have hp : p ∈ live := h.mem_iff.mpr hpass.1
        obtain ⟨rest, rfl, hrest⟩ := h.shape.finds_live hfinds hp
        refine ⟨.call counter p, _, if_pos hpass, .call hrest, ?_,
          by simpa [WalkCursor.calling] using hp⟩
        rw [List.filter_cons_of_pos (by simpa using hpass.2)]
        rfl
      · refine ⟨.advance counter p, _, if_neg hpass, ?_, rfl, by simp [WalkCursor.calling]⟩
        by_cases hp : p ∈ live
        · -- The node is on the list, but too young for this dispatch.
          obtain ⟨rest, rfl, hrest⟩ := h.shape.finds_live hfinds hp
          have hyoung : ¬ l.counterOf p ≤ counter := fun hle => hpass ⟨h.mem_iff.mp hp, hle⟩
          rw [List.filter_cons_of_neg (by simpa using hyoung)]
          exact .advance hrest
        · exact .advance (finds_removed hfinds hp)
  | call hfinds =>
    right
    exact ⟨_, _, rfl, .advance hfinds, rfl, by simp [WalkCursor.calling]⟩
  | advance hfinds =>
    right
    exact ⟨_, _, rfl, .test (h.shape.finds_next hfinds), rfl, by simp [WalkCursor.calling]⟩

/-- A new listener may come to be ahead of the walk, as the last one. -/
theorem CallbackList.Represents.ahead_append (h : l.Represents live) {cursor : WalkCursor}
    {ahead : List Nat} (hahead : cursor.Ahead l live ahead) (callback : C) (counter : UInt32) :
    ∃ joins : Bool, cursor.Ahead (l.append callback counter) (live ++ [l.nodes.length])
      (ahead ++ if joins then [l.nodes.length] else []) := by
  obtain ⟨hnext, -, hcount, -⟩ := h.append_fields callback counter
  have hlen := l.length_append callback counter
  have hold : ∀ found : List Nat, (∀ p ∈ found, p ∈ live) → ∀ (c : UInt32) (joins : Bool),
      ∃ joins' : Bool, (found ++ if joins then [l.nodes.length] else []).filter
          ((l.append callback counter).counterOf · ≤ c) =
        found.filter (l.counterOf · ≤ c) ++ if joins' then [l.nodes.length] else [] := by
    intro found hfound c joins
    have hsame : found.filter ((l.append callback counter).counterOf · ≤ c) =
        found.filter (l.counterOf · ≤ c) := by
      refine List.filter_congr fun p hp => ?_
      rw [hcount, if_neg (h.shape.lt_size p (hfound p hp)).ne]
    refine ⟨joins && decide (counter ≤ c), ?_⟩
    rw [List.filter_append, hsame]
    cases joins with
    | false => simp
    | true => by_cases hle : counter ≤ c <;> simp [hcount, hle]
  cases hahead with
  | load hfinds =>
    obtain ⟨joins, hfinds'⟩ := finds_append hnext h.shape hfinds
    exact ⟨joins, .load (hlen ▸ hfinds')⟩
  | test hfinds =>
    obtain ⟨joins, hfinds'⟩ := finds_append hnext h.shape hfinds
    obtain ⟨joins', heq⟩ := hold _ (fun p hp => hfinds.subset hp) _ joins
    exact ⟨joins', heq ▸ .test (hlen ▸ hfinds')⟩
  | call hfinds =>
    obtain ⟨joins, hfinds'⟩ := findsAfter_append hnext h.shape hfinds
    obtain ⟨joins', heq⟩ := hold _ (fun p hp => hfinds.subset hp) _ joins
    exact ⟨joins', heq ▸ .call (hlen ▸ hfinds')⟩
  | advance hfinds =>
    obtain ⟨joins, hfinds'⟩ := findsAfter_append hnext h.shape hfinds
    obtain ⟨joins', heq⟩ := hold _ (fun p hp => hfinds.subset hp) _ joins
    exact ⟨joins', heq ▸ .advance (hlen ▸ hfinds')⟩

/-- A listener that is removed is not ahead any more. -/
theorem CallbackList.Represents.ahead_doFreeNode {xs ys : List Nat} {r : Nat}
    (h : l.Represents (xs ++ r :: ys)) {cursor : WalkCursor} {ahead : List Nat}
    (hahead : cursor.Ahead l (xs ++ r :: ys) ahead) :
    cursor.Ahead (l.doFreeNode r) (xs ++ ys) (ahead.filter (· ≠ r)) := by
  obtain ⟨hnext, -, hcount, -⟩ := h.doFreeNode_fields
  have hlen := l.length_doFreeNode r
  have hsame : ∀ (found : List Nat) (c : UInt32),
      (found.filter (l.counterOf · ≤ c)).filter (· ≠ r) =
        (found.filter (· ≠ r)).filter ((l.doFreeNode r).counterOf · ≤ c) := by
    intro found c
    rw [List.filter_filter, List.filter_filter]
    refine List.filter_congr fun p _ => ?_
    rcases eq_or_ne p r with rfl | hne
    · simp
    · simp [hcount, hne]
  cases hahead with
  | load hfinds => exact .load (hlen ▸ finds_unlink hnext h.shape hfinds)
  | test hfinds =>
    rw [hsame]
    exact .test (hlen ▸ finds_unlink hnext h.shape hfinds)
  | call hfinds =>
    rw [hsame]
    exact .call (hlen ▸ findsAfter_unlink hnext h.shape hfinds)
  | advance hfinds =>
    rw [hsame]
    exact .advance (hlen ▸ findsAfter_unlink hnext h.shape hfinds)

end Ahead

/-! ## Section 6: Every interleaving -/

namespace Notifier

variable {C : Type} {n n' : Notifier C} {live ahead : List Nat}

/-- The listeners on the list, and those that the dispatch will still come
    to. -/
structure Tracks (n : Notifier C) (live ahead : List Nat) : Prop where
  represents : n.list.Represents live
  walking : ∀ cursor, n.cursor = some cursor → cursor.Ahead n.list live ahead
  idle : n.cursor = none → ahead = []
  counted : n.appending = .idle ∨ ∃ callback counter, n.appending = .counted callback counter ∧
    counter ≠ removedCounter ∧ counter ≤ n.list.currentCounter

/-- `append` is never in the branch for a counter that has overflowed. -/
theorem Tracks.not_overflow (h : n.Tracks live ahead) :
    n.step .renumber = none ∧ n.step .recount = none := by
  rcases h.counted with hidle | ⟨_, _, hcounted, -⟩
  · simp [step, hidle]
  · simp [step, hcounted]

/-- The listener that is about to be called. -/
def calling (n : Notifier C) : List Nat := (n.cursor.map WalkCursor.calling).getD []

theorem Tracks.ahead_subset (h : n.Tracks live ahead) {p : Nat} (hp : p ∈ ahead) : p ∈ live := by
  cases hcursor : n.cursor with
  | none =>
    rw [h.idle hcursor] at hp
    cases hp
  | some cursor => exact (h.walking cursor hcursor).subset hp

theorem Tracks.calling_lt (h : n.Tracks live ahead) {p : Nat} (hp : p ∈ n.calling) :
    p < n.list.nodes.length := by
  cases hcursor : n.cursor with
  | none => simp [calling, hcursor] at hp
  | some cursor =>
    rw [calling, hcursor] at hp
    exact (h.walking cursor hcursor).calling_lt hp

/-- At most one listener is about to be called. -/
theorem calling_eq_singleton {p : Nat} {ps : List Nat} (h : n.calling = p :: ps) : ps = [] := by
  cases hcursor : n.cursor with
  | none => simp [calling, hcursor] at h
  | some cursor =>
    cases cursor <;> simp [calling, hcursor, WalkCursor.calling] at h
    exact h.2

/-- After a call there is none. -/
theorem calling_walk (hstep : n.step .walk = some n') (h : n.calling ≠ []) : n'.calling = [] := by
  obtain ⟨cursor, hcursor, rfl⟩ := Option.map_eq_some_iff.mp hstep
  cases cursor with
  | call => rfl
  | load => simp [calling, hcursor, WalkCursor.calling] at h
  | test => simp [calling, hcursor, WalkCursor.calling] at h
  | advance => simp [calling, hcursor, WalkCursor.calling] at h

theorem tracks_new : (new : Notifier C).Tracks [] [] :=
  ⟨CallbackList.represents_new, fun _ h => (by cases h), fun _ => rfl, Or.inl rfl⟩

theorem tracks_dispatch (h : n.Tracks live ahead) (hstep : n.step .dispatch = some n') :
    n'.Tracks live live ∧ n.cursor = none ∧ n'.calling = [] ∧ n'.list = n.list ∧
      n'.appending = n.appending := by
  simp only [step] at hstep
  split at hstep
  case h_1 hidle =>
    cases hstep
    refine ⟨⟨h.represents, ?_, fun hnone => (by cases hnone), h.counted⟩, hidle, rfl, rfl, rfl⟩
    intro cursor hcursor
    cases hcursor
    exact h.represents.ahead_head
  case h_2 => cases hstep

/-- A step of the dispatch: what was called, is being called and is ahead
    are together what they were. -/
theorem tracks_walk (h : n.Tracks live ahead) (hstep : n.step .walk = some n') :
    ∃ ahead', n'.Tracks live ahead' ∧ n'.calls = n.calls ++ n.calling ∧
      ahead = n'.calling ++ ahead' ∧ (∀ p ∈ n'.calling, p ∈ live) ∧
      n'.list = n.list ∧ n'.appending = n.appending := by
  obtain ⟨cursor, hcursor, rfl⟩ := Option.map_eq_some_iff.mp hstep
  have hcalling : n.calling = cursor.calling := by simp [calling, hcursor]
  rcases h.represents.walk (h.walking cursor hcursor) with
    ⟨hend, -, rfl⟩ | ⟨cursor', ahead', hnext, hahead', hsplit, hlive⟩
  · refine ⟨[], ⟨h.represents, ?_, fun _ => rfl, h.counted⟩, by rw [hcalling], ?_, ?_, rfl, rfl⟩
    · intro cursor' hcursor'
      rw [hend] at hcursor'
      cases hcursor'
    · simp [calling, hend]
    · simp [calling, hend]
  · refine ⟨ahead', ⟨h.represents, ?_, ?_, h.counted⟩, by rw [hcalling], ?_, ?_, rfl, rfl⟩
    · intro cursor'' hcursor''
      rw [hnext] at hcursor''
      cases hcursor''
      exact hahead'
    · intro hnone
      rw [hnext] at hnone
      cases hnone
    · simp [calling, hnext, hsplit]
    · simpa [calling, hnext] using hlive

/-- The counter grows as long as it does not overflow. -/
theorem lt_increment {l : CallbackList C} (h : l.currentCounter + 1 ≠ 0) :
    l.currentCounter < l.currentCounter + 1 := by
  rw [UInt32.lt_iff_toNat_lt]
  have hne : (l.currentCounter + 1).toNat ≠ 0 := fun h0 => h (UInt32.toNat_inj.mp h0)
  rw [UInt32.toNat_add] at hne ⊢
  have := l.currentCounter.toNat_lt
  simp only [UInt32.toNat_one] at hne ⊢
  omega

theorem tracks_count (h : n.Tracks live ahead) {callback : C}
    (hguard : n.list.currentCounter + 1 ≠ 0) (hstep : n.step (.count callback) = some n') :
    n'.Tracks live ahead ∧ n'.cursor = n.cursor ∧ n'.calls = n.calls ∧
      n'.list = n.list.increment ∧ n.appending = .idle ∧
      n'.appending = .counted callback (n.list.currentCounter + 1) := by
  simp only [step] at hstep
  split at hstep
  case h_2 => cases hstep
  case h_1 hidle =>
    have hnz : n.list.increment.currentCounter ≠ 0 := hguard
    have hle : n.list.currentCounter ≤ n.list.currentCounter + 1 :=
      UInt32.le_of_lt (lt_increment hguard)
    rw [if_neg hnz] at hstep
    cases hstep
    refine ⟨⟨?_, ?_, h.idle, Or.inr ⟨_, _, rfl, hguard, UInt32.le_refl _⟩⟩, rfl, rfl, rfl, hidle,
      rfl⟩
    · -- Only the counter of the list changes, and it grows.
      refine ⟨h.represents.shape, h.represents.head, h.represents.tail, ?_, h.represents.removed⟩
      intro p hp
      exact ⟨(h.represents.counted p hp).1, UInt32.le_trans (h.represents.counted p hp).2 hle⟩
    · intro cursor hcursor
      cases h.walking cursor hcursor with
      | load hfinds => exact .load hfinds
      | test hfinds => exact .test hfinds
      | call hfinds => exact .call hfinds
      | advance hfinds => exact .advance hfinds

theorem tracks_link (h : n.Tracks live ahead) (hstep : n.step .link = some n') :
    ∃ (joins : Bool) (callback : C) (counter : UInt32),
      n'.Tracks (live ++ [n.list.nodes.length])
        (ahead ++ if joins then [n.list.nodes.length] else []) ∧
      (n.cursor = none → joins = false) ∧ n'.cursor = n.cursor ∧ n'.calls = n.calls ∧
      n.appending = .counted callback counter ∧ n'.list = n.list.append callback counter ∧
      n'.appending = .idle := by
  simp only [step] at hstep
  split at hstep
  case h_2 => cases hstep
  case h_1 callback counter happ =>
    cases hstep
    obtain ⟨callback', counter', happ', hne, hle⟩ := h.counted.resolve_left (by simp [happ])
    rw [happ] at happ'
    cases happ'
    have hrep := CallbackList.represents_append h.represents callback hne hle
    cases hcursor : n.cursor with
    | none =>
      have hnil := h.idle hcursor
      refine ⟨false, callback, counter, ⟨hrep, ?_, ?_, Or.inl rfl⟩, fun _ => rfl, rfl, rfl, happ,
        rfl, rfl⟩
      · intro cursor heq
        cases heq
      · intro _
        simp [hnil]
    | some cursor =>
      obtain ⟨joins, hahead⟩ :=
        h.represents.ahead_append (h.walking cursor hcursor) callback counter
      refine ⟨joins, callback, counter, ⟨hrep, ?_, ?_, Or.inl rfl⟩, ?_, rfl, rfl, happ, rfl, rfl⟩
      · intro cursor' heq
        cases heq
        exact hahead
      · intro hnone
        cases hnone
      · intro hnone
        cases hnone

theorem tracks_remove {xs ys : List Nat} {r : Nat} (h : n.Tracks (xs ++ r :: ys) ahead)
    (hstep : n.step (.remove (some r)) = some n') :
    n'.Tracks (xs ++ ys) (ahead.filter (· ≠ r)) ∧ n'.cursor = n.cursor ∧ n'.calls = n.calls ∧
      n'.list = n.list.doFreeNode r ∧ n'.appending = n.appending := by
  cases hstep
  refine ⟨⟨CallbackList.represents_doFreeNode h.represents, ?_, ?_, ?_⟩, rfl, rfl, rfl, rfl⟩
  · intro cursor hcursor
    exact h.represents.ahead_doFreeNode (h.walking cursor hcursor)
  · intro hnone
    rw [h.idle hnone]
    rfl
  · show n.appending = .idle ∨ _
    rw [show (n.list.remove (some r)).1.currentCounter = n.list.currentCounter from
      h.represents.ends_doFreeNode.2.2]
    exact h.counted

/-- What the dispatch has called, is calling and will call. -/
structure Recorded (n : Notifier C) (live ahead : List Nat) : Prop where
  sorted : (n.calls ++ (n.calling ++ ahead)).Pairwise (· < ·)
  known : ∀ p ∈ n.calls ++ (n.calling ++ ahead),
    p < n.list.nodes.length ∧ (p ∈ n.present ∨ n.before ≤ p)
  kept : ∀ p ∈ n.present, p ∈ live → p ∈ n.calls ++ (n.calling ++ ahead)
  present : ∀ p ∈ n.present, p < n.before
  before : n.before ≤ n.list.nodes.length

theorem recorded_new : (new : Notifier C).Recorded [] [] :=
  ⟨List.Pairwise.nil, by simp [new, calling], by simp [new], by simp [new], Nat.le_refl 0⟩

theorem recorded_dispatch (h : n.Tracks live ahead) (hstep : n.step .dispatch = some n') :
    n'.Recorded live live := by
  obtain ⟨-, hidle, hcalling, hlist, -⟩ := tracks_dispatch h hstep
  have hlinked := h.represents.linked_eq
  simp only [step, hidle, Option.some.injEq] at hstep
  subst hstep
  have hlt := h.represents.shape.lt_size
  refine ⟨?_, ?_, ?_, ?_, Nat.le_refl _⟩
  · simpa [hcalling] using h.represents.shape.sorted
  · simp only [List.nil_append, hlinked]
    exact fun p hp => ⟨hlt p hp, Or.inl hp⟩
  · simp only [hcalling, List.nil_append]
    exact fun p _ hp => hp
  · simp only [hlinked]
    exact hlt

/-- A step that only moves listeners on keeps the record. -/
theorem Recorded.advance {ahead' : List Nat} (h : n.Recorded live ahead)
    (hsame : n'.calls ++ (n'.calling ++ ahead') = n.calls ++ (n.calling ++ ahead))
    (hnodes : n'.list.nodes.length = n.list.nodes.length) (hpresent : n'.present = n.present)
    (hbefore : n'.before = n.before) : n'.Recorded live ahead' := by
  refine ⟨?_, ?_, ?_, ?_, ?_⟩
  · rw [hsame]
    exact h.sorted
  · rw [hsame, hnodes, hpresent, hbefore]
    exact h.known
  · rw [hsame, hpresent]
    exact h.kept
  · rw [hpresent, hbefore]
    exact h.present
  · rw [hbefore, hnodes]
    exact h.before

/-- A new listener comes last. -/
theorem Recorded.link (h : n.Recorded live ahead) {joins : Bool}
    (hcalls : n'.calls = n.calls) (hcursor : n'.cursor = n.cursor)
    (hnodes : n'.list.nodes.length = n.list.nodes.length + 1) (hpresent : n'.present = n.present)
    (hbefore : n'.before = n.before) :
    n'.Recorded (live ++ [n.list.nodes.length])
      (ahead ++ if joins then [n.list.nodes.length] else []) := by
  have hcalling : n'.calling = n.calling := by rw [calling, hcursor, calling]
  have hall : n'.calls ++ (n'.calling ++ (ahead ++ if joins then [n.list.nodes.length] else [])) =
      (n.calls ++ (n.calling ++ ahead)) ++ if joins then [n.list.nodes.length] else [] := by
    rw [hcalls, hcalling]
    simp
  refine ⟨?_, ?_, ?_, ?_, ?_⟩
  · rw [hall, List.pairwise_append]
    refine ⟨h.sorted, by cases joins <;> simp, ?_⟩
    intro p hp q hq
    obtain rfl : q = n.list.nodes.length := by cases joins <;> simp_all
    exact (h.known p hp).1
  · rw [hall, hnodes, hpresent, hbefore]
    intro p hp
    rcases List.mem_append.mp hp with hp | hp
    · exact ⟨Nat.lt_succ_of_lt (h.known p hp).1, (h.known p hp).2⟩
    · obtain rfl : p = n.list.nodes.length := by cases joins <;> simp_all
      exact ⟨Nat.lt_succ_self _, Or.inr h.before⟩
  · rw [hall, hpresent]
    intro p hp hlive
    rcases List.mem_append.mp hlive with hlive | hlive
    · exact List.mem_append_left _ (h.kept p hp hlive)
    · have hlt := h.present p hp
      have hle := h.before
      rw [List.mem_singleton] at hlive
      omega
  · rw [hpresent, hbefore]
    exact h.present
  · rw [hbefore, hnodes]
    exact Nat.le_succ_of_le h.before

/-- A listener that is removed may be missing from then on. -/
theorem Recorded.remove {xs ys : List Nat} {r : Nat} (h : n.Recorded (xs ++ r :: ys) ahead)
    (hnot : r ∉ xs ++ ys) (hcalls : n'.calls = n.calls) (hcursor : n'.cursor = n.cursor)
    (hnodes : n'.list.nodes.length = n.list.nodes.length) (hpresent : n'.present = n.present)
    (hbefore : n'.before = n.before) : n'.Recorded (xs ++ ys) (ahead.filter (· ≠ r)) := by
  have hcalling : n'.calling = n.calling := by rw [calling, hcursor, calling]
  have hsub : (n'.calls ++ (n'.calling ++ ahead.filter (· ≠ r))).Sublist
      (n.calls ++ (n.calling ++ ahead)) := by
    rw [hcalls, hcalling]
    exact (List.Sublist.refl _).append ((List.Sublist.refl _).append List.filter_sublist)
  refine ⟨h.sorted.sublist hsub, ?_, ?_, ?_, ?_⟩
  · rw [hnodes, hpresent, hbefore]
    exact fun p hp => h.known p (hsub.subset hp)
  · rw [hpresent, hcalls, hcalling]
    intro p hp hlive
    have hne : p ≠ r := fun heq => hnot (heq ▸ hlive)
    have hmem := h.kept p hp (by simp only [List.mem_append, List.mem_cons] at hlive ⊢; tauto)
    simp only [List.mem_append, List.mem_filter, decide_eq_true_eq] at hmem ⊢
    tauto
  · rw [hpresent, hbefore]
    exact h.present
  · rw [hbefore, hnodes]
    exact h.before

/-- **Step lemma.** -/
theorem recorded_step {ev : NotifierEvent C} (htracks : n.Tracks live ahead)
    (h : n.Recorded live ahead) (hguard : n.Disciplined ev) (hstep : n.step ev = some n') :
    ∃ live' ahead', n'.Tracks live' ahead' ∧ n'.Recorded live' ahead' := by
  cases ev with
  | dispatch =>
    exact ⟨live, live, (tracks_dispatch htracks hstep).1, recorded_dispatch htracks hstep⟩
  | walk =>
    obtain ⟨ahead', htracks', hcalls, hahead, -, hlist, -⟩ := tracks_walk htracks hstep
    obtain ⟨cursor, -, rfl⟩ := Option.map_eq_some_iff.mp hstep
    refine ⟨live, ahead', htracks', h.advance ?_ rfl rfl rfl⟩
    rw [hcalls, hahead, List.append_assoc]
  | count callback =>
    obtain ⟨htracks', hcursor, hcalls, hlist, hidle, -⟩ := tracks_count htracks hguard hstep
    have hghosts : n'.present = n.present ∧ n'.before = n.before := by
      simp only [step, hidle, Option.some.injEq] at hstep
      subst hstep
      exact ⟨rfl, rfl⟩
    refine ⟨live, ahead, htracks', h.advance ?_ (by rw [hlist]; rfl) hghosts.1 hghosts.2⟩
    rw [hcalls, calling, hcursor, calling]
  | renumber =>
    rw [htracks.not_overflow.1] at hstep
    cases hstep
  | recount =>
    rw [htracks.not_overflow.2] at hstep
    cases hstep
  | link =>
    obtain ⟨joins, callback, counter, htracks', -, hcursor, hcalls, happ, hlist, -⟩ :=
      tracks_link htracks hstep
    have hghosts : n'.present = n.present ∧ n'.before = n.before := by
      simp only [step, happ, Option.some.injEq] at hstep
      subst hstep
      exact ⟨rfl, rfl⟩
    exact ⟨_, _, htracks', h.link hcalls hcursor (by rw [hlist]; exact n.list.length_append _ _)
      hghosts.1 hghosts.2⟩
  | remove node =>
    cases node with
    | none =>
      cases hstep
      exact ⟨live, ahead, ⟨htracks.represents, htracks.walking, htracks.idle, htracks.counted⟩,
        h.advance rfl rfl rfl rfl⟩
    | some r =>
      obtain ⟨xs, ys, rfl⟩ := List.append_of_mem (htracks.represents.mem_iff.mpr hguard)
      obtain ⟨htracks', hcursor, hcalls, hlist, -⟩ := tracks_remove htracks hstep
      cases hstep
      refine ⟨_, _, htracks', h.remove htracks.represents.shape.not_mem_unlink rfl rfl ?_ rfl rfl⟩
      exact n.list.length_doFreeNode r

theorem recorded_of_reachable (h : (notifierSystem C).ReachableBy Disciplined n) :
    ∃ live ahead, n.Tracks live ahead ∧ n.Recorded live ahead := by
  induction h with
  | init hn =>
    cases hn
    exact ⟨[], [], tracks_new, recorded_new⟩
  | step ev _ hguard hstep ih =>
    obtain ⟨live, ahead, htracks, hrec⟩ := ih
    exact recorded_step htracks hrec hguard hstep

/-! ## Section 7: Listeners that come too late -/

/-- A listener with this counter came after the dispatch had read
    `currentCounter`. -/
def TooYoung (n : Notifier C) (counter : UInt32) : Prop :=
  ∀ read, n.cursor.bind WalkCursor.counter = some read → read < counter

/-- The nodes from `horizon` on are too young for the dispatch. -/
structure Bounded (n : Notifier C) : Prop where
  loading : ∀ node, n.cursor = some (.load node) → n.calls = []
  called : ∀ p ∈ n.calls ++ n.calling, p < n.horizon
  read : ∀ read, n.cursor.bind WalkCursor.counter = some read → read ≤ n.list.currentCounter
  young : ∀ p, n.horizon ≤ p → n.list.counterOf p ≠ removedCounter → n.TooYoung (n.list.counterOf p)
  counted : ∀ callback counter, n.appending = .counted callback counter →
    n.horizon ≤ n.list.nodes.length → n.TooYoung counter

theorem bounded_new : (new : Notifier C).Bounded where
  loading node h := by cases h
  called p hp := by simp [new, calling] at hp
  read _ h := by cases h
  young p _ _ _ h := by cases h
  counted _ _ h := by cases h

theorem counterOf_of_le {l : CallbackList C} {p : Nat} (h : l.nodes.length ≤ p) :
    l.counterOf p = removedCounter := by
  simp [CallbackList.counterOf, List.getElem?_eq_none h]

theorem bounded_dispatch (hstep : n.step .dispatch = some n') : n'.Bounded := by
  simp only [step] at hstep
  split at hstep
  case h_2 => cases hstep
  case h_1 =>
    cases hstep
    refine ⟨fun _ _ => rfl, ?_, ?_, ?_, ?_⟩
    · simp [calling, WalkCursor.calling]
    · intro read hread
      cases hread
    · intro p _ _ read hread
      cases hread
    · intro _ _ _ _ read hread
      cases hread

/-- A step of the loop that leaves the counter and the calls alone. -/
theorem Bounded.setCursor (h : n.Bounded) (cursor' : WalkCursor) {cursor : WalkCursor}
    {counter : UInt32} (hcursor : n.cursor = some cursor) (hread : cursor.counter = some counter)
    (hread' : cursor'.counter = some counter) {calls : List Nat}
    (hcalled : ∀ p ∈ calls ++ cursor'.calling, p < n.horizon) :
    Bounded { n with cursor := some cursor', calls } := by
  have hsame : n.cursor.bind WalkCursor.counter = some counter := by rw [hcursor]; exact hread
  have hsame' : ∀ read, (some cursor').bind WalkCursor.counter = some read →
      n.cursor.bind WalkCursor.counter = some read := by
    intro read hr
    rw [hsame, ← hread']
    exact hr
  refine ⟨?_, hcalled, fun read hr => h.read read (hsame' read hr), ?_, ?_⟩
  · intro node heq
    cases heq
    cases hread'
  · exact fun p hp hne read hr => h.young p hp hne read (hsame' read hr)
  · exact fun callback c happ hle read hr => h.counted callback c happ hle read (hsame' read hr)

theorem bounded_walk (h : n.Bounded) (hstep : n.step .walk = some n') : n'.Bounded := by
  obtain ⟨cursor, hcursor, rfl⟩ := Option.map_eq_some_iff.mp hstep
  have hcalled := h.called
  rw [calling, hcursor] at hcalled
  cases cursor with
  | load node =>
    -- The counter is read: every node that has one by now has at most this one.
    refine ⟨fun _ heq => (by cases heq), ?_, ?_, ?_, ?_⟩
    · simp [h.loading node hcursor, calling, CallbackList.doForEachIf, WalkCursor.calling]
    · rintro _ ⟨⟩
      exact UInt32.le_refl _
    · intro p hp hne
      have hle : n.list.nodes.length ≤ p := by
        refine Nat.le_trans ?_ hp
        simp only [WalkCursor.counter, Option.isNone_none, if_true, numbered]
        split <;> omega
      exact absurd (counterOf_of_le hle) hne
    · intro callback counter happ hle
      replace happ : n.appending = .counted callback counter := happ
      simp [WalkCursor.counter, numbered, happ] at hle
  | test counter node =>
    cases node with
    | none =>
      refine ⟨fun _ heq => (by cases heq), ?_, fun _ hr => (by cases hr), ?_, ?_⟩
      · simpa [calling, CallbackList.doForEachIf, WalkCursor.calling, WalkCursor.counter] using
          hcalled
      · intro p _ _ read hr
        cases hr
      · intro _ _ _ _ read hr
        cases hr
    | some p =>
      by_cases hpass : n.list.counterOf p ≠ removedCounter ∧ n.list.counterOf p ≤ counter
      · -- A node that passes the test is not too young.
        have hp : p < n.horizon := by
          by_contra hnot
          have hread : n.cursor.bind WalkCursor.counter = some counter := by rw [hcursor]; rfl
          have hlt := h.young p (Nat.le_of_not_lt hnot) hpass.1 counter hread
          exact absurd (UInt32.lt_of_le_of_lt hpass.2 hlt) (UInt32.lt_irrefl _)
        simp only [CallbackList.doForEachIf, if_pos hpass]
        refine h.setCursor (.call counter p) hcursor rfl rfl ?_
        simpa [WalkCursor.calling, or_imp, forall_and, hp] using hcalled
      · simp only [CallbackList.doForEachIf, if_neg hpass]
        exact h.setCursor (.advance counter p) hcursor rfl rfl
          (by simpa [WalkCursor.calling] using hcalled)
  | call counter p =>
    exact h.setCursor (.advance counter p) hcursor rfl rfl
      (by simpa [WalkCursor.calling] using hcalled)
  | advance counter p =>
    exact h.setCursor (.test counter (n.list.nextOf p)) hcursor rfl rfl
      (by simpa [WalkCursor.calling] using hcalled)

/-- A step of the thread that appends and removes. -/
theorem Bounded.setList (h : n.Bounded) {list : CallbackList C} {appending : Appending C}
    (hcounter : n.list.currentCounter ≤ list.currentCounter)
    (hyoung : ∀ p, n.horizon ≤ p → list.counterOf p ≠ removedCounter →
      n.TooYoung (list.counterOf p))
    (hcounted : ∀ callback counter, appending = .counted callback counter →
      n.horizon ≤ list.nodes.length → n.TooYoung counter) :
    Bounded { n with list, appending } where
  loading := h.loading
  called := h.called
  read read hr := UInt32.le_trans (h.read read hr) hcounter
  young := hyoung
  counted := hcounted

/-- **Step lemma.** -/
theorem bounded_step {ev : NotifierEvent C} (htracks : n.Tracks live ahead) (h : n.Bounded)
    (hguard : n.Disciplined ev) (hstep : n.step ev = some n') : n'.Bounded := by
  cases ev with
  | dispatch => exact bounded_dispatch hstep
  | walk => exact bounded_walk h hstep
  | count callback =>
    obtain ⟨-, -, -, -, hidle, -⟩ := tracks_count htracks hguard hstep
    simp only [step, hidle, show n.list.increment.currentCounter ≠ 0 from hguard, if_false,
      Option.some.injEq] at hstep
    subst hstep
    -- The append takes a counter above all that were read before.
    have hlt := lt_increment hguard
    refine h.setList (UInt32.le_of_lt hlt) h.young ?_
    rintro _ _ ⟨⟩ _ read hread
    exact UInt32.lt_of_le_of_lt (h.read read hread) hlt
  | renumber =>
    rw [htracks.not_overflow.1] at hstep
    cases hstep
  | recount =>
    rw [htracks.not_overflow.2] at hstep
    cases hstep
  | link =>
    obtain ⟨_, callback, counter, -, -, -, -, happ, -⟩ := tracks_link htracks hstep
    simp only [step, happ, Option.some.injEq] at hstep
    subst hstep
    obtain ⟨-, -, hcount, -⟩ := htracks.represents.append_fields callback counter
    obtain ⟨-, -, hcur⟩ := htracks.represents.ends_append callback counter
    refine h.setList (by rw [hcur]; exact UInt32.le_refl _) ?_ (fun _ _ heq => by cases heq)
    intro p hp hne
    rw [hcount] at hne ⊢
    split at hne
    case isTrue heq =>
      -- The new node has the counter that the append took.
      rw [if_pos heq]
      exact h.counted callback counter happ (heq ▸ hp)
    case isFalse hold =>
      rw [if_neg hold]
      exact h.young p hp hne
  | remove node =>
    cases node with
    | none =>
      cases hstep
      exact h.setList (UInt32.le_refl _) h.young h.counted
    | some r =>
      obtain ⟨xs, ys, rfl⟩ := List.append_of_mem (htracks.represents.mem_iff.mpr hguard)
      cases hstep
      obtain ⟨-, -, hcount, -⟩ := htracks.represents.doFreeNode_fields
      obtain ⟨-, -, hcur⟩ := htracks.represents.ends_doFreeNode
      refine h.setList (hcur ▸ UInt32.le_refl _) ?_ ?_
      · intro p hp hne
        replace hne : (n.list.doFreeNode r).counterOf p ≠ removedCounter := hne
        show n.TooYoung ((n.list.doFreeNode r).counterOf p)
        rw [hcount] at hne ⊢
        split at hne
        case isTrue => exact absurd rfl hne
        case isFalse hold =>
          rw [if_neg hold]
          exact h.young p hp hne
      · intro callback counter happ hle
        exact h.counted callback counter happ ((n.list.length_doFreeNode r) ▸ hle)

theorem bounded_of_reachable (h : (notifierSystem C).ReachableBy Disciplined n) : n.Bounded := by
  induction h with
  | init hn =>
    cases hn
    exact bounded_new
  | step ev hn hguard hstep ih =>
    obtain ⟨live, ahead, htracks, -⟩ := recorded_of_reachable hn
    exact bounded_step htracks ih hguard hstep

end Notifier

/-- **One call for each listener.** In every interleaving of a dispatch with
    appends and removals, with each handle removed at most once and fewer
    than `2 ^ 32` appends: the listeners are called in the order of their
    registration and none twice; each was on the list when the dispatch
    began or was appended since, and had its counter when the dispatch read
    `currentCounter`; and when the dispatch has ended, every listener that
    was on the list when it began and still is has been called. -/
theorem dispatch_calls_once {C : Type} {n : Notifier C}
    (h : (notifierSystem C).ReachableBy Notifier.Disciplined n) :
    n.calls.Pairwise (· < ·) ∧
    (∀ p ∈ n.calls, (p ∈ n.present ∨ n.before ≤ p) ∧ p < n.horizon) ∧
    (n.cursor = none → ∀ p ∈ n.present, p ∈ n.linked → p ∈ n.calls) := by
  obtain ⟨live, ahead, htracks, hrec⟩ := Notifier.recorded_of_reachable h
  have hbounded := Notifier.bounded_of_reachable h
  refine ⟨(List.pairwise_append.mp hrec.sorted).1, ?_, ?_⟩
  · exact fun p hp => ⟨(hrec.known p (List.mem_append_left _ hp)).2,
      hbounded.called p (List.mem_append_left _ hp)⟩
  · intro hidle p hp hlinked
    rw [htracks.represents.linked_eq] at hlinked
    have hmem := hrec.kept p hp hlinked
    rwa [Notifier.calling, hidle, htracks.idle hidle, Option.map_none, Option.getD_none,
      List.nil_append, List.append_nil] at hmem

/-- Four listeners.  While the first is being called it is removed, and so
    are the second and the last; a fifth one is appended.  The walk goes on
    from the removed node to the third one, and passes the fifth over. -/
def removalsInFlight : List (NotifierEvent Nat) :=
  [.count 10, .link, .count 11, .link, .count 12, .link, .count 13, .link, .dispatch, .walk, .walk,
    .remove (some 0), .walk, .remove (some 1), .remove (some 3), .count 14, .link, .walk, .walk,
    .walk, .walk, .walk, .walk, .walk, .walk, .walk]

theorem dispatch_calls_once_sample :
    ∃ n : Notifier Nat, (n.cursor, n.present, n.linked, n.horizon, n.calls) =
        (none, [0, 1, 2, 3], [2, 4], 4, [0, 2]) ∧
      (∀ p ∈ n.present, p ∈ n.linked → p ∈ n.calls) ∧ 4 ∉ n.calls := by
  have hrun : ((notifierSystem Nat).execWithin (fun n ev => decide (n.Disciplined ev)) .new
      removalsInFlight).map (fun n => (n.cursor, n.present, n.linked, n.horizon, n.calls)) =
        some (none, [0, 1, 2, 3], [2, 4], 4, [0, 2]) := by
    decide +kernel
  obtain ⟨n, hn, hval⟩ := Option.map_eq_some_iff.mp hrun
  have hreach : (notifierSystem Nat).ReachableBy Notifier.Disciplined n :=
    .execWithin _ (fun _ _ hg => of_decide_eq_true hg) (.init rfl) hn
  have hhorizon : n.horizon = 4 := by
    simp only [Prod.mk.injEq] at hval
    exact hval.2.2.2.1
  obtain ⟨-, hcalled, hall⟩ := dispatch_calls_once hreach
  refine ⟨n, hval, hall (Prod.ext_iff.mp hval).1, fun hmem => ?_⟩
  have hlt := (hcalled 4 hmem).2
  omega

end LibControlCan
