import LibControlCan.Agent.Session
import LibControlCan.Receive.Client

/-! # The agent, its sessions and their clients

    The thread of `canRxFunc`, the event queue, any number of sessions and
    their clients, as one transition system.

    * `RxThread` is the loop of `canRxFunc`: it enqueues the frames of one
      `VCI_Receive` and then dispatches them, event by event and listener
      by listener, while sessions come and go on the I/O thread.
    * The connection of session `i` to client `i` is a byte stream: what
      the client has received is always the front of what was sent. -/

namespace LibControlCan

open ByteMemory Asio Lines

/-! ## Section 1: The publishing thread -/

/-- `kRxBuffSize`. -/
def kRxBuffSize : Nat := 100

/-- The state of `canRxFunc` and of the event queue. -/
structure RxThread where
  sendBuff : Memory
  sendCount : UInt64
  /-- The events that are enqueued and not dispatched. -/
  queue : List CanobjQueueNodeT
  /-- The event that is being dispatched, and the listeners to visit. -/
  dispatching : Option (CanobjQueueNodeT × List Nat)
  /-- Ghosts: the frames read from the bus, and the events whose dispatch
      has begun. -/
  frames : List VciCanObj
  dispatched : List CanobjQueueNodeT

namespace RxThread

/-- Before the loop of `canRxFunc`; `send_buff` is not initialised. -/
def new (sendBuff : Memory) : RxThread :=
  { sendBuff, sendCount := 0, queue := [], dispatching := none, frames := [], dispatched := [] }

/-- The body of the loop over the frames of one `VCI_Receive`; `now` is
    the tick of the frame. -/
def enqueue (r : RxThread) (frame : UInt64 × VciCanObj) : RxThread :=
  let (node, sendBuff) := fillNode r.sendBuff r.sendCount frame.1 frame.2
  { r with
    sendBuff
    sendCount := r.sendCount + 1
    queue := r.queue ++ [node]
    frames := r.frames ++ [frame.2] }

/-- The listeners that the running dispatch has still to visit. -/
def toVisit (r : RxThread) : List Nat := (r.dispatching.map Prod.snd).getD []

theorem toVisit_of_dispatching {r : RxThread} {node : CanobjQueueNodeT} {is : List Nat}
    (h : r.dispatching = some (node, is)) : r.toVisit = is := by
  simp [toVisit, h]

/-- The event that is still to be handed to listener `i`. -/
def current (r : RxThread) (i : Nat) : List CanobjQueueNodeT :=
  match r.dispatching with
  | some (node, is) => if i ∈ is then [node] else []
  | none => []

theorem current_of_dispatching {r : RxThread} {node : CanobjQueueNodeT} {is : List Nat}
    (h : r.dispatching = some (node, is)) (i : Nat) :
    r.current i = if i ∈ is then [node] else [] := by
  simp [current, h]

theorem current_of_not_mem {r : RxThread} {i : Nat} (h : i ∉ r.toVisit) : r.current i = [] := by
  unfold current
  unfold toVisit at h
  cases hd : r.dispatching with
  | none => rfl
  | some p => simp_all

/-- The events, dispatched or enqueued, are the frames in the order in
    which they were read; the `k`-th of them has number `k`. -/
structure Inv (r : RxThread) : Prop where
  frames : (r.dispatched ++ r.queue).map CanobjQueueNodeT.frame = r.frames
  numbers : ∀ k node, (r.dispatched ++ r.queue)[k]? = some node → node.sendCount = UInt64.ofNat k
  count : r.sendCount = UInt64.ofNat (r.dispatched ++ r.queue).length
  current : ∀ node is, r.dispatching = some (node, is) → ∃ front, r.dispatched = front ++ [node]

theorem inv_new (sendBuff : Memory) : (new sendBuff).Inv :=
  ⟨rfl, fun k node h => by simp [new] at h, rfl, fun node is h => by cases h⟩

theorem inv_enqueue {r : RxThread} (hinv : r.Inv) (frame : UInt64 × VciCanObj) :
    (r.enqueue frame).Inv := by
  have hevents : (r.enqueue frame).dispatched ++ (r.enqueue frame).queue =
      (r.dispatched ++ r.queue) ++ [(fillNode r.sendBuff r.sendCount frame.1 frame.2).1] := by
    simp [enqueue]
  refine ⟨?_, ?_, ?_, hinv.current⟩
  · rw [hevents, List.map_append, hinv.frames]
    rfl
  · intro k node hk
    rw [hevents] at hk
    by_cases hlt : k < (r.dispatched ++ r.queue).length
    · rw [List.getElem?_append_left hlt] at hk
      exact hinv.numbers k node hk
    · have hlen := (List.getElem?_eq_some_iff.mp hk).1
      rw [List.length_append, List.length_singleton] at hlen
      -- The new event: its number is the count of those before it.
      obtain rfl : k = (r.dispatched ++ r.queue).length := by omega
      rw [List.getElem?_concat_length] at hk
      cases hk
      exact hinv.count
  · rw [hevents, List.length_append, List.length_singleton, UInt64.ofNat_add, ← hinv.count]
    rfl

/-- The loop over the frames. -/
theorem inv_foldl_enqueue {r : RxThread} (hinv : r.Inv) (frames : List (UInt64 × VciCanObj)) :
    (frames.foldl enqueue r).Inv := by
  induction frames generalizing r with
  | nil => exact hinv
  | cons frame frames ih => exact ih (inv_enqueue hinv frame)

/-- Taking the next event out of the queue. -/
theorem inv_dispatch {r : RxThread} (hinv : r.Inv) {node : CanobjQueueNodeT}
    {queue : List CanobjQueueNodeT} (hq : r.queue = node :: queue) (is : List Nat) :
    ({ r with queue, dispatching := some (node, is), dispatched := r.dispatched ++ [node] }
      : RxThread).Inv := by
  have hevents : (r.dispatched ++ [node]) ++ queue = r.dispatched ++ r.queue := by simp [hq]
  refine ⟨?_, ?_, ?_, ?_⟩
  · exact hevents ▸ hinv.frames
  · exact hevents ▸ hinv.numbers
  · exact hevents ▸ hinv.count
  · rintro _ _ ⟨⟩
    exact ⟨r.dispatched, rfl⟩

/-- Going on with the same event, or ending its dispatch. -/
theorem inv_setDispatching {r : RxThread} (hinv : r.Inv)
    {dispatching : Option (CanobjQueueNodeT × List Nat)}
    (h : ∀ node is, dispatching = some (node, is) → ∃ js, r.dispatching = some (node, js)) :
    ({ r with dispatching } : RxThread).Inv := by
  refine ⟨hinv.frames, hinv.numbers, hinv.count, ?_⟩
  intro node is hd
  obtain ⟨js, hjs⟩ := h node is hd
  exact hinv.current node js hjs

/-- The loop over the frames leaves the dispatching alone. -/
theorem foldl_enqueue_frame (frames : List (UInt64 × VciCanObj)) (r : RxThread) :
    (frames.foldl enqueue r).dispatching = r.dispatching ∧
      (frames.foldl enqueue r).dispatched = r.dispatched := by
  induction frames generalizing r with
  | nil => exact ⟨rfl, rfl⟩
  | cons frame frames ih => exact ih (r.enqueue frame)

end RxThread

/-! ## Section 2: The whole system -/

/-- The agent, its sessions and their clients. -/
structure Deployment where
  rx : RxThread
  /-- The listeners of the event queue: the sessions on it, in the order
      in which they were appended. -/
  listeners : List Nat
  sessions : Nat → Session
  clients : Nat → Client

/-- What can happen next. -/
inductive DeploymentEvent where
  /-- `VCI_Receive` returns these frames and they are enqueued. -/
  | canRx (frames : List (UInt64 × VciCanObj))
  /-- The dispatch of the next event begins. -/
  | dispatch
  /-- The next listener is visited.  A listener that was removed is passed
      over, except that a call that was about to be made may come `late`. -/
  | visit (late : Bool)
  /-- The dispatch of the event ends. -/
  | finish
  /-- `start()` of session `i`.  A listener appended during a dispatch may
      or may not be part of it. -/
  | start (i : Nat) (joins : Bool)
  /-- An event of session `i`. -/
  | session (i : Nat) (ev : SessionEvent)
  /-- An event of client `i`. -/
  | client (i : Nat) (ev : ClientEvent)

/-- The connection delivers what was sent, in order. -/
def inStream (s : Session) (c : Client) : ClientEvent → Bool
  | .io ev => (vals c.received ++ ev.bytes).isPrefixOf s.sent
  | _ => true

namespace Deployment

/-- Replace session `i`. -/
def setSession (d : Deployment) (i : Nat) (s : Session) : Deployment :=
  { d with sessions := Function.update d.sessions i s }

/-- One event. -/
def step (d : Deployment) : DeploymentEvent → Option Deployment
  | .canRx frames =>
    if d.rx.queue.isEmpty ∧ d.rx.dispatching.isNone ∧ frames.length ≤ kRxBuffSize then
      some { d with rx := frames.foldl RxThread.enqueue d.rx }
    else none
  | .dispatch =>
    match d.rx.queue, d.rx.dispatching with
    | node :: queue, none =>
      some { d with
        rx := { d.rx with
          queue
          dispatching := some (node, d.listeners)
          dispatched := d.rx.dispatched ++ [node] } }
    | _, _ => none
  | .visit late =>
    match d.rx.dispatching with
    | some (node, i :: is) =>
      -- `doForEachIf` skips a node that was removed before it looked at it.
      let d := { d with rx := { d.rx with dispatching := some (node, is) } }
      if (d.sessions i).registered ∨ late then
        some (d.setSession i ((d.sessions i).consumeCanObjHandler node))
      else some d
    | _ => none
  | .finish =>
    match d.rx.dispatching with
    | some (_, []) => some { d with rx := { d.rx with dispatching := none } }
    | _ => none
  | .start i joins =>
    if (d.sessions i).started then none
    else
      let d := { d with listeners := d.listeners ++ [i] }
      -- Whether the dispatch sees the new node depends on the counter it read at its start.
      match d.rx.dispatching, joins with
      | some (node, is), true =>
        let d := { d with rx := { d.rx with dispatching := some (node, is ++ [i]) } }
        some (d.setSession i ((d.sessions i).start (d.rx.dispatched.length - 1)))
      | _, _ => some (d.setSession i ((d.sessions i).start d.rx.dispatched.length))
  | .session i ev =>
    ((d.sessions i).step ev).map fun s =>
      { d.setSession i s with
        listeners := if s.registered then d.listeners else d.listeners.erase i }
  | .client i ev =>
    if inStream (d.sessions i) (d.clients i) ev then
      ((d.clients i).step ev).map fun c => { d with clients := Function.update d.clients i c }
    else none

/-- Everything that `step` can do, with its guards. -/
inductive Transition (d : Deployment) : DeploymentEvent → Deployment → Prop where
  | canRx (frames : List (UInt64 × VciCanObj)) : d.rx.queue = [] → d.rx.dispatching = none →
      frames.length ≤ kRxBuffSize →
      Transition d (.canRx frames) { d with rx := frames.foldl RxThread.enqueue d.rx }
  | dispatch (node : CanobjQueueNodeT) (queue : List CanobjQueueNodeT) :
      d.rx.queue = node :: queue → d.rx.dispatching = none →
      Transition d .dispatch
        { d with
          rx := { d.rx with
            queue
            dispatching := some (node, d.listeners)
            dispatched := d.rx.dispatched ++ [node] } }
  | push (late : Bool) (node : CanobjQueueNodeT) (i : Nat) (is : List Nat) :
      d.rx.dispatching = some (node, i :: is) →
      Transition d (.visit late)
        (({ d with rx := { d.rx with dispatching := some (node, is) } } : Deployment).setSession i
          ((d.sessions i).consumeCanObjHandler node))
  | skip (late : Bool) (node : CanobjQueueNodeT) (i : Nat) (is : List Nat) :
      d.rx.dispatching = some (node, i :: is) → (d.sessions i).registered = false →
      Transition d (.visit late) { d with rx := { d.rx with dispatching := some (node, is) } }
  | finish (node : CanobjQueueNodeT) : d.rx.dispatching = some (node, []) →
      Transition d .finish { d with rx := { d.rx with dispatching := none } }
  | join (i : Nat) (node : CanobjQueueNodeT) (is : List Nat) : (d.sessions i).started = false →
      d.rx.dispatching = some (node, is) →
      Transition d (.start i true)
        (({ d with
            listeners := d.listeners ++ [i]
            rx := { d.rx with dispatching := some (node, is ++ [i]) } } : Deployment).setSession i
          ((d.sessions i).start (d.rx.dispatched.length - 1)))
  | start (i : Nat) (joins : Bool) : (d.sessions i).started = false →
      Transition d (.start i joins)
        (({ d with listeners := d.listeners ++ [i] } : Deployment).setSession i
          ((d.sessions i).start d.rx.dispatched.length))
  | session (i : Nat) (ev : SessionEvent) (s : Session) : (d.sessions i).step ev = some s →
      Transition d (.session i ev)
        { d.setSession i s with
          listeners := if s.registered then d.listeners else d.listeners.erase i }
  | client (i : Nat) (ev : ClientEvent) (c : Client) :
      inStream (d.sessions i) (d.clients i) ev = true → (d.clients i).step ev = some c →
      Transition d (.client i ev) { d with clients := Function.update d.clients i c }

theorem transition_of_step {d d' : Deployment} {ev : DeploymentEvent} (h : d.step ev = some d') :
    Transition d ev d' := by
  cases ev with
  | canRx frames =>
    simp only [step] at h
    split at h
    case isTrue hg =>
      cases h
      exact .canRx frames (List.isEmpty_iff.mp hg.1) (Option.isNone_iff_eq_none.mp hg.2.1) hg.2.2
    case isFalse => cases h
  | dispatch =>
    simp only [step] at h
    split at h
    case h_1 node queue hq hd =>
      cases h
      exact .dispatch node queue hq hd
    case h_2 => cases h
  | visit late =>
    simp only [step] at h
    split at h
    case h_1 node i is hd =>
      split at h
      case isTrue =>
        cases h
        exact .push late node i is hd
      case isFalse hg =>
        cases h
        rw [not_or, Bool.not_eq_true] at hg
        exact .skip late node i is hd hg.1
    case h_2 => cases h
  | finish =>
    simp only [step] at h
    split at h
    case h_1 node hd =>
      cases h
      exact .finish node hd
    case h_2 => cases h
  | start i joins =>
    simp only [step] at h
    split at h
    case isTrue => cases h
    case isFalse hst =>
      rw [Bool.not_eq_true] at hst
      split at h
      case h_1 node is hd =>
        cases h
        exact .join i node is hst hd
      case h_2 =>
        cases h
        exact .start i _ hst
  | session i ev =>
    obtain ⟨s, hs, rfl⟩ := Option.map_eq_some_iff.mp h
    exact .session i ev s hs
  | client i ev =>
    simp only [step] at h
    split at h
    case isTrue hin =>
      obtain ⟨c, hc, rfl⟩ := Option.map_eq_some_iff.mp h
      exact .client i ev c hin hc
    case isFalse => cases h

@[simp] theorem setSession_sessions_self (d : Deployment) (i : Nat) (s : Session) :
    (d.setSession i s).sessions i = s := by
  simp [setSession]

theorem setSession_sessions_ne {d : Deployment} {i j : Nat} (h : j ≠ i) (s : Session) :
    (d.setSession i s).sessions j = d.sessions j := by
  simp [setSession, h]

@[simp] theorem setSession_rx (d : Deployment) (i : Nat) (s : Session) :
    (d.setSession i s).rx = d.rx := rfl

@[simp] theorem setSession_listeners (d : Deployment) (i : Nat) (s : Session) :
    (d.setSession i s).listeners = d.listeners := rfl

/-- Every event moves a session in one of the four ways. -/
theorem move_of_step {d d' : Deployment} {ev : DeploymentEvent} (h : d.step ev = some d')
    (i : Nat) : Session.Move (d.sessions i) (d'.sessions i) := by
  have hset : ∀ j s, Session.Move (d.sessions j) s →
      Session.Move (d.sessions i) ((d.setSession j s).sessions i) := by
    intro j s hmove
    rcases eq_or_ne i j with rfl | hne
    · rwa [setSession_sessions_self]
    · rw [setSession_sessions_ne hne]
      exact .idle
  cases transition_of_step h with
  | canRx => exact .idle
  | dispatch => exact .idle
  | push late node j is _ => exact hset j _ (.push node)
  | skip => exact .idle
  | finish => exact .idle
  | join j node is hst _ => exact hset j _ (.start _ hst)
  | start j joins hst => exact hset j _ (.start _ hst)
  | session j ev s hs => exact hset j s (.io ev s hs)
  | client => exact .idle

/-- Every event leaves a client alone or is a step of it, on bytes that its
    session has sent. -/
theorem clients_of_step {d d' : Deployment} {ev : DeploymentEvent} (h : d.step ev = some d')
    (i : Nat) :
    d'.clients i = d.clients i ∨
    ∃ cev, inStream (d.sessions i) (d.clients i) cev = true ∧
      (d.clients i).step cev = some (d'.clients i) ∧ d'.sessions = d.sessions := by
  cases transition_of_step h with
  | canRx => exact Or.inl rfl
  | dispatch => exact Or.inl rfl
  | push => exact Or.inl rfl
  | skip => exact Or.inl rfl
  | finish => exact Or.inl rfl
  | join => exact Or.inl rfl
  | start => exact Or.inl rfl
  | session => exact Or.inl rfl
  | client j cev c hin hc =>
    rcases eq_or_ne i j with rfl | hne
    · exact Or.inr ⟨cev, hin, by simpa using hc, rfl⟩
    · exact Or.inl (by simp [hne])

end Deployment

end LibControlCan
