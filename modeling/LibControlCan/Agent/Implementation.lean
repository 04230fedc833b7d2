import LibControlCan.Agent.Lifecycle
import LibControlCan.Eventpp.CallbackList
import LibControlCan.Eventpp.EventQueue

/-! # The agent over eventpp

    `Deployment` says which session is handed which event, with the
    listeners as a list and the events as a queue.  Here the agent is put
    together from what the code uses for them: the buffers of `EventQueue`,
    and the linked nodes of `CallbackList` with their counters.

    * `Publisher` is the thread of `canRxFunc`, step by step through
      `processIf` and `doForEachIf`.
    * The thread of the I/O context runs `start()` of a session in as many
      steps as `append` has, and removes listeners from failed sessions. -/

namespace LibControlCan

open ByteMemory

/-! ## Section 1: The publishing thread -/

/-- Where the thread is in the loop of `canRxFunc`. -/
inductive PublisherPhase where
  /-- `VCI_Receive` is next. -/
  | receive
  /-- `processIf` is next; the argument is `frame_num`. -/
  | process (frameNum : Nat)
  /-- It is at the head of the loop of `processIf`. -/
  | loop (frameNum : Nat) (p : Processing CanobjQueueNodeT)
  /-- It dispatches an event; `p` is the state of the loop after that. -/
  | dispatch (frameNum : Nat) (p : Processing CanobjQueueNodeT) (node : CanobjQueueNodeT)

/-- The thread of `canRxFunc`, with the event queue. -/
structure Publisher where
  sendBuff : Memory
  sendCount : UInt64
  queue : EventQueue CanobjQueueNodeT
  phase : PublisherPhase
  /-- Ghosts: the frames read from the bus, and the events whose dispatch
      has begun. -/
  frames : List VciCanObj
  dispatched : List CanobjQueueNodeT

namespace Publisher

def new (sendBuff : Memory) : Publisher :=
  { sendBuff, sendCount := 0, queue := .new, phase := .receive, frames := [], dispatched := [] }

/-- The body of the loop over the frames of one `VCI_Receive`. -/
def enqueue (p : Publisher) (frame : UInt64 × VciCanObj) : Option Publisher :=
  let (node, sendBuff) := fillNode p.sendBuff p.sendCount frame.1 frame.2
  (p.queue.doEnqueue node).map fun queue =>
    { p with
      sendBuff
      sendCount := p.sendCount + 1
      queue
      frames := p.frames ++ [frame.2] }

/-- The loop over the frames. -/
def enqueueAll (p : Publisher) : List (UInt64 × VciCanObj) → Option Publisher
  | [] => some p
  | frame :: frames => (p.enqueue frame).bind fun p' => p'.enqueueAll frames

end Publisher

/-! ## Section 2: The agent -/

/-- The agent and its clients. -/
structure Agent where
  pub : Publisher
  /-- The listeners; the callback of a node is the number of its session. -/
  notifier : Notifier Nat
  /-- `ppq_handle_` of each session. -/
  handles : Nat → Option Nat
  sessions : Nat → Session
  clients : Nat → Client

inductive AgentEvent where
  /-- `VCI_Receive` returns these frames and they are enqueued. -/
  | receive (frames : List (UInt64 × VciCanObj))
  /-- The next step of `processIf`. -/
  | publish
  /-- `start()` of session `i` calls `appendListener`. -/
  | append (i : Nat)
  /-- The further steps of `append`. -/
  | renumber
  | recount
  | link
  /-- An event of session `i`. -/
  | session (i : Nat) (ev : SessionEvent)
  /-- An event of client `i`. -/
  | client (i : Nat) (ev : ClientEvent)

namespace Agent

def new (sendBuff : Memory) (nets : Nat → CanImpCanNet) : Agent :=
  { pub := .new sendBuff, notifier := .new, handles := fun _ => none, sessions := fun _ => .new,
    clients := fun i => .new (nets i) }

/-- The sessions whose callbacks the nodes have. -/
def names (a : Agent) (nodes : List Nat) : List Nat := nodes.filterMap a.notifier.list.callbackOf

/-- The callback of the nodes: `consumeCanObjHandler` of their sessions. -/
def consume (a : Agent) (node : CanobjQueueNodeT) (nodes : List Nat) : Nat → Session :=
  (a.names nodes).foldl
    (fun sessions i => Function.update sessions i ((sessions i).consumeCanObjHandler node))
    a.sessions

/-- One step of `processIf`. -/
def publish (a : Agent) : Option Agent :=
  match a.pub.phase with
  | .receive => none
  | .process frameNum =>
    match a.pub.queue.take with
    | none => some { a with pub := { a.pub with phase := .receive } }
    | some (queue, p) => some { a with pub := { a.pub with queue, phase := .loop frameNum p } }
  | .loop frameNum p =>
    if p.rest.isEmpty then
      some { a with pub := { a.pub with queue := (a.pub.queue.putBack p).1, phase := .receive } }
    else
      (p.round fun _ => decide (frameNum > 0)).bind fun
        | (p', some node) =>
          (a.notifier.step .dispatch).map fun notifier =>
            { a with
              notifier
              pub := { a.pub with
                phase := .dispatch frameNum p' node
                dispatched := a.pub.dispatched ++ [node] } }
        | (p', none) => some { a with pub := { a.pub with phase := .loop frameNum p' } }
  | .dispatch frameNum p node =>
    match a.notifier.cursor with
    | none => some { a with pub := { a.pub with phase := .loop frameNum p } }
    | some cursor =>
      (a.notifier.step .walk).map fun notifier =>
        { a with notifier, sessions := a.consume node cursor.calling }

/-- One event. -/
def step (a : Agent) : AgentEvent → Option Agent
  | .receive frames =>
    match a.pub.phase with
    | .receive =>
      if frames.length ≤ kRxBuffSize then
        (a.pub.enqueueAll frames).map fun pub =>
          { a with pub := { pub with phase := .process frames.length } }
      else none
    | _ => none
  | .publish => a.publish
  | .append i =>
    if (a.sessions i).started then none
    else (a.notifier.step (.count i)).map fun notifier => { a with notifier }
  | .renumber => (a.notifier.step .renumber).map fun notifier => { a with notifier }
  | .recount => (a.notifier.step .recount).map fun notifier => { a with notifier }
  | .link =>
    match a.notifier.appending with
    | .counted i _ =>
      (a.notifier.step .link).map fun notifier =>
        { a with
          notifier
          handles := Function.update a.handles i (some a.notifier.list.nodes.length)
          sessions :=
            Function.update a.sessions i ((a.sessions i).start a.pub.dispatched.length) }
    | _ => none
  | .session i ev =>
    match a.notifier.appending with
    -- The I/O thread is in one handler at a time.
    | .idle =>
      ((a.sessions i).step ev).bind fun s =>
        let a' := { a with sessions := Function.update a.sessions i s }
        if s.registered then some a'
        else
          -- `disconnectToEventqq` after a failed write.
          (a.notifier.step (.remove (a.handles i))).map fun notifier => { a' with notifier }
    | _ => none
  | .client i ev =>
    if inStream (a.sessions i) (a.clients i) ev then
      ((a.clients i).step ev).map fun c => { a with clients := Function.update a.clients i c }
    else none

end Agent

def agentSystem : LTS.System Agent AgentEvent where
  init a := ∃ sendBuff nets, (∀ i, (nets i).connected = true ∧ (nets i).rxBuff = []) ∧
    a = .new sendBuff nets
  step := Agent.step

/-- Fewer than `2 ^ 32` sessions are ever started. -/
def Agent.Countable (a : Agent) : AgentEvent → Prop
  | .append _ => a.notifier.list.currentCounter + 1 ≠ 0
  | _ => True

instance (a : Agent) : DecidablePred a.Countable
  | .append _ => inferInstanceAs (Decidable (_ ≠ _))
  | .receive _ => inferInstanceAs (Decidable True)
  | .publish => inferInstanceAs (Decidable True)
  | .renumber => inferInstanceAs (Decidable True)
  | .recount => inferInstanceAs (Decidable True)
  | .link => inferInstanceAs (Decidable True)
  | .session _ _ => inferInstanceAs (Decidable True)
  | .client _ _ => inferInstanceAs (Decidable True)

end LibControlCan
