import Mathlib.Tactic

/-! # The event queue

    `EventQueueBase` keeps the events that are enqueued in a list of
    buffers and the buffers that are not in use in another one.  A thread
    that processes events takes the whole list, dispatches events from it
    one by one, and puts back what it did not dispatch.

    `ofEvents es n` is the queue that holds the events `es` and `n` free
    buffers.  The operations keep that form, so that no assertion of a
    buffer ever fails, and `event_queue_conserves` is what that means for
    a whole sequence of calls: every event that was enqueued is dispatched
    once or still in the queue. -/

namespace LibControlCan

/-- `EventQueueBase`.  A buffer (`BufferedItem`) is empty or holds an
    event. -/
structure EventQueue (T : Type) where
  queueList : List (Option T)
  freeList : List (Option T)

/-- The local lists of `processIf`. -/
structure Processing (T : Type) where
  /-- The buffers of `tempList` in front of `it`: the predicate did not
      hold of their events. -/
  kept : List (Option T)
  /-- The buffers of `tempList` from `it` on. -/
  rest : List (Option T)
  idleList : List (Option T)

namespace EventQueue

variable {T : Type}

/-! ## Section 1: The operations -/

def new : EventQueue T := { queueList := [], freeList := [] }

/-- `doEnqueue`.  It fails if the buffer that it takes is not empty, which
    `BufferedItem::set` asserts. -/
def doEnqueue (q : EventQueue T) (item : T) : Option (EventQueue T) :=
  match q.freeList with
  | [] => some { q with queueList := q.queueList ++ [some item] }
  | none :: freeList => some { queueList := q.queueList ++ [some item], freeList }
  | some _ :: _ => none

/-- `processIf` up to its loop; `none` if the queue is empty. -/
def take (q : EventQueue T) : Option (EventQueue T × Processing T) :=
  if q.queueList.isEmpty then none
  else some ({ q with queueList := [] }, { kept := [], rest := q.queueList, idleList := [] })

end EventQueue

/-- One round of the loop of `processIf`: the event to dispatch, if the
    predicate holds of it.  A buffer that is empty fails an assertion. -/
def Processing.round {T : Type} (predictor : T → Bool) (p : Processing T) :
    Option (Processing T × Option T) :=
  match p.rest with
  | some item :: rest =>
    if predictor item then some ({ p with rest, idleList := p.idleList ++ [none] }, some item)
    else some ({ p with kept := p.kept ++ [some item], rest }, none)
  | _ => none

namespace EventQueue

variable {T : Type}

/-- `processIf` after its loop. -/
def putBack (q : EventQueue T) (p : Processing T) : EventQueue T × Bool :=
  ({ queueList := p.kept ++ q.queueList, freeList := q.freeList ++ p.idleList },
    !p.idleList.isEmpty)

/-- The loop of `processIf`, for the buffers that are left: the events that
    it dispatches. -/
def processLoop (predictor : T → Bool) : Nat → Processing T → Option (Processing T × List T)
  | 0, p => if p.rest.isEmpty then some (p, []) else none
  | k + 1, p =>
    (p.round predictor).bind fun (p', event) =>
      (processLoop predictor k p').map fun (p'', events) => (p'', event.toList ++ events)

/-- `processIf`, when nothing is enqueued meanwhile: the queue, the events
    that were dispatched, and the result. -/
def processIf (predictor : T → Bool) (q : EventQueue T) : Option (EventQueue T × List T × Bool) :=
  match q.take with
  | none => some (q, [], false)
  | some (q', p) =>
    (processLoop predictor p.rest.length p).map fun (p', events) =>
      ((q'.putBack p').1, events, (q'.putBack p').2)

/-- The loop of `process` over `tempList`: the buffers, cleared, and the
    events that it dispatches. -/
def dispatchAll : List (Option T) → Option (List (Option T) × List T)
  | [] => some ([], [])
  | some item :: rest => (dispatchAll rest).map fun (idle, events) => (none :: idle, item :: events)
  | none :: _ => none

/-- `process`. -/
def process (q : EventQueue T) : Option (EventQueue T × List T × Bool) :=
  if q.queueList.isEmpty then some (q, [], false)
  else
    (dispatchAll q.queueList).map fun (idle, events) =>
      ({ queueList := [], freeList := q.freeList ++ idle }, events, true)

/-! ## Section 2: What they do -/

/-- The queue that holds `es`, with `n` free buffers. -/
def ofEvents (es : List T) (n : Nat) : EventQueue T :=
  { queueList := es.map some, freeList := List.replicate n none }

@[simp] theorem doEnqueue_ofEvents (es : List T) (n : Nat) (item : T) :
    (ofEvents es n).doEnqueue item = some (ofEvents (es ++ [item]) (n - 1)) := by
  cases n <;> simp [doEnqueue, ofEvents, List.replicate_succ]

theorem processLoop_eq (predictor : T → Bool) (es : List T) (kept idle : List (Option T)) :
    processLoop predictor es.length { kept, rest := es.map some, idleList := idle } =
      some ({ kept := kept ++ (es.filter (!predictor ·)).map some
              rest := []
              idleList := idle ++ List.replicate (es.filter predictor).length none },
        es.filter predictor) := by
  -- Each round moves one buffer to one of the two lists.
  induction es generalizing kept idle with
  | nil => simp [processLoop]
  | cons e es ih =>
    rw [List.length_cons, processLoop]
    by_cases he : predictor e
    · simp [Processing.round, he, ih, List.replicate_succ]
    · simp [Processing.round, he, ih]

@[simp] theorem processIf_ofEvents (predictor : T → Bool) (es : List T) (n : Nat) :
    (ofEvents es n).processIf predictor =
      some (ofEvents (es.filter (!predictor ·)) (n + (es.filter predictor).length),
        es.filter predictor, !(es.filter predictor).isEmpty) := by
  cases es with
  | nil => simp [processIf, take, ofEvents]
  | cons e es =>
    have htake : (ofEvents (e :: es) n).take = some (ofEvents [] n,
        { kept := [], rest := (e :: es).map some, idleList := [] }) := rfl
    rw [processIf, htake]
    simp only [List.length_map]
    rw [processLoop_eq]
    simp only [putBack, ofEvents, List.nil_append, Option.map_some, List.map_nil, List.append_nil,
      List.replicate_append_replicate, Option.some.injEq, Prod.mk.injEq, true_and]
    cases (e :: es).filter predictor <;> simp [List.replicate_succ]

theorem dispatchAll_eq (es : List T) :
    dispatchAll (es.map some) = some (List.replicate es.length none, es) := by
  induction es with
  | nil => rfl
  | cons e es ih => simp [dispatchAll, ih, List.replicate_succ]

@[simp] theorem process_ofEvents (es : List T) (n : Nat) :
    (ofEvents es n).process = some (ofEvents [] (n + es.length), es, !es.isEmpty) := by
  cases es with
  | nil => simp [process, ofEvents]
  | cons e es =>
    have hne : (ofEvents (e :: es) n).queueList.isEmpty = false := rfl
    rw [process, hne, if_neg (by simp), show (ofEvents (e :: es) n).queueList =
      (e :: es).map some from rfl, dispatchAll_eq]
    simp [ofEvents]

/-! ## Section 3: Sequences of calls -/

/-- A call of the queue. -/
inductive Call (T : Type) where
  | enqueue (item : T)
  | processIf (predictor : T → Bool)
  | process

/-- A call, with the events that it dispatches. -/
def serve (q : EventQueue T) : Call T → Option (EventQueue T × List T)
  | .enqueue item => (q.doEnqueue item).map fun q' => (q', [])
  | .processIf predictor => (q.processIf predictor).map fun r => (r.1, r.2.1)
  | .process => q.process.map fun r => (r.1, r.2.1)

/-- A sequence of calls, with all events that they dispatch. -/
def run (q : EventQueue T) : List (Call T) → Option (EventQueue T × List T)
  | [] => some (q, [])
  | c :: cs =>
    (q.serve c).bind fun (q', events) => (run q' cs).map fun (q'', more) => (q'', events ++ more)

/-- The event that a call enqueues. -/
def Call.enqueued : Call T → List T
  | .enqueue item => [item]
  | _ => []

/-- The call makes no difference between events. -/
def Call.Uniform : Call T → Prop
  | .processIf predictor => ∃ b, ∀ item, predictor item = b
  | _ => True

/-- **Step lemma.** -/
theorem serve_ofEvents (c : Call T) (es : List T) (n : Nat) :
    ∃ es' n' events, (ofEvents es n).serve c = some (ofEvents es' n', events) ∧
      (events ++ es').Perm (es ++ c.enqueued) ∧
      (c.Uniform → events ++ es' = es ++ c.enqueued) := by
  cases c with
  | enqueue item =>
    exact ⟨es ++ [item], n - 1, [], by simp [serve], by simp [Call.enqueued],
      fun _ => by simp [Call.enqueued]⟩
  | processIf predictor =>
    refine ⟨es.filter (!predictor ·), n + (es.filter predictor).length, es.filter predictor,
      by simp [serve], ?_, ?_⟩
    · simp only [Call.enqueued, List.append_nil]
      exact List.filter_append_perm predictor es
    · rintro ⟨b, hb⟩
      cases b <;> simp [hb, Call.enqueued]
  | process =>
    exact ⟨[], n + es.length, es, by simp [serve], by simp [Call.enqueued],
      fun _ => by simp [Call.enqueued]⟩

/-- **Run lemma.** -/
theorem run_ofEvents (cs : List (Call T)) (es : List T) (n : Nat) :
    ∃ es' n' events, (ofEvents es n).run cs = some (ofEvents es' n', events) ∧
      (events ++ es').Perm (es ++ cs.flatMap Call.enqueued) ∧
      ((∀ c ∈ cs, c.Uniform) → events ++ es' = es ++ cs.flatMap Call.enqueued) := by
  induction cs generalizing es n with
  | nil => exact ⟨es, n, [], rfl, by simp, by simp⟩
  | cons c cs ih =>
    obtain ⟨es₁, n₁, events₁, hserve, hperm₁, heq₁⟩ := serve_ofEvents c es n
    obtain ⟨es₂, n₂, events₂, hrun, hperm₂, heq₂⟩ := ih es₁ n₁
    refine ⟨es₂, n₂, events₁ ++ events₂, by simp [run, hserve, hrun], ?_, ?_⟩
    · rw [List.append_assoc, List.flatMap_cons, ← List.append_assoc es]
      refine (hperm₂.append_left events₁).trans ?_
      rw [← List.append_assoc]
      exact hperm₁.append_right _
    · intro huniform
      rw [List.append_assoc, heq₂ fun c hc => huniform c (List.mem_cons_of_mem _ hc),
        ← List.append_assoc, heq₁ (huniform c List.mem_cons_self), List.flatMap_cons,
        List.append_assoc]

end EventQueue

/-- **Conservation.** For every sequence of calls on a new queue no
    assertion of a buffer fails, and the events that were dispatched and
    those in the queue are together those that were enqueued, each once.
    They are also in the order in which they were enqueued, if no call
    makes a difference between events. -/
theorem event_queue_conserves {T : Type} (cs : List (EventQueue.Call T)) :
    ∃ q events queued, EventQueue.new.run cs = some (q, events) ∧
      q.queueList = queued.map some ∧
      (events ++ queued).Perm (cs.flatMap EventQueue.Call.enqueued) ∧
      ((∀ c ∈ cs, c.Uniform) → events ++ queued = cs.flatMap EventQueue.Call.enqueued) := by
  obtain ⟨queued, n, events, hrun, hperm, heq⟩ := EventQueue.run_ofEvents cs [] 0
  exact ⟨_, events, queued, hrun, rfl, hperm, heq⟩

end LibControlCan
