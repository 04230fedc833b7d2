import LibControlCan.Agent.Publishing
import LibControlCan.Eventpp.Ownership

/-! # The process of the agent

    `main` starts the thread of `canRxFunc`, waits until the device is
    open, and then serves connections on the thread that runs the I/O
    context, until a signal ends both.

    * `AgentProcess` has the places of the two threads, the server with its pool
      of sessions, and the agent.
    * `AgentProcess.Transition` is everything that a step can do. -/

namespace LibControlCan

open Asio

/-! ## Section 1: The model -/

/-- Where the thread of `canRxFunc` is. -/
inductive RxPhase where
  | openDevice
  | initCAN
  | startCAN
  /-- `beginInitTick`, a second of sleep, `endInitTick`. -/
  | initTick
  /-- `pub_thd_init_done` is set next. -/
  | initDone
  /-- It is at the head of the loop, and will test `run_flag`. -/
  | loop
  /-- `VCI_Receive` is next. -/
  | receiving
  /-- It is in `processIf`. -/
  | processing
  | exited
  deriving DecidableEq, Repr

/-- Where `main` is. -/
inductive MainPhase where
  /-- It waits for `pub_thd_init_done`. -/
  | waiting
  /-- The I/O context exists; the server is constructed next. -/
  | constructing
  /-- `startAccepting` is next. -/
  | accepting
  /-- It is in `io_context.run()`. -/
  | running
  /-- `run()` has returned; the server and the I/O context are destroyed
      next. -/
  | leaving
  /-- It is in `pub_thd.join()`. -/
  | joining
  | returned
  deriving DecidableEq, Repr

/-- The handler that the I/O context runs. -/
inductive Handler where
  | idle
  /-- `handleAccept`, with session `i` in the pool and `start()` next. -/
  | accepted (i : Nat)
  /-- `start()` of session `i`, in `append`. -/
  | starting (i : Nat)
  /-- `start()` of session `i`, in `doCanObjTranspose` or at its end. -/
  | started (i : Nat)
  /-- A handler of session `i`, in `doCanObjTranspose`. -/
  | session (i : Nat)
  deriving DecidableEq, Repr

/-- The process.  Sessions are numbered in the order of their
    construction. -/
structure AgentProcess where
  rx : RxPhase
  main : MainPhase
  runFlag : Bool
  pubThdInitDone : Bool
  agent : Agent
  /-- `session_`. -/
  session : Option Nat
  /-- `session_pool_`. -/
  pool : List Nat
  /-- An `async_accept` is outstanding. -/
  accepting : Bool
  handler : Handler
  /-- `io_context.stop()` was called. -/
  stopped : Bool
  /-- A `CHECK` has failed. -/
  aborted : Bool
  /-- Ghost: the agent when the server and the I/O context were
      destroyed. -/
  destroyed : Option Agent

inductive AgentProcessEvent where
  /-- `VCI_OpenDevice`, `VCI_InitCAN` or `VCI_StartCAN` returns `e`. -/
  | vci (e : UInt32)
  | initTick
  | storeInitDone
  /-- The test of the loop of `canRxFunc`. -/
  | loadRunFlag
  | receive (frames : List (UInt64 × VciCanObj))
  | publish
  /-- `main` finds `pub_thd_init_done` set. -/
  | poll
  /-- The constructor of the server; it throws if the port cannot be
      bound. -/
  | construct (ec : ErrorCode)
  | startAccepting
  /-- `io_context.run()` returns. -/
  | leave
  /-- The end of the `try` block. -/
  | destroy
  | join
  /-- The handlers of the I/O context. -/
  | handleAccept (ec : ErrorCode)
  | append
  | renumber
  | recount
  | link
  | signal
  | session (i : Nat) (ev : SessionEvent)
  /-- An event of client `i`. -/
  | client (i : Nat) (ev : ClientEvent)

/-- The node of its listener holds session `i`, and is alive. -/
def Agent.holds (a : Agent) (i : Nat) : Bool := (a.names a.notifier.alive).contains i

/-- Where `canRxFunc` is in its loop, from where the publisher is: `processIf`
    has returned once the next frames can be received. -/
def PublisherPhase.rxPhase : PublisherPhase → RxPhase
  | .receive => .loop
  | _ => .processing

theorem PublisherPhase.rxPhase_cases (phase : PublisherPhase) :
    phase = .receive ∧ phase.rxPhase = .loop ∨ phase ≠ .receive ∧ phase.rxPhase = .processing := by
  cases phase <;> simp [rxPhase]

namespace AgentProcess

/-- The start of `main`. -/
def new (agent : Agent) : AgentProcess :=
  { rx := .openDevice, main := .waiting, runFlag := true, pubThdInitDone := false, agent,
    session := none, pool := [], accepting := false, handler := .idle, stopped := false,
    aborted := false, destroyed := none }

/-- The sessions that had an owner outside the server and the I/O context
    when those were destroyed. -/
def outlived (p : AgentProcess) : List Nat :=
  match p.destroyed with
  | some agent => p.pool.filter agent.holds
  | none => []

/-- `CHECK(e != 0)` after a call of `canRxFunc`. -/
def check (p : AgentProcess) (e : UInt32) (next : RxPhase) : AgentProcess :=
  if e ≠ 0 then { p with rx := next } else { p with aborted := true }

/-- The I/O context can begin a handler. -/
def free (p : AgentProcess) : Bool := p.main = .running ∧ p.stopped = false ∧ p.handler = .idle

theorem free_iff {p : AgentProcess} :
    p.free = true ↔ p.main = .running ∧ p.stopped = false ∧ p.handler = .idle :=
  decide_eq_true_iff

/-- `Server::startAccepting`. -/
def startAccepting (p : AgentProcess) : AgentProcess :=
  { p with session := some ((p.session.map (· + 1)).getD 0), accepting := true }

/-- `Server::handleAccept`, up to `start()`. -/
def handleAccept (p : AgentProcess) (ec : ErrorCode) : Option AgentProcess :=
  p.session.map fun i =>
    let p := { p with accepting := false }
    if ec.isError then p else { p with pool := p.pool ++ [i], handler := .accepted i }

/-- The step of a handler of session `i`. -/
def sessionStep (p : AgentProcess) (i : Nat) (ev : SessionEvent) : Option AgentProcess :=
  (p.agent.step (.session i ev)).map fun agent =>
    { p with agent, handler := if (agent.sessions i).running.isSome then .session i else .idle }

/-- One event. -/
def step (p : AgentProcess) (ev : AgentProcessEvent) : Option AgentProcess :=
  if p.aborted then none else
  match ev with
  | .vci e =>
    match p.rx with
    | .openDevice => some (p.check e .initCAN)
    | .initCAN => some (p.check e .startCAN)
    | .startCAN => some (p.check e .initTick)
    | _ => none
  | .initTick => if p.rx = .initTick then some { p with rx := .initDone } else none
  | .storeInitDone =>
    if p.rx = .initDone then some { p with rx := .loop, pubThdInitDone := true } else none
  | .loadRunFlag =>
    if p.rx = .loop then some { p with rx := if p.runFlag then .receiving else .exited } else none
  | .receive frames =>
    if p.rx = .receiving then
      (p.agent.step (.receive frames)).map fun agent => { p with agent, rx := .processing }
    else none
  | .publish =>
    if p.rx = .processing then
      (p.agent.step .publish).map fun agent => { p with agent, rx := agent.pub.phase.rxPhase }
    else none
  | .poll =>
    if p.main = .waiting ∧ p.pubThdInitDone = true then some { p with main := .constructing }
    else none
  | .construct ec =>
    if p.main = .constructing then
      -- The exception is caught after the I/O context is gone.
      if ec.isError then some { p with main := .joining, runFlag := false }
      else some { p with main := .accepting }
    else none
  | .startAccepting =>
    match p.main, p.handler with
    | .accepting, _ => some { p.startAccepting with main := .running }
    | .running, .started i =>
      if (p.agent.sessions i).running = none then some { p.startAccepting with handler := .idle }
      else none
    | _, _ => none
  | .leave =>
    if p.main = .running ∧ p.stopped = true ∧ p.handler = .idle then
      some { p with main := .leaving }
    else none
  | .destroy =>
    if p.main = .leaving then some { p with main := .joining, destroyed := some p.agent }
    else none
  | .join =>
    if p.main = .joining ∧ p.rx = .exited then some { p with main := .returned } else none
  | .handleAccept ec => if p.free ∧ p.accepting = true then p.handleAccept ec else none
  | .append =>
    match p.handler with
    | .accepted i =>
      (p.agent.step (.append i)).map fun agent => { p with agent, handler := .starting i }
    | _ => none
  | .renumber =>
    match p.handler with
    | .starting _ => (p.agent.step .renumber).map fun agent => { p with agent }
    | _ => none
  | .recount =>
    match p.handler with
    | .starting _ => (p.agent.step .recount).map fun agent => { p with agent }
    | _ => none
  | .link =>
    match p.handler with
    | .starting i => (p.agent.step .link).map fun agent => { p with agent, handler := .started i }
    | _ => none
  | .signal => if p.free then some { p with runFlag := false, stopped := true } else none
  | .session i ev =>
    match ev, p.handler with
    | .transpose, .session j => if i = j then p.sessionStep i .transpose else none
    | .transpose, .started j =>
      if i = j then (p.agent.step (.session i .transpose)).map fun agent => { p with agent }
      else none
    | .transpose, _ => none
    | ev, _ => if p.free then p.sessionStep i ev else none
  | .client i ev => (p.agent.step (.client i ev)).map fun agent => { p with agent }

/-- Everything that `step` can do, with its guards. -/
inductive Transition (p : AgentProcess) : AgentProcessEvent → AgentProcess → Prop where
  | vci (e : UInt32) (next : RxPhase) :
      (p.rx = .openDevice ∧ next = .initCAN) ∨ (p.rx = .initCAN ∧ next = .startCAN) ∨
        (p.rx = .startCAN ∧ next = .initTick) →
      Transition p (.vci e) { p with rx := next }
  | checkFails (e : UInt32) : Transition p (.vci e) { p with aborted := true }
  | initTick : p.rx = .initTick → Transition p .initTick { p with rx := .initDone }
  | storeInitDone : p.rx = .initDone →
      Transition p .storeInitDone { p with rx := .loop, pubThdInitDone := true }
  | loadRunFlag : p.rx = .loop →
      Transition p .loadRunFlag { p with rx := if p.runFlag then .receiving else .exited }
  | receive (frames : List (UInt64 × VciCanObj)) (agent : Agent) : p.rx = .receiving →
      p.agent.step (.receive frames) = some agent →
      Transition p (.receive frames) { p with agent, rx := .processing }
  | publish (agent : Agent) : p.rx = .processing → p.agent.step .publish = some agent →
      Transition p .publish { p with agent, rx := agent.pub.phase.rxPhase }
  | poll : p.main = .waiting → p.pubThdInitDone = true →
      Transition p .poll { p with main := .constructing }
  | throws (ec : ErrorCode) : p.main = .constructing →
      Transition p (.construct ec) { p with main := .joining, runFlag := false }
  | constructed (ec : ErrorCode) : p.main = .constructing →
      Transition p (.construct ec) { p with main := .accepting }
  | startAccepting : p.main = .accepting →
      Transition p .startAccepting { p.startAccepting with main := .running }
  | acceptAgain (i : Nat) : p.main = .running → p.handler = .started i →
      Transition p .startAccepting { p.startAccepting with handler := .idle }
  | leave : p.main = .running → p.stopped = true → p.handler = .idle →
      Transition p .leave { p with main := .leaving }
  | destroy : p.main = .leaving →
      Transition p .destroy { p with main := .joining, destroyed := some p.agent }
  | join : p.main = .joining → Transition p .join { p with main := .returned }
  | acceptFails (ec : ErrorCode) : p.free = true → ec.isError = true →
      Transition p (.handleAccept ec) { p with accepting := false }
  | accept (ec : ErrorCode) (i : Nat) : p.free = true → p.accepting = true → p.session = some i →
      ec.isError = false →
      Transition p (.handleAccept ec)
        { p with accepting := false, pool := p.pool ++ [i], handler := .accepted i }
  | append (i : Nat) (agent : Agent) : p.handler = .accepted i →
      p.agent.step (.append i) = some agent →
      Transition p .append { p with agent, handler := .starting i }
  | renumber (agent : Agent) : p.agent.step .renumber = some agent →
      Transition p .renumber { p with agent }
  | recount (agent : Agent) : p.agent.step .recount = some agent →
      Transition p .recount { p with agent }
  | link (i : Nat) (agent : Agent) : p.handler = .starting i → p.agent.step .link = some agent →
      Transition p .link { p with agent, handler := .started i }
  | signal : p.free = true → Transition p .signal { p with runFlag := false, stopped := true }
  | transpose (i : Nat) (agent : Agent) : p.handler = .started i →
      p.agent.step (.session i .transpose) = some agent →
      Transition p (.session i .transpose) { p with agent }
  | session (i : Nat) (ev : SessionEvent) (agent : Agent) (handler : Handler) :
      p.free = true ∨ p.handler = .session i → handler = .session i ∨ handler = .idle →
      p.agent.step (.session i ev) = some agent →
      Transition p (.session i ev) { p with agent, handler }
  | client (i : Nat) (ev : ClientEvent) (agent : Agent) :
      p.agent.step (.client i ev) = some agent → Transition p (.client i ev) { p with agent }

theorem transition_of_sessionStep {p p' : AgentProcess} {i : Nat} {ev : SessionEvent}
    (hbusy : p.free = true ∨ p.handler = .session i) (h : p.sessionStep i ev = some p') :
    Transition p (.session i ev) p' := by
  obtain ⟨agent, hstep, rfl⟩ := Option.map_eq_some_iff.mp h
  refine .session i ev agent _ hbusy ?_ hstep
  split
  · exact Or.inl rfl
  · exact Or.inr rfl

theorem transition_of_check {p : AgentProcess} {e : UInt32} {next : RxPhase}
    (h : (p.rx = .openDevice ∧ next = .initCAN) ∨ (p.rx = .initCAN ∧ next = .startCAN) ∨
      (p.rx = .startCAN ∧ next = .initTick)) : Transition p (.vci e) (p.check e next) := by
  unfold check
  split
  · exact .vci e next h
  · exact .checkFails e

theorem transition_of_step {p p' : AgentProcess} {ev : AgentProcessEvent}
    (h : p.step ev = some p') :
    p.aborted = false ∧ Transition p ev p' := by
  unfold step at h
  split at h
  case isTrue => cases h
  case isFalse hrun =>
  refine ⟨Bool.eq_false_iff.mpr hrun, ?_⟩
  cases ev with
  | vci e =>
    dsimp only at h
    split at h
    · cases h
      exact transition_of_check (by simp [*])
    · cases h
      exact transition_of_check (by simp [*])
    · cases h
      exact transition_of_check (by simp [*])
    · cases h
  | initTick =>
    obtain ⟨hrx, heq⟩ := Option.ite_none_right_eq_some.mp h
    cases heq
    exact .initTick hrx
  | storeInitDone =>
    obtain ⟨hrx, heq⟩ := Option.ite_none_right_eq_some.mp h
    cases heq
    exact .storeInitDone hrx
  | loadRunFlag =>
    obtain ⟨hrx, heq⟩ := Option.ite_none_right_eq_some.mp h
    cases heq
    exact .loadRunFlag hrx
  | receive frames =>
    obtain ⟨hrx, heq⟩ := Option.ite_none_right_eq_some.mp h
    obtain ⟨agent, hstep, rfl⟩ := Option.map_eq_some_iff.mp heq
    exact .receive frames agent hrx hstep
  | publish =>
    obtain ⟨hrx, heq⟩ := Option.ite_none_right_eq_some.mp h
    obtain ⟨agent, hstep, rfl⟩ := Option.map_eq_some_iff.mp heq
    exact .publish agent hrx hstep
  | poll =>
    obtain ⟨hg, heq⟩ := Option.ite_none_right_eq_some.mp h
    cases heq
    exact .poll hg.1 hg.2
  | construct ec =>
    obtain ⟨hmain, heq⟩ := Option.ite_none_right_eq_some.mp h
    split at heq
    · cases heq
      exact .throws ec hmain
    · cases heq
      exact .constructed ec hmain
  | startAccepting =>
    dsimp only at h
    split at h
    case h_1 hmain =>
      cases h
      exact .startAccepting hmain
    case h_2 i hmain hhandler =>
      obtain ⟨-, heq⟩ := Option.ite_none_right_eq_some.mp h
      cases heq
      exact .acceptAgain i hmain hhandler
    case h_3 => cases h
  | leave =>
    obtain ⟨hg, heq⟩ := Option.ite_none_right_eq_some.mp h
    cases heq
    exact .leave hg.1 hg.2.1 hg.2.2
  | destroy =>
    obtain ⟨hmain, heq⟩ := Option.ite_none_right_eq_some.mp h
    cases heq
    exact .destroy hmain
  | join =>
    obtain ⟨hg, heq⟩ := Option.ite_none_right_eq_some.mp h
    cases heq
    exact .join hg.1
  | handleAccept ec =>
    obtain ⟨hg, heq⟩ := Option.ite_none_right_eq_some.mp h
    obtain ⟨i, hsession, rfl⟩ := Option.map_eq_some_iff.mp heq
    dsimp only
    split
    case isTrue he => exact .acceptFails ec hg.1 he
    case isFalse he => exact .accept ec i hg.1 hg.2 hsession (Bool.eq_false_iff.mpr he)
  | append =>
    dsimp only at h
    split at h
    case h_1 i hhandler =>
      obtain ⟨agent, hstep, rfl⟩ := Option.map_eq_some_iff.mp h
      exact .append i agent hhandler hstep
    case h_2 => cases h
  | renumber =>
    dsimp only at h
    split at h
    case h_1 =>
      obtain ⟨agent, hstep, rfl⟩ := Option.map_eq_some_iff.mp h
      exact .renumber agent hstep
    case h_2 => cases h
  | recount =>
    dsimp only at h
    split at h
    case h_1 =>
      obtain ⟨agent, hstep, rfl⟩ := Option.map_eq_some_iff.mp h
      exact .recount agent hstep
    case h_2 => cases h
  | link =>
    dsimp only at h
    split at h
    case h_1 i hhandler =>
      obtain ⟨agent, hstep, rfl⟩ := Option.map_eq_some_iff.mp h
      exact .link i agent hhandler hstep
    case h_2 => cases h
  | signal =>
    obtain ⟨hfree, heq⟩ := Option.ite_none_right_eq_some.mp h
    cases heq
    exact .signal hfree
  | session i ev =>
    dsimp only at h
    split at h
    case h_1 j hhandler =>
      obtain ⟨rfl, heq⟩ := Option.ite_none_right_eq_some.mp h
      exact transition_of_sessionStep (Or.inr hhandler) heq
    case h_2 j hhandler =>
      obtain ⟨rfl, heq⟩ := Option.ite_none_right_eq_some.mp h
      obtain ⟨agent, hstep, rfl⟩ := Option.map_eq_some_iff.mp heq
      exact .transpose i agent hhandler hstep
    case h_3 => cases h
    case h_4 =>
      obtain ⟨hfree, heq⟩ := Option.ite_none_right_eq_some.mp h
      exact transition_of_sessionStep (Or.inl hfree) heq
  | client i ev =>
    obtain ⟨agent, hstep, rfl⟩ := Option.map_eq_some_iff.mp h
    exact .client i ev agent hstep

end AgentProcess

def agentProcessSystem : LTS.System AgentProcess AgentProcessEvent where
  init p := ∃ agent, agentSystem.init agent ∧ p = .new agent
  step := AgentProcess.step

/-- Fewer than `2 ^ 32` sessions are ever started. -/
def AgentProcess.Countable (p : AgentProcess) : AgentProcessEvent → Prop
  | .append => p.agent.notifier.list.currentCounter + 1 ≠ 0
  | _ => True

instance (p : AgentProcess) : DecidablePred p.Countable := by
  intro ev
  cases ev with
  | append => exact inferInstanceAs (Decidable (_ ≠ _))
  | _ => exact inferInstanceAs (Decidable True)

end LibControlCan
