import LibControlCan.Agent.Delivery

/-! # The life of a session

    From `start()` to its destructor a session keeps itself alive: its
    listener and its outstanding operation both own it.
    `session_single_flight` is the result: until a write fails there is
    always one operation and one listener, and afterwards there is none, for
    good. -/

namespace LibControlCan

namespace Session

/-! ## Section 1: One session -/

/-- A failed write is not forgotten. -/
theorem Move.failed {s s' : Session} (h : Move s s') (hfailed : s.failed = true) :
    s'.failed = true := by
  cases h with
  | idle => exact hfailed
  | push node =>
    rcases consumeCanObjHandler_cases node s with ⟨-, heq⟩ | ⟨-, heq⟩ <;> rw [heq] <;> exact hfailed
  | start joined _ => exact hfailed
  | io ev s' hstep =>
    cases transition_of_step hstep with
    | failed => rfl
    | pop => exact hfailed
    | write => exact hfailed
    | wait => exact hfailed
    | send => exact hfailed
    | written => exact hfailed
    | wake => exact hfailed

/-- A session listens from `start()` until a write fails. -/
def Listening (s : Session) : Prop := s.registered = (s.started && !s.failed)

theorem Move.listening {s s' : Session} (h : Move s s') (hflight : s.Flight)
    (hlisten : s.Listening) : s'.Listening := by
  cases h with
  | idle => exact hlisten
  | push node =>
    rcases consumeCanObjHandler_cases node s with ⟨-, heq⟩ | ⟨-, heq⟩ <;> rw [heq] <;> exact hlisten
  | start joined hst =>
    obtain ⟨hfl, -⟩ := hflight.of_not_started hst
    simp [Listening, Session.start, hfl]
  | io ev s' hstep =>
    cases transition_of_step hstep with
    | failed => simp [Listening]
    | pop => exact hlisten
    | write => exact hlisten
    | wait => exact hlisten
    | send => exact hlisten
    | written => exact hlisten
    | wake => exact hlisten

/-- One operation is outstanding: a write of `shr_tx_buff_`, or a wait. -/
def OneOp (s : Session) : Prop := (∃ n, s.ops = [.write s.shrTxBuff n]) ∨ s.ops = [.wait]

/-- A round of the loop goes on to the next one, or starts an operation. -/
theorem transpose_step {s : Session} {i : Nat} (hrun : s.running = some i) (hops : s.ops = []) :
    ∃ t, s.step .transpose = some t ∧
      ((i < 8 ∧ t.running = some (i + 1) ∧ t.ops = []) ∨ (t.running = none ∧ t.OneOp)) := by
  obtain ⟨t, hstep⟩ : ∃ t, s.step .transpose = some t :=
    ⟨s.doCanObjTranspose i, by simp [step, hrun]⟩
  refine ⟨t, hstep, ?_⟩
  cases transition_of_step hstep with
  | pop i' node queue hrun' hlt hq =>
    rw [hrun] at hrun'
    cases hrun'
    exact Or.inl ⟨hlt, rfl, hops⟩
  | write i' _ _ _ => exact Or.inr ⟨rfl, Or.inl ⟨0, by simp [hops]⟩⟩
  | wait i' _ _ _ => exact Or.inr ⟨rfl, Or.inr (by simp [hops])⟩

/-- The loop ends with one operation started, after the rounds that are
    left. -/
theorem transpose_ends {s : Session} {i : Nat} (k : Nat) (hk : 8 ≤ i + k)
    (hrun : s.running = some i) (hops : s.ops = []) :
    ∃ n s', n ≤ k + 1 ∧ sessionSystem.exec s (List.replicate n (.io .transpose)) = some s' ∧
      s'.running = none ∧ s'.OneOp := by
  induction k generalizing s i with
  | zero =>
    obtain ⟨t, ht, hnext | hend⟩ := transpose_step hrun hops
    · omega
    · exact ⟨1, t, Nat.le_refl 1, by simp [LTS.System.exec_cons, sessionSystem, ht], hend⟩
  | succ k ih =>
    obtain ⟨t, ht, ⟨-, hrun', hops'⟩ | hend⟩ := transpose_step hrun hops
    · obtain ⟨n, s', hn, hexec, hend⟩ := ih (by omega) hrun' hops'
      refine ⟨n + 1, s', by omega, ?_, hend⟩
      rw [List.replicate_succ, LTS.System.exec_cons]
      simp only [sessionSystem, ht, Option.bind_some]
      exact hexec
    · exact ⟨1, t, by omega, by simp [LTS.System.exec_cons, sessionSystem, ht], hend⟩

/-- Between two handlers one operation is outstanding; while a handler
    runs there is none, and it ends with one started. -/
def SingleFlight (s : Session) : Prop :=
  (s.running = none → s.OneOp) ∧
  (s.running ≠ none → s.ops = [] ∧ ∃ n s', n ≤ 9 ∧
    sessionSystem.exec s (List.replicate n (.io .transpose)) = some s' ∧
    s'.running = none ∧ s'.OneOp)

theorem Flight.singleFlight {s : Session} (hf : s.Flight) (hst : s.started = true)
    (hok : s.failed = false) : s.SingleFlight := by
  cases hf with
  | created hst' _ _ _ => rw [hst] at hst'; cases hst'
  | stopped _ hfl _ _ => rw [hok] at hfl; cases hfl
  | looping i _ _ hrun hops =>
    refine ⟨fun hnone => ?_, fun _ => ⟨hops, transpose_ends 8 (by omega) hrun hops⟩⟩
    rw [hrun] at hnone
    cases hnone
  | writing n _ _ hrun hops _ => exact ⟨fun _ => Or.inl ⟨n, hops⟩, fun hne => absurd hrun hne⟩
  | waiting _ _ hrun hops => exact ⟨fun _ => Or.inr hops, fun hne => absurd hrun hne⟩

/-- After a failed write nothing goes on. -/
theorem Flight.stopped_of_failed {s : Session} (hf : s.Flight) (hfailed : s.failed = true) :
    s.running = none ∧ s.ops = [] := by
  cases hf with
  | stopped _ _ hrun hops => exact ⟨hrun, hops⟩
  | created _ hfl _ _ => rw [hfailed] at hfl; cases hfl
  | looping _ _ hfl _ _ => rw [hfailed] at hfl; cases hfl
  | writing _ _ hfl _ _ _ => rw [hfailed] at hfl; cases hfl
  | waiting _ hfl _ _ => rw [hfailed] at hfl; cases hfl

end Session

/-! ## Section 2: The system with destructors -/

namespace Deployment

/-- The node of the listener of session `i` exists: it is on the event
    queue, or the dispatch holds it. -/
def handleAlive (d : Deployment) (i : Nat) : Prop :=
  i ∈ d.listeners ∨ d.rx.toVisit.head? = some i

instance (d : Deployment) (i : Nat) : Decidable (d.handleAlive i) :=
  inferInstanceAs (Decidable (_ ∨ _))

/-- Somebody owns session `i`: a handler that runs, an operation that is
    outstanding, or the callback of its listener. -/
def owned (d : Deployment) (i : Nat) : Prop :=
  (d.sessions i).running ≠ none ∨ (d.sessions i).ops ≠ [] ∨ d.handleAlive i

instance (d : Deployment) (i : Nat) : Decidable (d.owned i) :=
  inferInstanceAs (Decidable (_ ∨ _ ∨ _))

/-- `disconnectToEventqq` of session `i`, with its test of `use_count()`. -/
def disconnectToEventqq (d : Deployment) (i : Nat) : Deployment :=
  if d.handleAlive i then
    { d.setSession i (d.sessions i).disconnectToEventqq with listeners := d.listeners.erase i }
  else d

/-- `~Session`, which runs when the last owner is gone. -/
def destroySession (d : Deployment) (i : Nat) : Option Deployment :=
  if d.owned i then none else some (d.disconnectToEventqq i)

/-- The destructor finds its listener gone. -/
theorem destroySession_eq_some {d d' : Deployment} {i : Nat} (h : d.destroySession i = some d') :
    d' = d := by
  unfold destroySession at h
  split at h
  case isTrue => cases h
  case isFalse hfree =>
    cases h
    exact if_neg fun halive => hfree (Or.inr (Or.inr halive))

end Deployment

/-- An event of the agent and its clients, or the end of a session. -/
inductive LifecycleEvent where
  | agent (ev : DeploymentEvent)
  | destroy (i : Nat)

def lifecycleSystem : LTS.System Deployment LifecycleEvent where
  init := deploymentSystem.init
  step d
    | .agent ev => d.step ev
    | .destroy i => d.destroySession i

namespace Deployment

/-- Destructors reach no new states. -/
theorem reachable_of_lifecycle {d : Deployment} (h : lifecycleSystem.Reachable d) :
    deploymentSystem.Reachable d := by
  refine lifecycleSystem.reachable_invariant ?_ ?_ h
  · intro d hd
    exact LTS.System.ReachableBy.init hd
  · intro d ev d' hd hstep
    cases ev with
    | agent ev => exact .step ev hd trivial hstep
    | destroy i => rwa [destroySession_eq_some hstep]

theorem listening_of_reachable {d : Deployment} (h : deploymentSystem.Reachable d) (i : Nat) :
    (d.sessions i).Listening := by
  induction h with
  | init hd =>
    obtain ⟨sendBuff, nets, -, rfl⟩ := hd
    rfl
  | step ev hd _ hstep ih =>
    exact (move_of_step hstep i).listening ((inv_of_reachable hd).link i).session.flight ih

theorem failed_exec {d d' : Deployment} {evs : List LifecycleEvent} {i : Nat}
    (hfailed : (d.sessions i).failed = true) (h : lifecycleSystem.exec d evs = some d') :
    (d'.sessions i).failed = true := by
  have hkeep : ∀ d ev d', (d.sessions i).failed = true → lifecycleSystem.step d ev = some d' →
      (d'.sessions i).failed = true := by
    intro d ev d' hd hstep
    cases ev with
    | agent ev => exact (move_of_step hstep i).failed hd
    | destroy j => rwa [destroySession_eq_some hstep]
  exact lifecycleSystem.exec_invariant hkeep hfailed h

end Deployment

/-- **Single flight.** In every interleaving of dispatches, completions and
    the ends of sessions, for every session that was started: while none of
    its writes has failed, it has one listener on the event queue, and one
    operation outstanding between any two of its handlers.  Once a write has
    failed it has neither, and never again. -/
theorem session_single_flight {d : Deployment} (h : lifecycleSystem.Reachable d) {i : Nat}
    (hst : (d.sessions i).started = true) :
    ((d.sessions i).failed = false →
      d.listeners.count i = 1 ∧ (d.sessions i).SingleFlight) ∧
    ((d.sessions i).failed = true → ∀ evs d', lifecycleSystem.exec d evs = some d' →
      d'.listeners.count i = 0 ∧ (d'.sessions i).running = none ∧ (d'.sessions i).ops = []) := by
  constructor
  · intro hok
    have hreach := Deployment.reachable_of_lifecycle h
    have hinv := Deployment.inv_of_reachable hreach
    refine ⟨?_, (hinv.link i).session.flight.singleFlight hst hok⟩
    have hlisten := Deployment.listening_of_reachable hreach i
    refine List.count_eq_one_of_mem hinv.registry.nodup ((hinv.registry.registered i).mpr ?_)
    rw [hlisten, hst, hok]
    rfl
  · intro hfailed evs d' hexec
    have hreach' := Deployment.reachable_of_lifecycle (LTS.System.Reachable.exec _ h hexec)
    have hfailed' := Deployment.failed_exec hfailed hexec
    have hinv' := Deployment.inv_of_reachable hreach'
    refine ⟨?_, (hinv'.link i).session.flight.stopped_of_failed hfailed'⟩
    have hlisten := Deployment.listening_of_reachable hreach' i
    rw [List.count_eq_zero, hinv'.registry.registered i, hlisten, hfailed']
    simp

/-- A session that gets one frame and whose first write fails. -/
def failedWrite : List LifecycleEvent :=
  [.agent (.start 0 false), .agent (.canRx [(7, .zero)]), .agent .dispatch, .agent (.visit false),
    .agent .finish, .agent (.session 0 .transpose), .agent (.session 0 .transpose),
    .agent (.session 0 (.written 0 ⟨104⟩))]

theorem session_single_flight_sample :
    ∃ d d', lifecycleSystem.exec (.new (fun _ => 0) fun _ => freshClient) failedWrite = some d ∧
      lifecycleSystem.exec d [.destroy 0] = some d' ∧
      d'.listeners.count 0 = 0 ∧ (d'.sessions 0).running = none ∧ (d'.sessions 0).ops = [] := by
  have hrun : (lifecycleSystem.exec (.new (fun _ => 0) fun _ => freshClient) failedWrite).map
      (fun d => ((d.sessions 0).started, (d.sessions 0).failed,
        (lifecycleSystem.exec d [.destroy 0]).isSome)) = some (true, true, true) := by
    decide +kernel
  obtain ⟨d, hd, hval⟩ := Option.map_eq_some_iff.mp hrun
  simp only [Prod.mk.injEq] at hval
  obtain ⟨hst, hfailed, hdestroy⟩ := hval
  obtain ⟨d', hd'⟩ := Option.isSome_iff_exists.mp hdestroy
  have hinit : lifecycleSystem.Reachable (.new (fun _ => 0) fun _ => freshClient) :=
    .init ⟨_, _, fun _ => ⟨rfl, rfl⟩, rfl⟩
  have hreach := LTS.System.Reachable.exec _ hinit hd
  exact ⟨d, d', hd, hd', (session_single_flight hreach hst).2 hfailed _ d' hd'⟩

end LibControlCan
