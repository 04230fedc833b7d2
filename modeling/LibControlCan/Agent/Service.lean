import LibControlCan.Agent.Process

/-! # The service that the process gives

    From the first `VCI_OpenDevice` to the return of `main`.

    * `process_serves`: who is in the pool, and when anybody can be.
    * `accept_error_ends_accepting`: one failed accept is the last one.
    * `main_returns`: once `run_flag` is cleared, `main` can come to its end.
    * `shutdown_outlives`: which sessions are then destroyed after the I/O
      context that their sockets and timers belong to. -/

namespace LibControlCan

open Asio

/-! ## Section 1: What the agent's events leave alone -/

namespace Agent

variable {a a' : Agent}

/-- The events of the thread of `canRxFunc` only push to the queues of the
    sessions. -/
structure RxFrame (a a' : Agent) : Prop where
  appending : a'.notifier.appending = a.notifier.appending
  sessions : ∀ i, ∃ spscQueue offers, a'.sessions i = { a.sessions i with spscQueue, offers }

theorem RxFrame.started (h : RxFrame a a') (i : Nat) :
    (a'.sessions i).started = (a.sessions i).started := by
  obtain ⟨_, _, heq⟩ := h.sessions i
  rw [heq]

theorem RxFrame.failed (h : RxFrame a a') (i : Nat) :
    (a'.sessions i).failed = (a.sessions i).failed := by
  obtain ⟨_, _, heq⟩ := h.sessions i
  rw [heq]

theorem receive_frame {frames : List (UInt64 × VciCanObj)}
    (h : a.step (.receive frames) = some a') :
    RxFrame a a' ∧ a'.pub.phase = .process frames.length := by
  simp only [step] at h
  split at h
  case h_2 => cases h
  case h_1 =>
    obtain ⟨-, heq⟩ := Option.ite_none_right_eq_some.mp h
    obtain ⟨pub, -, rfl⟩ := Option.map_eq_some_iff.mp heq
    exact ⟨⟨rfl, fun i => ⟨_, _, rfl⟩⟩, rfl⟩

theorem publish_frame (h : a.publish = some a') : RxFrame a a' := by
  rcases publish_cases h with ⟨_, rfl⟩ | ⟨_, _, hdispatch, rfl⟩ | ⟨cursor, _, node, hwalk, rfl⟩
  · exact ⟨rfl, fun i => ⟨_, _, rfl⟩⟩
  · refine ⟨?_, fun i => ⟨_, _, rfl⟩⟩
    simp only [Notifier.step] at hdispatch
    split at hdispatch <;> cases hdispatch
    rfl
  · obtain ⟨_, -, rfl⟩ := Option.map_eq_some_iff.mp hwalk
    exact ⟨rfl, fun i => a.consume_eq node cursor.calling i⟩

/-- The events of the I/O thread that are not part of `append`. -/
structure IoFrame (a a' : Agent) : Prop where
  pub : a'.pub = a.pub
  appending : a'.notifier.appending = a.notifier.appending
  started : ∀ i, (a'.sessions i).started = (a.sessions i).started

theorem session_frame {i : Nat} {ev : SessionEvent} (h : a.step (.session i ev) = some a') :
    IoFrame a a' := by
  simp only [step] at h
  split at h
  case h_2 => cases h
  case h_1 =>
    obtain ⟨s, hs, hrest⟩ := Option.bind_eq_some_iff.mp h
    have hstarted : ∀ j, (Function.update a.sessions i s j).started = (a.sessions j).started := by
      intro j
      rcases eq_or_ne j i with rfl | hne
      · rw [Function.update_self]
        exact (Session.frame_step hs).started
      · rw [Function.update_of_ne hne]
    split at hrest
    · cases hrest
      exact ⟨rfl, rfl, hstarted⟩
    · obtain ⟨notifier, hremove, rfl⟩ := Option.map_eq_some_iff.mp hrest
      cases hremove
      exact ⟨rfl, rfl, hstarted⟩

theorem client_frame {i : Nat} {ev : ClientEvent} (h : a.step (.client i ev) = some a') :
    IoFrame a a' ∧ a'.sessions = a.sessions := by
  obtain ⟨-, heq⟩ := Option.ite_none_right_eq_some.mp h
  obtain ⟨c, -, rfl⟩ := Option.map_eq_some_iff.mp heq
  exact ⟨⟨rfl, rfl, fun _ => rfl⟩, rfl⟩

theorem append_frame (h : agentSystem.ReachableBy Countable a) {i : Nat}
    (hguard : a.Countable (.append i)) (hstep : a.step (.append i) = some a') :
    a'.pub = a.pub ∧ a'.sessions = a.sessions ∧
      ∃ counter, a'.notifier.appending = .counted i counter := by
  obtain ⟨d, -, live, ahead, hmatch⟩ := matches_of_reachable h
  simp only [step] at hstep
  split at hstep
  case isTrue => cases hstep
  case isFalse =>
    obtain ⟨notifier, hcount, rfl⟩ := Option.map_eq_some_iff.mp hstep
    obtain ⟨-, -, -, -, -, happ⟩ := Notifier.tracks_count hmatch.tracks hguard hcount
    exact ⟨rfl, rfl, _, happ⟩

theorem link_frame {i : Nat} {counter : UInt32} (happ : a.notifier.appending = .counted i counter)
    (hstep : a.step .link = some a') :
    a'.pub = a.pub ∧ a'.notifier.appending = .idle ∧
      a'.sessions =
        Function.update a.sessions i ((a.sessions i).start a.pub.dispatched.length) := by
  simp only [step, happ] at hstep
  obtain ⟨notifier, hlink, rfl⟩ := Option.map_eq_some_iff.mp hstep
  simp only [Notifier.step, happ, Option.some.injEq] at hlink
  subst hlink
  exact ⟨rfl, rfl, rfl⟩

/-- The listeners are the sessions that were started and whose writes have
    not failed. -/
theorem mem_names_linked (h : agentSystem.ReachableBy Countable a) (i : Nat) :
    i ∈ a.names a.notifier.linked ↔
      (a.sessions i).started = true ∧ (a.sessions i).failed = false := by
  obtain ⟨d, hreach, live, ahead, hmatch⟩ := matches_of_reachable h
  obtain ⟨joined, -, hi⟩ := hmatch.sessions i
  have hlisten := Deployment.listening_of_reachable hreach i
  rw [hmatch.tracks.represents.linked_eq, ← hmatch.listeners,
    (Deployment.inv_of_reachable hreach).registry.registered i, hlisten, hi, Bool.and_eq_true,
    Bool.not_eq_true']
  rfl

theorem holds_iff {i : Nat} :
    a.holds i = true ↔ ∃ node ∈ a.notifier.alive, a.notifier.list.callbackOf node = some i := by
  rw [holds, List.contains_iff_mem, names, List.mem_filterMap]

/-- A listener holds its session. -/
theorem holds_of_started (h : agentSystem.ReachableBy Countable a) {i : Nat}
    (hst : (a.sessions i).started = true) (hok : (a.sessions i).failed = false) :
    a.holds i = true := by
  have hlinked := (mem_names_linked h i).mpr ⟨hst, hok⟩
  obtain ⟨node, hnode, hi⟩ := List.mem_filterMap.mp hlinked
  exact holds_iff.mpr ⟨node, Notifier.alive_of_linked (notifier_of_reachable h) hnode, hi⟩

/-- A session whose write has failed is held for a dispatch only, one that
    began before its listener was removed. -/
theorem recent_of_holds (h : agentSystem.ReachableBy Countable a) {i : Nat}
    (hi : a.holds i = true) (hfailed : (a.sessions i).failed = true) :
    a.notifier.cursor ≠ none ∧
      ∃ node, a.notifier.list.callbackOf node = some i ∧ a.notifier.Recent node := by
  obtain ⟨node, halive, hnode⟩ := holds_iff.mp hi
  rcases Notifier.linked_or_recent_of_alive (notifier_of_reachable h) halive with hlinked | hrecent
  · have hmem := List.mem_filterMap.mpr ⟨node, hlinked, hnode⟩
    rw [((mem_names_linked h i).mp hmem).2] at hfailed
    cases hfailed
  · exact ⟨hrecent.1, node, hnode, hrecent.2⟩

/-- The counter of the listeners never overflows. -/
theorem not_overflow (h : agentSystem.ReachableBy Countable a) :
    a.step .renumber = none ∧ a.step .recount = none := by
  obtain ⟨d, -, live, ahead, hmatch⟩ := matches_of_reachable h
  obtain ⟨hrenumber, hrecount⟩ := hmatch.tracks.not_overflow
  simp [step, hrenumber, hrecount]

end Agent

/-! ## Section 2: The server -/

namespace AgentProcess

variable {p p' : AgentProcess} {ev : AgentProcessEvent}

/-- The agent of the process is the agent: what holds of it in every state
    that it can reach holds here. -/
theorem agent_of_reachable (h : agentProcessSystem.ReachableBy Countable p) :
    agentSystem.ReachableBy Agent.Countable p.agent := by
  induction h with
  | init hp =>
    obtain ⟨agent, hagent, rfl⟩ := hp
    exact .init hagent
  | step ev _ hguard hstep ih =>
    cases (transition_of_step hstep).2 with
    | receive frames agent _ hag => exact .step (.receive frames) ih trivial hag
    | publish agent _ hag => exact .step .publish ih trivial hag
    | append i agent _ hag => exact .step (.append i) ih hguard hag
    | renumber agent hag => exact .step .renumber ih trivial hag
    | recount agent hag => exact .step .recount ih trivial hag
    | link i agent _ hag => exact .step .link ih trivial hag
    | transpose i agent _ hag => exact .step (.session i .transpose) ih trivial hag
    | session i ev agent _ _ _ hag => exact .step (.session i ev) ih trivial hag
    | client i ev agent hag => exact .step (.client i ev) ih trivial hag
    | _ => exact ih

/-- What the server is doing. -/
structure ServerView where
  session : Option Nat
  accepted : Nat
  accepting : Bool
  handler : Handler
  appending : Appending Nat
  main : MainPhase

def view (p : AgentProcess) : ServerView :=
  { session := p.session, accepted := p.pool.length, accepting := p.accepting,
    handler := p.handler, appending := p.agent.notifier.appending, main := p.main }

/-- Where the server is, when sessions `0` to `n - 1` are started. -/
inductive Place (v : ServerView) (n : Nat) : Prop where
  /-- `startAccepting` was not called. -/
  | before : n = 0 → v.session = none → v.accepted = 0 → v.handler = .idle → v.appending = .idle →
      v.main ≠ .running → v.main ≠ .leaving → Place v n
  /-- The next connection gets session `n`. -/
  | serving : v.session = some n → v.accepted = n →
      v.handler = .idle ∨ (∃ j, v.handler = .session j) → v.appending = .idle →
      v.main ≠ .waiting → v.main ≠ .constructing → v.main ≠ .accepting → Place v n
  /-- `handleAccept` before, in and after `append`. -/
  | accepted : v.session = some n → v.accepted = n + 1 → v.accepting = false →
      v.handler = .accepted n → v.appending = .idle → v.main = .running → Place v n
  | starting (counter : UInt32) : v.session = some n → v.accepted = n + 1 → v.accepting = false →
      v.handler = .starting n → v.appending = .counted n counter → v.main = .running → Place v n
  | started (i : Nat) : n = i + 1 → v.session = some i → v.accepted = n → v.accepting = false →
      v.handler = .started i → v.appending = .idle → v.main = .running → Place v n

/-- The sessions are accepted and started in the order of their
    construction. -/
structure Served (p : AgentProcess) (n : Nat) : Prop where
  started : ∀ j, (p.agent.sessions j).started = true ↔ j < n
  pool : p.pool = List.range p.pool.length
  place : Place p.view n

theorem served_new {agent : Agent} (h : agentSystem.init agent) : (new agent).Served 0 := by
  obtain ⟨sendBuff, nets, -, rfl⟩ := h
  refine ⟨?_, rfl, .before rfl rfl rfl rfl rfl (by simp [view, new]) (by simp [view, new])⟩
  intro j
  simp [new, Agent.new, Session.new]

/-- A step that the server does not see. -/
theorem Served.congr {n : Nat} (h : p.Served n) (hpool : p'.pool = p.pool)
    (hview : p'.view = p.view)
    (hstarted : ∀ j, (p'.agent.sessions j).started = (p.agent.sessions j).started) :
    p'.Served n where
  started j := by rw [hstarted, h.started]
  pool := by rw [hpool, ← h.pool]
  place := hview ▸ h.place

/-- Until `startAccepting` there is no session. -/
theorem Served.of_early {n : Nat} (h : p.Served n)
    (hmain : p.main = .waiting ∨ p.main = .constructing ∨ p.main = .accepting) :
    n = 0 ∧ p.session = none ∧ p.pool.length = 0 ∧ p.handler = .idle ∧
      p.agent.notifier.appending = .idle := by
  cases h.place with
  | before hn hsession hlen hhandler happ => exact ⟨hn, hsession, hlen, hhandler, happ⟩
  | serving _ _ _ _ h₁ h₂ h₃ => exact (hmain.elim h₁ fun hmain => hmain.elim h₂ h₃).elim
  | accepted _ _ _ _ _ hrun => simp [show p.main = .running from hrun] at hmain
  | starting _ _ _ _ _ _ hrun => simp [show p.main = .running from hrun] at hmain
  | started _ _ _ _ _ _ _ hrun => simp [show p.main = .running from hrun] at hmain

/-- Between two connections. -/
theorem Served.of_serving {n : Nat} (h : p.Served n)
    (hbusy : p.main = .running ∧ p.handler = .idle ∨ ∃ i, p.handler = .session i) :
    p.session = some n ∧ p.pool.length = n ∧ p.agent.notifier.appending = .idle ∧
      p.main ≠ .waiting ∧ p.main ≠ .constructing ∧ p.main ≠ .accepting := by
  have hnot : ∀ handler, p.handler = handler → handler = .idle ∨ ∃ i, handler = .session i := by
    rintro _ rfl
    exact hbusy.imp And.right id
  cases h.place with
  | before _ _ _ hidle _ hrun =>
    rcases hbusy with ⟨hmain, -⟩ | ⟨i, hi⟩
    · exact absurd hmain hrun
    · rw [show p.handler = .idle from hidle] at hi
      cases hi
  | serving hsession hlen _ happ h₁ h₂ h₃ => exact ⟨hsession, hlen, happ, h₁, h₂, h₃⟩
  | accepted _ _ _ hother => simpa using hnot _ hother
  | starting _ _ _ _ hother => simpa using hnot _ hother
  | started _ _ _ _ _ hother => simpa using hnot _ hother

theorem running_of_free (h : p.free = true) : p.main = .running ∧ p.handler = .idle :=
  ⟨(free_iff.mp h).1, (free_iff.mp h).2.2⟩

/-- In `handleAccept`. -/
theorem Served.of_handleAccept {n : Nat} (h : p.Served n) :
    (∀ i, p.handler = .accepted i → i = n ∧ p.session = some n ∧ p.pool.length = n + 1 ∧
      p.accepting = false ∧ p.main = .running) ∧
    (∀ i, p.handler = .starting i → i = n ∧ p.session = some n ∧ p.pool.length = n + 1 ∧
      p.accepting = false ∧ p.main = .running ∧
      ∃ counter, p.agent.notifier.appending = .counted n counter) ∧
    ∀ i, p.handler = .started i → n = i + 1 ∧ p.session = some i ∧ p.pool.length = n ∧
      p.agent.notifier.appending = .idle ∧ p.main = .running := by
  cases h.place with
  | before _ _ _ hidle => simp [show p.handler = .idle from hidle]
  | serving _ _ hhandler =>
    rcases hhandler with hidle | ⟨j, hj⟩
    · simp [show p.handler = .idle from hidle]
    · simp [show p.handler = .session j from hj]
  | accepted hs hlen hacc hhandler happ hmain =>
    rw [show p.handler = .accepted n from hhandler]
    refine ⟨?_, by simp, by simp⟩
    rintro i ⟨⟩
    exact ⟨rfl, hs, hlen, hacc, hmain⟩
  | starting counter hs hlen hacc hhandler happ hmain =>
    rw [show p.handler = .starting n from hhandler]
    refine ⟨by simp, ?_, by simp⟩
    rintro i ⟨⟩
    exact ⟨rfl, hs, hlen, hacc, hmain, counter, happ⟩
  | started j hn hs hlen hacc hhandler happ hmain =>
    rw [show p.handler = .started j from hhandler]
    refine ⟨by simp, by simp, ?_⟩
    rintro i ⟨⟩
    exact ⟨hn, hs, hlen, happ, hmain⟩

/-- After `run()` the server does nothing any more. -/
theorem Place.down {v : ServerView} {n : Nat} (h : Place v n) {main : MainPhase}
    (hdown : v.main = .leaving ∨ v.main = .joining) (hmain : main = .joining ∨ main = .returned) :
    Place { v with main } n := by
  cases h with
  | before hn hs hlen hhandler happ =>
    refine .before hn hs hlen hhandler happ ?_ ?_ <;> rcases hmain with rfl | rfl <;> simp
  | serving hs hlen hhandler happ =>
    refine .serving hs hlen hhandler happ ?_ ?_ ?_ <;> rcases hmain with rfl | rfl <;> simp
  | accepted _ _ _ _ _ hrun => simp [hrun] at hdown
  | starting _ _ _ _ _ _ hrun => simp [hrun] at hdown
  | started _ _ _ _ _ _ _ hrun => simp [hrun] at hdown

/-- **Step lemma.** -/
theorem served_step {n : Nat} (h : p.Served n)
    (hagent : agentSystem.ReachableBy Agent.Countable p.agent) (hguard : p.Countable ev)
    (hstep : p.step ev = some p') : ∃ n', p'.Served n' := by
  have hsame : ∀ j, (p.agent.sessions j).started = (p.agent.sessions j).started := fun _ => rfl
  cases (transition_of_step hstep).2 with
  | vci => exact ⟨n, h.congr rfl rfl hsame⟩
  | checkFails => exact ⟨n, h.congr rfl rfl hsame⟩
  | initTick => exact ⟨n, h.congr rfl rfl hsame⟩
  | storeInitDone => exact ⟨n, h.congr rfl rfl hsame⟩
  | loadRunFlag => exact ⟨n, h.congr rfl rfl hsame⟩
  | signal => exact ⟨n, h.congr rfl rfl hsame⟩
  | receive frames agent _ hrecv =>
    have hframe := (Agent.receive_frame hrecv).1
    exact ⟨n, h.congr rfl (by simp [view, hframe.appending]) hframe.started⟩
  | publish agent _ hpub =>
    have hframe := Agent.publish_frame hpub
    exact ⟨n, h.congr rfl (by simp [view, hframe.appending]) hframe.started⟩
  | transpose i agent _ hsession =>
    have hframe := Agent.session_frame hsession
    exact ⟨n, h.congr rfl (by simp [view, hframe.appending]) hframe.started⟩
  | client i ev agent hclient =>
    have hframe := (Agent.client_frame hclient).1
    exact ⟨n, h.congr rfl (by simp [view, hframe.appending]) hframe.started⟩
  | renumber agent hnone =>
    rw [(Agent.not_overflow hagent).1] at hnone
    cases hnone
  | recount agent hnone =>
    rw [(Agent.not_overflow hagent).2] at hnone
    cases hnone
  | session i ev agent handler hbusy hhandler hsession =>
    have hframe := Agent.session_frame hsession
    obtain ⟨hs, hlen, happ, hm₁, hm₂, hm₃⟩ :=
      h.of_serving (hbusy.imp running_of_free fun hi => ⟨i, hi⟩)
    refine ⟨n, fun j => by rw [hframe.started, h.started], h.pool, ?_⟩
    exact .serving hs hlen (hhandler.elim (fun he => Or.inr ⟨i, he⟩) Or.inl)
      (hframe.appending.trans happ) hm₁ hm₂ hm₃
  | poll hmain _ =>
    obtain ⟨rfl, hs, hlen, hhandler, happ⟩ := h.of_early (Or.inl hmain)
    exact ⟨0, h.started, h.pool,
      .before rfl hs hlen hhandler happ (by simp [view]) (by simp [view])⟩
  | throws ec hmain =>
    obtain ⟨rfl, hs, hlen, hhandler, happ⟩ := h.of_early (Or.inr (Or.inl hmain))
    exact ⟨0, h.started, h.pool,
      .before rfl hs hlen hhandler happ (by simp [view]) (by simp [view])⟩
  | constructed ec hmain =>
    obtain ⟨rfl, hs, hlen, hhandler, happ⟩ := h.of_early (Or.inr (Or.inl hmain))
    exact ⟨0, h.started, h.pool,
      .before rfl hs hlen hhandler happ (by simp [view]) (by simp [view])⟩
  | startAccepting hmain =>
    obtain ⟨rfl, hs, hlen, hhandler, happ⟩ := h.of_early (Or.inr (Or.inr hmain))
    refine ⟨0, h.started, h.pool, .serving ?_ hlen (Or.inl hhandler) happ ?_ ?_ ?_⟩ <;>
      simp [view, startAccepting, hs]
  | acceptAgain i hmain hhandler =>
    obtain ⟨rfl, hs, hlen, happ, -⟩ := h.of_handleAccept.2.2 i hhandler
    refine ⟨i + 1, h.started, h.pool, .serving ?_ hlen (Or.inl rfl) happ ?_ ?_ ?_⟩ <;>
      simp [view, startAccepting, hs, hmain]
  | leave hmain _ hidle =>
    obtain ⟨hs, hlen, happ, -⟩ := h.of_serving (Or.inl ⟨hmain, hidle⟩)
    refine ⟨n, h.started, h.pool, .serving hs hlen (Or.inl hidle) happ ?_ ?_ ?_⟩ <;> simp [view]
  | destroy hmain => exact ⟨n, h.started, h.pool, h.place.down (Or.inl hmain) (Or.inl rfl)⟩
  | join hmain => exact ⟨n, h.started, h.pool, h.place.down (Or.inr hmain) (Or.inr rfl)⟩
  | acceptFails ec hfree _ =>
    obtain ⟨hs, hlen, happ, hm₁, hm₂, hm₃⟩ := h.of_serving (Or.inl (running_of_free hfree))
    exact ⟨n, h.started, h.pool,
      .serving hs hlen (Or.inl (running_of_free hfree).2) happ hm₁ hm₂ hm₃⟩
  | accept ec i hfree _ hsession _ =>
    obtain ⟨hs, hlen, happ, -⟩ := h.of_serving (Or.inl (running_of_free hfree))
    obtain rfl : i = n := Option.some.inj (hsession.symm.trans hs)
    have hlen' : (p.pool ++ [i]).length = i + 1 := by rw [List.length_append, hlen]; rfl
    refine ⟨i, h.started, ?_, .accepted hsession hlen' rfl rfl happ (running_of_free hfree).1⟩
    show p.pool ++ [i] = List.range (p.pool ++ [i]).length
    rw [hlen', List.range_succ, ← hlen, ← h.pool]
  | append i agent hhandler happend =>
    obtain ⟨rfl, hs, hlen, hacc, hmain⟩ := h.of_handleAccept.1 i hhandler
    obtain ⟨-, hsessions, counter, hcounted⟩ := Agent.append_frame hagent hguard happend
    refine ⟨i, ?_, h.pool, .starting counter hs hlen hacc rfl hcounted hmain⟩
    intro j
    show (agent.sessions j).started = true ↔ _
    rw [hsessions, h.started]
  | link i agent hhandler hlink =>
    obtain ⟨rfl, hs, hlen, hacc, hmain, counter, hcounted⟩ := h.of_handleAccept.2.1 i hhandler
    obtain ⟨-, hidle, hsessions⟩ := Agent.link_frame hcounted hlink
    refine ⟨i + 1, ?_, h.pool, .started i rfl hs hlen hacc rfl hidle hmain⟩
    intro j
    show (agent.sessions j).started = true ↔ _
    rw [hsessions]
    rcases eq_or_ne j i with rfl | hne
    · rw [Function.update_self]
      simp [Session.start]
    · rw [Function.update_of_ne hne, h.started]
      omega

theorem served_of_reachable (h : agentProcessSystem.ReachableBy Countable p) : ∃ n, p.Served n := by
  induction h with
  | init hp =>
    obtain ⟨agent, hagent, rfl⟩ := hp
    exact ⟨0, served_new hagent⟩
  | step ev hp hguard hstep ih =>
    obtain ⟨n, hserved⟩ := ih
    exact served_step hserved (agent_of_reachable hp) hguard hstep

end AgentProcess

/-! ## Section 3: The two threads -/

/-- The thread of `canRxFunc` has come to its loop. -/
def RxPhase.inLoop : RxPhase → Bool
  | .loop => true
  | .receiving => true
  | .processing => true
  | .exited => true
  | _ => false

namespace AgentProcess

variable {p p' : AgentProcess} {ev : AgentProcessEvent}

/-- `main` is on its way out, or the I/O context is about to return to
    it. -/
def Down (p : AgentProcess) : Prop :=
  p.main = .running ∧ p.stopped = true ∨ p.main = .leaving ∨ p.main = .joining ∨ p.main = .returned

theorem Down.not_free (h : p.Down) : p.free = false := by
  rw [Bool.eq_false_iff]
  intro hfree
  obtain ⟨hmain, hstopped, -⟩ := free_iff.mp hfree
  rcases h with ⟨-, hs⟩ | hm | hm | hm
  · rw [hstopped] at hs
    cases hs
  · rw [hmain] at hm
    cases hm
  · rw [hmain] at hm
    cases hm
  · rw [hmain] at hm
    cases hm

/-- What the threads know of each other. -/
structure Threads (p : AgentProcess) : Prop where
  ready : p.main ≠ .waiting → p.pubThdInitDone = true
  inLoop : p.pubThdInitDone = true → p.rx.inLoop = true
  publisher : p.agent.pub.phase = .receive ↔ p.rx ≠ .processing
  flag : p.runFlag = false ↔ p.Down
  idle : p.Down → p.handler = .idle
  stopped : p.stopped = true → p.Down

theorem threads_new {agent : Agent} (h : agentSystem.init agent) : (new agent).Threads := by
  obtain ⟨sendBuff, nets, -, rfl⟩ := h
  exact ⟨fun h => absurd rfl h, fun h => (by cases h), ⟨fun _ => (by simp [new]), fun _ => rfl⟩,
    by simp [new, Down], fun _ => rfl, fun h => (by cases h)⟩

/-- A handler that begins or goes on. -/
theorem Threads.busy (h : p.Threads) (hbusy : p.free = true ∨ p.handler ≠ .idle) : ¬ p.Down := by
  intro hdown
  rcases hbusy with hfree | hne
  · rw [hdown.not_free] at hfree
    cases hfree
  · exact hne (h.idle hdown)

/-- A step that leaves the places of the threads and the flags alone. -/
theorem Threads.congr (h : p.Threads) (hmain : p'.main = p.main)
    (hdone : p'.pubThdInitDone = p.pubThdInitDone) (hrx : p'.rx = p.rx)
    (hpub : p'.agent.pub = p.agent.pub) (hflag : p'.runFlag = p.runFlag)
    (hstopped : p'.stopped = p.stopped) (hhandler : p.Down → p'.handler = .idle) : p'.Threads := by
  have hdown : p'.Down ↔ p.Down := by rw [Down, Down, hmain, hstopped]
  exact ⟨by rw [hmain, hdone]; exact h.ready, by rw [hdone, hrx]; exact h.inLoop,
    by rw [hpub, hrx]; exact h.publisher, by rw [hflag, hdown]; exact h.flag,
    fun hd => hhandler (hdown.mp hd), fun hs => hdown.mpr (h.stopped (hstopped ▸ hs))⟩

/-- A step of the thread of `canRxFunc`. -/
theorem Threads.setRx (h : p.Threads) {rx : RxPhase} {agent : Agent}
    (hloop : p.pubThdInitDone = true → rx.inLoop = true)
    (hpub : agent.pub.phase = .receive ↔ rx ≠ .processing) :
    Threads { p with rx, agent } :=
  ⟨h.ready, hloop, hpub, h.flag, h.idle, h.stopped⟩

/-- `main` goes on towards `io_context.run()`. -/
theorem Threads.setMain (h : p.Threads) {main : MainPhase} {session : Option Nat} {accepting : Bool}
    (hdone : p.pubThdInitDone = true)
    (hold : p.main = .waiting ∨ p.main = .constructing ∨ p.main = .accepting)
    (hnew : main = .constructing ∨ main = .accepting ∨ main = .running) :
    Threads { p with main, session, accepting } := by
  have hup : ¬ p.Down := by
    rcases hold with hm | hm | hm <;> simp [Down, hm]
  have hup' : ¬ Down { p with main, session, accepting } := by
    intro hdown
    have hstopped := mt h.stopped hup
    rcases hnew with rfl | rfl | rfl <;> simp [Down] at hdown
    exact hstopped hdown
  exact ⟨fun _ => hdone, h.inLoop, h.publisher,
    ⟨fun hf => absurd (h.flag.mp hf) hup, fun hd => absurd hd hup'⟩, fun hd => absurd hd hup',
    fun hs => absurd (h.stopped hs) hup⟩

/-- `main` goes on from there to its end. -/
theorem Threads.goDown (h : p.Threads) {main : MainPhase} {destroyed : Option Agent}
    (hdown : p.Down) (hnew : main = .leaving ∨ main = .joining ∨ main = .returned) :
    Threads { p with main, destroyed } := by
  have hready : p.main ≠ .waiting := by
    rcases hdown with ⟨hm, -⟩ | hm | hm | hm <;> simp [hm]
  have hdown' : Down { p with main, destroyed } := Or.inr hnew
  exact ⟨fun _ => h.ready hready, h.inLoop, h.publisher,
    ⟨fun _ => hdown', fun _ => h.flag.mpr hdown⟩, fun _ => h.idle hdown, fun _ => hdown'⟩

/-- **Step lemma.** -/
theorem threads_step (h : p.Threads) {n : Nat} (hserved : p.Served n)
    (hagent : agentSystem.ReachableBy Agent.Countable p.agent) (hguard : p.Countable ev)
    (hstep : p.step ev = some p') : p'.Threads := by
  cases (transition_of_step hstep).2 with
  | vci e next hnext =>
    have hnot : p.pubThdInitDone ≠ true := by
      intro hdone
      have hloop := h.inLoop hdone
      rcases hnext with ⟨hrx, -⟩ | ⟨hrx, -⟩ | ⟨hrx, -⟩ <;> simp [hrx, RxPhase.inLoop] at hloop
    have hphase : p.agent.pub.phase = .receive := h.publisher.mpr (by
      rcases hnext with ⟨hrx, -⟩ | ⟨hrx, -⟩ | ⟨hrx, -⟩ <;> simp [hrx])
    refine h.setRx (fun hdone => absurd hdone hnot) ⟨fun _ => ?_, fun _ => hphase⟩
    rcases hnext with ⟨-, rfl⟩ | ⟨-, rfl⟩ | ⟨-, rfl⟩ <;> simp
  | checkFails => exact h.congr rfl rfl rfl rfl rfl rfl h.idle
  | initTick hrx =>
    refine h.setRx (fun hdone => ?_) ⟨fun _ => by simp, fun _ => h.publisher.mpr (by simp [hrx])⟩
    have hloop := h.inLoop hdone
    simp [hrx, RxPhase.inLoop] at hloop
  | storeInitDone hrx =>
    exact ⟨fun _ => rfl, fun _ => rfl,
      ⟨fun _ => by simp, fun _ => h.publisher.mpr (by simp [hrx])⟩, h.flag, h.idle, h.stopped⟩
  | loadRunFlag hrx =>
    refine h.setRx (fun _ => ?_) ⟨fun _ => ?_, fun _ => h.publisher.mpr (by simp [hrx])⟩ <;>
      cases p.runFlag <;> simp [RxPhase.inLoop]
  | receive frames agent hrx hrecv =>
    exact h.setRx (fun _ => rfl) (by simp [(Agent.receive_frame hrecv).2])
  | publish agent =>
    rcases agent.pub.phase.rxPhase_cases with ⟨hphase, hrx⟩ | ⟨hphase, hrx⟩ <;>
      exact h.setRx (fun _ => (by rw [hrx]; rfl)) (by rw [hrx]; simp [hphase])
  | poll hmain hdone => exact h.setMain hdone (Or.inl hmain) (Or.inl rfl)
  | throws ec hmain =>
    have hearly := hserved.of_early (Or.inr (Or.inl hmain))
    have hdown : Down { p with main := .joining, runFlag := false } := by simp [Down]
    exact ⟨fun _ => h.ready (by simp [hmain]), h.inLoop, h.publisher,
      ⟨fun _ => hdown, fun _ => rfl⟩, fun _ => hearly.2.2.2.1, fun _ => hdown⟩
  | constructed ec hmain =>
    exact h.setMain (h.ready (by simp [hmain])) (Or.inr (Or.inl hmain)) (Or.inr (Or.inl rfl))
  | startAccepting hmain =>
    exact h.setMain (h.ready (by simp [hmain])) (Or.inr (Or.inr hmain)) (Or.inr (Or.inr rfl))
  | acceptAgain i hmain hhandler => exact h.congr rfl rfl rfl rfl rfl rfl fun _ => rfl
  | leave hmain hstopped _ => exact h.goDown (Or.inl ⟨hmain, hstopped⟩) (Or.inl rfl)
  | destroy hmain => exact h.goDown (Or.inr (Or.inl hmain)) (Or.inr (Or.inl rfl))
  | join hmain => exact h.goDown (Or.inr (Or.inr (Or.inl hmain))) (Or.inr (Or.inr rfl))
  | acceptFails ec hfree _ => exact h.congr rfl rfl rfl rfl rfl rfl h.idle
  | accept ec i hfree =>
    exact h.congr rfl rfl rfl rfl rfl rfl fun hd => absurd hd (h.busy (Or.inl hfree))
  | append i agent hhandler happend =>
    obtain ⟨hpub, -⟩ := Agent.append_frame hagent hguard happend
    exact h.congr rfl rfl rfl hpub rfl rfl fun hd =>
      absurd hd (h.busy (Or.inr (by simp [hhandler])))
  | renumber agent hnone =>
    rw [(Agent.not_overflow hagent).1] at hnone
    cases hnone
  | recount agent hnone =>
    rw [(Agent.not_overflow hagent).2] at hnone
    cases hnone
  | link i agent hhandler hlink =>
    obtain ⟨-, -, -, -, -, counter, hcounted⟩ := hserved.of_handleAccept.2.1 i hhandler
    obtain ⟨hpub, -⟩ := Agent.link_frame hcounted hlink
    exact h.congr rfl rfl rfl hpub rfl rfl fun hd =>
      absurd hd (h.busy (Or.inr (by simp [hhandler])))
  | signal hfree =>
    obtain ⟨hmain, -, hidle⟩ := free_iff.mp hfree
    have hdown : Down { p with runFlag := false, stopped := true } := Or.inl ⟨hmain, rfl⟩
    exact ⟨h.ready, h.inLoop, h.publisher, ⟨fun _ => hdown, fun _ => rfl⟩, fun _ => hidle,
      fun _ => hdown⟩
  | transpose i agent hhandler hsession =>
    exact h.congr rfl rfl rfl (Agent.session_frame hsession).pub rfl rfl h.idle
  | session i ev agent handler hbusy _ hsession =>
    refine h.congr rfl rfl rfl (Agent.session_frame hsession).pub rfl rfl fun hd =>
      absurd hd (h.busy ?_)
    exact hbusy.imp id fun hhandler => by simp [hhandler]
  | client i ev agent hclient =>
    exact h.congr rfl rfl rfl (Agent.client_frame hclient).1.pub rfl rfl h.idle

theorem threads_of_reachable (h : agentProcessSystem.ReachableBy Countable p) : p.Threads := by
  induction h with
  | init hp =>
    obtain ⟨agent, hagent, rfl⟩ := hp
    exact threads_new hagent
  | step ev hp hguard hstep ih =>
    obtain ⟨n, hserved⟩ := served_of_reachable hp
    exact threads_step ih hserved (agent_of_reachable hp) hguard hstep

/-! ## Section 4: What is left at the end -/

/-- `main` has left the `try` block. -/
def Late (p : AgentProcess) : Prop := p.main = .joining ∨ p.main = .returned

/-- Since the agent was `a` no session was accepted, and no write has
    failed. -/
structure Left (p : AgentProcess) (a : Agent) : Prop where
  destroyed : p.destroyed = some a
  reachable : agentSystem.ReachableBy Agent.Countable a
  failed : ∀ i, (p.agent.sessions i).failed = (a.sessions i).failed
  started : ∀ i ∈ p.pool, (a.sessions i).started = true

/-- What is left when the server and the I/O context are gone. -/
def Outlives (p : AgentProcess) : Prop := p.Late → p.pool = [] ∨ ∃ a, p.Left a

/-- A step after which as much is left as before. -/
theorem Outlives.congr (h : p.Outlives) (hlate : p'.Late → p.Late)
    (hsame : p.Late → p'.pool = p.pool ∧ p'.destroyed = p.destroyed ∧
      ∀ i, (p'.agent.sessions i).failed = (p.agent.sessions i).failed) : p'.Outlives := by
  intro hlate'
  obtain ⟨hpool, hdestroyed, hfailed⟩ := hsame (hlate hlate')
  rw [hpool]
  refine (h (hlate hlate')).imp id fun ⟨a, hleft⟩ => ⟨a, ?_⟩
  exact ⟨hdestroyed.trans hleft.destroyed, hleft.reachable,
    fun i => (hfailed i).trans (hleft.failed i), hpool ▸ hleft.started⟩

/-- When the server and the I/O context are destroyed. -/
theorem outlives_destroy {n : Nat} (hserved : p.Served n)
    (hagent : agentSystem.ReachableBy Agent.Countable p.agent) (hmain : p.main = .leaving) :
    Outlives { p with main := .joining, destroyed := some p.agent } := by
  have hlen : p.pool.length = n := by
    cases hserved.place with
    | before _ _ _ _ _ _ hnot => exact absurd hmain hnot
    | serving _ hlen => exact hlen
    | accepted _ _ _ _ _ hrun => rw [show p.main = .running from hrun] at hmain; cases hmain
    | starting _ _ _ _ _ _ hrun => rw [show p.main = .running from hrun] at hmain; cases hmain
    | started _ _ _ _ _ _ _ hrun => rw [show p.main = .running from hrun] at hmain; cases hmain
  refine fun _ => Or.inr ⟨p.agent, rfl, hagent, fun _ => rfl, fun i hi => ?_⟩
  rw [hserved.started, ← hlen, ← List.mem_range, ← hserved.pool]
  exact hi

/-- **Step lemma.** -/
theorem outlives_step (h : p.Outlives) {n : Nat} (hserved : p.Served n) (hthreads : p.Threads)
    (hagent : agentSystem.ReachableBy Agent.Countable p.agent) (hstep : p.step ev = some p') :
    p'.Outlives := by
  have hup : ¬ p.Down → ¬ p.Late := by
    intro hnot hlate
    exact hnot (Or.inr (Or.inr hlate))
  cases (transition_of_step hstep).2 with
  | vci => exact h.congr id fun _ => ⟨rfl, rfl, fun _ => rfl⟩
  | checkFails => exact h.congr id fun _ => ⟨rfl, rfl, fun _ => rfl⟩
  | initTick => exact h.congr id fun _ => ⟨rfl, rfl, fun _ => rfl⟩
  | storeInitDone => exact h.congr id fun _ => ⟨rfl, rfl, fun _ => rfl⟩
  | loadRunFlag => exact h.congr id fun _ => ⟨rfl, rfl, fun _ => rfl⟩
  | signal => exact h.congr id fun _ => ⟨rfl, rfl, fun _ => rfl⟩
  | acceptFails => exact h.congr id fun _ => ⟨rfl, rfl, fun _ => rfl⟩
  | acceptAgain => exact h.congr id fun _ => ⟨rfl, rfl, fun _ => rfl⟩
  | receive frames agent _ hrecv =>
    exact h.congr id fun _ => ⟨rfl, rfl, (Agent.receive_frame hrecv).1.failed⟩
  | publish agent _ hpub =>
    exact h.congr id fun _ => ⟨rfl, rfl, (Agent.publish_frame hpub).failed⟩
  | client i ev agent hclient =>
    refine h.congr id fun _ => ⟨rfl, rfl, fun j => ?_⟩
    show (agent.sessions j).failed = _
    rw [(Agent.client_frame hclient).2]
  | poll hmain _ =>
    exact h.congr (by simp [Late, hmain]) fun _ => ⟨rfl, rfl, fun _ => rfl⟩
  | constructed ec hmain =>
    exact h.congr (by simp [Late, hmain]) fun _ => ⟨rfl, rfl, fun _ => rfl⟩
  | startAccepting hmain =>
    exact h.congr (by simp [Late, hmain]) fun _ => ⟨rfl, rfl, fun _ => rfl⟩
  | leave hmain _ _ =>
    exact h.congr (by simp [Late, hmain]) fun _ => ⟨rfl, rfl, fun _ => rfl⟩
  | join hmain =>
    exact h.congr (by simp [Late, hmain]) fun _ => ⟨rfl, rfl, fun _ => rfl⟩
  | throws ec hmain =>
    obtain ⟨-, -, hlen, -⟩ := hserved.of_early (Or.inr (Or.inl hmain))
    exact fun _ => Or.inl (List.length_eq_zero_iff.mp hlen)
  | destroy hmain => exact outlives_destroy hserved hagent hmain
  | accept ec i hfree =>
    have hnot := hup (hthreads.busy (Or.inl hfree))
    exact h.congr id fun hlate => absurd hlate hnot
  | append i agent hhandler =>
    have hnot := hup (hthreads.busy (Or.inr (by simp [hhandler])))
    exact h.congr id fun hlate => absurd hlate hnot
  | renumber agent hnone =>
    rw [(Agent.not_overflow hagent).1] at hnone
    cases hnone
  | recount agent hnone =>
    rw [(Agent.not_overflow hagent).2] at hnone
    cases hnone
  | link i agent hhandler =>
    have hnot := hup (hthreads.busy (Or.inr (by simp [hhandler])))
    exact h.congr id fun hlate => absurd hlate hnot
  | transpose i agent hhandler =>
    have hnot := hup (hthreads.busy (Or.inr (by simp [hhandler])))
    exact h.congr id fun hlate => absurd hlate hnot
  | session i ev agent handler hbusy =>
    have hnot := hup (hthreads.busy (hbusy.imp id fun hhandler => by simp [hhandler]))
    exact h.congr id fun hlate => absurd hlate hnot

theorem outlives_of_reachable (h : agentProcessSystem.ReachableBy Countable p) : p.Outlives := by
  induction h with
  | init hp =>
    obtain ⟨agent, -, rfl⟩ := hp
    exact fun _ => Or.inl rfl
  | step ev hp hguard hstep ih =>
    obtain ⟨n, hserved⟩ := served_of_reachable hp
    exact outlives_step ih hserved (threads_of_reachable hp) (agent_of_reachable hp) hstep

/-! ## Section 5: The end of `main` -/

/-- No connection is accepted any more. -/
structure Deaf (p : AgentProcess) : Prop where
  accepting : p.accepting = false
  handler : p.handler = .idle ∨ ∃ i, p.handler = .session i
  main : p.main ≠ .waiting ∧ p.main ≠ .constructing ∧ p.main ≠ .accepting

theorem deaf_step (h : p.Deaf) (hstep : p.step ev = some p') :
    p'.Deaf ∧ p'.pool = p.pool ∧
      ∀ i, (p'.agent.sessions i).started = (p.agent.sessions i).started := by
  have hnot : ∀ handler, p.handler = handler → handler = .idle ∨ ∃ i, handler = .session i := by
    rintro _ rfl
    exact h.handler
  have hsame : ∀ i, (p.agent.sessions i).started = (p.agent.sessions i).started := fun _ => rfl
  cases (transition_of_step hstep).2 with
  | vci => exact ⟨⟨h.accepting, h.handler, h.main⟩, rfl, hsame⟩
  | checkFails => exact ⟨⟨h.accepting, h.handler, h.main⟩, rfl, hsame⟩
  | initTick => exact ⟨⟨h.accepting, h.handler, h.main⟩, rfl, hsame⟩
  | storeInitDone => exact ⟨⟨h.accepting, h.handler, h.main⟩, rfl, hsame⟩
  | loadRunFlag => exact ⟨⟨h.accepting, h.handler, h.main⟩, rfl, hsame⟩
  | signal => exact ⟨⟨h.accepting, h.handler, h.main⟩, rfl, hsame⟩
  | acceptFails => exact ⟨⟨rfl, h.handler, h.main⟩, rfl, hsame⟩
  | receive frames agent _ hrecv =>
    exact ⟨⟨h.accepting, h.handler, h.main⟩, rfl, (Agent.receive_frame hrecv).1.started⟩
  | publish agent _ hpub =>
    exact ⟨⟨h.accepting, h.handler, h.main⟩, rfl, (Agent.publish_frame hpub).started⟩
  | client i ev agent hclient =>
    exact ⟨⟨h.accepting, h.handler, h.main⟩, rfl, (Agent.client_frame hclient).1.started⟩
  | renumber agent hag =>
    obtain ⟨_, -, rfl⟩ := Option.map_eq_some_iff.mp hag
    exact ⟨⟨h.accepting, h.handler, h.main⟩, rfl, hsame⟩
  | recount agent hag =>
    obtain ⟨_, -, rfl⟩ := Option.map_eq_some_iff.mp hag
    exact ⟨⟨h.accepting, h.handler, h.main⟩, rfl, hsame⟩
  | leave => exact ⟨⟨h.accepting, h.handler, by simp⟩, rfl, hsame⟩
  | destroy => exact ⟨⟨h.accepting, h.handler, by simp⟩, rfl, hsame⟩
  | join => exact ⟨⟨h.accepting, h.handler, by simp⟩, rfl, hsame⟩
  | poll hmain _ => exact absurd hmain h.main.1
  | throws ec hmain => exact absurd hmain h.main.2.1
  | constructed ec hmain => exact absurd hmain h.main.2.1
  | startAccepting hmain => exact absurd hmain h.main.2.2
  | acceptAgain i _ hhandler => simpa using hnot _ hhandler
  | accept ec i _ hacc => rw [h.accepting] at hacc; cases hacc
  | append i agent hhandler => simpa using hnot _ hhandler
  | link i agent hhandler => simpa using hnot _ hhandler
  | transpose i agent hhandler => simpa using hnot _ hhandler
  | session i ev agent handler _ hhandler hsession =>
    refine ⟨⟨h.accepting, ?_, h.main⟩, rfl, (Agent.session_frame hsession).started⟩
    exact hhandler.elim (fun he => Or.inr ⟨i, he⟩) Or.inl

/-- `processIf` comes to its end while `main` waits for the thread. -/
theorem exec_processing (h : agentProcessSystem.ReachableBy Countable p) (hrun : p.aborted = false)
    (hmain : p.main = .joining) (hflag : p.runFlag = false) (hrx : p.rx = .processing) :
    ∃ evs p', agentProcessSystem.exec p evs = some p' ∧ p'.aborted = false ∧ p'.main = .joining ∧
      p'.runFlag = false ∧ p'.rx = .loop := by
  obtain ⟨evs, p', -, hexec, ⟨-, hrun', hmain', hflag', -⟩, hrx'⟩ :=
    agentProcessSystem.exec_of_measure (P := fun q => q.rx = .loop)
      (I := fun q => agentProcessSystem.ReachableBy Countable q ∧ q.aborted = false ∧
        q.main = .joining ∧ q.runFlag = false ∧ (q.rx = .loop ∨ q.rx = .processing))
      (fun q => q.agent.remaining)
      (by
        rintro q ⟨hq, hrun, hmain, hflag, hrx⟩ hnot
        have hproc : q.rx = .processing := hrx.resolve_left hnot
        have hphase : q.agent.pub.phase ≠ .receive := fun hphase =>
          (threads_of_reachable hq).publisher.mp hphase hproc
        obtain ⟨d, -, live, ahead, hmatch⟩ := Agent.matches_of_reachable (agent_of_reachable hq)
        obtain ⟨agent, hpub, -, hlt⟩ := hmatch.publish_step hphase
        have hstep : q.step .publish = some { q with agent, rx := agent.pub.phase.rxPhase } := by
          simp only [step, hrun, hproc, Bool.false_eq_true, if_false, if_true, Agent.step, hpub,
            Option.map_some]
        exact ⟨.publish, _, hstep, ⟨.step .publish hq trivial hstep, hrun, hmain, hflag,
          agent.pub.phase.rxPhase_cases.imp And.right And.right⟩, hlt⟩)
      ⟨h, hrun, hmain, hflag, Or.inr hrx⟩
  exact ⟨evs, p', hexec, hrun', hmain', hflag', hrx'⟩

/-- The thread of `canRxFunc` leaves its loop. -/
theorem exec_exit (h : agentProcessSystem.ReachableBy Countable p) (hrun : p.aborted = false)
    (hmain : p.main = .joining) (hflag : p.runFlag = false) :
    ∃ evs p', agentProcessSystem.exec p evs = some p' ∧ p'.aborted = false ∧ p'.main = .joining ∧
      p'.rx = .exited := by
  have hthreads := threads_of_reachable h
  have hloop : p.rx.inLoop = true := hthreads.inLoop (hthreads.ready (by simp [hmain]))
  -- At the head of the loop the flag is seen.
  have hexit : ∀ q : AgentProcess, q.aborted = false → q.main = .joining → q.runFlag = false →
      q.rx = .loop → ∃ q', agentProcessSystem.exec q [.loadRunFlag] = some q' ∧ q'.aborted = false ∧
        q'.main = .joining ∧ q'.rx = .exited := by
    intro q hrun hmain hflag hrx
    refine ⟨{ q with rx := .exited }, agentProcessSystem.exec_singleton ?_, hrun, hmain, rfl⟩
    simp [agentProcessSystem, step, hrun, hrx, hflag]
  have hprocessing : ∀ q : AgentProcess, agentProcessSystem.ReachableBy Countable q →
      q.aborted = false → q.main = .joining → q.runFlag = false → q.rx = .processing →
      ∃ evs q', agentProcessSystem.exec q evs = some q' ∧ q'.aborted = false ∧ q'.main = .joining ∧
        q'.rx = .exited := by
    intro q hq hrun hmain hflag hrx
    obtain ⟨evs, q₁, hexec, hrun₁, hmain₁, hflag₁, hrx₁⟩ := exec_processing hq hrun hmain hflag hrx
    obtain ⟨q₂, hexec₂, hlast⟩ := hexit q₁ hrun₁ hmain₁ hflag₁ hrx₁
    exact ⟨_, q₂, agentProcessSystem.exec_append hexec hexec₂, hlast⟩
  cases hrx : p.rx with
  | loop =>
    obtain ⟨q, hexec, hlast⟩ := hexit p hrun hmain hflag hrx
    exact ⟨_, q, hexec, hlast⟩
  | processing => exact hprocessing p h hrun hmain hflag hrx
  | exited => exact ⟨[], p, rfl, hrun, hmain, hrx⟩
  | receiving =>
    -- The last `VCI_Receive` may return nothing.
    have hphase : p.agent.pub.phase = .receive := hthreads.publisher.mpr (by simp [hrx])
    obtain ⟨d, -, live, ahead, hmatch⟩ := Agent.matches_of_reachable (agent_of_reachable h)
    have hnone : ([] : List (UInt64 × VciCanObj)).length ≤ kRxBuffSize := Nat.zero_le _
    obtain ⟨agent, hrecv⟩ := hmatch.receive_step hphase hnone
    have hstep : p.step (.receive []) = some { p with agent, rx := .processing } := by
      simp [step, hrun, hrx, hrecv]
    obtain ⟨evs, q, hexec, hlast⟩ := hprocessing { p with agent, rx := .processing }
      (.step (.receive []) h trivial hstep) hrun hmain hflag rfl
    exact ⟨_, q, agentProcessSystem.exec_append
      (agentProcessSystem.exec_singleton (l := .receive []) hstep) hexec, hlast⟩
  | _ => simp [hrx, RxPhase.inLoop] at hloop

/-- `main` comes to `join`. -/
theorem exec_join (h : agentProcessSystem.ReachableBy Countable p) (hrun : p.aborted = false)
    (hflag : p.runFlag = false) :
    ∃ evs p', agentProcessSystem.exec p evs = some p' ∧
      (p'.main = .returned ∨ agentProcessSystem.ReachableBy Countable p' ∧ p'.aborted = false ∧
        p'.main = .joining ∧ p'.runFlag = false) := by
  have hthreads := threads_of_reachable h
  have hdestroy : ∀ q : AgentProcess, agentProcessSystem.ReachableBy Countable q →
      q.aborted = false → q.runFlag = false → q.main = .leaving →
      ∃ q', agentProcessSystem.exec q [.destroy] = some q' ∧
        agentProcessSystem.ReachableBy Countable q' ∧ q'.aborted = false ∧ q'.main = .joining ∧
        q'.runFlag = false := by
    intro q hq hrun hflag hmain
    have hstep : q.step .destroy =
        some { q with main := .joining, destroyed := some q.agent } := by
      simp [step, hrun, hmain]
    exact ⟨_, agentProcessSystem.exec_singleton (l := .destroy) hstep,
      .step .destroy hq trivial hstep, hrun, rfl, hflag⟩
  rcases hthreads.flag.mp hflag with ⟨hmain, hstopped⟩ | hmain | hmain | hmain
  · have hidle := hthreads.idle (Or.inl ⟨hmain, hstopped⟩)
    have hstep : p.step .leave = some { p with main := .leaving } := by
      simp [step, hrun, hmain, hstopped, hidle]
    obtain ⟨q, hexec, hlast⟩ := hdestroy { p with main := .leaving }
      (.step .leave h trivial hstep) hrun hflag rfl
    have hleave := agentProcessSystem.exec_singleton (l := .leave) hstep
    exact ⟨_, q, agentProcessSystem.exec_append hleave hexec, Or.inr hlast⟩
  · obtain ⟨q, hexec, hlast⟩ := hdestroy p h hrun hflag hmain
    exact ⟨_, q, hexec, Or.inr hlast⟩
  · exact ⟨[], p, rfl, Or.inr ⟨h, hrun, hmain, hflag⟩⟩
  · exact ⟨[], p, rfl, Or.inl hmain⟩

/-- A run that keeps to the guard, from the start of `main`. -/
theorem reachable_of_execWithin {evs : List AgentProcessEvent}
    (h : agentProcessSystem.execWithin (fun p ev => decide (p.Countable ev))
      (.new (.new (fun _ => 0) fun _ => freshClient)) evs = some p) :
    agentProcessSystem.ReachableBy Countable p :=
  LTS.System.ReachableBy.execWithin _ (fun _ _ hg => of_decide_eq_true hg)
    (LTS.System.ReachableBy.init ⟨_, ⟨_, _, fun _ => ⟨rfl, rfl⟩, rfl⟩, rfl⟩) h

end AgentProcess

/-! ## Section 6: The results -/

/-- The process comes up, and accepts one connection. -/
def oneConnection : List AgentProcessEvent :=
  [.vci 1, .vci 1, .vci 1, .initTick, .storeInitDone, .poll, .construct .ok, .startAccepting,
    .handleAccept .ok, .append, .link, .session 0 .transpose, .startAccepting]

/-- **Service.** In every state that the process can reach: its agent is in
    a state that the agent can reach; nobody is in the pool unless the
    device was opened and initialised; the pool has the sessions in the
    order in which they were constructed, and each of them is started from
    the point of `handleAccept` on at which its listener is linked. -/
theorem process_serves {p : AgentProcess}
    (h : agentProcessSystem.ReachableBy AgentProcess.Countable p) :
    agentSystem.ReachableBy Agent.Countable p.agent ∧
    (p.pool ≠ [] → p.rx.inLoop = true) ∧
    p.pool = List.range p.pool.length ∧
    ∀ i, (p.agent.sessions i).started = true ↔
      i ∈ p.pool ∧ p.handler ≠ .accepted i ∧ p.handler ≠ .starting i := by
  obtain ⟨n, hserved⟩ := AgentProcess.served_of_reachable h
  have hthreads := AgentProcess.threads_of_reachable h
  refine ⟨AgentProcess.agent_of_reachable h, ?_, hserved.pool, ?_⟩
  · intro hne
    refine hthreads.inLoop (hthreads.ready fun hmain => hne ?_)
    exact List.length_eq_zero_iff.mp (hserved.of_early (Or.inl hmain)).2.2.1
  · intro i
    have hpool : i ∈ p.pool ↔ i < p.pool.length := by rw [hserved.pool, List.mem_range]; simp
    rw [hserved.started, hpool]
    cases hserved.place with
    | before hn _ hlen hhandler =>
      replace hlen : p.pool.length = 0 := hlen
      simp [hn, hlen]
    | serving _ hlen hhandler =>
      replace hlen : p.pool.length = n := hlen
      rcases hhandler with hidle | ⟨j, hj⟩
      · simp [hlen, show p.handler = .idle from hidle]
      · simp [hlen, show p.handler = .session j from hj]
    | accepted _ hlen _ hhandler =>
      simp only [show p.pool.length = n + 1 from hlen, show p.handler = .accepted n from hhandler,
        ne_eq, Handler.accepted.injEq, reduceCtorEq, not_false_eq_true, and_true]
      omega
    | starting _ _ hlen _ hhandler =>
      simp only [show p.pool.length = n + 1 from hlen, show p.handler = .starting n from hhandler,
        ne_eq, Handler.starting.injEq, reduceCtorEq, not_false_eq_true, true_and]
      omega
    | started j _ _ hlen _ hhandler =>
      simp [show p.pool.length = n from hlen, show p.handler = .started j from hhandler]

/-- The process with one session, after some more events. -/
theorem exists_after_oneConnection (evs : List AgentProcessEvent) (main : MainPhase)
    (runFlag : Bool)
    (hrun : (agentProcessSystem.execWithin (fun p ev => decide (p.Countable ev))
      (.new (.new (fun _ => 0) fun _ => freshClient)) (oneConnection ++ evs)).map
      (fun p => decide (p.pool = [0] ∧ (p.agent.sessions 0).started = true ∧
        (p.agent.sessions 0).failed = false ∧ p.aborted = false ∧ p.main = main ∧
        p.runFlag = runFlag)) = some true) :
    ∃ p, agentProcessSystem.ReachableBy AgentProcess.Countable p ∧ p.pool = [0] ∧
      (p.agent.sessions 0).started = true ∧ (p.agent.sessions 0).failed = false ∧
      p.aborted = false ∧ p.main = main ∧ p.runFlag = runFlag := by
  obtain ⟨p, hp, hval⟩ := Option.map_eq_some_iff.mp hrun
  exact ⟨p, AgentProcess.reachable_of_execWithin hp, of_decide_eq_true hval⟩

theorem process_serves_sample :
    ∃ p, agentProcessSystem.ReachableBy AgentProcess.Countable p ∧ p.pool = [0] ∧
      (p.agent.sessions 0).started = true ∧
      ((p.agent.sessions 0).started = true ↔
        0 ∈ p.pool ∧ p.handler ≠ .accepted 0 ∧ p.handler ≠ .starting 0) := by
  obtain ⟨p, hreach, hpool, hst, -⟩ := exists_after_oneConnection [] .running true
    (by decide +kernel)
  exact ⟨p, hreach, hpool, hst, (process_serves hreach).2.2.2 0⟩

/-- **One error and nobody gets in.** An accept that fails leaves the I/O
    context running and changes nothing but that no accept is outstanding;
    whatever happens then, no connection is accepted and no session is
    started. -/
theorem accept_error_ends_accepting {p p₁ p' : AgentProcess} {ec : ErrorCode}
    {evs : List AgentProcessEvent} (he : ec.isError = true)
    (hstep : p.step (.handleAccept ec) = some p₁)
    (hrun : agentProcessSystem.exec p₁ evs = some p') :
    p.main = .running ∧ p₁ = { p with accepting := false } ∧ p'.pool = p.pool ∧
      ∀ i, (p'.agent.sessions i).started = (p.agent.sessions i).started := by
  obtain ⟨hfree, rfl⟩ : p.free = true ∧ p₁ = { p with accepting := false } := by
    cases (AgentProcess.transition_of_step hstep).2 with
    | acceptFails _ hfree _ => exact ⟨hfree, rfl⟩
    | accept _ _ _ _ _ hok => rw [he] at hok; cases hok
  obtain ⟨hmain, hidle⟩ := AgentProcess.running_of_free hfree
  have hdeaf : AgentProcess.Deaf { p with accepting := false } :=
    ⟨rfl, Or.inl hidle, by simp [hmain]⟩
  have hkeep : ∀ q ev q', (q.Deaf ∧ q.pool = p.pool ∧
      ∀ i, (q.agent.sessions i).started = (p.agent.sessions i).started) →
      agentProcessSystem.step q ev = some q' → q'.Deaf ∧ q'.pool = p.pool ∧
      ∀ i, (q'.agent.sessions i).started = (p.agent.sessions i).started := by
    rintro q ev q' ⟨hq, hpool, hstarted⟩ hstep
    obtain ⟨hq', hpool', hstarted'⟩ := AgentProcess.deaf_step hq hstep
    exact ⟨hq', hpool'.trans hpool, fun i => (hstarted' i).trans (hstarted i)⟩
  obtain ⟨-, hpool, hstarted⟩ :=
    agentProcessSystem.exec_invariant hkeep ⟨hdeaf, rfl, fun _ => rfl⟩ hrun
  exact ⟨hmain, rfl, hpool, hstarted⟩

theorem accept_error_ends_accepting_sample :
    ∃ p p₁ p' : AgentProcess, p.pool = [0] ∧ p.step (.handleAccept ⟨24⟩) = some p₁ ∧
      p₁ = { p with accepting := false } ∧
      agentProcessSystem.exec p₁ [.loadRunFlag, .signal, .leave] = some p' ∧ p'.pool = p.pool := by
  have hrun : (agentProcessSystem.exec (.new (.new (fun _ => 0) fun _ => freshClient))
      oneConnection).bind (fun p => (p.step (.handleAccept ⟨24⟩)).bind fun p₁ =>
        (agentProcessSystem.exec p₁ [.loadRunFlag, .signal, .leave]).map fun _ => p.pool) =
      some [0] := by
    decide +kernel
  obtain ⟨p, -, hp⟩ := Option.bind_eq_some_iff.mp hrun
  obtain ⟨p₁, hp₁, hrest⟩ := Option.bind_eq_some_iff.mp hp
  obtain ⟨p', hp', hpool⟩ := Option.map_eq_some_iff.mp hrest
  obtain ⟨-, hsame, hpool', -⟩ := accept_error_ends_accepting (by decide) hp₁ hp'
  exact ⟨p, p₁, p', hpool, hp₁, hsame, hp', hpool'⟩

/-- **The end.** Once `run_flag` is cleared, by a signal or by an exception,
    `main` can return: nothing that the thread of `canRxFunc` may be doing
    keeps `join` from its end. -/
theorem main_returns {p : AgentProcess}
    (h : agentProcessSystem.ReachableBy AgentProcess.Countable p)
    (hrun : p.aborted = false) (hflag : p.runFlag = false) :
    ∃ evs p', agentProcessSystem.exec p evs = some p' ∧ p'.main = .returned := by
  obtain ⟨evs₁, q, hexec₁, hreturned | ⟨hreach, hrun', hmain, hflag'⟩⟩ :=
    AgentProcess.exec_join h hrun hflag
  · exact ⟨evs₁, q, hexec₁, hreturned⟩
  · obtain ⟨evs₂, q₂, hexec₂, hrun₂, hmain₂, hrx₂⟩ :=
      AgentProcess.exec_exit hreach hrun' hmain hflag'
    have hstep : q₂.step .join = some { q₂ with main := .returned } := by
      simp [AgentProcess.step, hrun₂, hmain₂, hrx₂]
    exact ⟨_, _, agentProcessSystem.exec_append hexec₁ (agentProcessSystem.exec_append hexec₂
      (agentProcessSystem.exec_singleton (l := .join) hstep)), rfl⟩

theorem main_returns_sample :
    ∃ p p' : AgentProcess, agentProcessSystem.ReachableBy AgentProcess.Countable p ∧
      p.main = .running ∧ p.runFlag = false ∧ p'.main = .returned := by
  obtain ⟨p, hreach, -, -, -, hrun, hmain, hflag⟩ :=
    exists_after_oneConnection [.loadRunFlag, .signal] .running false (by decide +kernel)
  obtain ⟨_, p', -, hreturned⟩ := main_returns hreach hrun hflag
  exact ⟨p, p', hreach, hmain, hflag, hreturned⟩

/-- **Destruction out of order.** When `main` waits for the thread or has
    returned, the I/O context is gone, but every session that was accepted
    and whose write has not failed is still alive, held by its listener:
    it is destroyed after the I/O context of its socket and timer.  A session
    whose write has failed is among these only if a dispatch was under way
    when the I/O context was destroyed, and its listener was on the list when
    that dispatch began or was linked since. -/
theorem shutdown_outlives {p : AgentProcess}
    (h : agentProcessSystem.ReachableBy AgentProcess.Countable p)
    (hend : p.main = .joining ∨ p.main = .returned) :
    (∀ i ∈ p.pool, (p.agent.sessions i).failed = false → i ∈ p.outlived) ∧
    (∀ i ∈ p.outlived, i ∈ p.pool) ∧
    ∀ i ∈ p.outlived, (p.agent.sessions i).failed = true →
      ∃ a, p.destroyed = some a ∧ a.notifier.cursor ≠ none ∧
        ∃ node, a.notifier.list.callbackOf node = some i ∧ a.notifier.Recent node := by
  have honly : ∀ i ∈ p.outlived, ∃ a, p.destroyed = some a ∧ i ∈ p.pool ∧ a.holds i = true := by
    intro i hi
    unfold AgentProcess.outlived at hi
    split at hi
    case h_1 a ha => exact ⟨a, ha, List.mem_filter.mp hi⟩
    case h_2 => cases hi
  refine ⟨?_, ?_, ?_⟩
  · intro i hi hok
    obtain ⟨a, hleft⟩ : ∃ a, p.Left a :=
      (AgentProcess.outlives_of_reachable h hend).resolve_left (List.ne_nil_of_mem hi)
    rw [hleft.failed] at hok
    have hheld := Agent.holds_of_started hleft.reachable (hleft.started i hi) hok
    simp only [AgentProcess.outlived, hleft.destroyed]
    exact List.mem_filter.mpr ⟨hi, hheld⟩
  · intro i hi
    obtain ⟨_, -, hpool, -⟩ := honly i hi
    exact hpool
  · intro i hi hfailed
    obtain ⟨a, ha, hpool, hheld⟩ := honly i hi
    obtain ⟨b, hleft⟩ : ∃ b, p.Left b :=
      (AgentProcess.outlives_of_reachable h hend).resolve_left (List.ne_nil_of_mem hpool)
    obtain rfl : a = b := Option.some.inj (ha.symm.trans hleft.destroyed)
    rw [hleft.failed] at hfailed
    exact ⟨a, ha, Agent.recent_of_holds hleft.reachable hheld hfailed⟩

/-- One more connection, which gets session `i`. -/
def connection (i : Nat) : List AgentProcessEvent :=
  [.handleAccept .ok, .append, .link, .session i .transpose, .startAccepting]

/-- A frame is read, and `processIf` makes `n` steps. -/
def frameRead (n : Nat) : List AgentProcessEvent :=
  .loadRunFlag :: .receive [(7, .zero)] :: List.replicate n .publish

/-- Session `i` takes the frame from its queue and writes it. -/
def frameWritten (i : Nat) : List AgentProcessEvent :=
  [.session i (.wake 0 .ok), .session i .transpose, .session i .transpose]

/-- Two sessions write the first frame, and a third one joins.  The dispatch
    of the second frame stands at the first node when both writes fail, and
    then the process is stopped. -/
def failuresUnderWalk : List AgentProcessEvent :=
  oneConnection ++ connection 1 ++ frameRead 12 ++ frameWritten 0 ++ frameWritten 1 ++
  connection 2 ++ frameRead 4 ++
  [.session 0 (.written 0 ⟨104⟩), .session 1 (.written 0 ⟨104⟩), .signal, .leave, .destroy]

theorem shutdown_outlives_sample :
    ∃ p a, agentProcessSystem.ReachableBy AgentProcess.Countable p ∧ p.main = .joining ∧
      p.outlived = [0, 1, 2] ∧
      [0, 1, 2].map (fun i => (p.agent.sessions i).failed) = [true, true, false] ∧
      2 ∈ p.outlived ∧ p.destroyed = some a ∧ a.notifier.cursor ≠ none := by
  have hrun : (agentProcessSystem.execWithin (fun p ev => decide (p.Countable ev))
      (.new (.new (fun _ => 0) fun _ => freshClient)) failuresUnderWalk).map
      (fun p => (p.main, p.pool, p.outlived,
        [0, 1, 2].map fun i => (p.agent.sessions i).failed)) =
      some (.joining, [0, 1, 2], [0, 1, 2], [true, true, false]) := by
    decide +kernel
  obtain ⟨p, hp, hval⟩ := Option.map_eq_some_iff.mp hrun
  simp only [Prod.mk.injEq] at hval
  obtain ⟨hmain, hpool, houtlived, hfailed⟩ := hval
  have hreach := AgentProcess.reachable_of_execWithin hp
  obtain ⟨hall, -, hheld⟩ := shutdown_outlives hreach (Or.inl hmain)
  have hfailed' := hfailed
  simp only [List.map_cons, List.map_nil, List.cons.injEq] at hfailed'
  obtain ⟨-, h1, h2, -⟩ := hfailed'
  obtain ⟨a, ha, hcursor, -⟩ := hheld 1 (by simp [houtlived]) h1
  exact ⟨p, a, hreach, hmain, houtlived, hfailed, hall 2 (by simp [hpool]) h2, ha, hcursor⟩

end LibControlCan
