import LibControlCan.Agent.Model

/-! # Every event reaches every session

    `Registry` ties the listeners of the event queue to the sessions, and
    `Offered` says which events a session has been handed: those dispatched
    since it joined, in order and without a gap.  `rx_step`, `registry_step`
    and `offered_step` keep them over every event of the system. -/

namespace LibControlCan

namespace Deployment

/-! ## Section 1: Who listens -/

/-- The event queue and the sessions agree on who listens. -/
structure Registry (d : Deployment) : Prop where
  nodup : d.listeners.Nodup
  registered : ∀ i, i ∈ d.listeners ↔ (d.sessions i).registered = true
  started : ∀ i, (d.sessions i).registered = true → (d.sessions i).started = true
  visitNodup : d.rx.toVisit.Nodup
  visitStarted : ∀ i ∈ d.rx.toVisit, (d.sessions i).started = true

/-- A session that has not been started is on no list. -/
theorem Registry.of_not_started {d : Deployment} {i : Nat} (hreg : d.Registry)
    (h : (d.sessions i).started = false) : i ∉ d.listeners ∧ i ∉ d.rx.toVisit := by
  constructor
  · intro hmem
    have hst := hreg.started i ((hreg.registered i).mp hmem)
    rw [h] at hst
    cases hst
  · intro hmem
    have hst := hreg.visitStarted i hmem
    rw [h] at hst
    cases hst

/-- `start()` adds the session to the listeners, and to the dispatch that
    is under way if it joins it. -/
theorem Registry.start {d : Deployment} {i : Nat} (hreg : d.Registry)
    (h : (d.sessions i).started = false) {rx : RxThread}
    (hvisit : rx.toVisit = d.rx.toVisit ∨ rx.toVisit = d.rx.toVisit ++ [i]) (joined : Nat) :
    (({ d with listeners := d.listeners ++ [i], rx } : Deployment).setSession i
      ((d.sessions i).start joined)).Registry := by
  obtain ⟨hnot, hnotvisit⟩ := hreg.of_not_started h
  refine ⟨?_, ?_, ?_, ?_, ?_⟩
  · rw [setSession_listeners, ← List.concat_eq_append]
    exact hreg.nodup.concat hnot
  · intro j
    rcases eq_or_ne j i with rfl | hne
    · simp [Session.start]
    · simp [setSession_sessions_ne hne, hne, hreg.registered j]
  · intro j hj
    rcases eq_or_ne j i with rfl | hne
    · simp [Session.start]
    · rw [setSession_sessions_ne hne] at hj ⊢
      exact hreg.started j hj
  · show rx.toVisit.Nodup
    rcases hvisit with heq | heq
    · rw [heq]
      exact hreg.visitNodup
    · rw [heq, ← List.concat_eq_append]
      exact hreg.visitNodup.concat hnotvisit
  · intro j hj
    rcases eq_or_ne j i with rfl | hne
    · simp [Session.start]
    · rw [setSession_sessions_ne hne]
      refine hreg.visitStarted j ?_
      have hj' : j ∈ rx.toVisit := hj
      rcases hvisit with heq | heq
      · rwa [heq] at hj'
      · rw [heq, List.mem_append, List.mem_singleton] at hj'
        exact hj'.resolve_right hne

/-- Visiting one listener changes neither who listens nor who is started. -/
theorem Registry.visit {d d' : Deployment} {i : Nat} {is : List Nat} (hreg : d.Registry)
    (hvisit : d.rx.toVisit = i :: is) (hvisit' : d'.rx.toVisit = is)
    (hlist : d'.listeners = d.listeners)
    (hsame : ∀ j, (d'.sessions j).registered = (d.sessions j).registered ∧
      (d'.sessions j).started = (d.sessions j).started) : d'.Registry := by
  have hnodup := hreg.visitNodup
  rw [hvisit] at hnodup
  refine ⟨hlist ▸ hreg.nodup, ?_, ?_, by rw [hvisit']; exact hnodup.of_cons, ?_⟩
  · intro j
    rw [hlist, (hsame j).1]
    exact hreg.registered j
  · intro j hj
    rw [(hsame j).1] at hj
    rw [(hsame j).2]
    exact hreg.started j hj
  · intro j hj
    rw [hvisit'] at hj
    rw [(hsame j).2]
    exact hreg.visitStarted j (by rw [hvisit]; exact List.mem_cons_of_mem _ hj)

/-- The I/O context may remove the listener of its session. -/
theorem Registry.session {d : Deployment} {i : Nat} {s : Session} (hreg : d.Registry)
    (hframe : Session.Frame (d.sessions i) s) :
    ({ d.setSession i s with
      listeners := if s.registered then d.listeners else d.listeners.erase i }
        : Deployment).Registry := by
  have hstarted : ∀ j, ((d.setSession i s).sessions j).started = (d.sessions j).started := by
    intro j
    rcases eq_or_ne j i with rfl | hne
    · rw [setSession_sessions_self, hframe.started]
    · rw [setSession_sessions_ne hne]
  refine ⟨?_, ?_, ?_, hreg.visitNodup, fun j hj => (hstarted j).trans (hreg.visitStarted j hj)⟩
  · cases s.registered
    · exact hreg.nodup.erase i
    · exact hreg.nodup
  · intro j
    show j ∈ (if s.registered then d.listeners else d.listeners.erase i) ↔
      ((d.setSession i s).sessions j).registered = true
    rcases eq_or_ne j i with rfl | hne
    · rw [setSession_sessions_self]
      cases hr : s.registered
      · simp [hreg.nodup.not_mem_erase]
      · simp [hreg.registered j, hframe.registered hr]
    · rw [setSession_sessions_ne hne]
      cases s.registered
      · simp [List.mem_erase_of_ne hne, hreg.registered j]
      · simp [hreg.registered j]
  · intro j hj
    refine (hstarted j).trans (hreg.started j ?_)
    have hj' : ((d.setSession i s).sessions j).registered = true := hj
    rcases eq_or_ne j i with rfl | hne
    · rw [setSession_sessions_self] at hj'
      exact hframe.registered hj'
    · rwa [setSession_sessions_ne hne] at hj'

theorem registry_step {d d' : Deployment} {ev : DeploymentEvent} (hreg : d.Registry)
    (h : d.step ev = some d') : d'.Registry := by
  cases transition_of_step h with
  | canRx frames hq hd hlen =>
    have hframe := (RxThread.foldl_enqueue_frame frames d.rx).1
    exact ⟨hreg.nodup, hreg.registered, hreg.started, by simp [RxThread.toVisit, hframe, hd],
      by simp [RxThread.toVisit, hframe, hd]⟩
  | dispatch node queue hq hd =>
    exact ⟨hreg.nodup, hreg.registered, hreg.started, hreg.nodup,
      fun i hi => hreg.started i ((hreg.registered i).mp hi)⟩
  | push late node i is hd =>
    refine hreg.visit (RxThread.toVisit_of_dispatching hd) rfl rfl ?_
    intro j
    rcases eq_or_ne j i with rfl | hne
    · rw [setSession_sessions_self]
      rcases Session.consumeCanObjHandler_cases node (d.sessions j) with ⟨-, heq⟩ | ⟨-, heq⟩ <;>
        simp [heq]
    · simp [setSession_sessions_ne hne]
  | skip late node i is hd hr =>
    exact hreg.visit (RxThread.toVisit_of_dispatching hd) rfl rfl (fun _ => ⟨rfl, rfl⟩)
  | finish node hd =>
    exact ⟨hreg.nodup, hreg.registered, hreg.started, List.nodup_nil, fun i hi => by cases hi⟩
  | join i node is hst hd =>
    refine hreg.start hst (Or.inr ?_) _
    rw [RxThread.toVisit_of_dispatching hd]
    rfl
  | start i joins hst => exact hreg.start hst (Or.inl rfl) _
  | session i ev s hs => exact hreg.session (Session.frame_step hs)
  | client i ev c hin hc =>
    exact ⟨hreg.nodup, hreg.registered, hreg.started, hreg.visitNodup, hreg.visitStarted⟩

/-- The listener to be visited next is not to be visited again. -/
theorem Registry.head_visit {d : Deployment} {node : CanobjQueueNodeT} {i : Nat} {is : List Nat}
    (hreg : d.Registry) (hd : d.rx.dispatching = some (node, i :: is)) :
    i ∉ is ∧ (d.sessions i).started = true := by
  have hvisit := RxThread.toVisit_of_dispatching hd
  have hnodup := hreg.visitNodup
  rw [hvisit] at hnodup
  refine ⟨(List.nodup_cons.mp hnodup).1, hreg.visitStarted i ?_⟩
  rw [hvisit]
  exact List.mem_cons_self

/-! ## Section 2: What a session is handed -/

/-- The events handed to a session are those dispatched since it joined,
    the current one being on its way: all of them while its listener is on
    the queue. -/
structure Offered (rx : RxThread) (i : Nat) (s : Session) : Prop where
  joined_le : s.joined ≤ rx.dispatched.length
  isPrefix : s.offers.map Prod.fst ++ rx.current i <+: rx.dispatched.drop s.joined
  complete : s.registered = true →
    s.offers.map Prod.fst ++ rx.current i = rx.dispatched.drop s.joined
  fresh : s.started = false → s.offers = []

/-- Steps that do not concern a session leave it with its events. -/
theorem Offered.congr {rx rx' : RxThread} {i : Nat} {s s' : Session} (h : Offered rx i s)
    (hdisp : rx'.dispatched = rx.dispatched) (hcur : rx'.current i = rx.current i)
    (hframe : Session.Frame s s') : Offered rx' i s' := by
  refine ⟨?_, ?_, ?_, ?_⟩
  · rw [hframe.joined, hdisp]
    exact h.joined_le
  · rw [hframe.offers, hcur, hframe.joined, hdisp]
    exact h.isPrefix
  · intro hr
    rw [hframe.offers, hcur, hframe.joined, hdisp]
    exact h.complete (hframe.registered hr)
  · rw [hframe.started, hframe.offers]
    exact h.fresh

/-- A new event is on its way to every session that listens. -/
theorem Offered.dispatch {rx : RxThread} {i : Nat} {s : Session} {node : CanobjQueueNodeT}
    {queue : List CanobjQueueNodeT} {listeners : List Nat} (h : Offered rx i s)
    (hidle : rx.dispatching = none) (hlisten : i ∈ listeners ↔ s.registered = true) :
    Offered { rx with queue, dispatching := some (node, listeners)
                      dispatched := rx.dispatched ++ [node] } i s := by
  have hnone : rx.current i = [] := by simp [RxThread.current, hidle]
  have hdrop : (rx.dispatched ++ [node]).drop s.joined = rx.dispatched.drop s.joined ++ [node] :=
    List.drop_append_of_le_length h.joined_le
  have hcomplete : s.registered = true →
      s.offers.map Prod.fst ++ [node] = (rx.dispatched ++ [node]).drop s.joined := by
    intro hr
    rw [hdrop, ← h.complete hr, hnone, List.append_nil]
  refine ⟨?_, ?_, ?_, h.fresh⟩
  · have := h.joined_le
    simp only [List.length_append]
    omega
  · rw [RxThread.current_of_dispatching rfl]
    by_cases hi : i ∈ listeners
    · rw [if_pos hi, hcomplete (hlisten.mp hi)]
    · -- A session that has left gets no more events: its record only falls behind.
      have hprev := h.isPrefix
      rw [hnone] at hprev
      rw [if_neg hi]
      exact hprev.trans (hdrop ▸ List.prefix_append _ _)
  · intro hr
    rw [RxThread.current_of_dispatching rfl, if_pos (hlisten.mpr hr)]
    exact hcomplete hr

/-- The event arrives: it is handed to the session. -/
theorem Offered.push {rx : RxThread} {i : Nat} {s : Session} {node : CanobjQueueNodeT}
    {is : List Nat} (h : Offered rx i s) (hd : rx.dispatching = some (node, i :: is))
    (hnot : i ∉ is) (hstarted : s.started = true) :
    Offered { rx with dispatching := some (node, is) } i (s.consumeCanObjHandler node) := by
  have hcur : rx.current i = [node] := by simp [RxThread.current_of_dispatching hd]
  have hcur' : ({ rx with dispatching := some (node, is) } : RxThread).current i = [] := by
    simp [RxThread.current, hnot]
  have hpush : (s.consumeCanObjHandler node).offers.map Prod.fst =
        s.offers.map Prod.fst ++ [node] ∧
      (s.consumeCanObjHandler node).joined = s.joined ∧
      (s.consumeCanObjHandler node).registered = s.registered ∧
      (s.consumeCanObjHandler node).started = s.started := by
    rcases Session.consumeCanObjHandler_cases node s with ⟨-, heq⟩ | ⟨-, heq⟩ <;> simp [heq]
  obtain ⟨hoffers, hjoined, hregistered, hst⟩ := hpush
  have hprev := h.isPrefix
  have hcomplete := h.complete
  rw [hcur] at hprev hcomplete
  refine ⟨?_, ?_, ?_, ?_⟩
  · rw [hjoined]
    exact h.joined_le
  · rw [hoffers, hcur', hjoined, List.append_nil]
    exact hprev
  · rw [hregistered, hoffers, hcur', hjoined, List.append_nil]
    exact hcomplete
  · rw [hst, hstarted]
    intro hfalse
    cases hfalse

/-- A session that has left may miss an event: that is no gap. -/
theorem Offered.skip {rx : RxThread} {i : Nat} {s : Session} {node : CanobjQueueNodeT}
    {is : List Nat} (h : Offered rx i s) (hnot : i ∉ is) (hleft : s.registered = false) :
    Offered { rx with dispatching := some (node, is) } i s := by
  refine ⟨h.joined_le, ?_, ?_, h.fresh⟩
  · rw [RxThread.current_of_dispatching rfl, if_neg hnot, List.append_nil]
    exact (List.prefix_append _ _).trans h.isPrefix
  · intro hr
    rw [hleft] at hr
    cases hr

/-- A session that starts has been handed nothing; what is on its way to it
    is all that has been dispatched since it joined. -/
theorem Offered.start {rx : RxThread} {i joined : Nat} {s : Session} (hfresh : s.offers = [])
    (hle : joined ≤ rx.dispatched.length) (hcur : rx.current i = rx.dispatched.drop joined) :
    Offered rx i (s.start joined) := by
  have hall : (s.start joined).offers.map Prod.fst ++ rx.current i = rx.dispatched.drop joined := by
    simp [Session.start, hfresh, hcur]
  exact ⟨hle, hall ▸ List.prefix_rfl, fun _ => hall, fun hst => by cases hst⟩

/-- Whether a listener is still to be visited decides what is on its way. -/
theorem current_congr {rx rx' : RxThread} {i : Nat} {node : CanobjQueueNodeT} {is is' : List Nat}
    (hd : rx.dispatching = some (node, is)) (hd' : rx'.dispatching = some (node, is'))
    (hmem : i ∈ is' ↔ i ∈ is) : rx'.current i = rx.current i := by
  rw [RxThread.current_of_dispatching hd, RxThread.current_of_dispatching hd']
  simp only [hmem]

theorem offered_step {d d' : Deployment} {ev : DeploymentEvent} (hreg : d.Registry)
    (hrx : d.rx.Inv) (hoff : ∀ i, Offered d.rx i (d.sessions i)) (h : d.step ev = some d') :
    ∀ i, Offered d'.rx i (d'.sessions i) := by
  intro i
  have hrefl := Session.Frame.refl (d.sessions i)
  cases transition_of_step h with
  | canRx frames hq hd hlen =>
    obtain ⟨hdisp, hdone⟩ := RxThread.foldl_enqueue_frame frames d.rx
    exact (hoff i).congr hdone (by simp [RxThread.current, hdisp]) hrefl
  | dispatch node queue hq hd => exact (hoff i).dispatch hd (hreg.registered i)
  | push late node j is hd =>
    rcases eq_or_ne i j with rfl | hne
    · obtain ⟨hnot, hstarted⟩ := hreg.head_visit hd
      rw [setSession_sessions_self]
      exact (hoff i).push hd hnot hstarted
    · rw [setSession_sessions_ne hne]
      exact (hoff i).congr rfl (current_congr hd rfl (by simp [hne])) hrefl
  | skip late node j is hd hr =>
    rcases eq_or_ne i j with rfl | hne
    · exact (hoff i).skip (hreg.head_visit hd).1 hr
    · exact (hoff i).congr rfl (current_congr hd rfl (by simp [hne])) hrefl
  | finish node hd =>
    exact (hoff i).congr rfl (by simp [RxThread.current, hd]) hrefl
  | join j node is hst hd =>
    rcases eq_or_ne i j with rfl | hne
    · -- The event under way is the first one of a session that joins its dispatch.
      obtain ⟨front, hfront⟩ := hrx.current node is hd
      rw [setSession_sessions_self]
      apply Offered.start ((hoff i).fresh hst) (Nat.sub_le _ _)
      rw [setSession_rx, RxThread.current_of_dispatching rfl, if_pos (by simp)]
      simp [hfront]
    · rw [setSession_sessions_ne hne]
      exact (hoff i).congr rfl (current_congr hd rfl (by simp [hne])) hrefl
  | start j joins hst =>
    rcases eq_or_ne i j with rfl | hne
    · rw [setSession_sessions_self]
      apply Offered.start ((hoff i).fresh hst) (Nat.le_refl _)
      rw [List.drop_length]
      exact RxThread.current_of_not_mem (hreg.of_not_started hst).2
    · rw [setSession_sessions_ne hne]
      exact (hoff i).congr rfl rfl hrefl
  | session j ev s hs =>
    show Offered d.rx i ((d.setSession j s).sessions i)
    rcases eq_or_ne i j with rfl | hne
    · rw [setSession_sessions_self]
      exact (hoff i).congr rfl rfl (Session.frame_step hs)
    · rw [setSession_sessions_ne hne]
      exact hoff i
  | client j ev c hin hc => exact hoff i

/-! ## Section 3: The numbers of the events -/

theorem rx_step {d d' : Deployment} {ev : DeploymentEvent} (hrx : d.rx.Inv)
    (h : d.step ev = some d') : d'.rx.Inv := by
  cases transition_of_step h with
  | canRx frames _ _ _ => exact RxThread.inv_foldl_enqueue hrx frames
  | dispatch node queue hq _ => exact RxThread.inv_dispatch hrx hq d.listeners
  | push _ _ _ _ hd | skip _ _ _ _ hd | join _ _ _ _ hd =>
    -- The dispatch of the same event goes on.
    apply RxThread.inv_setDispatching hrx
    intro node is hsome
    cases hsome
    exact ⟨_, hd⟩
  | finish node _ => exact RxThread.inv_setDispatching hrx (fun _ _ hnone => by cases hnone)
  | start => exact hrx
  | session => exact hrx
  | client => exact hrx

end Deployment

end LibControlCan
