import LibControlCan.Agent.Implementation

/-! # The agent over eventpp refines its specification

    `Agent.Matches` relates a state of the agent to one of `Deployment`, in
    which the listeners are a list and a dispatch visits them one by one.
    Every step of the agent is answered by a run of `Deployment`: most by
    one event or none, and the steps of a walk by as many visits as there
    are removed listeners to pass over. -/

namespace LibControlCan

/-! ## Section 1: Sessions up to their ghost -/

namespace Session

/-- The session with another record of when it joined. -/
def withJoined (joined : Nat) (s : Session) : Session := { s with joined }

/-- The number of the first event for a session: the next one to be dispatched
    when it joined, or the latest one whose dispatch had begun by then. -/
def FirstEvent (s : Session) (k : Nat) : Prop := k = s.joined ∨ k + 1 = s.joined

theorem consumeCanObjHandler_withJoined (joined : Nat) (s : Session) (node : CanobjQueueNodeT) :
    (s.withJoined joined).consumeCanObjHandler node =
      (s.consumeCanObjHandler node).withJoined joined := by
  by_cases hroom : s.spscQueue.length < spscCapacity <;>
    simp [consumeCanObjHandler, withJoined, hroom]

theorem doCanObjTranspose_withJoined (joined i : Nat) (s : Session) :
    (s.withJoined joined).doCanObjTranspose i = (s.doCanObjTranspose i).withJoined joined := by
  have hend : (s.withJoined joined).endTranspose = s.endTranspose.withJoined joined := by
    by_cases hbuff : 0 < s.shrTxBuff.length <;>
      simp [endTranspose, withJoined, writeMessage, hbuff]
  by_cases hi : i < 8
  · cases hq : s.spscQueue with
    | nil =>
      have hq' : (s.withJoined joined).spscQueue = [] := hq
      simp only [doCanObjTranspose, hi, if_true, hq, hq', hend]
    | cons node queue => simp [doCanObjTranspose, hi, withJoined, hq]
  · simp only [doCanObjTranspose, hi, if_false, hend]

/-- A push leaves the life of the session alone. -/
theorem consumeCanObjHandler_keeps (node : CanobjQueueNodeT) (s : Session) :
    (s.consumeCanObjHandler node).started = s.started ∧
      (s.consumeCanObjHandler node).registered = s.registered ∧
      (s.consumeCanObjHandler node).joined = s.joined := by
  rcases consumeCanObjHandler_cases node s with ⟨-, heq⟩ | ⟨-, heq⟩ <;> rw [heq] <;>
    exact ⟨rfl, rfl, rfl⟩

/-- No step reads the record. -/
theorem step_withJoined (joined : Nat) (s : Session) (ev : SessionEvent) :
    (s.withJoined joined).step ev = (s.step ev).map (withJoined joined) := by
  cases ev with
  | transpose =>
    show s.running.map (s.withJoined joined).doCanObjTranspose = (s.running.map _).map _
    rw [Option.map_map]
    exact congrArg (fun f => s.running.map f)
      (funext fun i => doCanObjTranspose_withJoined joined i s)
  | send j n =>
    rcases hop : s.ops[j]? with _ | ⟨data, k⟩ | _
    · simp [step, withJoined, hop]
    · by_cases hg : 0 < n ∧ k + n ≤ data.length <;> simp [step, withJoined, hop, hg]
    · simp [step, withJoined, hop]
  | written j ec =>
    rcases hrun : s.running with _ | i
    · rcases hop : s.ops[j]? with _ | ⟨data, k⟩ | _
      · simp [step, withJoined, hrun, hop]
      · by_cases hg : ec.isError = true ∨ k = data.length
        · by_cases he : ec.isError = true <;>
            simp_all [step, withJoined, handleWrite, disconnectToEventqq]
        · simp [step, withJoined, hrun, hop, hg]
      · simp [step, withJoined, hrun, hop]
    · simp [step, withJoined, hrun]
  | wake j ec =>
    rcases hrun : s.running with _ | i
    · rcases hop : s.ops[j]? with _ | ⟨data, k⟩ | _ <;> simp [step, withJoined, hrun, hop]
    · simp [step, withJoined, hrun]

/-- The invariant does not read it either. -/
theorem Inv.of_withJoined {joined : Nat} {s : Session} (h : (s.withJoined joined).Inv) : s.Inv := by
  refine ⟨?_, h.sent_isPrefix, h.conserved⟩
  cases h.flight with
  | created hst hfl hrun hops => exact .created hst hfl hrun hops
  | stopped hst hfl hrun hops => exact .stopped hst hfl hrun hops
  | looping i hst hfl hrun hops => exact .looping i hst hfl hrun hops
  | writing n hst hfl hrun hops hle => exact .writing n hst hfl hrun hops hle
  | waiting hst hfl hrun hops => exact .waiting hst hfl hrun hops

/-- Only a session that listens takes steps. -/
theorem registered_of_step {s s' : Session} {ev : SessionEvent} (hf : s.Flight)
    (hlisten : s.Listening) (h : s.step ev = some s') : s.registered = true := by
  have hrun : ∀ i, s.running = some i → s.registered = true := by
    intro i hi
    obtain ⟨hst, hfl, -⟩ := hf.of_running hi
    rw [hlisten, hst, hfl]
    rfl
  have hop : ∀ (j : Nat) (op : SessionOp), s.ops[j]? = some op → s.registered = true := by
    intro j op hj
    obtain ⟨hst, hfl, -⟩ := hf.of_op hj
    rw [hlisten, hst, hfl]
    rfl
  cases transition_of_step h with
  | pop i _ _ hi => exact hrun i hi
  | write i hi => exact hrun i hi
  | wait i hi => exact hrun i hi
  | send j _ _ _ hj => exact hop j _ hj
  | written j _ _ hj => exact hop j _ hj
  | failed j _ _ _ _ hj => exact hop j _ hj
  | wake j _ _ hj => exact hop j _ hj

end Session

/-! ## Section 2: Visits of removed listeners -/

/-- A dispatch passes over listeners that were removed. -/
theorem Deployment.exec_skips {d : Deployment} {node : CanobjQueueNodeT} {gone rest : List Nat}
    (hd : d.rx.dispatching = some (node, gone ++ rest))
    (hgone : ∀ i ∈ gone, (d.sessions i).registered = false) :
    deploymentSystem.exec d (List.replicate gone.length (.visit false)) =
      some { d with rx := { d.rx with dispatching := some (node, rest) } } := by
  induction gone generalizing d with
  | nil =>
    obtain ⟨rx, listeners, sessions, clients⟩ := d
    obtain ⟨sendBuff, sendCount, queue, dispatching, frames, dispatched⟩ := rx
    obtain rfl : dispatching = some (node, rest) := hd
    rfl
  | cons i gone ih =>
    have hstep : d.step (.visit false) =
        some { d with rx := { d.rx with dispatching := some (node, gone ++ rest) } } := by
      have hi := hgone i List.mem_cons_self
      simp [Deployment.step, hd, hi]
    rw [List.length_cons, List.replicate_succ, LTS.System.exec_cons]
    show (d.step (.visit false)).bind _ = _
    rw [hstep, Option.bind_some]
    exact ih rfl (fun j hj => hgone j (List.mem_cons_of_mem _ hj))

/-! ## Section 3: The relation -/

/-- Where the two are with the events.  The buffers hold the events of the
    queue, and there are never more than one `VCI_Receive` needs. -/
inductive Agent.PhaseMatches (a : Agent) (d : Deployment) (ahead : List Nat) : Prop where
  | receive (n : Nat) : a.pub.phase = .receive → a.pub.queue = .ofEvents [] n → n ≤ kRxBuffSize →
      d.rx.queue = [] → d.rx.dispatching = none → a.notifier.cursor = none →
      PhaseMatches a d ahead
  | process (frameNum n : Nat) : a.pub.phase = .process frameNum →
      a.pub.queue = .ofEvents d.rx.queue n → n + d.rx.queue.length ≤ kRxBuffSize →
      (frameNum = 0 → d.rx.queue = []) → d.rx.dispatching = none → a.notifier.cursor = none →
      PhaseMatches a d ahead
  | loop (frameNum n m : Nat) : a.pub.phase = .loop frameNum
        { kept := [], rest := d.rx.queue.map some, idleList := List.replicate m none } →
      a.pub.queue = .ofEvents [] n → n + m + d.rx.queue.length ≤ kRxBuffSize → 0 < frameNum →
      d.rx.dispatching = none → a.notifier.cursor = none →
      PhaseMatches a d ahead
  | dispatch (frameNum n m : Nat) (node : CanobjQueueNodeT) (rest : List Nat) :
      a.pub.phase = .dispatch frameNum
        { kept := [], rest := d.rx.queue.map some, idleList := List.replicate m none } node →
      a.pub.queue = .ofEvents [] n → n + m + d.rx.queue.length ≤ kRxBuffSize → 0 < frameNum →
      d.rx.dispatching = some (node, a.names a.notifier.calling ++ rest) →
      rest.filter (fun i => (d.sessions i).registered) = a.names ahead →
      PhaseMatches a d ahead

/-- A state of the agent and one of its specification.  `live` are the nodes
    on the list, and `ahead` those that the walk will come to. -/
structure Agent.Matches (a : Agent) (d : Deployment) (live ahead : List Nat) : Prop where
  tracks : a.notifier.Tracks live ahead
  listeners : d.listeners = a.names live
  named : ∀ p, p < a.notifier.list.nodes.length →
    ∃ i, a.notifier.list.callbackOf p = some i ∧ (d.sessions i).started = true
  handles : ∀ p i, p ∈ live → a.notifier.list.callbackOf p = some i → a.handles i = some p
  starting : ∀ i counter, a.notifier.appending = .counted i counter →
    (d.sessions i).started = false
  sessions : ∀ i, ∃ joined, (a.sessions i).FirstEvent joined ∧
    d.sessions i = (a.sessions i).withJoined joined
  clients : d.clients = a.clients
  sendBuff : d.rx.sendBuff = a.pub.sendBuff
  sendCount : d.rx.sendCount = a.pub.sendCount
  frames : d.rx.frames = a.pub.frames
  dispatched : d.rx.dispatched = a.pub.dispatched
  phase : a.PhaseMatches d ahead

/-! ## Section 4: The publishing thread -/

/-- The thread has the events and the counters of `rx`, and `n` free
    buffers. -/
structure Publisher.Same (p : Publisher) (rx : RxThread) (n : Nat) : Prop where
  queue : p.queue = .ofEvents rx.queue n
  sendBuff : rx.sendBuff = p.sendBuff
  sendCount : rx.sendCount = p.sendCount
  frames : rx.frames = p.frames

theorem Publisher.same_enqueue {p : Publisher} {rx : RxThread} {n : Nat} (h : p.Same rx n)
    (frame : UInt64 × VciCanObj) :
    ∃ p', p.enqueue frame = some p' ∧ p'.Same (rx.enqueue frame) (n - 1) ∧ p'.phase = p.phase ∧
      p'.dispatched = p.dispatched := by
  have heq := EventQueue.doEnqueue_ofEvents
    rx.queue n (fillNode p.sendBuff p.sendCount frame.1 frame.2).1
  rw [← h.queue] at heq
  simp only [enqueue, heq, Option.map_some]
  refine ⟨_, rfl, ⟨?_, ?_, ?_, ?_⟩, rfl, rfl⟩
  · simp [RxThread.enqueue, h.sendBuff, h.sendCount]
  · simp [RxThread.enqueue, h.sendBuff, h.sendCount]
  · simp [RxThread.enqueue, h.sendCount]
  · simp [RxThread.enqueue, h.frames]

/-- The loop over the frames. -/
theorem Publisher.same_enqueueAll {p : Publisher} {rx : RxThread} {n : Nat} (h : p.Same rx n)
    (frames : List (UInt64 × VciCanObj)) :
    ∃ p', p.enqueueAll frames = some p' ∧
      p'.Same (frames.foldl RxThread.enqueue rx) (n - frames.length) ∧ p'.phase = p.phase ∧
      p'.dispatched = p.dispatched := by
  induction frames generalizing p rx n with
  | nil => exact ⟨p, rfl, h, rfl, rfl⟩
  | cons frame frames ih =>
    obtain ⟨p₁, hp₁, hsame₁, hphase₁, hdisp₁⟩ := same_enqueue h frame
    obtain ⟨p₂, hp₂, hsame₂, hphase₂, hdisp₂⟩ := ih hsame₁
    refine ⟨p₂, by simp [enqueueAll, hp₁, hp₂], ?_, hphase₂.trans hphase₁, hdisp₂.trans hdisp₁⟩
    rw [List.length_cons, Nat.add_comm, ← Nat.sub_sub]
    exact hsame₂

theorem RxThread.length_queue_foldl (frames : List (UInt64 × VciCanObj)) (rx : RxThread) :
    (frames.foldl enqueue rx).queue.length = rx.queue.length + frames.length := by
  induction frames generalizing rx with
  | nil => rfl
  | cons frame frames ih =>
    rw [List.foldl_cons, ih]
    simp [enqueue]
    omega

namespace Agent

variable {a a' : Agent} {d : Deployment} {live ahead : List Nat}

/-- Only the thread of `canRxFunc` has moved, and not on its counters. -/
theorem Matches.setPub (h : a.Matches d live ahead) {pub : Publisher}
    (hbuff : pub.sendBuff = a.pub.sendBuff) (hcount : pub.sendCount = a.pub.sendCount)
    (hframes : pub.frames = a.pub.frames) (hdisp : pub.dispatched = a.pub.dispatched)
    (hphase : PhaseMatches { a with pub } d ahead) :
    Matches { a with pub } d live ahead where
  tracks := h.tracks
  listeners := h.listeners
  named := h.named
  handles := h.handles
  starting := h.starting
  sessions := h.sessions
  clients := h.clients
  sendBuff := h.sendBuff.trans hbuff.symm
  sendCount := h.sendCount.trans hcount.symm
  frames := h.frames.trans hframes.symm
  dispatched := h.dispatched.trans hdisp.symm
  phase := hphase

theorem simulate_receive (h : a.Matches d live ahead) {frames : List (UInt64 × VciCanObj)}
    (hstep : a.step (.receive frames) = some a') :
    ∃ d', deploymentSystem.exec d [.canRx frames] = some d' ∧ a'.Matches d' live ahead := by
  simp only [step] at hstep
  split at hstep
  case h_2 => cases hstep
  case h_1 hrecv =>
    split at hstep
    case isFalse => cases hstep
    case isTrue hlen =>
      cases h.phase with
      | process _ _ hp => rw [hrecv] at hp; cases hp
      | loop _ _ _ hp => rw [hrecv] at hp; cases hp
      | dispatch _ _ _ _ _ hp => rw [hrecv] at hp; cases hp
      | receive n _ hqueue hn hrx hidle hcursor =>
        have hsame : a.pub.Same d.rx n :=
          ⟨hrx ▸ hqueue, h.sendBuff, h.sendCount, h.frames⟩
        obtain ⟨pub, hpub, hsame', -, hdisp⟩ := Publisher.same_enqueueAll hsame frames
        rw [hpub, Option.map_some, Option.some.injEq] at hstep
        subst hstep
        have hlength := RxThread.length_queue_foldl frames d.rx
        obtain ⟨hidle', hdisp'⟩ := RxThread.foldl_enqueue_frame frames d.rx
        refine ⟨{ d with rx := frames.foldl RxThread.enqueue d.rx }, ?_, ?_⟩
        · refine deploymentSystem.exec_singleton ?_
          simp [deploymentSystem, Deployment.step, hrx, hidle, hlen]
        · refine ⟨h.tracks, h.listeners, h.named, h.handles, h.starting, h.sessions, h.clients,
            hsame'.sendBuff, hsame'.sendCount, hsame'.frames, ?_, ?_⟩
          · rw [hdisp', h.dispatched, hdisp]
          · refine .process frames.length (n - frames.length) rfl hsame'.queue ?_ ?_
              (hidle'.trans hidle) hcursor
            · rw [hlength, hrx, List.length_nil]
              omega
            · intro hzero
              refine List.length_eq_zero_iff.mp ?_
              rw [hlength, hrx, hzero]
              rfl

/-- The steps of `processIf` between two dispatches. -/
theorem simulate_process (h : a.Matches d live ahead) {frameNum : Nat}
    (hphase : a.pub.phase = .process frameNum) (hstep : a.publish = some a') :
    a'.Matches d live ahead := by
  cases h.phase with
  | receive _ hp => rw [hphase] at hp; cases hp
  | loop _ _ _ hp => rw [hphase] at hp; cases hp
  | dispatch _ _ _ _ _ hp => rw [hphase] at hp; cases hp
  | process frameNum' n hp hqueue hn hzero hidle hcursor =>
    rw [hphase] at hp
    cases hp
    simp only [publish, hphase] at hstep
    cases hrx : d.rx.queue with
    | nil =>
      have htake : a.pub.queue.take = none := by rw [hqueue, hrx]; rfl
      rw [htake] at hstep
      cases hstep
      rw [hrx] at hqueue hn
      exact h.setPub rfl rfl rfl rfl (.receive n rfl hqueue hn hrx hidle hcursor)
    | cons node es =>
      have htake : a.pub.queue.take = some (.ofEvents [] n,
          { kept := [], rest := d.rx.queue.map some, idleList := List.replicate 0 none }) := by
        rw [hqueue, hrx]
        rfl
      rw [htake] at hstep
      cases hstep
      refine h.setPub rfl rfl rfl rfl (.loop frameNum n 0 rfl rfl hn ?_ hidle hcursor)
      exact Nat.pos_of_ne_zero fun h0 => by simp [hzero h0] at hrx

theorem names_append (a : Agent) (xs ys : List Nat) :
    a.names (xs ++ ys) = a.names xs ++ a.names ys :=
  List.filterMap_append

theorem names_congr (hlist : a'.notifier.list = a.notifier.list) (nodes : List Nat) :
    a'.names nodes = a.names nodes := by
  rw [names, hlist, names]

/-- The head of the loop of `processIf`: the loop ends, or a dispatch
    begins. -/
theorem simulate_loop (h : a.Matches d live ahead) (hreach : deploymentSystem.Reachable d)
    {frameNum : Nat} {p : Processing CanobjQueueNodeT}
    (hphase : a.pub.phase = .loop frameNum p) (hstep : a.publish = some a') :
    ∃ evs d' ahead', deploymentSystem.exec d evs = some d' ∧ a'.Matches d' live ahead' := by
  cases h.phase with
  | receive _ hp => rw [hphase] at hp; cases hp
  | process _ _ hp => rw [hphase] at hp; cases hp
  | dispatch _ _ _ _ _ hp => rw [hphase] at hp; cases hp
  | loop frameNum' n m hp hqueue hn hpos hidle hcursor =>
    rw [hphase] at hp
    cases hp
    simp only [publish, hphase] at hstep
    cases hrx : d.rx.queue with
    | nil =>
      simp only [hrx, List.map_nil, List.isEmpty_nil, if_true, Option.some.injEq] at hstep
      subst hstep
      refine ⟨[], d, ahead, rfl, h.setPub rfl rfl rfl rfl ?_⟩
      rw [hrx, List.length_nil] at hn
      refine .receive (n + m) rfl ?_ hn hrx hidle hcursor
      simp [hqueue, EventQueue.putBack, EventQueue.ofEvents]
    | cons node es =>
      simp only [hrx, List.map_cons, List.isEmpty_cons, Bool.false_eq_true, if_false,
        Processing.round, gt_iff_lt, hpos, decide_true, if_true, Option.bind_some] at hstep
      obtain ⟨notifier, hnotifier, rfl⟩ := Option.map_eq_some_iff.mp hstep
      obtain ⟨htracks, -, hcalling, hlist, happ⟩ := Notifier.tracks_dispatch h.tracks hnotifier
      have hreg := (Deployment.inv_of_reachable hreach).registry
      let d' : Deployment := { d with
        rx := { d.rx with
          queue := es
          dispatching := some (node, d.listeners)
          dispatched := d.rx.dispatched ++ [node] } }
      have hexec : deploymentSystem.exec d [.dispatch] = some d' := by
        refine deploymentSystem.exec_singleton ?_
        simp [deploymentSystem, Deployment.step, hrx, hidle, d']
      refine ⟨[.dispatch], d', live, hexec, ?_⟩
      refine
        { tracks := htracks
          listeners := ?_
          named := by rw [hlist]; exact h.named
          handles := by rw [hlist]; exact h.handles
          starting := by rw [happ]; exact h.starting
          sessions := h.sessions
          clients := h.clients
          sendBuff := h.sendBuff
          sendCount := h.sendCount
          frames := h.frames
          dispatched := congrArg (· ++ [node]) h.dispatched
          phase := ?_ }
      · rw [names_congr hlist]
        exact h.listeners
      · have hall : d.listeners.filter (fun i => (d.sessions i).registered) = d.listeners := by
          rw [List.filter_eq_self]
          exact fun i hi => (hreg.registered i).mp hi
        rw [hrx, List.length_cons] at hn
        refine .dispatch frameNum n (m + 1) node d.listeners ?_ hqueue ?_ hpos ?_ ?_
        · simp [d', List.replicate_succ']
        · show n + (m + 1) + es.length ≤ kRxBuffSize
          omega
        · simp [d', hcalling, names]
        · rw [names_congr hlist, ← h.listeners]
          exact hall

/-- A node of the list has a name. -/
theorem Matches.name (h : a.Matches d live ahead) {p : Nat}
    (hp : p < a.notifier.list.nodes.length) :
    ∃ i, a.names [p] = [i] ∧ a.notifier.list.callbackOf p = some i ∧
      (d.sessions i).started = true := by
  obtain ⟨i, hi, hst⟩ := h.named p hp
  exact ⟨i, by simp [names, hi], hi, hst⟩

/-- The end of a dispatch: nothing but removed listeners is left. -/
theorem simulate_finish (h : a.Matches d live ahead) {frameNum : Nat}
    {p : Processing CanobjQueueNodeT} {node : CanobjQueueNodeT}
    (hphase : a.pub.phase = .dispatch frameNum p node) (hcursor : a.notifier.cursor = none) :
    ∃ evs d', deploymentSystem.exec d evs = some d' ∧
      Matches { a with pub := { a.pub with phase := .loop frameNum p } } d' live ahead := by
  cases h.phase with
  | receive _ hp => rw [hphase] at hp; cases hp
  | process _ _ hp => rw [hphase] at hp; cases hp
  | loop _ _ _ hp => rw [hphase] at hp; cases hp
  | dispatch frameNum' n m node' rest hp hqueue hn hpos hdisp hahead =>
    rw [hphase] at hp
    cases hp
    have hcalling : a.notifier.calling = [] := by simp [Notifier.calling, hcursor]
    rw [h.tracks.idle hcursor, names, List.filterMap_nil, List.filter_eq_nil_iff] at hahead
    have hdisp' : d.rx.dispatching = some (node, rest ++ []) := by
      rw [hdisp, hcalling]
      simp [names]
    let d' : Deployment := { d with rx := { d.rx with dispatching := none } }
    have hexec : deploymentSystem.exec d (List.replicate rest.length (.visit false) ++ [.finish]) =
        some d' :=
      deploymentSystem.exec_append
        (Deployment.exec_skips hdisp' fun i hi => by simpa using hahead i hi)
        (deploymentSystem.exec_singleton rfl)
    refine ⟨_, d', hexec, h.tracks, h.listeners, h.named, h.handles, h.starting, h.sessions,
      h.clients, h.sendBuff, h.sendCount, h.frames, h.dispatched, ?_⟩
    exact .loop frameNum n m rfl hqueue hn hpos rfl hcursor

/-- A step of the walk to the next listener. -/
theorem simulate_approach (h : a.Matches d live ahead) {frameNum : Nat}
    {p : Processing CanobjQueueNodeT} {node : CanobjQueueNodeT}
    (hphase : a.pub.phase = .dispatch frameNum p node) {notifier : Notifier Nat}
    (hstep : a.notifier.step .walk = some notifier) (hcalling : a.notifier.calling = []) :
    ∃ evs d' ahead', deploymentSystem.exec d evs = some d' ∧
      Matches { a with notifier } d' live ahead' := by
  obtain ⟨ahead', htracks, -, hsplit, hlive, hlist, happ⟩ := Notifier.tracks_walk h.tracks hstep
  have hnames : ∀ nodes, Agent.names { a with notifier } nodes = a.names nodes := fun nodes =>
    names_congr hlist nodes
  cases h.phase with
  | receive _ hp => rw [hphase] at hp; cases hp
  | process _ _ hp => rw [hphase] at hp; cases hp
  | loop _ _ _ hp => rw [hphase] at hp; cases hp
  | dispatch frameNum' n m node' rest hp hqueue hn hpos hdisp hahead =>
    rw [hphase] at hp
    cases hp
    -- The visits of `Deployment` that lead to what is ahead of the walk now.
    obtain ⟨gone, rest', hrest, hgone, hahead'⟩ : ∃ gone rest',
        rest = gone ++ (a.names notifier.calling ++ rest') ∧
        (∀ i ∈ gone, (d.sessions i).registered = false) ∧
        rest'.filter (fun i => (d.sessions i).registered) = a.names ahead' := by
      cases hnext : notifier.calling with
      | nil =>
        rw [hsplit, hnext, List.nil_append] at hahead
        exact ⟨[], rest, by simp [names], by simp, hahead⟩
      | cons q qs =>
        obtain rfl : qs = [] := Notifier.calling_eq_singleton hnext
        have hq := h.tracks.represents.shape.lt_size q (hlive q (by simp [hnext]))
        obtain ⟨i, hi, -⟩ := h.name hq
        rw [hsplit, hnext, names_append, hi, List.singleton_append, List.filter_eq_cons_iff]
          at hahead
        obtain ⟨gone, rest', hrest, hgone, -, hrest'⟩ := hahead
        exact ⟨gone, rest', by rw [hrest, hi]; rfl, fun j hj => by simpa using hgone j hj, hrest'⟩
    have hdisp' : d.rx.dispatching = some (node, gone ++ (a.names notifier.calling ++ rest')) := by
      rw [hdisp, hcalling, ← hrest]
      rfl
    refine ⟨_, _, ahead', Deployment.exec_skips hdisp' hgone, ?_⟩
    refine
      { tracks := htracks
        listeners := by rw [hnames]; exact h.listeners
        named := by simpa only [hlist] using h.named
        handles := by simpa only [hlist] using h.handles
        starting := by simpa only [happ] using h.starting
        sessions := h.sessions
        clients := h.clients
        sendBuff := h.sendBuff
        sendCount := h.sendCount
        frames := h.frames
        dispatched := h.dispatched
        phase := .dispatch frameNum n m node rest' hphase hqueue hn hpos ?_ ?_ }
    · rw [hnames]
    · rw [hnames]
      exact hahead'

/-- The call of a listener. -/
theorem simulate_call (h : a.Matches d live ahead) {frameNum : Nat}
    {p : Processing CanobjQueueNodeT} {node : CanobjQueueNodeT}
    (hphase : a.pub.phase = .dispatch frameNum p node) {notifier : Notifier Nat}
    (hstep : a.notifier.step .walk = some notifier) {q : Nat}
    (hcalling : a.notifier.calling = [q]) :
    ∃ d', deploymentSystem.exec d [.visit true] = some d' ∧
      Matches { a with notifier, sessions := a.consume node [q] } d' live ahead := by
  obtain ⟨ahead', htracks, -, hsplit, -, hlist, happ⟩ := Notifier.tracks_walk h.tracks hstep
  have hnone : notifier.calling = [] := Notifier.calling_walk hstep (by simp [hcalling])
  obtain rfl : ahead = ahead' := by rw [hsplit, hnone, List.nil_append]
  obtain ⟨i, hi, -⟩ := h.name (h.tracks.calling_lt (by simp [hcalling] : q ∈ _))
  have hconsume : a.consume node [q] =
      Function.update a.sessions i ((a.sessions i).consumeCanObjHandler node) := by
    rw [consume, hi]
    rfl
  cases h.phase with
  | receive _ hp => rw [hphase] at hp; cases hp
  | process _ _ hp => rw [hphase] at hp; cases hp
  | loop _ _ _ hp => rw [hphase] at hp; cases hp
  | dispatch frameNum' n m node' rest hp hqueue hn hpos hdisp hahead =>
    rw [hphase] at hp
    cases hp
    rw [hcalling, hi] at hdisp
    let d' : Deployment :=
      ({ d with rx := { d.rx with dispatching := some (node, rest) } } : Deployment).setSession i
        ((d.sessions i).consumeCanObjHandler node)
    have hexec : deploymentSystem.exec d [.visit true] = some d' := by
      refine deploymentSystem.exec_singleton ?_
      simp [deploymentSystem, Deployment.step, hdisp, d']
    -- The call leaves what the relation reads of a session alone.
    have hkeep : ∀ j, (d'.sessions j).started = (d.sessions j).started ∧
        (d'.sessions j).registered = (d.sessions j).registered := by
      intro j
      rcases eq_or_ne j i with rfl | hne
      · obtain ⟨hst, hreg, -⟩ := Session.consumeCanObjHandler_keeps node (d.sessions j)
        simp [d', Deployment.setSession, hst, hreg]
      · simp [d', Deployment.setSession, hne]
    have hsessions : ∀ j, ∃ joined, (a.consume node [q] j).FirstEvent joined ∧
        d'.sessions j = (a.consume node [q] j).withJoined joined := by
      intro j
      obtain ⟨joined, hfirst, hj⟩ := h.sessions j
      refine ⟨joined, ?_⟩
      rw [hconsume]
      rcases eq_or_ne j i with rfl | hne
      · obtain ⟨-, -, hjoined⟩ := Session.consumeCanObjHandler_keeps node (a.sessions j)
        rw [Function.update_self, Session.FirstEvent, hjoined]
        refine ⟨hfirst, ?_⟩
        simp [d', Deployment.setSession, hj, Session.consumeCanObjHandler_withJoined]
      · rw [Function.update_of_ne hne]
        exact ⟨hfirst, by simp [d', Deployment.setSession, hne, hj]⟩
    refine ⟨d', hexec, ?_⟩
    refine
      { tracks := htracks
        listeners := (h.listeners).trans (names_congr hlist live).symm
        named := by simpa only [hlist, (hkeep _).1] using h.named
        handles := by simpa only [hlist] using h.handles
        starting := by simpa only [happ, (hkeep _).1] using h.starting
        sessions := hsessions
        clients := h.clients
        sendBuff := h.sendBuff
        sendCount := h.sendCount
        frames := h.frames
        dispatched := h.dispatched
        phase := .dispatch frameNum n m node rest hphase hqueue hn hpos ?_ ?_ }
    · rw [hnone]
      simp [d', names, Deployment.setSession]
    · simp only [(hkeep _).2, hahead]
      exact (names_congr hlist ahead).symm

/-- A step of `processIf`. -/
theorem simulate_publish (h : a.Matches d live ahead) (hreach : deploymentSystem.Reachable d)
    (hstep : a.publish = some a') :
    ∃ evs d' ahead', deploymentSystem.exec d evs = some d' ∧ a'.Matches d' live ahead' := by
  cases hphase : a.pub.phase with
  | receive => simp [publish, hphase] at hstep
  | process frameNum => exact ⟨[], d, ahead, rfl, simulate_process h hphase hstep⟩
  | loop frameNum p => exact simulate_loop h hreach hphase hstep
  | dispatch frameNum p node =>
    simp only [publish, hphase] at hstep
    cases hcursor : a.notifier.cursor with
    | none =>
      rw [hcursor] at hstep
      cases hstep
      obtain ⟨evs, d', hexec, hmatch⟩ := simulate_finish h hphase hcursor
      exact ⟨evs, d', ahead, hexec, hmatch⟩
    | some cursor =>
      simp only [hcursor] at hstep
      obtain ⟨notifier, hwalk, rfl⟩ := Option.map_eq_some_iff.mp hstep
      have hcall : a.notifier.calling = cursor.calling := by simp [Notifier.calling, hcursor]
      rw [← hcall]
      cases hcalling : a.notifier.calling with
      | nil => exact simulate_approach h hphase hwalk hcalling
      | cons q qs =>
        obtain rfl : qs = [] := Notifier.calling_eq_singleton hcalling
        obtain ⟨d', hexec, hmatch⟩ := simulate_call h hphase hwalk hcalling
        exact ⟨_, d', ahead, hexec, hmatch⟩

/-! ## Section 5: The thread of the I/O context -/

/-- What the relation says on the two threads' places, when the sessions and
    the list change. -/
theorem PhaseMatches.transport {d' : Deployment} {ahead' : List Nat}
    (h : a.PhaseMatches d ahead) (hpub : a'.pub = a.pub) (hqueue : d'.rx.queue = d.rx.queue)
    (hcursor : a'.notifier.cursor = a.notifier.cursor)
    (hidle : d.rx.dispatching = none → d'.rx.dispatching = none)
    (hdisp : ∀ node rest, d.rx.dispatching = some (node, a.names a.notifier.calling ++ rest) →
      rest.filter (fun i => (d.sessions i).registered) = a.names ahead →
      ∃ rest', d'.rx.dispatching = some (node, a'.names a'.notifier.calling ++ rest') ∧
        rest'.filter (fun i => (d'.sessions i).registered) = a'.names ahead') :
    a'.PhaseMatches d' ahead' := by
  cases h with
  | receive n hp hq hn hrx hnone hcur =>
    exact .receive n (hpub ▸ hp) (hpub ▸ hq) hn (hqueue.trans hrx) (hidle hnone)
      (hcursor.trans hcur)
  | process frameNum n hp hq hn hzero hnone hcur =>
    exact .process frameNum n (hpub ▸ hp) (hqueue ▸ hpub ▸ hq) (hqueue ▸ hn) (hqueue ▸ hzero)
      (hidle hnone) (hcursor.trans hcur)
  | loop frameNum n m hp hq hn hpos hnone hcur =>
    exact .loop frameNum n m (hqueue ▸ hpub ▸ hp) (hpub ▸ hq) (hqueue ▸ hn) hpos (hidle hnone)
      (hcursor.trans hcur)
  | dispatch frameNum n m node rest hp hq hn hpos hd hahead =>
    obtain ⟨rest', hd', hahead'⟩ := hdisp node rest hd hahead
    exact .dispatch frameNum n m node rest' (hqueue ▸ hpub ▸ hp) (hpub ▸ hq) (hqueue ▸ hn) hpos hd'
      hahead'

theorem simulate_append (h : a.Matches d live ahead) {i : Nat} (hguard : a.Countable (.append i))
    (hstep : a.step (.append i) = some a') : a'.Matches d live ahead := by
  simp only [step] at hstep
  split at hstep
  case isTrue => cases hstep
  case isFalse hst =>
    obtain ⟨notifier, hcount, rfl⟩ := Option.map_eq_some_iff.mp hstep
    obtain ⟨htracks, hcursor, -, hlist, -, happ⟩ := Notifier.tracks_count h.tracks hguard hcount
    -- Only the counter of the list has changed.
    have hnodes : notifier.list.nodes = a.notifier.list.nodes := by rw [hlist]; rfl
    have hcallback : notifier.list.callbackOf = a.notifier.list.callbackOf := by rw [hlist]; rfl
    have hnames : ∀ nodes, Agent.names { a with notifier } nodes = a.names nodes := by
      intro nodes
      rw [names, hcallback, ← names]
    have hcalling : notifier.calling = a.notifier.calling := by
      rw [Notifier.calling, hcursor, Notifier.calling]
    refine
      { tracks := htracks
        listeners := h.listeners.trans (hnames live).symm
        named := by simpa only [hnodes, hcallback] using h.named
        handles := by simpa only [hcallback] using h.handles
        starting := ?_
        sessions := h.sessions
        clients := h.clients
        sendBuff := h.sendBuff
        sendCount := h.sendCount
        frames := h.frames
        dispatched := h.dispatched
        phase := h.phase.transport rfl rfl hcursor id fun node rest hd hahead =>
          ⟨rest, by simpa only [hnames, hcalling] using hd, by simpa only [hnames] using hahead⟩ }
    intro j counter hj
    rw [happ] at hj
    cases hj
    obtain ⟨joined, -, hi⟩ := h.sessions i
    rw [hi]
    exact Bool.eq_false_iff.mpr hst

section Link

/-- The agent when the node of session `i` is linked and `start()` goes
    on. -/
def afterLink (a : Agent) (notifier : Notifier Nat) (i : Nat) : Agent :=
  { a with
    notifier
    handles := Function.update a.handles i (some a.notifier.list.nodes.length)
    sessions := Function.update a.sessions i ((a.sessions i).start a.pub.dispatched.length) }

variable {notifier : Notifier Nat} {i : Nat} {counter : UInt32}

theorem names_afterLink (h : a.Matches d live ahead)
    (hlist : notifier.list = a.notifier.list.append i counter) {nodes : List Nat}
    (hlt : ∀ p ∈ nodes, p < a.notifier.list.nodes.length) :
    (a.afterLink notifier i).names nodes = a.names nodes := by
  obtain ⟨-, -, -, hcallback⟩ := h.tracks.represents.append_fields i counter
  rw [← hlist] at hcallback
  refine List.filterMap_congr fun p hp => ?_
  show notifier.list.callbackOf p = _
  rw [hcallback, if_neg (hlt p hp).ne]

theorem names_afterLink_new (h : a.Matches d live ahead)
    (hlist : notifier.list = a.notifier.list.append i counter) :
    (a.afterLink notifier i).names [a.notifier.list.nodes.length] = [i] := by
  obtain ⟨-, -, -, hcallback⟩ := h.tracks.represents.append_fields i counter
  rw [← hlist] at hcallback
  simp [names, afterLink, hcallback]

/-- The relation after `start()`, whatever the dispatch has still to
    visit. -/
theorem Matches.link (h : a.Matches d live ahead) (hst : (d.sessions i).started = false)
    (hlist : notifier.list = a.notifier.list.append i counter)
    (hidle : notifier.appending = .idle) {joined : Nat} {ahead' : List Nat}
    {dispatching : Option (CanobjQueueNodeT × List Nat)} {d' : Deployment}
    (hd' : d' = ({ d with
      listeners := d.listeners ++ [i]
      rx := { d.rx with dispatching } } : Deployment).setSession i ((d.sessions i).start joined))
    (hfirst : joined = a.pub.dispatched.length ∨ joined + 1 = a.pub.dispatched.length)
    (htracks : notifier.Tracks (live ++ [a.notifier.list.nodes.length]) ahead')
    (hphase : (a.afterLink notifier i).PhaseMatches d' ahead') :
    (a.afterLink notifier i).Matches d' (live ++ [a.notifier.list.nodes.length]) ahead' := by
  obtain ⟨-, -, -, hcallback⟩ := h.tracks.represents.append_fields i counter
  rw [← hlist] at hcallback
  have hlive : ∀ p ∈ live, p < a.notifier.list.nodes.length := h.tracks.represents.shape.lt_size
  have hself : d'.sessions i = (d.sessions i).start joined := by
    rw [hd']
    exact Function.update_self ..
  have hother : ∀ j, j ≠ i → d'.sessions j = d.sessions j := by
    intro j hne
    rw [hd']
    exact Function.update_of_ne hne ..
  have hne : ∀ j, (d.sessions j).started = true → j ≠ i := by
    intro j hj heq
    rw [heq, hst] at hj
    cases hj
  refine
    { tracks := htracks
      listeners := ?_
      named := ?_
      handles := ?_
      starting := ?_
      sessions := ?_
      clients := by rw [hd']; exact h.clients
      sendBuff := by rw [hd']; exact h.sendBuff
      sendCount := by rw [hd']; exact h.sendCount
      frames := by rw [hd']; exact h.frames
      dispatched := by rw [hd']; exact h.dispatched
      phase := hphase }
  · rw [names_append, names_afterLink h hlist hlive, names_afterLink_new h hlist, ← h.listeners,
      hd']
    rfl
  · intro p hp
    have hlength : notifier.list.nodes.length = a.notifier.list.nodes.length + 1 := by
      rw [hlist, CallbackList.length_append]
    show ∃ j, notifier.list.callbackOf p = some j ∧ _
    rw [hcallback]
    rcases Nat.lt_succ_iff_lt_or_eq.mp (hlength ▸ hp) with hlt | rfl
    · obtain ⟨j, hj, hjst⟩ := h.named p hlt
      rw [if_neg hlt.ne]
      exact ⟨j, hj, by rw [hother j (hne j hjst), hjst]⟩
    · rw [if_pos rfl]
      exact ⟨i, rfl, by rw [hself]; rfl⟩
  · intro p j hp hj
    replace hj : notifier.list.callbackOf p = some j := hj
    rw [hcallback] at hj
    rcases List.mem_append.mp hp with hold | hlast
    · rw [if_neg (hlive p hold).ne] at hj
      obtain ⟨j', hj', hjst⟩ := h.named p (hlive p hold)
      rw [hj] at hj'
      cases hj'
      exact (Function.update_of_ne (hne j hjst) ..).trans (h.handles p j hold hj)
    · obtain rfl := List.mem_singleton.mp hlast
      rw [if_pos rfl] at hj
      cases hj
      exact Function.update_self ..
  · intro j c hj
    replace hj : notifier.appending = .counted j c := hj
    rw [hidle] at hj
    cases hj
  · intro j
    obtain ⟨old, hfirst', hj⟩ := h.sessions j
    rcases eq_or_ne j i with rfl | hji
    · refine ⟨joined, ?_, ?_⟩
      · simpa [afterLink, Session.start, Session.FirstEvent] using hfirst
      · rw [hself, hj]
        simp [afterLink, Session.start, Session.withJoined]
    · refine ⟨old, ?_, ?_⟩
      · simpa [afterLink, hji] using hfirst'
      · rw [hother j hji, hj]
        simp [afterLink, hji]

/-- The listeners before it stay what they are. -/
theorem filter_start {rest : List Nat} (hnot : i ∉ rest) (joined : Nat) :
    rest.filter (fun j =>
      (Function.update d.sessions i ((d.sessions i).start joined) j).registered) =
    rest.filter (fun j => (d.sessions j).registered) := by
  refine List.filter_congr fun j hj => ?_
  have hne : j ≠ i := fun heq => hnot (heq ▸ hj)
  rw [Function.update_of_ne hne]

/-- The new node is linked: `start()` of its session, which joins the
    dispatch if the walk will come to the node. -/
theorem simulate_link (h : a.Matches d live ahead) (hreach : deploymentSystem.Reachable d)
    (hstep : a.step .link = some a') :
    ∃ evs d' live' ahead', deploymentSystem.exec d evs = some d' ∧ a'.Matches d' live' ahead' := by
  simp only [step] at hstep
  split at hstep
  case h_2 => cases hstep
  case h_1 i counter happ =>
    obtain ⟨notifier, hlink, rfl⟩ := Option.map_eq_some_iff.mp hstep
    obtain ⟨joins, _, _, htracks, hjoins, hcursor, -, happ', hlist, hidle⟩ :=
      Notifier.tracks_link h.tracks hlink
    rw [happ] at happ'
    cases happ'
    have hst : (d.sessions i).started = false := h.starting i counter happ
    have hinv := Deployment.inv_of_reachable hreach
    obtain ⟨-, hnovisit⟩ := hinv.registry.of_not_started hst
    have hrest : ∀ node rest, d.rx.dispatching = some (node, a.names a.notifier.calling ++ rest) →
        i ∉ rest := by
      intro node rest hd hmem
      refine hnovisit ?_
      rw [RxThread.toVisit_of_dispatching hd]
      exact List.mem_append_right _ hmem
    have hahead : (a.afterLink notifier i).names ahead = a.names ahead :=
      names_afterLink h hlist fun p hp =>
        h.tracks.represents.shape.lt_size p (h.tracks.ahead_subset hp)
    have hcalls : (a.afterLink notifier i).names notifier.calling = a.names a.notifier.calling := by
      rw [Notifier.calling, hcursor, ← Notifier.calling]
      exact names_afterLink h hlist fun p hp => h.tracks.calling_lt hp
    show ∃ evs d' live' ahead', _ ∧ (a.afterLink notifier i).Matches d' live' ahead'
    cases joins with
    | false =>
      have hexec : deploymentSystem.exec d [.start i false] =
          some (({ d with listeners := d.listeners ++ [i] } : Deployment).setSession i
            ((d.sessions i).start d.rx.dispatched.length)) := by
        refine deploymentSystem.exec_singleton ?_
        simp [deploymentSystem, Deployment.step, hst]
      refine ⟨_, _, _, _, hexec, h.link hst hlist hidle rfl ?_ htracks ?_⟩
      · exact Or.inl (congrArg List.length h.dispatched)
      refine h.phase.transport rfl rfl hcursor id fun node rest hd hfound => ⟨rest, ?_, ?_⟩
      · exact hd.trans (by rw [← hcalls]; rfl)
      · simp only [Bool.false_eq_true, if_false, List.append_nil]
        rw [hahead, ← hfound]
        exact filter_start (hrest node rest hd) _
    | true =>
      cases hdisp : d.rx.dispatching with
      | none =>
        -- There is no dispatch to join.
        cases h.phase with
        | receive _ _ _ _ _ _ hcur => cases hjoins hcur
        | process _ _ _ _ _ _ _ hcur => cases hjoins hcur
        | loop _ _ _ _ _ _ _ _ hcur => cases hjoins hcur
        | dispatch _ _ _ _ _ _ _ _ _ hd => rw [hdisp] at hd; cases hd
      | some current =>
        obtain ⟨node, is⟩ := current
        have hexec : deploymentSystem.exec d [.start i true] =
            some (({ d with
              listeners := d.listeners ++ [i]
              rx := { d.rx with dispatching := some (node, is ++ [i]) } } : Deployment).setSession i
                ((d.sessions i).start (d.rx.dispatched.length - 1))) := by
          refine deploymentSystem.exec_singleton ?_
          simp [deploymentSystem, Deployment.step, hst, hdisp]
        refine ⟨_, _, _, _, hexec, h.link hst hlist hidle rfl ?_ htracks ?_⟩
        · -- It joins the dispatch of the last of the events.
          obtain ⟨front, hfront⟩ := hinv.rx.current node is hdisp
          rw [← h.dispatched, hfront]
          simp
        refine h.phase.transport rfl rfl hcursor ?_ ?_
        · intro hnone
          rw [hdisp] at hnone
          cases hnone
        · intro node' rest hd hfound
          have hsame := filter_start (d := d) (hrest node' rest hd) (d.rx.dispatched.length - 1)
          rw [hdisp] at hd
          cases hd
          refine ⟨rest ++ [i], ?_, ?_⟩
          · rw [← List.append_assoc, ← hcalls]
            rfl
          · rw [if_pos rfl, names_append, hahead, names_afterLink_new h hlist, ← hfound, ← hsame,
              List.filter_append]
            simp [Deployment.setSession, Session.start]

end Link

/-- The callbacks of the listeners are different sessions. -/
theorem Matches.eq_of_callbackOf (h : a.Matches d live ahead) {p q i : Nat} (hp : p ∈ live)
    (hq : q ∈ live) (hpi : a.notifier.list.callbackOf p = some i)
    (hqi : a.notifier.list.callbackOf q = some i) : p = q :=
  Option.some.inj ((h.handles p i hp hpi).symm.trans (h.handles q i hq hqi))

/-- Without the node of session `i`, its name is gone, and no other. -/
theorem Matches.names_filter (h : a.Matches d live ahead) {p i : Nat} (hp : p ∈ live)
    (hi : a.notifier.list.callbackOf p = some i) {nodes : List Nat}
    (hnodes : ∀ q ∈ nodes, q ∈ live) :
    a.names (nodes.filter (· ≠ p)) = (a.names nodes).filter (· ≠ i) := by
  induction nodes with
  | nil => rfl
  | cons q nodes ih =>
    have hq : q ∈ live := hnodes q List.mem_cons_self
    obtain ⟨j, hj, hcallback, -⟩ := h.name (h.tracks.represents.shape.lt_size q hq)
    have hsplit : a.names (q :: nodes) = j :: a.names nodes := by
      rw [← List.singleton_append, names_append, hj, List.singleton_append]
    have hiff : q = p ↔ j = i := by
      constructor
      · rintro rfl
        rw [hi] at hcallback
        exact (Option.some.inj hcallback).symm
      · rintro rfl
        exact h.eq_of_callbackOf hq hp hcallback hi
    have ih' := ih fun r hr => hnodes r (List.mem_cons_of_mem _ hr)
    rw [hsplit]
    by_cases hqp : q = p
    · rw [List.filter_cons_of_neg (by simpa using hqp),
        List.filter_cons_of_neg (by simpa using hiff.mp hqp), ih']
    · rw [List.filter_cons_of_pos (by simpa using hqp),
        List.filter_cons_of_pos (by simpa using fun hji => hqp (hiff.mpr hji)),
        ← List.singleton_append, names_append, hj, ih']
      rfl

/-- An event of a session that keeps its listener. -/
theorem Matches.session (h : a.Matches d live ahead) {i joined : Nat} {s : Session}
    {ev : SessionEvent} (hfirst : (a.sessions i).FirstEvent joined)
    (hold : d.sessions i = (a.sessions i).withJoined joined)
    (hstep : (a.sessions i).step ev = some s) (hreg : s.registered = true) :
    Matches { a with sessions := Function.update a.sessions i s }
      (d.setSession i (s.withJoined joined)) live ahead := by
  have hframe := Session.frame_step hstep
  have hkeep : ∀ j, ((d.setSession i (s.withJoined joined)).sessions j).started =
      (d.sessions j).started ∧ ((d.setSession i (s.withJoined joined)).sessions j).registered =
      (d.sessions j).registered := by
    intro j
    rcases eq_or_ne j i with rfl | hne
    · rw [hold, Deployment.setSession_sessions_self]
      exact ⟨hframe.started, hreg.trans (hframe.registered hreg).symm⟩
    · rw [Deployment.setSession_sessions_ne hne]
      exact ⟨rfl, rfl⟩
  refine
    { tracks := h.tracks
      listeners := h.listeners
      named := by simpa only [(hkeep _).1] using h.named
      handles := h.handles
      starting := by simpa only [(hkeep _).1] using h.starting
      sessions := ?_
      clients := h.clients
      sendBuff := h.sendBuff
      sendCount := h.sendCount
      frames := h.frames
      dispatched := h.dispatched
      phase := h.phase.transport rfl rfl rfl id fun node rest hd hahead => ⟨rest, hd, ?_⟩ }
  · intro j
    rcases eq_or_ne j i with rfl | hne
    · refine ⟨joined, ?_, by simp [Deployment.setSession]⟩
      simpa [Session.FirstEvent, hframe.joined] using hfirst
    · simpa [Deployment.setSession, hne] using h.sessions j
  · simp only [(hkeep _).2]
    exact hahead

/-- A session that listens has the handle of its node. -/
theorem Matches.handle (h : a.Matches d live ahead) (hregistry : d.Registry) {i : Nat}
    (hwas : (d.sessions i).registered = true) :
    ∃ p ∈ live, a.notifier.list.callbackOf p = some i ∧ a.handles i = some p := by
  have hmem := (hregistry.registered i).mpr hwas
  rw [h.listeners, names, List.mem_filterMap] at hmem
  obtain ⟨p, hp, hi⟩ := hmem
  exact ⟨p, hp, hi, h.handles p i hp hi⟩

/-- A failed write: the listener is removed, and is ahead of the dispatch
    no more. -/
theorem Matches.disconnect (h : a.Matches d live ahead) (hregistry : d.Registry) {i joined : Nat}
    {s : Session} {ev : SessionEvent} {notifier : Notifier Nat}
    (hfirst : (a.sessions i).FirstEvent joined)
    (hold : d.sessions i = (a.sessions i).withJoined joined)
    (hstep : (a.sessions i).step ev = some s) (hwas : (d.sessions i).registered = true)
    (hreg : s.registered = false) (hidle : a.notifier.appending = .idle)
    (hremove : a.notifier.step (.remove (a.handles i)) = some notifier) :
    ∃ live' ahead', Matches { a with sessions := Function.update a.sessions i s, notifier }
      { d.setSession i (s.withJoined joined) with listeners := d.listeners.erase i }
      live' ahead' := by
  have hframe := Session.frame_step hstep
  obtain ⟨p, hp, hi, hhandle⟩ := h.handle hregistry hwas
  rw [hhandle] at hremove
  obtain ⟨xs, ys, rfl⟩ := List.append_of_mem hp
  obtain ⟨htracks, hcursor, -, hlist, happ⟩ := Notifier.tracks_remove h.tracks hremove
  obtain ⟨-, -, -, hcallback⟩ := h.tracks.represents.doFreeNode_fields
  rw [← hlist] at hcallback
  have hcallback' : notifier.list.callbackOf = a.notifier.list.callbackOf := funext hcallback
  have hlength : notifier.list.nodes.length = a.notifier.list.nodes.length := by
    rw [hlist, CallbackList.length_doFreeNode]
  have hcalling : notifier.calling = a.notifier.calling := by
    rw [Notifier.calling, hcursor, Notifier.calling]
  have hnames : ∀ nodes, Agent.names
      { a with sessions := Function.update a.sessions i s, notifier } nodes = a.names nodes := by
    intro nodes
    rw [names, hcallback', ← names]
  have hsub : ∀ q ∈ xs ++ ys, q ∈ xs ++ p :: ys := by
    intro q hq
    rcases List.mem_append.mp hq with hx | hy
    · exact List.mem_append_left _ hx
    · exact List.mem_append_right _ (List.mem_cons_of_mem _ hy)
  have hstarted : ∀ j, ((d.setSession i (s.withJoined joined)).sessions j).started =
      (d.sessions j).started := by
    intro j
    rcases eq_or_ne j i with rfl | hne
    · rw [hold, Deployment.setSession_sessions_self]
      exact hframe.started
    · rw [Deployment.setSession_sessions_ne hne]
  refine ⟨xs ++ ys, ahead.filter (· ≠ p), ?_⟩
  refine
    { tracks := htracks
      listeners := ?_
      named := ?_
      handles := ?_
      starting := ?_
      sessions := ?_
      clients := h.clients
      sendBuff := h.sendBuff
      sendCount := h.sendCount
      frames := h.frames
      dispatched := h.dispatched
      phase := h.phase.transport rfl rfl hcursor id fun node rest hd hahead => ⟨rest, ?_, ?_⟩ }
  · have hunlink := h.tracks.represents.shape.filter_unlink fun _ => true
    rw [List.filter_true, List.filter_true] at hunlink
    rw [hnames, ← hunlink, h.names_filter hp hi fun q hq => hq, ← h.listeners]
    show d.listeners.erase i = _
    rw [hregistry.nodup.erase_eq_filter]
    exact List.filter_congr fun j _ => by simp [bne, beq_eq_decide]
  · intro q hq
    obtain ⟨j, hj, hst⟩ := h.named q (hlength ▸ hq)
    exact ⟨j, by rw [hcallback, hj], (hstarted j).trans hst⟩
  · intro q j hq hj
    exact h.handles q j (hsub q hq) ((hcallback q).symm.trans hj)
  · intro j c hj
    replace hj : notifier.appending = .counted j c := hj
    rw [happ, hidle] at hj
    cases hj
  · intro j
    rcases eq_or_ne j i with rfl | hne
    · refine ⟨joined, ?_, by simp [Deployment.setSession]⟩
      simpa [Session.FirstEvent, hframe.joined] using hfirst
    · simpa [Deployment.setSession, hne] using h.sessions j
  · rw [hnames]
    show _ = some (node, a.names notifier.calling ++ rest)
    rw [hcalling]
    exact hd
  · rw [hnames, h.names_filter hp hi (fun q hq => h.tracks.ahead_subset hq), ← hahead,
      List.filter_filter]
    refine List.filter_congr fun j _ => ?_
    rcases eq_or_ne j i with rfl | hne
    · simp [Deployment.setSession, Session.withJoined, hreg]
    · simp [Deployment.setSession, hne]

/-- The session of the specification takes the same step, and it listens. -/
theorem Matches.session_step (h : a.Matches d live ahead) (hreach : deploymentSystem.Reachable d)
    {i : Nat} {ev : SessionEvent} {s : Session} (hs : (a.sessions i).step ev = some s) :
    ∃ joined, (a.sessions i).FirstEvent joined ∧
      d.sessions i = (a.sessions i).withJoined joined ∧
      (d.sessions i).step ev = some (s.withJoined joined) ∧
      (d.sessions i).registered = true := by
  obtain ⟨joined, hfirst, hold⟩ := h.sessions i
  have hstep : (d.sessions i).step ev = some (s.withJoined joined) := by
    rw [hold, Session.step_withJoined, hs]
    rfl
  exact ⟨joined, hfirst, hold, hstep,
    Session.registered_of_step ((Deployment.inv_of_reachable hreach).link i).session.flight
      (Deployment.listening_of_reachable hreach i) hstep⟩

theorem simulate_session (h : a.Matches d live ahead) (hreach : deploymentSystem.Reachable d)
    {i : Nat} {ev : SessionEvent} (hstep : a.step (.session i ev) = some a') :
    ∃ d' live' ahead', deploymentSystem.exec d [.session i ev] = some d' ∧
      a'.Matches d' live' ahead' := by
  simp only [step] at hstep
  split at hstep
  case h_2 => cases hstep
  case h_1 hidle =>
    obtain ⟨s, hs, hrest⟩ := Option.bind_eq_some_iff.mp hstep
    obtain ⟨joined, hfirst, hold, hstep', hwas⟩ := h.session_step hreach hs
    have hexec : deploymentSystem.exec d [.session i ev] =
        some { d.setSession i (s.withJoined joined) with
          listeners := if s.registered then d.listeners else d.listeners.erase i } := by
      refine deploymentSystem.exec_singleton ?_
      simp only [deploymentSystem, Deployment.step, hstep', Option.map_some]
      rfl
    split at hrest
    case isTrue hreg =>
      cases hrest
      rw [if_pos hreg] at hexec
      exact ⟨_, live, ahead, hexec, h.session hfirst hold hs hreg⟩
    case isFalse hreg =>
      obtain ⟨notifier, hremove, rfl⟩ := Option.map_eq_some_iff.mp hrest
      rw [if_neg hreg] at hexec
      obtain ⟨live', ahead', hmatch⟩ := h.disconnect (Deployment.inv_of_reachable hreach).registry
        hfirst hold hs hwas (Bool.eq_false_iff.mpr hreg) hidle hremove
      exact ⟨_, live', ahead', hexec, hmatch⟩

theorem simulate_client (h : a.Matches d live ahead) {i : Nat} {ev : ClientEvent}
    (hstep : a.step (.client i ev) = some a') :
    ∃ d', deploymentSystem.exec d [.client i ev] = some d' ∧ a'.Matches d' live ahead := by
  simp only [step] at hstep
  split at hstep
  case isFalse => cases hstep
  case isTrue hin =>
    obtain ⟨c, hc, rfl⟩ := Option.map_eq_some_iff.mp hstep
    obtain ⟨joined, -, hold⟩ := h.sessions i
    have hsent : (d.sessions i).sent = (a.sessions i).sent := by rw [hold]; rfl
    have hin' : inStream (d.sessions i) (a.clients i) ev = true := by
      cases ev with
      | io ev => simpa only [inStream, hsent] using hin
      | _ => rfl
    have hexec : deploymentSystem.exec d [.client i ev] =
        some { d with clients := Function.update d.clients i c } := by
      refine deploymentSystem.exec_singleton ?_
      simp [deploymentSystem, Deployment.step, hin', h.clients, hc]
    refine ⟨_, hexec, h.tracks, h.listeners, h.named, h.handles, h.starting, h.sessions, ?_,
      h.sendBuff, h.sendCount, h.frames, h.dispatched, ?_⟩
    · show Function.update d.clients i c = _
      rw [h.clients]
    · exact h.phase.transport rfl rfl rfl id fun node rest hd hahead => ⟨rest, hd, hahead⟩

/-! ## Section 6: The simulation -/

/-- The initial states. -/
theorem matches_new (sendBuff : ByteMemory.Memory) (nets : Nat → CanImpCanNet) :
    (new sendBuff nets).Matches (.new sendBuff nets) [] [] where
  tracks := Notifier.tracks_new
  listeners := rfl
  named p hp := absurd hp (Nat.not_lt_zero p)
  handles p i hp := by cases hp
  starting i counter happ := by cases happ
  sessions i := ⟨0, Or.inl rfl, rfl⟩
  clients := rfl
  sendBuff := rfl
  sendCount := rfl
  frames := rfl
  dispatched := rfl
  phase := .receive 0 rfl rfl (Nat.zero_le _) rfl rfl rfl

/-- **Step lemma**: every step of the agent is answered by a run. -/
theorem matches_step (h : a.Matches d live ahead) (hreach : deploymentSystem.Reachable d)
    {ev : AgentEvent} (hguard : a.Countable ev) (hstep : a.step ev = some a') :
    ∃ evs d' live' ahead', deploymentSystem.exec d evs = some d' ∧ a'.Matches d' live' ahead' := by
  cases ev with
  | receive frames =>
    obtain ⟨d', hexec, hmatch⟩ := simulate_receive h hstep
    exact ⟨_, d', live, ahead, hexec, hmatch⟩
  | publish =>
    obtain ⟨evs, d', ahead', hexec, hmatch⟩ := simulate_publish h hreach hstep
    exact ⟨evs, d', live, ahead', hexec, hmatch⟩
  | append i => exact ⟨[], d, live, ahead, rfl, simulate_append h hguard hstep⟩
  | renumber =>
    obtain ⟨notifier, hrenumber, -⟩ := Option.map_eq_some_iff.mp hstep
    rw [h.tracks.not_overflow.1] at hrenumber
    cases hrenumber
  | recount =>
    obtain ⟨notifier, hrecount, -⟩ := Option.map_eq_some_iff.mp hstep
    rw [h.tracks.not_overflow.2] at hrecount
    cases hrecount
  | link => exact simulate_link h hreach hstep
  | session i ev =>
    obtain ⟨d', live', ahead', hexec, hmatch⟩ := simulate_session h hreach hstep
    exact ⟨_, d', live', ahead', hexec, hmatch⟩
  | client i ev =>
    obtain ⟨d', hexec, hmatch⟩ := simulate_client h hstep
    exact ⟨_, d', live, ahead, hexec, hmatch⟩

/-- Every state of the agent has a state of its specification. -/
theorem matches_of_reachable (h : agentSystem.ReachableBy Countable a) :
    ∃ d, deploymentSystem.Reachable d ∧ ∃ live ahead, a.Matches d live ahead := by
  refine agentSystem.reachable_of_simulation deploymentSystem
    (R := fun a d => ∃ live ahead, a.Matches d live ahead) ?_ ?_ h
  · rintro _ ⟨sendBuff, nets, hnets, rfl⟩
    exact ⟨_, ⟨sendBuff, nets, hnets, rfl⟩, [], [], matches_new sendBuff nets⟩
  · rintro a d ev a' ⟨live, ahead, hmatch⟩ hreach hguard hstep
    obtain ⟨evs, d', live', ahead', hexec, hmatch'⟩ := matches_step hmatch hreach hguard hstep
    exact ⟨evs, d', hexec, live', ahead', hmatch'⟩

/-- What a step of `processIf` does to the listeners and the sessions. -/
theorem publish_cases (h : a.publish = some a') :
    (∃ pub, a' = { a with pub }) ∨
    (∃ notifier pub, a.notifier.step .dispatch = some notifier ∧ a' = { a with notifier, pub }) ∨
    ∃ (cursor : WalkCursor) (notifier : Notifier Nat) (node : CanobjQueueNodeT),
      a.notifier.step .walk = some notifier ∧
        a' = { a with notifier, sessions := a.consume node cursor.calling } := by
  unfold publish at h
  split at h
  case h_1 => cases h
  case h_2 => split at h <;> cases h <;> exact Or.inl ⟨_, rfl⟩
  case h_3 =>
    split at h
    case isTrue =>
      cases h
      exact Or.inl ⟨_, rfl⟩
    case isFalse =>
      obtain ⟨⟨p, event⟩, -, hround⟩ := Option.bind_eq_some_iff.mp h
      cases event with
      | none =>
        cases hround
        exact Or.inl ⟨_, rfl⟩
      | some node =>
        obtain ⟨notifier, hdispatch, rfl⟩ := Option.map_eq_some_iff.mp hround
        exact Or.inr (Or.inl ⟨notifier, _, hdispatch, rfl⟩)
  case h_4 =>
    split at h
    case h_1 =>
      cases h
      exact Or.inl ⟨_, rfl⟩
    case h_2 cursor _ =>
      obtain ⟨notifier, hwalk, rfl⟩ := Option.map_eq_some_iff.mp h
      exact Or.inr (Or.inr ⟨cursor, notifier, _, hwalk, rfl⟩)

/-- A step of the agent is one of its list of listeners, or leaves the list
    alone. -/
theorem notifier_of_step (h : agentSystem.ReachableBy Countable a) {ev : AgentEvent}
    (hguard : a.Countable ev) (hstep : a.step ev = some a') :
    a'.notifier = a.notifier ∨
      ∃ ev', a.notifier.Disciplined ev' ∧ a.notifier.step ev' = some a'.notifier := by
  cases ev with
  | receive frames =>
    simp only [step] at hstep
    split at hstep
    case h_2 => cases hstep
    case h_1 =>
      obtain ⟨-, heq⟩ := Option.ite_none_right_eq_some.mp hstep
      obtain ⟨pub, -, rfl⟩ := Option.map_eq_some_iff.mp heq
      exact Or.inl rfl
  | publish =>
    rcases publish_cases hstep with ⟨_, rfl⟩ | ⟨_, _, hdispatch, rfl⟩ | ⟨_, _, _, hwalk, rfl⟩
    · exact Or.inl rfl
    · exact Or.inr ⟨.dispatch, trivial, hdispatch⟩
    · exact Or.inr ⟨.walk, trivial, hwalk⟩
  | append i =>
    simp only [step] at hstep
    split at hstep
    · cases hstep
    · obtain ⟨notifier, hcount, rfl⟩ := Option.map_eq_some_iff.mp hstep
      exact Or.inr ⟨.count i, hguard, hcount⟩
  | renumber =>
    obtain ⟨notifier, hrenumber, rfl⟩ := Option.map_eq_some_iff.mp hstep
    exact Or.inr ⟨.renumber, trivial, hrenumber⟩
  | recount =>
    obtain ⟨notifier, hrecount, rfl⟩ := Option.map_eq_some_iff.mp hstep
    exact Or.inr ⟨.recount, trivial, hrecount⟩
  | link =>
    simp only [step] at hstep
    split at hstep
    case h_2 => cases hstep
    case h_1 =>
      obtain ⟨notifier, hlink, rfl⟩ := Option.map_eq_some_iff.mp hstep
      exact Or.inr ⟨.link, trivial, hlink⟩
  | session i ev =>
    simp only [step] at hstep
    split at hstep
    case h_2 => cases hstep
    case h_1 =>
      obtain ⟨s, hs, hrest⟩ := Option.bind_eq_some_iff.mp hstep
      split at hrest
      · cases hrest
        exact Or.inl rfl
      · -- Its handle is the one of a node on the list.
        obtain ⟨notifier, hremove, rfl⟩ := Option.map_eq_some_iff.mp hrest
        obtain ⟨d, hreach, live, ahead, hmatch⟩ := matches_of_reachable h
        obtain ⟨_, -, -, -, hwas⟩ := hmatch.session_step hreach hs
        obtain ⟨p, hp, -, hhandle⟩ :=
          hmatch.handle (Deployment.inv_of_reachable hreach).registry hwas
        refine Or.inr ⟨_, ?_, hremove⟩
        rw [hhandle]
        exact hmatch.tracks.represents.mem_iff.mp hp
  | client i ev =>
    simp only [step] at hstep
    split at hstep
    · obtain ⟨c, -, rfl⟩ := Option.map_eq_some_iff.mp hstep
      exact Or.inl rfl
    · cases hstep

/-- Each handle is removed once at most, and the counter never overflows. -/
theorem notifier_of_reachable (h : agentSystem.ReachableBy Countable a) :
    (notifierSystem Nat).ReachableBy Notifier.Disciplined a.notifier := by
  induction h with
  | init ha =>
    obtain ⟨_, _, -, rfl⟩ := ha
    exact .init rfl
  | step ev ha hguard hstep ih =>
    rcases notifier_of_step ha hguard hstep with heq | ⟨ev', hguard', hstep'⟩
    · rw [heq]
      exact ih
    · exact ih.step ev' hguard' hstep'

/-- A run that keeps to the guard, from the initial state. -/
theorem reachable_of_execWithin {evs : List AgentEvent}
    (h : agentSystem.execWithin (fun a ev => decide (a.Countable ev))
      (.new (fun _ => 0) fun _ => freshClient) evs = some a) :
    agentSystem.ReachableBy Countable a :=
  LTS.System.ReachableBy.execWithin _ (fun _ _ hg => of_decide_eq_true hg)
    (LTS.System.ReachableBy.init ⟨_, _, fun _ => ⟨rfl, rfl⟩, rfl⟩) h

end Agent

/-- **Refinement.** Whatever the two threads do to the buffers of the event
    queue and to the nodes of its listeners, the agent is in a state of its
    specification: the same frames were read and the same events dispatched,
    the listeners are the sessions of the nodes that are not removed, in
    this order, and every session and client has done the same.  What is open
    when a session is linked is only whether it joins the latest dispatch. -/
theorem agent_refines_deployment {a : Agent} (h : agentSystem.ReachableBy Agent.Countable a) :
    ∃ d, deploymentSystem.Reachable d ∧
      d.rx.frames = a.pub.frames ∧ d.rx.dispatched = a.pub.dispatched ∧
      d.listeners = a.names a.notifier.linked ∧
      (∀ i, ∃ joined, (a.sessions i).FirstEvent joined ∧
        d.sessions i = (a.sessions i).withJoined joined) ∧
      d.clients = a.clients := by
  obtain ⟨d, hreach, live, ahead, hmatch⟩ := Agent.matches_of_reachable h
  refine ⟨d, hreach, hmatch.frames, hmatch.dispatched, ?_, hmatch.sessions, hmatch.clients⟩
  rw [hmatch.tracks.represents.linked_eq]
  exact hmatch.listeners

/-- The second session is appended while the only frame is dispatched.  The
    walk stands at the node of the first session when its write fails and
    the node is removed; it follows the link that the node keeps. -/
def removedUnderWalk : List AgentEvent :=
  [.append 0, .link, .receive [(7, .zero)], .publish, .publish, .append 1, .publish, .publish,
    .link, .publish, .session 0 .transpose, .session 0 .transpose, .session 0 (.written 0 ⟨104⟩)] ++
  List.replicate 7 .publish

theorem agent_refines_deployment_sample :
    ∃ a d, agentSystem.ReachableBy Agent.Countable a ∧ deploymentSystem.Reachable d ∧
      d.listeners = a.names a.notifier.linked ∧ a.names a.notifier.linked = [1] ∧
      [0, 1].map (fun i => (a.sessions i).offers.length) = [1, 1] := by
  have hrun : (agentSystem.execWithin (fun a ev => decide (a.Countable ev))
      (.new (fun _ => 0) fun _ => freshClient) removedUnderWalk).map
      (fun a => (a.names a.notifier.linked,
        [0, 1].map fun i => (a.sessions i).offers.length)) = some ([1], [1, 1]) := by
    decide +kernel
  obtain ⟨a, ha, hval⟩ := Option.map_eq_some_iff.mp hrun
  obtain ⟨hlinked, hoffers⟩ := Prod.mk.inj hval
  have hreach := Agent.reachable_of_execWithin ha
  obtain ⟨d, hd, -, -, hlisteners, -⟩ := agent_refines_deployment hreach
  exact ⟨a, d, hreach, hd, hlisteners, hlinked, hoffers⟩

/-- **Delivery, through the buffers and the nodes.** For every session and
    its client: what `VCI_Receive` has returned is, byte for byte and in
    order, the frames of the first events that the session accepted; the
    events that it was handed are dispatched events without a gap; and the
    `k`-th event dispatched has number `k` and is the `k`-th frame read. -/
theorem agent_delivers_in_order {a : Agent} (h : agentSystem.ReachableBy Agent.Countable a)
    (i : Nat) :
    ((a.clients i).returned <+: (a.sessions i).accepted.map fun node => node.frame.bytes) ∧
    (a.sessions i).offers.map Prod.fst <:+: a.pub.dispatched ∧
    ∀ k node, a.pub.dispatched[k]? = some node →
      node.sendCount = UInt64.ofNat k ∧ a.pub.frames[k]? = some node.frame := by
  obtain ⟨d, hreach, live, ahead, hmatch⟩ := Agent.matches_of_reachable h
  obtain ⟨joined, -, hi⟩ := hmatch.sessions i
  have hinv := Deployment.inv_of_reachable hreach
  have haccepted : (d.sessions i).accepted = (a.sessions i).accepted := by rw [hi]; rfl
  have hoffers : (d.sessions i).offers = (a.sessions i).offers := by rw [hi]; rfl
  refine ⟨?_, ?_, ?_⟩
  · rw [← hmatch.clients, ← haccepted]
    exact (hinv.link i).returned_isPrefix
  · have hfirst : (d.sessions i).offers.map Prod.fst <+:
        d.rx.dispatched.drop (d.sessions i).joined :=
      (List.prefix_append _ _).trans (hinv.offered i).isPrefix
    rw [← hoffers, ← hmatch.dispatched]
    exact hfirst.isInfix.trans (List.drop_suffix _ _).isInfix
  · intro k node hk
    rw [← hmatch.dispatched] at hk
    have hk' : (d.rx.dispatched ++ d.rx.queue)[k]? = some node := by
      rw [List.getElem?_append_left (List.getElem?_eq_some_iff.mp hk).1, hk]
    refine ⟨hinv.rx.numbers k node hk', ?_⟩
    rw [← hmatch.frames, ← hinv.rx.frames, List.getElem?_map, hk']
    rfl

/-- One frame on its way through the queue to the slot of a client. -/
def oneFrameThrough (frame : VciCanObj) : List AgentEvent :=
  [.append 0, .link, .receive [(7, frame)]] ++ List.replicate 9 .publish ++
  [.session 0 .transpose, .session 0 .transpose, .session 0 (.send 0 93),
    .client 0 (.call 0 1 10 fun _ => 0),
    .client 0 (.io (.arrive (frameLine 0 7 frame ++ [10]))), .client 0 (.io .runRead),
    .client 0 (.io .runTimer), .client 0 .ret]

theorem agent_delivers_in_order_sample :
    ∃ a, agentSystem.ReachableBy Agent.Countable a ∧
      (a.clients 0).returned = [VciCanObj.zero.bytes] ∧
      ((a.clients 0).returned <+: (a.sessions 0).accepted.map fun node => node.frame.bytes) := by
  have hrun : (agentSystem.execWithin (fun a ev => decide (a.Countable ev))
      (.new (fun _ => 0) fun _ => freshClient) (oneFrameThrough .zero)).map
      (fun a => (a.clients 0).returned) = some [VciCanObj.zero.bytes] := by
    decide +kernel
  obtain ⟨a, ha, hval⟩ := Option.map_eq_some_iff.mp hrun
  have hreach := Agent.reachable_of_execWithin ha
  exact ⟨a, hreach, hval, (agent_delivers_in_order hreach 0).1⟩

end LibControlCan
