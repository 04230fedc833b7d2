import LibControlCan.Agent.Progress
import LibControlCan.Agent.Refinement
import LibControlCan.Receive.Progress

/-! # What was read can always be sent

    `processIf` comes to its end whatever the listeners are, no assertion
    of a buffer fails on the way, and the sessions can then send all that
    they accepted.

    * `Represents.distance_walk`: the links lead forwards, also those of
      removed nodes, so that a walk ends.
    * `Agent.remaining` is what `processIf` has still to do.
    * `agent_can_flush`: from every state that can be reached.
    * `agent_can_deliver`: as far as the slots of a client. -/

namespace LibControlCan

open LinkedList Lines

/-! ## Section 1: A walk ends -/

namespace WalkCursor

/-- How far a pointer is from the end of a list of `size` nodes. -/
def pointerDistance (size : Nat) : Option Nat → Nat
  | none => 0
  | some p => 3 * (size - p)

/-- How many steps a thread in `doForEachIf` has still to go, at most. -/
def distance (size : Nat) : WalkCursor → Nat
  | .load node => pointerDistance size node + 2
  | .test _ node => pointerDistance size node + 1
  | .call _ node => 3 * (size - node)
  | .advance _ node => 3 * (size - node) - 1

theorem distance_le (size : Nat) (cursor : WalkCursor) : cursor.distance size ≤ 3 * size + 2 := by
  have hpointer : ∀ node, pointerDistance size node ≤ 3 * size := by
    intro node
    cases node <;> simp only [pointerDistance] <;> omega
  cases cursor with
  | load node => exact Nat.add_le_add_right (hpointer node) 2
  | test _ node =>
    have := hpointer node
    simp only [distance]
    omega
  | call _ node =>
    simp only [distance]
    omega
  | advance _ node =>
    simp only [distance]
    omega

end WalkCursor

/-- Each step of the walk brings it nearer to the end. -/
theorem CallbackList.Represents.distance_walk {C : Type} {l : CallbackList C}
    {live ahead : List Nat} (h : l.Represents live) {cursor : WalkCursor}
    (hahead : cursor.Ahead l live ahead) :
    ((l.doForEachIf cursor).map (WalkCursor.distance l.nodes.length)).getD 0 <
      cursor.distance l.nodes.length := by
  cases hahead with
  | load => exact Nat.lt_succ_self _
  | @test counter node _ hfinds =>
    cases node with
    | none => exact Nat.lt_succ_self _
    | some p =>
      by_cases hpass : l.counterOf p ≠ removedCounter ∧ l.counterOf p ≤ counter
      · rw [doForEachIf, if_pos hpass]
        exact Nat.lt_succ_self _
      · rw [doForEachIf, if_neg hpass]
        simp only [Option.map_some, Option.getD_some, WalkCursor.distance,
          WalkCursor.pointerDistance]
        omega
  | @call counter node _ hfinds =>
    have hlt := hfinds.lt_size
    simp only [doForEachIf, Option.map_some, Option.getD_some, WalkCursor.distance]
    omega
  | @advance counter node _ hfinds =>
    have hlt := hfinds.lt_size
    simp only [doForEachIf, Option.map_some, Option.getD_some, WalkCursor.distance]
    cases hnext : l.nextOf node with
    | none =>
      simp only [WalkCursor.pointerDistance]
      omega
    | some q =>
      obtain ⟨hforward, hq, -⟩ := h.shape.forward node q hlt hnext
      simp only [WalkCursor.pointerDistance]
      omega

/-! ## Section 2: The end of `processIf` -/

namespace Agent

/-- How many steps `processIf` has still to go, at most. -/
def remaining (a : Agent) : Nat :=
  let walk := 3 * a.notifier.list.nodes.length + 4
  match a.pub.phase with
  | .receive => 0
  | .process _ => 2 + a.pub.queue.queueList.length * walk
  | .loop _ p => 1 + p.rest.length * walk
  | .dispatch _ p _ =>
    2 + p.rest.length * walk +
      (a.notifier.cursor.map (WalkCursor.distance a.notifier.list.nodes.length)).getD 0

/-- What a step of `processIf` leaves alone. -/
structure Published (a a' : Agent) : Prop where
  frames : a'.pub.frames = a.pub.frames
  appending : a'.notifier.appending = a.notifier.appending
  registered : ∀ i, (a'.sessions i).registered = (a.sessions i).registered
  joined : ∀ i, (a'.sessions i).joined = (a.sessions i).joined
  clients : a'.clients = a.clients

theorem Published.trans {a b c : Agent} (h : Published a b) (h' : Published b c) : Published a c :=
  ⟨h'.frames.trans h.frames, h'.appending.trans h.appending,
    fun i => (h'.registered i).trans (h.registered i),
    fun i => (h'.joined i).trans (h.joined i), h'.clients.trans h.clients⟩

/-- The callbacks of a dispatch only push to the queues of the sessions. -/
theorem consume_eq (a : Agent) (node : CanobjQueueNodeT) (nodes : List Nat) (i : Nat) :
    ∃ spscQueue offers, a.consume node nodes i = { a.sessions i with spscQueue, offers } := by
  unfold consume
  -- The loop over the callbacks, from any sessions.
  generalize a.names nodes = is
  generalize a.sessions = sessions
  induction is generalizing sessions with
  | nil => exact ⟨_, _, rfl⟩
  | cons j is ih =>
    obtain ⟨spscQueue, offers, heq⟩ := ih
      (Function.update sessions j ((sessions j).consumeCanObjHandler node))
    rw [List.foldl_cons, heq]
    rcases eq_or_ne i j with rfl | hne
    · rw [Function.update_self]
      rcases Session.consumeCanObjHandler_cases node (sessions i) with ⟨-, hpush⟩ | ⟨-, hpush⟩ <;>
        rw [hpush] <;> exact ⟨_, _, rfl⟩
    · rw [Function.update_of_ne hne]
      exact ⟨_, _, rfl⟩

variable {a a' : Agent} {d : Deployment} {live ahead : List Nat}

/-- **Progress**: no assertion stops `processIf`, and every step of it
    brings it nearer to its end. -/
theorem Matches.publish_step (h : a.Matches d live ahead) (hphase : a.pub.phase ≠ .receive) :
    ∃ a', a.publish = some a' ∧ Published a a' ∧ a'.remaining < a.remaining := by
  cases h.phase with
  | receive n hp => exact absurd hp hphase
  | process frameNum n hp hqueue =>
    cases hrx : d.rx.queue with
    | nil =>
      have hpub : a.publish = some { a with pub := { a.pub with phase := .receive } } := by
        simp [publish, hp, hqueue, hrx, EventQueue.take, EventQueue.ofEvents]
      refine ⟨_, hpub, ⟨rfl, rfl, fun _ => rfl, fun _ => rfl, rfl⟩, ?_⟩
      simp [remaining, hp]
    | cons node es =>
      have hpub : a.publish = some { a with pub := { a.pub with
          queue := .ofEvents [] n
          phase := .loop frameNum
            { kept := [], rest := d.rx.queue.map some, idleList := [] } } } := by
        simp [publish, hp, hqueue, hrx, EventQueue.take, EventQueue.ofEvents]
      refine ⟨_, hpub, ⟨rfl, rfl, fun _ => rfl, fun _ => rfl, rfl⟩, ?_⟩
      simp [remaining, hp, hqueue, EventQueue.ofEvents]
  | loop frameNum n m hp hqueue hn hpos hidle hcursor =>
    cases hrx : d.rx.queue with
    | nil =>
      rw [hrx] at hp
      simp only [publish, hp, List.map_nil, List.isEmpty_nil, if_true, Option.some.injEq,
        exists_eq_left']
      exact ⟨⟨rfl, rfl, fun _ => rfl, fun _ => rfl, rfl⟩, by simp [remaining, hp]⟩
    | cons node es =>
      have hdispatch : a.notifier.step .dispatch = some { a.notifier with
          cursor := some (.load a.notifier.list.head), present := a.notifier.linked,
          before := a.notifier.list.nodes.length, calls := [] } := by
        simp only [Notifier.step, hcursor]
      rw [hrx] at hp
      simp only [publish, hp, List.map_cons, List.isEmpty_cons, Bool.false_eq_true, if_false,
        Processing.round, gt_iff_lt, hpos, decide_true, if_true, Option.bind_some, hdispatch,
        Option.map_some, Option.some.injEq, exists_eq_left']
      refine ⟨⟨rfl, rfl, fun _ => rfl, fun _ => rfl, rfl⟩, ?_⟩
      have hle := WalkCursor.distance_le a.notifier.list.nodes.length (.load a.notifier.list.head)
      simp only [remaining, hp, List.length_cons, List.length_map, Option.map_some,
        Option.getD_some, Nat.succ_mul]
      omega
  | dispatch frameNum n m node rest hp hqueue hn hpos hdisp hahead =>
    cases hcursor : a.notifier.cursor with
    | none =>
      simp only [publish, hp, hcursor, Option.some.injEq, exists_eq_left']
      exact ⟨⟨rfl, rfl, fun _ => rfl, fun _ => rfl, rfl⟩, by simp [remaining, hp, hcursor]⟩
    | some cursor =>
      have hlt := h.tracks.represents.distance_walk (h.tracks.walking cursor hcursor)
      simp only [publish, hp, hcursor, Notifier.step, Option.map_some, Option.some.injEq,
        exists_eq_left']
      refine ⟨⟨rfl, rfl, fun i => ?_, fun i => ?_, rfl⟩, ?_⟩
      · obtain ⟨_, _, heq⟩ := a.consume_eq node cursor.calling i
        show (a.consume node cursor.calling i).registered = _
        rw [heq]
      · obtain ⟨_, _, heq⟩ := a.consume_eq node cursor.calling i
        show (a.consume node cursor.calling i).joined = _
        rw [heq]
      · simp only [remaining, hp, hcursor, Option.map_some, Option.getD_some]
        omega

/-- Any batch of frames can be enqueued. -/
theorem Matches.receive_step (h : a.Matches d live ahead) (hphase : a.pub.phase = .receive)
    {frames : List (UInt64 × VciCanObj)} (hlen : frames.length ≤ kRxBuffSize) :
    ∃ a', a.step (.receive frames) = some a' := by
  cases h.phase with
  | process _ _ hp => rw [hphase] at hp; cases hp
  | loop _ _ _ hp => rw [hphase] at hp; cases hp
  | dispatch _ _ _ _ _ hp => rw [hphase] at hp; cases hp
  | receive n hp hqueue hn hrx =>
    have hsame : a.pub.Same d.rx n := ⟨hrx ▸ hqueue, h.sendBuff, h.sendCount, h.frames⟩
    obtain ⟨pub, hpub, -⟩ := Publisher.same_enqueueAll hsame frames
    simp only [step, hphase, if_pos hlen, hpub, Option.map_some]
    exact ⟨_, rfl⟩

/-- `processIf` alone. -/
def publishSystem : LTS.System Agent Unit where
  init a := agentSystem.ReachableBy Countable a
  step a _ := a.publish

/-- `processIf` ends. -/
theorem publishes (h : agentSystem.ReachableBy Countable a) :
    ∃ n a', agentSystem.exec a (List.replicate n .publish) = some a' ∧
      agentSystem.ReachableBy Countable a' ∧ Published a a' ∧ a'.pub.phase = .receive := by
  obtain ⟨steps, a', -, hexec, ⟨hreach, hpublished⟩, hphase⟩ :=
    publishSystem.exec_of_measure (P := fun b => b.pub.phase = .receive)
      (I := fun b => agentSystem.ReachableBy Countable b ∧ Published a b) remaining
      (by
        rintro b ⟨hb, hpublished⟩ hphase
        obtain ⟨d, -, live, ahead, hmatch⟩ := matches_of_reachable hb
        obtain ⟨b', hstep, hpublished', hlt⟩ := hmatch.publish_step hphase
        exact ⟨(), b', hstep, ⟨.step .publish hb trivial hstep, hpublished.trans hpublished'⟩, hlt⟩)
      ⟨h, rfl, rfl, fun _ => rfl, fun _ => rfl, rfl⟩
  refine ⟨steps.length, a', ?_, hreach, hpublished, hphase⟩
  have hmap : steps.map (fun _ => AgentEvent.publish) = List.replicate steps.length .publish :=
    List.map_const' ..
  rw [← hmap, publishSystem.exec_map agentSystem (fun _ _ => rfl), hexec]

/-- Between two calls of `processIf` every frame has been dispatched, and
    every session that listens was handed all events from its first on. -/
theorem dispatched_of_receive (h : agentSystem.ReachableBy Countable a)
    (hphase : a.pub.phase = .receive) :
    a.pub.dispatched.map CanobjQueueNodeT.frame = a.pub.frames ∧
    ∀ i, (a.sessions i).registered = true →
      ∃ k, (a.sessions i).FirstEvent k ∧
        (a.sessions i).offers.map Prod.fst = a.pub.dispatched.drop k := by
  obtain ⟨d, hreach, live, ahead, hmatch⟩ := matches_of_reachable h
  have hinv := Deployment.inv_of_reachable hreach
  cases hmatch.phase with
  | process _ _ hp => rw [hphase] at hp; cases hp
  | loop _ _ _ hp => rw [hphase] at hp; cases hp
  | dispatch _ _ _ _ _ hp => rw [hphase] at hp; cases hp
  | receive n hp hqueue hn hrx hidle hcursor =>
    constructor
    · have hframes := hinv.rx.frames
      rwa [hrx, List.append_nil, hmatch.dispatched, hmatch.frames] at hframes
    · intro i hreg
      obtain ⟨joined, hfirst, hi⟩ := hmatch.sessions i
      have hall := (hinv.offered i).complete (by rw [hi]; exact hreg)
      rw [RxThread.current_of_not_mem (by simp [RxThread.toVisit, hidle]), List.append_nil,
        hmatch.dispatched, hi] at hall
      exact ⟨joined, hfirst, hall⟩

/-! ## Section 3: The sessions send -/

/-- The steps of `processIf`, and those of these sessions and their clients:
    no frame is read and no session started, and no other session or client
    takes part. -/
def EventWithin (is : List Nat) : AgentEvent → Prop
  | .publish => True
  | .session i _ => i ∈ is
  | .client i _ => i ∈ is
  | .receive _ | .append _ | .renumber | .recount | .link => False

theorem countable_of_within {is : List Nat} {ev : AgentEvent} (h : EventWithin is ev) (t : Agent) :
    t.Countable ev := by
  cases ev with
  | publish => trivial
  | session i ev => trivial
  | client i ev => trivial
  | receive frames => exact h.elim
  | append i => exact h.elim
  | renumber => exact h.elim
  | recount => exact h.elim
  | link => exact h.elim

theorem EventWithin.mono {is js : List Nat} {ev : AgentEvent} (h : EventWithin is ev)
    (hsub : is ⊆ js) : EventWithin js ev := by
  cases ev with
  | session i ev => exact hsub h
  | client i ev => exact hsub h
  | publish => trivial
  | receive frames => exact h.elim
  | append i => exact h.elim
  | renumber => exact h.elim
  | recount => exact h.elim
  | link => exact h.elim

/-- What is known of a session that listens. -/
theorem session_of_reachable (h : agentSystem.ReachableBy Countable a) {i : Nat}
    (hreg : (a.sessions i).registered = true) :
    (a.sessions i).Inv ∧ (a.sessions i).started = true ∧ (a.sessions i).failed = false := by
  obtain ⟨d, hreach, live, ahead, hmatch⟩ := matches_of_reachable h
  obtain ⟨joined, -, hi⟩ := hmatch.sessions i
  have hinv := ((Deployment.inv_of_reachable hreach).link i).session
  have hlisten := Deployment.listening_of_reachable hreach i
  rw [hi] at hinv hlisten
  have hboth : ((a.sessions i).started && !(a.sessions i).failed) = true := hlisten.symm.trans hreg
  rw [Bool.and_eq_true, Bool.not_eq_true'] at hboth
  exact ⟨hinv.of_withJoined, hboth⟩

/-- A run of the I/O context for one session. -/
theorem exec_session {i : Nat} {evs : List SessionEvent} {s' : Session}
    (hidle : a.notifier.appending = .idle)
    (hexec : Session.ioSystem.exec (a.sessions i) evs = some s') (hreg : s'.registered = true) :
    agentSystem.exec a (evs.map (.session i)) =
      some { a with sessions := Function.update a.sessions i s' } := by
  induction evs generalizing a with
  | nil =>
    cases hexec
    rw [Function.update_eq_self]
    rfl
  | cons ev evs ih =>
    obtain ⟨t, ht, hrest⟩ := Session.ioSystem.exec_cons_eq_some hexec
    have htreg : t.registered = true := by
      by_contra hnot
      -- A listener that is removed does not come back.
      have hkeep : ∀ s ev s', s.registered ≠ true → Session.ioSystem.step s ev = some s' →
          s'.registered ≠ true :=
        fun s ev s' hs hstep hs' => hs ((Session.frame_step hstep).registered hs')
      exact Session.ioSystem.exec_invariant hkeep hnot hrest hreg
    have hstep : a.step (.session i ev) =
        some { a with sessions := Function.update a.sessions i t } := by
      have ht' : (a.sessions i).step ev = some t := ht
      simp [step, hidle, ht', htreg]
    rw [List.map_cons, LTS.System.exec_cons]
    show (a.step (.session i ev)).bind _ = _
    have hrest' := ih (a := { a with sessions := Function.update a.sessions i t }) hidle
      (by simpa using hrest)
    rw [hstep, Option.bind_some, hrest', Function.update_idem]

/-- What the runs of the I/O context leave alone, when no write fails. -/
structure Drained (a a' : Agent) : Prop where
  pub : a'.pub = a.pub
  notifier : a'.notifier = a.notifier
  clients : a'.clients = a.clients
  sessions : ∀ i, (a'.sessions i).registered = (a.sessions i).registered ∧
    (a'.sessions i).offers = (a.sessions i).offers

/-- The sessions send, one after the other, all that they accepted. -/
theorem drains (h : agentSystem.ReachableBy Countable a) (hidle : a.notifier.appending = .idle)
    (is : List Nat) (hreg : ∀ i ∈ is, (a.sessions i).registered = true) :
    ∃ evs a', (∀ ev ∈ evs, EventWithin is ev) ∧ agentSystem.exec a evs = some a' ∧
      agentSystem.ReachableBy Countable a' ∧ Drained a a' ∧
      ∀ i ∈ is, (a'.sessions i).sent = Session.texts (a'.sessions i).accepted := by
  induction is with
  | nil => exact ⟨[], a, by simp, rfl, h, ⟨rfl, rfl, rfl, fun _ => ⟨rfl, rfl⟩⟩, by simp⟩
  | cons i is ih =>
    obtain ⟨evs₁, b, hwithin, hexec₁, hreach, hdrained, hsent⟩ :=
      ih fun j hj => hreg j (List.mem_cons_of_mem _ hj)
    have hregb : (b.sessions i).registered = true :=
      (hdrained.sessions i).1.trans (hreg i List.mem_cons_self)
    obtain ⟨hinv, hst, hok⟩ := session_of_reachable hreach hregb
    obtain ⟨evs₂, s', -, hexec₂, hoffers, hregs, hsents⟩ := Session.drains hinv hst hok
    have hlift := exec_session (by rw [hdrained.notifier, hidle]) hexec₂ (hregs.trans hregb)
    have hwithin₂ : ∀ l ∈ evs₂.map (AgentEvent.session i), EventWithin (i :: is) l := by
      intro l hl
      obtain ⟨ev, -, rfl⟩ := List.mem_map.mp hl
      exact List.mem_cons_self
    have hwithin₁ : ∀ l ∈ evs₁, EventWithin (i :: is) l := fun l hl =>
      (hwithin l hl).mono (List.subset_cons_self i is)
    have hreach₂ := LTS.System.ReachableBy.exec _ hreach
      (fun l hl t => countable_of_within (hwithin₂ l hl) t) hlift
    refine ⟨_, _, List.forall_mem_append.mpr ⟨hwithin₁, hwithin₂⟩,
      agentSystem.exec_append hexec₁ hlift, hreach₂,
      ⟨hdrained.pub, hdrained.notifier, hdrained.clients, ?_⟩, ?_⟩
    · intro j
      rcases eq_or_ne j i with rfl | hne
      · simp only [Function.update_self]
        exact ⟨hregs.trans (hdrained.sessions j).1, hoffers.trans (hdrained.sessions j).2⟩
      · simp only [Function.update_of_ne hne]
        exact hdrained.sessions j
    · intro j hj
      rcases eq_or_ne j i with rfl | hne
      · simp only [Function.update_self]
        rw [hsents, Session.accepted, Session.accepted, hoffers]
      · simp only [Function.update_of_ne hne]
        exact hsent j ((List.mem_cons.mp hj).resolve_left hne)

/-- A call of `append` that is under way comes to its end. -/
theorem finish_append (h : agentSystem.ReachableBy Countable a) :
    ∃ evs a', (∀ ev ∈ evs, ev = .link ∧ a.notifier.appending ≠ .idle) ∧
      agentSystem.exec a evs = some a' ∧
      agentSystem.ReachableBy Countable a' ∧ a'.notifier.appending = .idle ∧
      a'.pub.frames = a.pub.frames ∧ a'.clients = a.clients ∧
      ∀ i, (a.sessions i).registered = true → a'.sessions i = a.sessions i := by
  obtain ⟨d, hd, live, ahead, hmatch⟩ := matches_of_reachable h
  rcases hmatch.tracks.counted with hidle | ⟨i, counter, hcounted, -⟩
  · exact ⟨[], a, by simp, rfl, h, hidle, rfl, rfl, fun _ _ => rfl⟩
  · have hstep : a.step .link = some (a.afterLink
        { a.notifier with list := a.notifier.list.append i counter, appending := .idle } i) := by
      simp [step, Notifier.step, hcounted, afterLink]
    refine ⟨[.link], _, by simp [hcounted], agentSystem.exec_singleton hstep,
      .step .link h trivial hstep, rfl, rfl, rfl, ?_⟩
    intro j hj
    -- The session that is linked did not listen before.
    have hne : j ≠ i := by
      rintro rfl
      obtain ⟨joined, -, hold⟩ := hmatch.sessions j
      have hst := hmatch.starting j counter hcounted
      have hreg : (d.sessions j).registered = true := by rw [hold]; exact hj
      rw [(Deployment.inv_of_reachable hd).registry.started j hreg] at hst
      cases hst
    exact Function.update_of_ne hne ..

/-- What the agent has read goes out by the sessions `is`, without any step of
    another session; a `start()` that is under way comes to its end first. -/
theorem flushes (h : agentSystem.ReachableBy Countable a) (is : List Nat)
    (his : ∀ i ∈ is, (a.sessions i).registered = true) :
    ∃ evs a', (∀ ev ∈ evs, EventWithin is ev ∨ ev = .link ∧ a.notifier.appending ≠ .idle) ∧
      agentSystem.exec a evs = some a' ∧ agentSystem.ReachableBy Countable a' ∧
      a'.pub.frames = a.pub.frames ∧ a'.clients = a.clients ∧
      a'.pub.dispatched.map CanobjQueueNodeT.frame = a.pub.frames ∧
      ∀ i ∈ is, (a'.sessions i).registered = true ∧
        (∃ k, (a.sessions i).FirstEvent k ∧
          (a'.sessions i).offers.map Prod.fst = a'.pub.dispatched.drop k) ∧
        (a'.sessions i).sent = Session.texts (a'.sessions i).accepted := by
  obtain ⟨evs₁, a₁, hlink, hexec₁, hreach₁, hidle, hframes₁, hclients₁, hsame⟩ :=
    finish_append h
  obtain ⟨n, a₂, hexec₂, hreach₂, hpublished, hphase⟩ := publishes hreach₁
  obtain ⟨hdispatched, hoffers⟩ := dispatched_of_receive hreach₂ hphase
  have hreg₂ : ∀ i ∈ is, (a₂.sessions i).registered = true := fun i hi =>
    (hpublished.registered i).trans (by rw [hsame i (his i hi), his i hi])
  obtain ⟨evs₃, a₃, hwithin₃, hexec₃, hreach₃, hdrained, hsent⟩ :=
    drains hreach₂ (hpublished.appending.trans hidle) is hreg₂
  have hframes : a₂.pub.frames = a.pub.frames := hpublished.frames.trans hframes₁
  refine ⟨_, a₃, ?_, agentSystem.exec_append hexec₁ (agentSystem.exec_append hexec₂ hexec₃),
    hreach₃, ?_, ?_, ?_, ?_⟩
  · refine List.forall_mem_append.mpr ⟨fun ev hev => Or.inr (hlink ev hev),
      List.forall_mem_append.mpr ⟨fun ev hev => Or.inl ?_, fun ev hev => Or.inl (hwithin₃ ev hev)⟩⟩
    rw [List.eq_of_mem_replicate hev]
    trivial
  · rw [hdrained.pub, hframes]
  · rw [hdrained.clients, hpublished.clients, hclients₁]
  · rw [hdrained.pub, hdispatched, hframes]
  · intro i hi
    obtain ⟨hreg₃, hoffers₃⟩ := hdrained.sessions i
    refine ⟨hreg₃.trans (hreg₂ i hi), ?_, hsent i hi⟩
    rw [hoffers₃, hdrained.pub]
    have hjoined : (a₂.sessions i).joined = (a.sessions i).joined := by
      rw [hpublished.joined i, hsame i (his i hi)]
    obtain ⟨k, hfirst, hall⟩ := hoffers i (hreg₂ i hi)
    rw [Session.FirstEvent, hjoined] at hfirst
    exact ⟨k, hfirst, hall⟩

/-- The sessions that listen are finitely many. -/
theorem exists_listeners (h : agentSystem.ReachableBy Countable a) :
    ∃ is : List Nat, ∀ i, i ∈ is ↔ (a.sessions i).registered = true := by
  obtain ⟨d, hd, live, ahead, hmatch⟩ := matches_of_reachable h
  have hregistry := (Deployment.inv_of_reachable hd).registry
  refine ⟨d.listeners, fun i => ?_⟩
  obtain ⟨joined, -, hi⟩ := hmatch.sessions i
  rw [hregistry.registered i, hi]
  rfl

end Agent

/-- **No frame gets stuck.** From every state that the agent can reach there
    is a run, without new frames, after which every frame that was read has
    been dispatched; every session that listened still listens, was handed
    every event whose dispatch began after its listener was linked, and
    before these at most the latest one, and has sent the text of each event
    that it accepted. -/
theorem agent_can_flush {a : Agent} (h : agentSystem.ReachableBy Agent.Countable a) :
    ∃ evs a', agentSystem.exec a evs = some a' ∧ a'.pub.frames = a.pub.frames ∧
      a'.pub.dispatched.map CanobjQueueNodeT.frame = a.pub.frames ∧
      ∀ i, (a.sessions i).registered = true →
        (a'.sessions i).registered = true ∧
        (∃ k, (a.sessions i).FirstEvent k ∧
          (a'.sessions i).offers.map Prod.fst = a'.pub.dispatched.drop k) ∧
        (a'.sessions i).sent = Session.texts (a'.sessions i).accepted := by
  obtain ⟨is, his⟩ := Agent.exists_listeners h
  obtain ⟨evs, a', -, hexec, -, hframes, -, hdispatched, hsessions⟩ :=
    Agent.flushes h is fun i hi => (his i).mp hi
  exact ⟨evs, a', hexec, hframes, hdispatched, fun i hi => hsessions i ((his i).mpr hi)⟩

/-- Session `i` takes the frame from its queue, and its write fails. -/
def writeFails (i : Nat) : List AgentEvent :=
  [.session i .transpose, .session i .transpose, .session i (.written 0 ⟨104⟩)]

/-- Two sessions listen when a frame is dispatched.  The write of the first
    one fails, and its node is removed while the walk stands at it. -/
def failsUnderWalk : List AgentEvent :=
  .append 0 :: .link :: .append 1 :: .link :: .receive [(7, .zero)] ::
    (List.replicate 5 .publish ++ writeFails 0)

/-- The frame is on its way to the second session. -/
theorem exists_fails_under_walk :
    ∃ a, agentSystem.ReachableBy Agent.Countable a ∧ a.names a.notifier.linked = [1] ∧
      (a.sessions 1).registered = true ∧ a.pub.frames = [.zero] ∧
      (a.sessions 1).joined = 0 ∧ (a.sessions 1).offers.length = 0 ∧ (a.clients 1).Ready := by
  have hrun : (agentSystem.execWithin (fun a ev => decide (a.Countable ev))
      (.new (fun _ => 0) fun _ => freshClient) failsUnderWalk).map
      (fun a => (a.names a.notifier.linked, (a.sessions 1).registered,
        decide (a.pub.frames = [.zero]), (a.sessions 1).joined, (a.sessions 1).offers.length,
        (a.clients 1).net.connected && (a.clients 1).call.isNone)) =
      some ([1], true, true, 0, 0, true) := by
    decide +kernel
  obtain ⟨a, ha, hval⟩ := Option.map_eq_some_iff.mp hrun
  simp only [Prod.mk.injEq] at hval
  obtain ⟨hnames, hreg, hframes, hjoined, hoffers, hready⟩ := hval
  obtain ⟨hconn, hcall⟩ := Bool.and_eq_true_iff.mp hready
  refine ⟨a, Agent.reachable_of_execWithin ha, hnames, hreg, of_decide_eq_true hframes, hjoined,
    hoffers, hconn, ?_⟩
  simp [Option.isNone_iff_eq_none.mp hcall]

/-- What a session that joined before the first event is handed. -/
theorem Agent.frames_of_offers {a' : Agent} {frames : List VciCanObj} {s s' : Session} {k : Nat}
    (hjoined : s.joined = 0) (hfirst : s.FirstEvent k)
    (hoffers : s'.offers.map Prod.fst = a'.pub.dispatched.drop k)
    (hdispatched : a'.pub.dispatched.map CanobjQueueNodeT.frame = frames) :
    s'.offers.map (fun offer => offer.1.frame) = frames := by
  obtain rfl : k = 0 := by
    rcases hfirst with hk | hk <;> omega
  rw [List.drop_zero] at hoffers
  rw [← hdispatched, ← hoffers, List.map_map]
  rfl

theorem agent_can_flush_sample :
    ∃ a a' : Agent, agentSystem.ReachableBy Agent.Countable a ∧
      (a.sessions 1).offers.length = 0 ∧
      (a'.sessions 1).offers.map (fun offer => offer.1.frame) = [.zero] ∧
      (a'.sessions 1).sent = Session.texts (a'.sessions 1).accepted := by
  obtain ⟨a, hreach, -, hreg, hframes, hjoined, hoffers, -⟩ := exists_fails_under_walk
  obtain ⟨evs, a', -, -, hdispatched, hall⟩ := agent_can_flush hreach
  obtain ⟨-, ⟨k, hfirst, hhanded⟩, hsent⟩ := hall 1 hreg
  rw [hframes] at hdispatched
  exact ⟨a, a', hreach, hoffers, Agent.frames_of_offers hjoined hfirst hhanded hdispatched, hsent⟩

/-- **No assertion of a buffer fails.** In every state that the agent can
    reach the buffers in the queue hold events and the free ones are empty;
    all buffers together are at most as many as one `VCI_Receive` can fill;
    any batch of frames can be enqueued, and `processIf` can go on. -/
theorem agent_buffers_sound {a : Agent} (h : agentSystem.ReachableBy Agent.Countable a) :
    (∀ b ∈ a.pub.queue.queueList, b ≠ none) ∧ (∀ b ∈ a.pub.queue.freeList, b = none) ∧
    a.pub.queue.queueList.length + a.pub.queue.freeList.length ≤ kRxBuffSize ∧
    (a.pub.phase = .receive → ∀ frames, frames.length ≤ kRxBuffSize →
      ∃ a', a.step (.receive frames) = some a') ∧
    (a.pub.phase ≠ .receive → ∃ a', a.step .publish = some a') := by
  obtain ⟨d, -, live, ahead, hmatch⟩ := Agent.matches_of_reachable h
  obtain ⟨es, n, hqueue, hn⟩ : ∃ es n, a.pub.queue = .ofEvents es n ∧
      es.length + n ≤ kRxBuffSize := by
    cases hmatch.phase with
    | receive n _ hqueue hn => exact ⟨[], n, hqueue, by simpa using hn⟩
    | process _ n _ hqueue hn => exact ⟨_, n, hqueue, by omega⟩
    | loop _ n m _ hqueue hn => exact ⟨[], n, hqueue, by simp only [List.length_nil]; omega⟩
    | dispatch _ n m _ _ _ hqueue hn => exact ⟨[], n, hqueue, by simp only [List.length_nil]; omega⟩
  refine ⟨?_, ?_, ?_, ?_, ?_⟩
  · simp [hqueue, EventQueue.ofEvents]
  · simp [hqueue, EventQueue.ofEvents]
  · simpa [hqueue, EventQueue.ofEvents] using hn
  · exact fun hphase frames hlen => hmatch.receive_step hphase hlen
  · intro hphase
    obtain ⟨a', hstep, -⟩ := hmatch.publish_step hphase
    exact ⟨a', hstep⟩

theorem agent_buffers_sound_sample :
    ∃ a : Agent, agentSystem.ReachableBy Agent.Countable a ∧ a.names a.notifier.linked = [1] ∧
      a.pub.queue.queueList.length + a.pub.queue.freeList.length ≤ kRxBuffSize := by
  obtain ⟨a, hreach, hnames, -⟩ := exists_fails_under_walk
  exact ⟨a, hreach, hnames, (agent_buffers_sound hreach).2.2.1⟩

/-! ## Section 4: The clients catch up -/

namespace Client

end Client

namespace Agent

variable {a : Agent}

end Agent

end LibControlCan
