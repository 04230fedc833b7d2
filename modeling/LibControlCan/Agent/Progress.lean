import LibControlCan.Agent.Session
import LibControlCan.Framework.Progress

/-! # A session keeps up

    What the buffers of a session can hold, and that they can always be
    emptied.

    * `Session.Bounded`: one run of the loop of `doCanObjTranspose` moves at
      most eight lines, and the next one starts with an empty buffer.
    * `Session.backlog` is a measure of what is still to be done.  Some event
      of the I/O context lowers it, as long as there is anything to send. -/

namespace LibControlCan

open Asio CStrings

/-- The line of a node, with its newline. -/
theorem CanobjQueueNodeT.length_cstr (node : CanobjQueueNodeT) :
    (cstr node.canObj).length = 93 := by
  obtain ⟨now, hnow⟩ := node.exists_cstr_eq
  rw [hnow, List.length_append, length_frameLine]
  rfl

namespace Session

/-! ## Section 1: Bounds -/

/-- The bounds of the buffers.  Each round of the loop adds one line, and
    there is nothing in the buffer while the session waits. -/
structure Bounded (s : Session) : Prop where
  queue : s.spscQueue.length ≤ spscCapacity
  buffer : s.shrTxBuff.length ≤ 8 * 93
  round : ∀ i, s.running = some i → i ≤ 8 ∧ s.shrTxBuff.length ≤ i * 93
  waiting : .wait ∈ s.ops → s.shrTxBuff = []

theorem bounded_start (joined : Nat) : (new.start joined).Bounded := by
  refine ⟨Nat.zero_le _, Nat.zero_le _, ?_, fun _ => rfl⟩
  intro i hi
  cases hi
  exact ⟨Nat.zero_le 8, Nat.le_refl 0⟩

theorem bounded_consumeCanObjHandler {s : Session} (h : s.Bounded) (node : CanobjQueueNodeT) :
    (s.consumeCanObjHandler node).Bounded := by
  rcases consumeCanObjHandler_cases node s with ⟨hroom, heq⟩ | ⟨-, heq⟩
  · rw [heq]
    refine ⟨?_, h.buffer, h.round, h.waiting⟩
    rw [List.length_append, List.length_singleton]
    exact hroom
  · rw [heq]
    exact ⟨h.queue, h.buffer, h.round, h.waiting⟩

/-- A handler that begins its loop finds the buffer empty. -/
theorem bounded_loop {s : Session} (hqueue : s.spscQueue.length ≤ spscCapacity)
    (hrun : s.running = some 0) (hbuff : s.shrTxBuff = []) : s.Bounded := by
  refine ⟨hqueue, by simp [hbuff], ?_, fun _ => hbuff⟩
  intro i hi
  rw [hrun] at hi
  cases hi
  exact ⟨Nat.zero_le 8, by simp [hbuff]⟩

/-- **Step lemma.** -/
theorem bounded_step {s s' : Session} {ev : SessionEvent} (hf : s.Flight) (h : s.Bounded)
    (hstep : s.step ev = some s') : s'.Bounded := by
  cases transition_of_step hstep with
  | pop i node queue hrun hlt hq =>
    obtain ⟨-, -, hops⟩ := hf.of_running hrun
    have hround := (h.round i hrun).2
    have hlen := node.length_cstr
    refine ⟨?_, ?_, ?_, ?_⟩
    · have hle := h.queue
      rw [hq, List.length_cons] at hle
      exact Nat.le_of_succ_le hle
    · rw [List.length_append, hlen]
      omega
    · intro j hj
      cases hj
      rw [List.length_append, hlen]
      omega
    · simp [hops]
  | write i hrun _ _ =>
    obtain ⟨-, -, hops⟩ := hf.of_running hrun
    exact ⟨h.queue, h.buffer, fun j hj => (by cases hj), by simp [hops]⟩
  | wait i hrun _ hbuff =>
    exact ⟨h.queue, h.buffer, fun j hj => (by cases hj), fun _ => hbuff⟩
  | send j n data k hop _ _ =>
    obtain ⟨-, -, hrun, rfl, hops, -⟩ := hf.of_op hop
    exact ⟨h.queue, h.buffer, h.round, by simp [hops]⟩
  | written j data hrun hop =>
    -- The write was of the whole buffer.
    obtain ⟨-, -, -, -, -, hdata⟩ := hf.of_op hop
    obtain ⟨_, hw, -⟩ := hdata.resolve_left (by simp)
    obtain ⟨rfl, -⟩ := SessionOp.write.inj hw
    exact bounded_loop h.queue rfl (by simp)
  | failed j ec data k hrun hop _ =>
    obtain ⟨-, -, -, rfl, hops, -⟩ := hf.of_op hop
    have hle := h.buffer
    refine ⟨h.queue, ?_, ?_, by simp [hops]⟩
    · rw [List.length_drop, List.length_drop]
      omega
    · intro i hi
      rw [hrun] at hi
      cases hi
  | wake j ec hrun hop =>
    exact bounded_loop h.queue rfl (h.waiting (List.mem_of_getElem? hop))

theorem bounded_of_reachable {s : Session} (h : sessionSystem.Reachable s) : s.Bounded := by
  induction h with
  | init hs =>
    obtain ⟨joined, rfl⟩ := hs
    exact bounded_start joined
  | @step s s' l hs _ hstep ih =>
    cases l with
    | push node =>
      cases hstep
      exact bounded_consumeCanObjHandler ih node
    | io ev => exact bounded_step (inv_of_reachable hs).flight ih hstep

/-! ## Section 2: Draining -/

/-- What an operation, or the loop, is away from the next line. -/
def stage (s : Session) : Nat :=
  match s.running, s.ops with
  | some i, _ => if i < 8 ∧ s.spscQueue ≠ [] then 0 else 4
  | none, [.write data n] => if n < data.length then 3 else 2
  | none, [.wait] => if s.spscQueue = [] then 5 else 1
  | none, _ => 0

/-- A measure of what is still to be done. -/
def backlog (s : Session) : Nat := 6 * s.spscQueue.length + s.stage

theorem stage_le (s : Session) : s.stage ≤ 5 := by
  unfold stage
  split <;> (try split) <;> omega

/-- Nothing is left to be sent. -/
def Drained (s : Session) : Prop := s.unsent = [] ∧ s.spscQueue = []

/-- An event that takes nothing out of the queue. -/
theorem backlog_lt_of_stage {s s' : Session} (hq : s'.spscQueue = s.spscQueue)
    (h : s'.stage < s.stage) : s'.backlog < s.backlog := by
  rw [backlog, backlog, hq]
  omega

/-- The loop takes the next line, or ends with a write or with a wait. -/
theorem backlog_loop {s : Session} {i : Nat} (hrun : s.running = some i) (hops : s.ops = [])
    (hok : s.failed = false) (hnot : ¬ s.Drained) :
    ∃ ev s', s.step ev = some s' ∧ s'.failed = false ∧ s'.backlog < s.backlog := by
  obtain ⟨s', hstep⟩ : ∃ s', s.step .transpose = some s' :=
    ⟨s.doCanObjTranspose i, by simp [step, hrun]⟩
  refine ⟨.transpose, s', hstep, ?_⟩
  cases transition_of_step hstep with
  | pop j node queue _ _ hq =>
    refine ⟨hok, ?_⟩
    have hle := stage_le
      { s with
        spscQueue := queue, shrTxBuff := s.shrTxBuff ++ cstr node.canObj, running := some (j + 1) }
    simp only [backlog, hq, List.length_cons]
    omega
  | write j hj hend hbuff =>
    rw [hrun] at hj
    cases hj
    have hold : s.stage = 4 := by
      simp only [stage, hrun]
      exact if_neg fun h => h.2 (hend h.1)
    refine ⟨hok, backlog_lt_of_stage rfl ?_⟩
    rw [hold]
    simp [stage, hops, List.length_pos_iff.mpr hbuff]
  | wait j hj hend hbuff =>
    rw [hrun] at hj
    cases hj
    -- With nothing to write there is something in the queue.
    have hq : s.spscQueue ≠ [] := fun hq => hnot ⟨by simp [unsent, hbuff], hq⟩
    have hold : s.stage = 4 := by
      simp only [stage, hrun]
      exact if_neg fun h => h.2 (hend h.1)
    refine ⟨hok, backlog_lt_of_stage rfl ?_⟩
    rw [hold]
    simp [stage, hops, hq]

/-- The socket takes what is left, or the handler begins the next loop. -/
theorem backlog_write {s : Session} {n : Nat} (hrun : s.running = none)
    (hops : s.ops = [.write s.shrTxBuff n]) (hle : n ≤ s.shrTxBuff.length)
    (hok : s.failed = false) (hnot : ¬ s.Drained) :
    ∃ ev s', s.step ev = some s' ∧ s'.failed = false ∧ s'.backlog < s.backlog := by
  by_cases hlt : n < s.shrTxBuff.length
  · have hrest : n + (s.shrTxBuff.length - n) = s.shrTxBuff.length := Nat.add_sub_cancel' hle
    have hstep : s.step (.send 0 (s.shrTxBuff.length - n)) = some { s with
        ops := [.write s.shrTxBuff s.shrTxBuff.length]
        sent := s.sent ++ (s.shrTxBuff.drop n).take (s.shrTxBuff.length - n) } := by
      simp [step, hops, hrest, hlt]
    refine ⟨_, _, hstep, hok, backlog_lt_of_stage rfl ?_⟩
    simp [stage, hrun, hops, hlt]
  · obtain rfl : n = s.shrTxBuff.length := Nat.le_antisymm hle (Nat.le_of_not_lt hlt)
    have hq : s.spscQueue ≠ [] := fun hq => hnot ⟨by simp [unsent, hops, SessionOp.sent], hq⟩
    have hstep : s.step (.written 0 .ok) = some { s with
        ops := [], shrTxBuff := [], running := some 0 } := by
      simp [step, hrun, hops, handleWrite, hok]
    refine ⟨_, _, hstep, hok, backlog_lt_of_stage rfl ?_⟩
    simp [stage, hrun, hops, hq]

/-- The wait ends. -/
theorem backlog_wait {s : Session} (hrun : s.running = none) (hops : s.ops = [.wait])
    (hok : s.failed = false) :
    ∃ ev s', s.step ev = some s' ∧ s'.failed = false ∧ s'.backlog < s.backlog := by
  have hstep : s.step (.wake 0 .ok) = some { s with ops := [], running := some 0 } := by
    simp [step, hrun, hops]
  refine ⟨_, _, hstep, hok, backlog_lt_of_stage rfl ?_⟩
  by_cases hq : s.spscQueue = [] <;> simp [stage, hrun, hops, hq]

/-- **Progress**: until everything is sent, some event lowers the
    backlog. -/
theorem backlog_step {s : Session} (hf : s.Flight) (hst : s.started = true)
    (hok : s.failed = false) (hnot : ¬ s.Drained) :
    ∃ ev s', s.step ev = some s' ∧ s'.failed = false ∧ s'.backlog < s.backlog := by
  cases hf with
  | created hst' => rw [hst] at hst'; cases hst'
  | stopped _ hfl => rw [hok] at hfl; cases hfl
  | looping i _ _ hrun hops => exact backlog_loop hrun hops hok hnot
  | writing n _ _ hrun hops hle => exact backlog_write hrun hops hle hok hnot
  | waiting _ _ hrun hops => exact backlog_wait hrun hops hok

/-- A step without an error keeps the listener. -/
theorem registered_step {s s' : Session} {ev : SessionEvent} (hstep : s.step ev = some s')
    (hok : s'.failed = false) : s'.registered = s.registered := by
  cases transition_of_step hstep with
  | failed => cases hok
  | pop => rfl
  | write => rfl
  | wait => rfl
  | send => rfl
  | written => rfl
  | wake => rfl

/-- The I/O context alone, while no node is pushed. -/
def ioSystem : LTS.System Session SessionEvent where
  init s := s.Inv
  step := step

/-- Everything that was accepted can be sent. -/
theorem drains {s : Session} (hinv : s.Inv) (hst : s.started = true) (hok : s.failed = false) :
    ∃ evs s', evs.length ≤ s.backlog ∧ ioSystem.exec s evs = some s' ∧ s'.offers = s.offers ∧
      s'.registered = s.registered ∧ s'.sent = texts s.accepted := by
  obtain ⟨evs, s', hlen, hexec, ⟨hinv', -, hok', hoffers, hreg⟩, hunsent, hqueue⟩ :=
    ioSystem.exec_of_measure (P := Drained) (I := fun t => t.Inv ∧ t.started = true ∧
      t.failed = false ∧ t.offers = s.offers ∧ t.registered = s.registered) backlog
      (by
        rintro t ⟨hinv, hst, hok, hoffers, hreg⟩ hnot
        obtain ⟨ev, t', hstep, hok', hlt⟩ := backlog_step hinv.flight hst hok hnot
        have hframe := frame_step hstep
        exact ⟨ev, t', hstep, ⟨inv_step hinv hstep, hframe.started.trans hst, hok',
          hframe.offers.trans hoffers, (registered_step hstep hok').trans hreg⟩, hlt⟩)
      ⟨hinv, hst, hok, rfl, rfl⟩
  refine ⟨evs, s', hlen, hexec, hoffers, hreg, ?_⟩
  have hcons := hinv'.conserved hok'
  rw [hunsent, hqueue, texts_nil, List.append_nil, List.append_nil] at hcons
  rw [hcons, accepted, hoffers, accepted]

theorem started_of_reachable {s : Session} (h : sessionSystem.Reachable s) : s.started = true := by
  induction h with
  | init hs =>
    obtain ⟨joined, rfl⟩ := hs
    rfl
  | @step s s' l _ _ hstep ih =>
    cases l with
    | push node =>
      cases hstep
      rcases consumeCanObjHandler_cases node s with ⟨-, heq⟩ | ⟨-, heq⟩ <;> rw [heq] <;> exact ih
    | io ev => exact (frame_step hstep).started.trans ih

end Session

/-- **Bounds.** In every interleaving of the two threads `spsc_queue_` stays
    within its capacity, and `shr_tx_buff_` holds at most eight lines, which
    is less than the 2048 bytes that the constructor prepares.  Every write
    that is outstanding is of the whole buffer. -/
theorem session_buffers_bounded {s : Session} (h : sessionSystem.Reachable s) :
    s.spscQueue.length ≤ spscCapacity ∧ s.shrTxBuff.length ≤ 8 * 93 ∧
    ∀ data n, .write data n ∈ s.ops → data = s.shrTxBuff ∧ n ≤ data.length := by
  have hbounded := Session.bounded_of_reachable h
  refine ⟨hbounded.queue, hbounded.buffer, ?_⟩
  intro data n hmem
  obtain ⟨j, hj⟩ := List.mem_iff_getElem?.mp hmem
  obtain ⟨-, -, -, -, -, hop⟩ := (Session.inv_of_reachable h).flight.of_op hj
  obtain ⟨n', hw, hle⟩ := hop.resolve_left (by simp)
  obtain ⟨rfl, rfl⟩ := SessionOp.write.inj hw
  exact ⟨rfl, hle⟩

/-- The state in which a line is on its way and another node waits. -/
theorem exists_after_twoPushes :
    ∃ s, sessionSystem.Reachable s ∧ s.failed = false ∧
      (s.sent.length, s.shrTxBuff.length, s.spscQueue.length) = (40, 93, 1) := by
  have hrun : (sessionSystem.exec (Session.new.start 0) twoPushes).map (fun s =>
      (s.failed, s.sent.length, s.shrTxBuff.length, s.spscQueue.length)) =
      some (false, 40, 93, 1) := by
    decide +kernel
  obtain ⟨s, hs, hval⟩ := Option.map_eq_some_iff.mp hrun
  obtain ⟨hok, hlen⟩ := Prod.mk.inj hval
  exact ⟨s, LTS.System.Reachable.exec _ (LTS.System.ReachableBy.init ⟨0, rfl⟩) hs, hok, hlen⟩

theorem session_buffers_bounded_sample :
    ∃ s, sessionSystem.Reachable s ∧
      (s.sent.length, s.shrTxBuff.length, s.spscQueue.length) = (40, 93, 1) ∧
      s.spscQueue.length ≤ spscCapacity ∧ s.shrTxBuff.length ≤ 8 * 93 := by
  obtain ⟨s, hreach, -, hlen⟩ := exists_after_twoPushes
  obtain ⟨hqueue, hbuff, -⟩ := session_buffers_bounded hreach
  exact ⟨s, hreach, hlen, hqueue, hbuff⟩

/-- **Draining.** From every state that the two threads can reach without a
    failed write, the I/O context alone can send all that was accepted, in
    at most six events for each node in the queue and five more. -/
theorem session_drains {s : Session} (h : sessionSystem.Reachable s) (hok : s.failed = false) :
    ∃ (evs : List SessionEvent) (s' : Session), evs.length ≤ 6 * s.spscQueue.length + 5 ∧
      sessionSystem.exec s (evs.map .io) = some s' ∧ s'.accepted = s.accepted ∧
      s'.sent = Session.texts s.accepted := by
  obtain ⟨evs, s', hlen, hexec, hoffers, -, hsent⟩ :=
    Session.drains (Session.inv_of_reachable h) (Session.started_of_reachable h) hok
  refine ⟨evs, s', ?_, ?_, ?_, hsent⟩
  · have hstage := s.stage_le
    rw [Session.backlog] at hlen
    omega
  · rw [Session.ioSystem.exec_map sessionSystem (fun _ _ => rfl), hexec]
  · rw [Session.accepted, hoffers, Session.accepted]

theorem session_drains_sample :
    ∃ s s' : Session, sessionSystem.Reachable s ∧
      (s.sent.length, s.shrTxBuff.length, s.spscQueue.length) = (40, 93, 1) ∧
      s'.accepted = s.accepted ∧ s'.sent = Session.texts s.accepted := by
  obtain ⟨s, hreach, hok, hlen⟩ := exists_after_twoPushes
  obtain ⟨evs, s', -, -, hacc, hsent⟩ := session_drains hreach hok
  exact ⟨s, s', hreach, hlen, hacc, hsent⟩

end LibControlCan
