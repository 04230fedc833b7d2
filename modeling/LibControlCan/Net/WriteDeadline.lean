import LibControlCan.WriteLine
import LibControlCan.Framework.Progress

/-! # The deadline of write_line

    `async_write` writes the buffer piece by piece.  The timer handler of
    `write_line` aborts only a piece that is still waiting; if it runs while
    the completion of a piece is queued, the write goes on with the next
    piece, now without a deadline.

    * `WriteLoop.toGo`: every event lowers what the call has still to do.
    * `WriteLoop.DeadlineLost`: only the socket can end the call.
    * `write_line_returns`: these are the only states in which the call
      cannot return by itself. -/

namespace LibControlCan

open Asio

/-- How far a write is from its end, when the socket takes no more. -/
def WriteOp.stage : WriteOp → Nat
  | .done => 0
  | .failed _ => 1
  | .waiting => 2
  | .ready => 3

/-- An event that is not of the socket: a handler runs, or the time is up. -/
def WriteEvent.Quiet (ev : WriteEvent) : Prop := ev.size = 0 ∧ ev.error = none

namespace WriteLoop

/-- A part of the buffer is still to be written, and there is no deadline. -/
def DeadlineLost (s : WriteLoop) : Prop :=
  s.timer = .idle ∧ (s.write = .waiting ∨ (s.write = .ready ∧ s.written < s.len))

/-- How many events the call has still to go, at most: two for each byte,
    and those of the two handlers. -/
def toGo (s : WriteLoop) : Nat := 2 * (s.len - s.written) + s.write.stage + s.timer.stage

theorem toGo_le (s : WriteLoop) : s.toGo ≤ 2 * (s.len - s.written) + 5 := by
  have hwrite : s.write.stage ≤ 3 := by cases s.write <;> simp [WriteOp.stage]
  have htimer := s.timer.stage_le
  unfold toGo
  omega

/-- **Termination**: every event lowers what is to be done. -/
theorem toGo_step {s s' : WriteLoop} {ev : WriteEvent} (h : s.step ev = some s') :
    s'.toGo < s.toGo := by
  have hcancel := s.timer.stage_cancel_le
  cases transition_of_step h with
  | accept n hw hpos hle =>
    simp only [toGo, hw, WriteOp.stage]
    omega
  | fail e hw _ => simp [toGo, hw, WriteOp.stage]
  | expire ms ht => simp [toGo, ht, Timer.stage]
  | whole hw _ =>
    simp only [toGo, writeHandler, hw, WriteOp.stage, ErrorCode.isError_ok, Bool.false_eq_true,
      if_false]
    omega
  | piece hw _ => simp [toGo, hw, WriteOp.stage]
  | writeFailed e hw =>
    simp only [toGo, writeHandler, hw, WriteOp.stage]
    split <;> omega
  | deadline ht =>
    cases hw : s.write <;> simp [toGo, timerHandler, hw, ht, WriteOp.stage, Timer.stage]
  | timerAborted ht => simp [toGo, ht, Timer.stage]

/-- What is known of a call whatever its schedule is. -/
structure Settled (s : WriteLoop) : Prop where
  bound : s.written ≤ s.len
  cancelled : s.timer = .cancelled → s.write = .done

theorem settled_of_reachable {s : WriteLoop} (h : writeSystem.Reachable s) : s.Settled := by
  obtain ⟨len, tr, hinv⟩ : ∃ len tr, s.Inv len tr := by
    induction h with
    | init hs =>
      obtain ⟨len, ec, rfl⟩ := hs
      exact ⟨len, [], inv_start len ec⟩
    | step ev _ _ hstep ih =>
      obtain ⟨len, tr, hinv⟩ := ih
      exact ⟨len, tr ++ [ev], inv_step hinv hstep⟩
  refine ⟨hinv.bound, fun hcancelled => ?_⟩
  have htimer := hinv.timer
  rw [TimerInv, hcancelled] at htimer
  exact htimer.2.1

/-! ## The deadline is lost -/

/-- The one step that loses the deadline: its handler runs while the
    completion of a piece is queued. -/
theorem deadlineLost_of_step {s s' : WriteLoop} {ev : WriteEvent} (hsettled : s.Settled)
    (hkept : ¬ s.DeadlineLost) (h : s.step ev = some s') (hlost : s'.DeadlineLost) :
    ev = .runTimer ∧ s.timer = .expired ∧ s.write = .ready ∧ s.written < s.len := by
  obtain ⟨htimer, hwrite⟩ := hlost
  cases transition_of_step h with
  | accept n hw _ _ => exact absurd ⟨htimer, Or.inl hw⟩ hkept
  | fail e _ _ => simp at hwrite
  | expire ms _ => cases htimer
  | whole _ _ => simp [writeHandler] at hwrite
  | piece hw hne =>
    exact absurd ⟨htimer, Or.inr ⟨hw, lt_of_le_of_ne hsettled.bound hne⟩⟩ hkept
  | writeFailed e _ => simp [writeHandler] at hwrite
  | deadline ht =>
    refine ⟨rfl, ht, ?_⟩
    cases hw : s.write with
    | ready => simpa [timerHandler, hw] using hwrite
    | waiting => simp [timerHandler, hw] at hwrite
    | failed e => simp [timerHandler, hw] at hwrite
    | done => simp [timerHandler, hw] at hwrite
  | timerAborted ht => simp [hsettled.cancelled ht] at hwrite

/-- Only the socket can go on with a write that has no deadline. -/
theorem deadlineLost_step {s s' : WriteLoop} {ev : WriteEvent} (hlost : s.DeadlineLost)
    (hquiet : ev.Quiet) (h : s.step ev = some s') : s'.DeadlineLost := by
  obtain ⟨htimer, hwrite⟩ := hlost
  cases transition_of_step h with
  | accept n _ hpos _ => exact absurd hquiet.1 (Nat.ne_of_gt hpos)
  | fail e _ _ => cases hquiet.2
  | expire ms ht => rw [htimer] at ht; cases ht
  | whole hw hall =>
    rcases hwrite with hwait | ⟨-, hlt⟩
    · rw [hw] at hwait
      cases hwait
    · omega
  | piece _ _ => exact ⟨htimer, Or.inl rfl⟩
  | writeFailed e hw => simp [hw] at hwrite
  | deadline ht => rw [htimer] at ht; cases ht
  | timerAborted ht => rw [htimer] at ht; cases ht

/-! ## The call returns -/

/-- The deadline wait comes to its end. -/
theorem exists_timer_step {s : WriteLoop} (hpend : s.timer ≠ .idle)
    (hwrite : s.write = .waiting → s.timer ≠ .cancelled) (hready : s.write ≠ .ready) :
    ∃ ev s', ev.Quiet ∧ s.step ev = some s' ∧ ¬ s'.DeadlineLost := by
  cases htimer : s.timer with
  | idle => exact absurd htimer hpend
  | armed ms =>
    refine ⟨.expire, { s with timer := .expired }, ⟨rfl, rfl⟩, by simp [step, htimer], ?_⟩
    exact fun hlost => by cases hlost.1
  | expired =>
    refine ⟨.runTimer, s.timerHandler, ⟨rfl, rfl⟩, by simp [step, htimer], ?_⟩
    rintro ⟨-, hlost⟩
    cases hw : s.write with
    | ready => exact hready hw
    | waiting => simp [timerHandler, hw] at hlost
    | failed e => simp [timerHandler, hw] at hlost
    | done => simp [timerHandler, hw] at hlost
  | cancelled =>
    refine ⟨.runTimer, { s with timer := .idle }, ⟨rfl, rfl⟩, by simp [step, htimer], ?_⟩
    rintro ⟨-, hlost⟩
    rcases hlost with hw | ⟨hw, -⟩
    · exact hwrite hw htimer
    · exact hready hw

/-- **Progress**: a call that has its deadline goes on by itself. -/
theorem exists_quiet_step {s : WriteLoop} (hsettled : s.Settled) (hkept : ¬ s.DeadlineLost)
    (hnot : s.finished = false) :
    ∃ ev s', ev.Quiet ∧ s.step ev = some s' ∧ ¬ s'.DeadlineLost := by
  cases hw : s.write with
  | ready =>
    by_cases hall : s.written = s.len
    · exact ⟨.runWrite, s.writeHandler .ok, ⟨rfl, rfl⟩, by simp [step, hw, hall],
        by simp [DeadlineLost, writeHandler]⟩
    · -- The next piece waits under the deadline that the last one had.
      refine ⟨.runWrite, { s with write := .waiting }, ⟨rfl, rfl⟩, by simp [step, hw, hall], ?_⟩
      have hlt := lt_of_le_of_ne hsettled.bound hall
      exact fun hlost => hkept ⟨hlost.1, Or.inr ⟨hw, hlt⟩⟩
  | failed e =>
    exact ⟨.runWrite, s.writeHandler e, ⟨rfl, rfl⟩, by simp [step, hw],
      by simp [DeadlineLost, writeHandler]⟩
  | waiting =>
    refine exists_timer_step (fun hidle => hkept ⟨hidle, Or.inl hw⟩) (fun _ hcancelled => ?_)
      (by simp [hw])
    rw [hsettled.cancelled hcancelled] at hw
    cases hw
  | done =>
    refine exists_timer_step (fun hidle => ?_) (by simp [hw]) (by simp [hw])
    simp [finished, hw, hidle] at hnot

/-- A call that has its deadline returns by itself. -/
theorem returns {s : WriteLoop} (h : writeSystem.Reachable s) (hkept : ¬ s.DeadlineLost) :
    ∃ evs s', (∀ ev ∈ evs, ev.Quiet) ∧ writeSystem.exec s evs = some s' ∧ s'.finished = true := by
  obtain ⟨evs, s', -, hquiet, hexec, -, hfinished⟩ :=
    writeSystem.exec_of_measure_by (P := fun t => t.finished = true)
      (I := fun t => writeSystem.Reachable t ∧ ¬ t.DeadlineLost) (Q := WriteEvent.Quiet) toGo
      (by
        rintro t ⟨hreach, hkept⟩ hnot
        obtain ⟨ev, t', hquiet, hstep, hkept'⟩ :=
          exists_quiet_step (settled_of_reachable hreach) hkept (by simpa using hnot)
        exact ⟨ev, t', hquiet, hstep, ⟨.step ev hreach trivial hstep, hkept'⟩, toGo_step hstep⟩)
      ⟨h, hkept⟩
  exact ⟨evs, s', hquiet, hexec, hfinished⟩

end WriteLoop

/-- **`write_line` returns, unless it lost its deadline.** In every state of a
    call: no schedule has more than two events for each byte that is still to
    be written and five more; the call can return without the socket just
    when it has not lost its deadline; and it loses it only when the timer
    handler runs while the completion of a part of the line is queued. -/
theorem write_line_returns {s : WriteLoop} (h : writeSystem.Reachable s) :
    (∀ evs s', writeSystem.exec s evs = some s' →
      evs.length ≤ 2 * (s.len - s.written) + 5) ∧
    ((∃ evs s', (∀ ev ∈ evs, ev.Quiet) ∧ writeSystem.exec s evs = some s' ∧
      s'.finished = true) ↔ ¬ s.DeadlineLost) ∧
    ∀ ev s', s.step ev = some s' → ¬ s.DeadlineLost → s'.DeadlineLost →
      ev = .runTimer ∧ s.timer = .expired ∧ s.write = .ready ∧ s.written < s.len := by
  refine ⟨?_, ⟨?_, WriteLoop.returns h⟩, ?_⟩
  · intro evs s' hexec
    have hlen := writeSystem.exec_length_le (I := fun _ => True) (Q := fun _ => True)
      WriteLoop.toGo (fun _ _ _ _ _ hstep => ⟨trivial, WriteLoop.toGo_step hstep⟩) trivial
      (fun _ _ => trivial) hexec
    have hle := s.toGo_le
    omega
  · rintro ⟨evs, s', hquiet, hexec, hfinished⟩ hlost
    have hlost' := writeSystem.exec_invariant_by
      (fun _ _ _ hlost hquiet hstep => WriteLoop.deadlineLost_step hlost hquiet hstep)
      hlost hquiet hexec
    simp only [WriteLoop.finished, Bool.and_eq_true, beq_iff_eq] at hfinished
    rcases hlost'.2 with hw | ⟨hw, -⟩
    · rw [hfinished.1] at hw
      cases hw
    · rw [hfinished.1] at hw
      cases hw
  · exact fun ev s' hstep hkept hlost =>
      WriteLoop.deadlineLost_of_step (WriteLoop.settled_of_reachable h) hkept hstep hlost

/-- The socket takes half of a line, the 100 ms pass, and the timer handler
    runs before the completion of that half. -/
theorem write_line_returns_sample :
    ∃ s, writeSystem.Reachable s ∧ s.written = 1 ∧
      ¬ ∃ evs s', (∀ ev ∈ evs, ev.Quiet) ∧ writeSystem.exec s evs = some s' ∧
        s'.finished = true := by
  obtain ⟨s, hs, hp⟩ := writeSystem.exists_reachable_of_exec (.start 2 .ok)
    [.accept 1, .expire, .runTimer]
    (fun s => s.written == 1 && s.len == 2 && s.write == .ready && s.timer == .idle)
    ⟨_, _, rfl⟩ (by decide)
  simp only [Bool.and_eq_true, beq_iff_eq] at hp
  obtain ⟨⟨⟨hwritten, hlen⟩, hwrite⟩, htimer⟩ := hp
  refine ⟨s, hs, hwritten, fun hreturns => (write_line_returns hs).2.1.mp hreturns ?_⟩
  exact ⟨htimer, Or.inr ⟨hwrite, by omega⟩⟩

end LibControlCan
