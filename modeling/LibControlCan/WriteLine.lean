import LibControlCan.Framework.System
import LibControlCan.Framework.Asio

/-! # write_line

    `CanImpCanNet::write_line`: one `async_write` under a 100 ms timer.

    `WriteLoop` is the state inside `io_context_.run()`.  Both handlers
    store into the one error variable, and the write handler cancels the
    timer only when the write succeeded, so the value that is left depends
    on which handler runs last.  `writeLine_spec` gives it in closed form
    (`finalEc`) from the schedule alone. -/

namespace LibControlCan

open Asio

/-! ## Section 1: The model -/

/-- The `async_write` operation. -/
inductive WriteOp where
  /-- The socket has not taken all bytes yet. -/
  | waiting
  /-- The socket took some bytes and the completion of that piece is queued. -/
  | ready
  /-- The write failed and its completion is queued. -/
  | failed (e : ErrorCode)
  /-- The handler has run. -/
  | done
  deriving DecidableEq, Repr

/-- What can happen while `io_context_.run()` is running. -/
inductive WriteEvent where
  /-- The socket takes the next `n` bytes. -/
  | accept (n : Nat)
  /-- The waiting write fails. -/
  | fail (e : ErrorCode)
  /-- The 100 ms pass. -/
  | expire
  /-- The completion of the write runs. -/
  | runWrite
  /-- The handler of the timer runs. -/
  | runTimer
  deriving DecidableEq, Repr

/-- `write_line` inside `io_context_.run()`. -/
structure WriteLoop where
  /-- The size of the buffer to be written. -/
  len : Nat
  /-- How many of its bytes the socket has taken. -/
  written : Nat
  write : WriteOp
  timer : Timer
  ec : ErrorCode
  deriving DecidableEq, Repr

namespace WriteLoop

/-- The handler that `write_line` passes to `async_write`. -/
def writeHandler (resultError : ErrorCode) (s : WriteLoop) : WriteLoop :=
  { s with
    write := .done
    timer := if resultError.isError then s.timer else s.timer.cancel
    ec := resultError }

/-- The handler of the timer when it sees no error: `client_socket_.cancel()`
    aborts a write that is still waiting. -/
def timerHandler (s : WriteLoop) : WriteLoop :=
  { s with
    timer := .idle
    ec := ⟨operationCanceled⟩
    write := match s.write with
      | .waiting => .failed operationAborted
      | op => op }

/-- One event. -/
def step (s : WriteLoop) : WriteEvent → Option WriteLoop
  | .accept n =>
    if s.write = .waiting ∧ 0 < n ∧ s.written + n ≤ s.len then
      some { s with written := s.written + n, write := .ready }
    else none
  | .fail e => if s.write = .waiting ∧ e.isError then some { s with write := .failed e } else none
  | .expire =>
    match s.timer with
    | .armed _ => some { s with timer := .expired }
    | _ => none
  | .runWrite =>
    match s.write with
    -- The composed `async_write` goes on until the whole buffer is written.
    | .ready => some (if s.written = s.len then s.writeHandler .ok else { s with write := .waiting })
    | .failed e => some (s.writeHandler e)
    | _ => none
  | .runTimer =>
    match s.timer with
    | .expired => some s.timerHandler
    | .cancelled => some { s with timer := .idle }
    | _ => none

/-- `write_line` up to `io_context_.run()`; an empty buffer is written at once. -/
def start (len : Nat) (ec : ErrorCode) : WriteLoop :=
  { len, written := 0, write := if len = 0 then .ready else .waiting, timer := .armed 100, ec }

/-- `io_context_.run()` returns: both handlers have run. -/
def finished (s : WriteLoop) : Bool := s.write == .done && s.timer == .idle

end WriteLoop

/-- The value that `write_line` returns for the error variable. -/
def writeReturn (len : Nat) (ec : ErrorCode) : Int :=
  if !ec.isError then len
  else if ec.value ≠ operationCanceled then -|ec.value|
  else 0

/-- The transition system of one `io_context_.run()` of `write_line`. -/
def writeSystem : LTS.System WriteLoop WriteEvent where
  init s := ∃ len ec, s = WriteLoop.start len ec
  step := WriteLoop.step

/-- What a call of `write_line` leaves. -/
structure Written where
  /-- The returned value. -/
  ret : Int
  ec : ErrorCode
  /-- Ghost: how many bytes of the line went out. -/
  written : Nat
  deriving DecidableEq, Repr

/-- `write_line` under a schedule, for a buffer of `len` bytes; `none` when
    the schedule is not a run of the call from its beginning to its end. -/
def writeLine (len : Nat) (ec : ErrorCode) (sched : List WriteEvent) : Option Written :=
  (writeSystem.exec (.start len ec) sched).bind fun s =>
    if s.finished then some ⟨writeReturn s.len s.ec, s.ec, s.written⟩ else none

/-! ## Section 2: The result in closed form -/

/-- The bytes that the socket takes at an event. -/
def WriteEvent.size : WriteEvent → Nat
  | .accept n => n
  | _ => 0

/-- The error that an event fails the write with. -/
def WriteEvent.error : WriteEvent → Option ErrorCode
  | .fail e => some e
  | _ => none

/-- The bytes that the socket takes under a schedule. -/
def sentBytes (sched : List WriteEvent) : Nat := (sched.map WriteEvent.size).sum

/-- The error that the write fails with under a schedule, cancellation apart. -/
def failure (sched : List WriteEvent) : Option ErrorCode := sched.findSome? WriteEvent.error

/-- The result that the write handler gets. -/
def writeResult (len : Nat) (sched : List WriteEvent) : ErrorCode :=
  match failure sched with
  | some e => e
  | none => if sentBytes sched = len then .ok else operationAborted

/-- The timer handler sees no error and is the last of the two to run. -/
def LateTimer (sched : List WriteEvent) : Prop :=
  .expire ∈ sched ∧ sched.getLast? = some .runTimer

instance (sched : List WriteEvent) : Decidable (LateTimer sched) :=
  inferInstanceAs (Decidable (_ ∧ _))

/-- The value that the two handlers leave in the error variable: that of
    the last one to store into it. -/
def finalEc (len : Nat) (sched : List WriteEvent) : ErrorCode :=
  if LateTimer sched then ⟨operationCanceled⟩ else writeResult len sched

@[simp] theorem sentBytes_append (tr : List WriteEvent) (ev : WriteEvent) :
    sentBytes (tr ++ [ev]) = sentBytes tr + ev.size := by
  simp [sentBytes]

@[simp] theorem failure_append (tr : List WriteEvent) (ev : WriteEvent) :
    failure (tr ++ [ev]) = (failure tr).or ev.error := by
  simp [failure, List.findSome?_append]

/-- Only taking bytes and failing decide the result. -/
theorem writeResult_append (len : Nat) (tr : List WriteEvent) (ev : WriteEvent)
    (hsize : ev.size = 0) (herror : ev.error = none) :
    writeResult len (tr ++ [ev]) = writeResult len tr := by
  simp [writeResult, hsize, herror]

theorem finalEc_runWrite (len : Nat) (tr : List WriteEvent) :
    finalEc len (tr ++ [.runWrite]) = writeResult len tr := by
  simp [finalEc, LateTimer, writeResult_append len tr .runWrite rfl rfl]

theorem finalEc_runTimer (len : Nat) (tr : List WriteEvent) :
    finalEc len (tr ++ [.runTimer]) =
      if .expire ∈ tr then ⟨operationCanceled⟩ else writeResult len tr := by
  simp [finalEc, LateTimer, writeResult_append len tr .runTimer rfl rfl]

namespace WriteLoop

/-- Where the write stands after the events `tr`. -/
def OpInv (tr : List WriteEvent) (s : WriteLoop) : Prop :=
  match s.write with
  | .waiting => failure tr = none ∧ s.written < s.len
  | .ready => failure tr = none
  | .failed e => writeResult s.len tr = e ∧ e.isError = true ∧ s.written < s.len
  | .done =>
    (s.timer ≠ .idle → s.ec = writeResult s.len tr) ∧
    (s.timer = .idle → s.ec = finalEc s.len tr) ∧
    (writeResult s.len tr = .ok ↔ s.written = s.len)

/-- Where the timer stands after the events `tr`. -/
def TimerInv (tr : List WriteEvent) (s : WriteLoop) : Prop :=
  match s.timer with
  | .armed _ => .expire ∉ tr
  | .expired => .expire ∈ tr
  | .cancelled => .expire ∉ tr ∧ s.write = .done ∧ writeResult s.len tr = .ok
  | .idle => .expire ∈ tr ∨ (s.write = .done ∧ writeResult s.len tr = .ok)

structure Inv (len : Nat) (tr : List WriteEvent) (s : WriteLoop) : Prop where
  len_eq : s.len = len
  written : s.written = sentBytes tr
  bound : s.written ≤ s.len
  errors : ∀ e, failure tr = some e → e.isError = true
  op : s.OpInv tr
  timer : s.TimerInv tr

theorem inv_start (len : Nat) (ec : ErrorCode) : Inv len [] (start len ec) := by
  refine ⟨rfl, rfl, Nat.zero_le _, nofun, ?_, ?_⟩
  · by_cases h : len = 0
    · simp [OpInv, start, h, failure]
    · simp [OpInv, start, h, failure]
      omega
  · simp [TimerInv, start]

/-- The transitions with their guards. -/
inductive Transition (s : WriteLoop) : WriteEvent → WriteLoop → Prop where
  | accept (n : Nat) : s.write = .waiting → 0 < n → s.written + n ≤ s.len →
      Transition s (.accept n) { s with written := s.written + n, write := .ready }
  | fail (e : ErrorCode) : s.write = .waiting → e.isError = true →
      Transition s (.fail e) { s with write := .failed e }
  | expire (ms : Int) : s.timer = .armed ms → Transition s .expire { s with timer := .expired }
  | whole : s.write = .ready → s.written = s.len → Transition s .runWrite (s.writeHandler .ok)
  | piece : s.write = .ready → s.written ≠ s.len → Transition s .runWrite { s with write := .waiting }
  | writeFailed (e : ErrorCode) : s.write = .failed e → Transition s .runWrite (s.writeHandler e)
  | deadline : s.timer = .expired → Transition s .runTimer s.timerHandler
  | timerAborted : s.timer = .cancelled → Transition s .runTimer { s with timer := .idle }

theorem transition_of_step {s s' : WriteLoop} {ev : WriteEvent} (h : s.step ev = some s') :
    Transition s ev s' := by
  cases ev with
  | accept n =>
    by_cases hg : s.write = .waiting ∧ 0 < n ∧ s.written + n ≤ s.len
    · simp only [step, hg, and_self, if_true, Option.some.injEq] at h
      subst h
      exact .accept n hg.1 hg.2.1 hg.2.2
    · simp [step, hg] at h
  | fail e =>
    by_cases hg : s.write = .waiting ∧ e.isError = true
    · simp only [step, hg, and_self, if_true, Option.some.injEq] at h
      subst h
      exact .fail e hg.1 hg.2
    · simp [step, hg] at h
  | expire =>
    cases ht : s.timer with
    | armed ms =>
      simp only [step, ht, Option.some.injEq] at h
      subst h
      exact .expire ms ht
    | idle => simp [step, ht] at h
    | expired => simp [step, ht] at h
    | cancelled => simp [step, ht] at h
  | runWrite =>
    cases hw : s.write with
    | ready =>
      simp only [step, hw, Option.some.injEq] at h
      by_cases hall : s.written = s.len
      · rw [if_pos hall] at h
        subst h
        exact .whole hw hall
      · rw [if_neg hall] at h
        subst h
        exact .piece hw hall
    | failed e =>
      simp only [step, hw, Option.some.injEq] at h
      subst h
      exact .writeFailed e hw
    | waiting => simp [step, hw] at h
    | done => simp [step, hw] at h
  | runTimer =>
    cases ht : s.timer with
    | expired =>
      simp only [step, ht, Option.some.injEq] at h
      subst h
      exact .deadline ht
    | cancelled =>
      simp only [step, ht, Option.some.injEq] at h
      subst h
      exact .timerAborted ht
    | idle => simp [step, ht] at h
    | armed ms => simp [step, ht] at h

/-- An event that neither takes bytes nor fails the write leaves the count
    and the errors as they were. -/
theorem Inv.quiet {len : Nat} {tr : List WriteEvent} {s s' : WriteLoop} {ev : WriteEvent}
    (hinv : Inv len tr s) (hsize : ev.size = 0) (herror : ev.error = none)
    (hlen : s'.len = s.len) (hwritten : s'.written = s.written) (hop : s'.OpInv (tr ++ [ev]))
    (htimer : s'.TimerInv (tr ++ [ev])) : Inv len (tr ++ [ev]) s' := by
  refine ⟨?_, ?_, ?_, ?_, hop, htimer⟩
  · rw [hlen, hinv.len_eq]
  · rw [hwritten, hinv.written, sentBytes_append, hsize, Nat.add_zero]
  · rw [hwritten, hlen]
    exact hinv.bound
  · intro e he
    rw [failure_append, herror, Option.or_none] at he
    exact hinv.errors e he

/-- The write handler leaves its own result in the error variable. -/
theorem inv_writeHandler {len : Nat} {tr : List WriteEvent} {s : WriteLoop} {e : ErrorCode}
    (hinv : Inv len tr s) (hopen : s.write ≠ .done) (hres : writeResult s.len tr = e)
    (hwhole : e = .ok ↔ s.written = s.len) :
    Inv len (tr ++ [.runWrite]) (s.writeHandler e) := by
  have htimer := hinv.timer
  refine hinv.quiet rfl rfl rfl rfl ?_ ?_
  · refine ⟨fun _ => ?_, fun _ => ?_, ?_⟩
    · show e = writeResult s.len (tr ++ [.runWrite])
      rw [writeResult_append _ _ _ rfl rfl, hres]
    · show e = finalEc s.len (tr ++ [.runWrite])
      rw [finalEc_runWrite, hres]
    · show writeResult s.len (tr ++ [.runWrite]) = .ok ↔ s.written = s.len
      rw [writeResult_append _ _ _ rfl rfl, hres, hwhole]
  · cases ht : s.timer with
    | armed ms =>
      rw [TimerInv, ht] at htimer
      by_cases he : e.isError = true
      · -- The handler of a failed write does not cancel the timer.
        simpa [TimerInv, writeHandler, ht, he] using htimer
      · obtain rfl : e = .ok := ErrorCode.isError_eq_false_iff.mp (by simpa using he)
        have hrun := writeResult_append s.len tr .runWrite rfl rfl
        simpa [TimerInv, writeHandler, ht, Timer.cancel, hrun, hres] using htimer
    | expired =>
      -- The timer handler is queued: `cancel` comes too late.
      rw [TimerInv, ht] at htimer
      simpa [TimerInv, writeHandler, ht, Timer.cancel] using htimer
    | cancelled =>
      rw [TimerInv, ht] at htimer
      exact absurd htimer.2.1 hopen
    | idle =>
      rw [TimerInv, ht] at htimer
      have hexp : .expire ∈ tr := htimer.resolve_right fun h => hopen h.1
      simp [TimerInv, writeHandler, ht, Timer.cancel, hexp]

/-- Once both handlers have run, the store of the last one stays. -/
theorem opInv_of_idle {tr : List WriteEvent} {s : WriteLoop} (hw : s.write = .done)
    (ht : s.timer = .idle) (hec : s.ec = finalEc s.len tr)
    (hwhole : writeResult s.len tr = .ok ↔ s.written = s.len) : s.OpInv tr := by
  rw [OpInv, hw]
  exact ⟨fun hne => absurd ht hne, fun _ => hec, hwhole⟩

/-- The timer handler leaves its error where it is the last to store. -/
theorem inv_timerHandler {len : Nat} {tr : List WriteEvent} {s : WriteLoop}
    (hinv : Inv len tr s) (ht : s.timer = .expired) :
    Inv len (tr ++ [.runTimer]) s.timerHandler := by
  have hop := hinv.op
  have htimer := hinv.timer
  have hwritten := hinv.written
  have hres := writeResult_append s.len tr .runTimer rfl rfl
  rw [TimerInv, ht] at htimer
  refine hinv.quiet rfl rfl rfl rfl ?_ ?_
  · cases hw : s.write with
    | waiting =>
      -- The write is aborted, with the result of a write that did not fail by itself.
      rw [OpInv, hw] at hop
      simp only [OpInv, timerHandler, hw]
      refine ⟨?_, by decide, hop.2⟩
      rw [hres, writeResult, hop.1, ← hwritten, if_neg (by omega)]
    | ready =>
      rw [OpInv, hw] at hop
      simpa [OpInv, timerHandler, hw, WriteEvent.error] using hop
    | failed e =>
      rw [OpInv, hw] at hop
      simpa [OpInv, timerHandler, hw, hres] using hop
    | done =>
      rw [OpInv, hw] at hop
      apply opInv_of_idle (by simp [timerHandler, hw]) rfl
      · show ⟨operationCanceled⟩ = finalEc s.len (tr ++ [.runTimer])
        rw [finalEc_runTimer, if_pos htimer]
      · show writeResult s.len (tr ++ [.runTimer]) = .ok ↔ s.written = s.len
        rw [hres]
        exact hop.2.2
  · simp [TimerInv, timerHandler, htimer]

/-- **Step lemma.** -/
theorem inv_step {len : Nat} {tr : List WriteEvent} {s s' : WriteLoop} {ev : WriteEvent}
    (hinv : Inv len tr s) (h : s.step ev = some s') : Inv len (tr ++ [ev]) s' := by
  have hop := hinv.op
  have htimer := hinv.timer
  have hwritten := hinv.written
  cases transition_of_step h with
  | accept n hw hpos hle =>
    rw [OpInv, hw] at hop
    refine ⟨hinv.len_eq, ?_, hle, by simpa [WriteEvent.error] using hinv.errors, ?_, ?_⟩
    · simp [WriteEvent.size, hwritten]
    · simp [OpInv, WriteEvent.error, hop.1]
    · simpa [TimerInv, hw] using htimer
  | fail e hw he =>
    rw [OpInv, hw] at hop
    refine ⟨hinv.len_eq, ?_, hinv.bound, ?_, ⟨?_, he, hop.2⟩, ?_⟩
    · simpa [WriteEvent.size] using hwritten
    · simpa [WriteEvent.error, hop.1] using he
    · simp [writeResult, WriteEvent.error, hop.1]
    · simpa [TimerInv, hw] using htimer
  | expire ms ht =>
    refine hinv.quiet rfl rfl rfl rfl ?_ ?_
    · have hres := writeResult_append s.len tr .expire rfl rfl
      cases hw : s.write with
      | waiting => simpa [OpInv, hw, WriteEvent.error] using hop
      | ready => simpa [OpInv, hw, WriteEvent.error] using hop
      | failed e => simpa [OpInv, hw, hres] using hop
      | done => simpa [OpInv, hw, hres, ht, WriteEvent.error] using hop
    · simp [TimerInv]
  | whole hw hall =>
    rw [OpInv, hw] at hop
    refine inv_writeHandler hinv (by rw [hw]; nofun) ?_ (iff_of_true rfl hall)
    rw [writeResult, hop, ← hwritten, if_pos hall]
  | piece hw hne =>
    rw [OpInv, hw] at hop
    refine hinv.quiet rfl rfl rfl rfl ⟨?_, ?_⟩ ?_
    · simp [WriteEvent.error, hop]
    · have := hinv.bound
      show s.written < s.len
      omega
    · simpa [TimerInv, hw] using htimer
  | writeFailed e hw =>
    rw [OpInv, hw] at hop
    refine inv_writeHandler hinv (by rw [hw]; nofun) hop.1 (iff_of_false ?_ (by omega))
    rintro rfl
    exact absurd hop.2.1 (by decide)
  | deadline ht => exact inv_timerHandler hinv ht
  | timerAborted ht =>
    rw [TimerInv, ht] at htimer
    obtain ⟨hnot, hw, hok⟩ := htimer
    have hres := writeResult_append s.len tr .runTimer rfl rfl
    rw [OpInv, hw] at hop
    refine hinv.quiet rfl rfl rfl rfl ?_ ?_
    · apply opInv_of_idle (by exact hw) rfl
      · show s.ec = finalEc s.len (tr ++ [.runTimer])
        rw [finalEc_runTimer, if_neg hnot]
        exact hop.1 (by rw [ht]; nofun)
      · show writeResult s.len (tr ++ [.runTimer]) = .ok ↔ s.written = s.len
        rw [hres]
        exact hop.2.2
    · exact Or.inr ⟨hw, by rw [hres]; exact hok⟩

/-- **Run lemma.** -/
theorem inv_exec {len : Nat} {ec : ErrorCode} {sched : List WriteEvent} {s : WriteLoop}
    (h : writeSystem.exec (start len ec) sched = some s) : Inv len sched s :=
  writeSystem.exec_trace_invariant (inv_start len ec) (fun _ _ _ _ hinv hs => inv_step hinv hs) h

end WriteLoop

/-- What `write_line` leaves, from the schedule alone. -/
structure Written.Spec (len : Nat) (sched : List WriteEvent) (w : Written) : Prop where
  ec : w.ec = finalEc len sched
  ret : w.ret = writeReturn len w.ec
  written : w.written = sentBytes sched
  bound : w.written ≤ len
  /-- The write succeeds exactly when all its bytes went out. -/
  whole : writeResult len sched = .ok ↔ w.written = len
  errors : ∀ e, failure sched = some e → e.isError = true
  /-- The timer is cancelled only after a successful write. -/
  expired : .expire ∈ sched ∨ writeResult len sched = .ok

/-- **Specification of `write_line`.** -/
theorem writeLine_spec {len : Nat} {ec : ErrorCode} {sched : List WriteEvent} {w : Written}
    (h : writeLine len ec sched = some w) : w.Spec len sched := by
  obtain ⟨s, hs, hdone⟩ := Option.bind_eq_some_iff.mp h
  have hinv := WriteLoop.inv_exec hs
  by_cases hf : s.finished = true
  · rw [if_pos hf] at hdone
    simp only [WriteLoop.finished, Bool.and_eq_true, beq_iff_eq] at hf
    have hop := hinv.op
    have htimer := hinv.timer
    rw [WriteLoop.OpInv, hf.1] at hop
    rw [WriteLoop.TimerInv, hf.2] at htimer
    cases hdone
    rw [← hinv.len_eq]
    exact ⟨hop.2.1 hf.2, rfl, hinv.written, hinv.bound, hop.2.2, hinv.errors,
      htimer.imp id And.right⟩
  · rw [if_neg hf] at hdone
    cases hdone

/-! ## Section 3: The outcome of one write -/

/-- `write_line` returns the size exactly when it leaves no error. -/
theorem writeReturn_eq_len {len : Nat} {ec : ErrorCode} (hpos : 0 < len) :
    writeReturn len ec = len ↔ ec = .ok := by
  rw [← ErrorCode.isError_eq_false_iff]
  unfold writeReturn
  cases he : ec.isError with
  | false => simp
  | true =>
    have habs : 0 ≤ |ec.value| := abs_nonneg _
    by_cases hv : ec.value = operationCanceled
    · simp [hv]
      omega
    · simp [hv]
      omega

/-- `write_line` returns a negative value for the errors that are no cancellation. -/
theorem writeReturn_neg {len : Nat} {ec : ErrorCode} :
    writeReturn len ec < 0 ↔ ec.isError = true ∧ ec.value ≠ operationCanceled := by
  unfold writeReturn
  cases he : ec.isError with
  | false => simp
  | true =>
    have hv : ec.value ≠ 0 := by simpa [ErrorCode.isError] using he
    have habs : 0 < |ec.value| := abs_pos.mpr hv
    by_cases hc : ec.value = operationCanceled
    · simp [hc]
    · simp [hc]
      omega

/-- The error variable is clear exactly when the whole line went out and
    the timer handler did not run after the write handler. -/
theorem Written.Spec.ec_ok_iff {len : Nat} {sched : List WriteEvent} {w : Written}
    (h : w.Spec len sched) : w.ec = .ok ↔ w.written = len ∧ ¬ LateTimer sched := by
  rw [h.ec, ← h.whole, finalEc]
  by_cases hlate : LateTimer sched
  · rw [if_pos hlate]
    simp [hlate, operationCanceled, ErrorCode.ok]
  · rw [if_neg hlate]
    simp [hlate]

/-- The error variable after a write that failed. -/
theorem Written.Spec.ec_of_failure {len : Nat} {sched : List WriteEvent} {w : Written}
    {e : ErrorCode} (h : w.Spec len sched) (he : failure sched = some e) :
    w.ec = if sched.getLast? = some .runTimer then ⟨operationCanceled⟩ else e := by
  have hres : writeResult len sched = e := by rw [writeResult, he]
  have hexp : .expire ∈ sched := by
    -- The handler of a failed write leaves the timer armed, so it did expire.
    refine h.expired.resolve_right fun hok => ?_
    have herr := h.errors e he
    rw [← hres, hok] at herr
    exact absurd herr (by decide)
  rw [h.ec, finalEc, hres]
  simp [LateTimer, hexp]

end LibControlCan
