import LibControlCan.Net.Model

/-! # connect

    `CanImpCanNet::connect` under every schedule.  Its two handlers store
    into one error variable, as those of `write_line` do, and the value of
    the last one counts: `connect_eq_zero_iff` says that `connect` returns 0
    exactly when a connection was established and the timer handler did not
    run after the connect handler. -/

namespace LibControlCan

open Asio

/-- The timer handler sees no error and is the last of the two to run. -/
def TimesOut (sched : List ConnectEvent) : Prop :=
  .expire ∈ sched ∧ sched.getLast? = some .runTimer

/-- A connection was established, and in time. -/
def Established (sched : List ConnectEvent) : Prop := .establish ∈ sched ∧ ¬ TimesOut sched

instance (sched : List ConnectEvent) : Decidable (TimesOut sched) :=
  inferInstanceAs (Decidable (_ ∧ _))

instance (sched : List ConnectEvent) : Decidable (Established sched) :=
  inferInstanceAs (Decidable (_ ∧ _))

theorem timesOut_concat {tr : List ConnectEvent} {ev : ConnectEvent} :
    TimesOut (tr ++ [ev]) ↔ .expire ∈ tr ∧ ev = .runTimer := by
  unfold TimesOut
  rw [List.getLast?_concat, List.mem_append, List.mem_singleton, Option.some.injEq]
  constructor
  · rintro ⟨hmem | rfl, hev⟩
    · exact ⟨hmem, hev⟩
    · cases hev
  · rintro ⟨hmem, hev⟩
    exact ⟨Or.inl hmem, hev⟩

namespace ConnectLoop

/-- Where the connect stands after the events `tr`. -/
def OpInv (tr : List ConnectEvent) (s : ConnectLoop) : Prop :=
  match s.op with
  | .waiting => .establish ∉ tr
  | .ready result => result = .ok ↔ .establish ∈ tr
  | .done =>
    (s.timer ≠ .idle → (s.error = .ok ↔ .establish ∈ tr)) ∧
    (s.timer = .idle → (s.error = .ok ↔ Established tr))

/-- Where the timer stands after the events `tr`. -/
def TimerInv (tr : List ConnectEvent) (s : ConnectLoop) : Prop :=
  match s.timer with
  | .armed _ => .expire ∉ tr
  | .expired => .expire ∈ tr
  | .cancelled => .expire ∉ tr ∧ s.op = .done
  | .idle => True

structure Inv (tr : List ConnectEvent) (s : ConnectLoop) : Prop where
  op : s.OpInv tr
  timer : s.TimerInv tr

theorem inv_start (timeoutMs : Int) : Inv [] (start timeoutMs) :=
  ⟨List.not_mem_nil, List.not_mem_nil⟩

/-- The transitions with their guards. -/
inductive Transition (s : ConnectLoop) : ConnectEvent → ConnectLoop → Prop where
  | establish : s.op = .waiting → Transition s .establish { s with op := .ready .ok }
  | refuse (e : ErrorCode) : s.op = .waiting → e.isError = true →
      Transition s (.refuse e) { s with op := .ready e }
  | expire (ms : Int) : s.timer = .armed ms → Transition s .expire { s with timer := .expired }
  | connected (result : ErrorCode) : s.op = .ready result →
      Transition s .runConnect (s.connectHandler result)
  | deadline : s.timer = .expired → Transition s .runTimer s.timerHandler
  | timerAborted : s.timer = .cancelled → Transition s .runTimer { s with timer := .idle }

theorem transition_of_step {s s' : ConnectLoop} {ev : ConnectEvent} (h : s.step ev = some s') :
    Transition s ev s' := by
  cases ev with
  | establish =>
    simp only [step] at h
    split at h
    case isTrue hop => cases h; exact .establish hop
    case isFalse => cases h
  | refuse e =>
    simp only [step] at h
    split at h
    case isTrue hg => cases h; exact .refuse e hg.1 hg.2
    case isFalse => cases h
  | expire =>
    simp only [step] at h
    split at h
    case h_1 ms ht => cases h; exact .expire ms ht
    case h_2 => cases h
  | runConnect =>
    simp only [step] at h
    split at h
    case h_1 result hop => cases h; exact .connected result hop
    case h_2 => cases h
  | runTimer =>
    simp only [step] at h
    split at h
    case h_1 ht => cases h; exact .deadline ht
    case h_2 ht => cases h; exact .timerAborted ht
    case h_3 => cases h

/-- The connect handler leaves its own result in the error variable. -/
theorem inv_connectHandler {tr : List ConnectEvent} {s : ConnectLoop} {result : ErrorCode}
    (hinv : Inv tr s) (hw : s.op = .ready result) :
    Inv (tr ++ [.runConnect]) (s.connectHandler result) := by
  have hop := hinv.op
  have htimer := hinv.timer
  rw [OpInv, hw] at hop
  refine ⟨⟨fun _ => ?_, fun _ => ?_⟩, ?_⟩
  · simpa [connectHandler] using hop
  · -- This store is the last one so far.
    have hlast : ¬ TimesOut (tr ++ [.runConnect]) := fun h => by cases (timesOut_concat.mp h).2
    simpa [connectHandler, Established, hlast] using hop
  · unfold TimerInv connectHandler
    rw [TimerInv] at htimer
    cases ht : s.timer with
    | armed ms =>
      rw [ht] at htimer
      by_cases hc : operationCanceled ≠ result.value <;> simpa [hc, Timer.cancel] using htimer
    | expired =>
      rw [ht] at htimer
      simpa [Timer.cancel] using htimer
    | cancelled =>
      rw [ht] at htimer
      simp [htimer.2] at hw
    | idle => simp [Timer.cancel]

/-- The timer handler leaves a time-out where it is the last to store. -/
theorem inv_timerHandler {tr : List ConnectEvent} {s : ConnectLoop} (hinv : Inv tr s)
    (ht : s.timer = .expired) : Inv (tr ++ [.runTimer]) s.timerHandler := by
  have hop := hinv.op
  have htimer := hinv.timer
  rw [TimerInv, ht] at htimer
  refine ⟨?_, trivial⟩
  cases hw : s.op with
  | waiting =>
    rw [OpInv, hw] at hop
    simp [OpInv, timerHandler, hw, hop, operationAborted, operationCanceled, ErrorCode.ok]
  | ready result =>
    rw [OpInv, hw] at hop
    simpa [OpInv, timerHandler, hw] using hop
  | done =>
    -- The connect handler has run: the time-out is what is left.
    have hlate : TimesOut (tr ++ [.runTimer]) := timesOut_concat.mpr ⟨htimer, rfl⟩
    simp [OpInv, timerHandler, hw, Established, hlate, timedOut, ErrorCode.ok]

/-- **Step lemma.** -/
theorem inv_step {tr : List ConnectEvent} {s s' : ConnectLoop} {ev : ConnectEvent}
    (hinv : Inv tr s) (h : s.step ev = some s') : Inv (tr ++ [ev]) s' := by
  have hop := hinv.op
  have htimer := hinv.timer
  cases transition_of_step h with
  | establish hw =>
    refine ⟨by simp [OpInv], ?_⟩
    simpa [TimerInv, hw] using htimer
  | refuse e hw he =>
    rw [OpInv, hw] at hop
    have hne : e ≠ .ok := ErrorCode.isError_iff_ne.mp he
    refine ⟨by simp [OpInv, hne, hop], ?_⟩
    simpa [TimerInv, hw] using htimer
  | expire ms ht =>
    refine ⟨?_, by simp [TimerInv]⟩
    cases hw : s.op with
    | waiting => simpa [OpInv, hw] using hop
    | ready result => simpa [OpInv, hw] using hop
    | done =>
      -- The connect handler was cancelled and left the timer armed.
      rw [OpInv, hw] at hop
      simpa [OpInv, hw] using hop.1 (by simp [ht])
  | connected result hw => exact inv_connectHandler hinv hw
  | deadline ht => exact inv_timerHandler hinv ht
  | timerAborted ht =>
    rw [TimerInv, ht] at htimer
    obtain ⟨hnot, hw⟩ := htimer
    rw [OpInv, hw] at hop
    have hearly : ¬ TimesOut (tr ++ [.runTimer]) := fun h => hnot (timesOut_concat.mp h).1
    refine ⟨?_, trivial⟩
    simpa [OpInv, hw, Established, hearly] using hop.1 (by simp [ht])

/-- **Run lemma.** -/
theorem inv_exec {timeoutMs : Int} {sched : List ConnectEvent} {s : ConnectLoop}
    (h : connectSystem.exec (start timeoutMs) sched = some s) : Inv sched s :=
  connectSystem.exec_trace_invariant (inv_start timeoutMs)
    (fun _ _ _ _ hinv hs => inv_step hinv hs) h

end ConnectLoop

/-- **Specification of `connect`.** -/
theorem connect_eq_zero_iff {timeoutMs : Int} {sched : List ConnectEvent} {ec : Int}
    (h : connect timeoutMs sched = some ec) : ec = 0 ↔ Established sched := by
  obtain ⟨s, hs, hdone⟩ := Option.bind_eq_some_iff.mp h
  have hop := (ConnectLoop.inv_exec hs).op
  by_cases hf : s.finished = true
  · rw [if_pos hf] at hdone
    simp only [ConnectLoop.finished, Bool.and_eq_true, beq_iff_eq] at hf
    rw [ConnectLoop.OpInv, hf.1] at hop
    rw [← hop.2 hf.2, ← Option.some.inj hdone]
    cases he : s.error.isError with
    | false => simp [ErrorCode.isError_eq_false_iff.mp he]
    | true =>
      have hv : s.error.value ≠ 0 := by simpa [ErrorCode.isError] using he
      simp [hv, ErrorCode.isError_iff_ne.mp he]
  · rw [if_neg hf] at hdone
    cases hdone

end LibControlCan
