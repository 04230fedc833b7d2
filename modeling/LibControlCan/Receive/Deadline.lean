import LibControlCan.Receive.Invariant

/-! # The deadline of VCI_Receive

    `VCI_Receive` arms its timer once and starts reads from inside the
    completion of the previous read.  While a read waits for data, the
    deadline has to be outstanding too, or nothing but the peer can end the
    call.

    The deadline handler aborts only a read that is still waiting.  If it
    runs while a completion of the read is queued, the read goes on after
    it, and if the data at hand does not hold all the missing lines it
    waits again, now without a deadline.  `DeadlineSafe` excludes exactly
    these steps: runs without them keep the deadline (`kept_step`), and
    after any of them it is lost (`deadline_lost`). -/

namespace LibControlCan

open ByteMemory Asio Lines

namespace ReadLoop

/-- A read that waits for data has its deadline. -/
def DeadlineKept (s : ReadLoop) : Prop := s.read = .waiting → s.timer.Pending

/-- The complete lines that the call has at hand. -/
def atHand (s : ReadLoop) : Nat := (lines isNewline (s.rxBuff ++ s.read.chunk)).length

/-- The deadline handler runs while a completion of the read is queued only
    when all the missing lines are at hand. -/
def DeadlineSafe (s : ReadLoop) (ev : ReadEvent) : Prop :=
  ev = .runTimer → s.timer = .expired → ∀ chunk, s.read = .ready chunk →
    s.len - s.readCnt ≤ s.atHand

/-- Once the deadline is gone, a read goes on only with all the missing
    lines at hand. -/
structure Kept (s : ReadLoop) : Prop where
  kept : s.DeadlineKept
  enough : ¬ s.timer.Pending → ∀ chunk, s.read = .ready chunk → s.len - s.readCnt ≤ s.atHand

theorem lines_length_of_findLine {xs line rest : List RxByte}
    (h : findLine xs = some (line, rest)) :
    (lines isNewline xs).length = (lines isNewline rest).length + 1 := by
  obtain ⟨d, hd, hfree, rfl⟩ := findLine_eq_some h
  simp [lines, cut_line hfree hd]

theorem lines_length_of_free {xs : List RxByte} (h : Free isNewline xs) :
    (lines isNewline xs).length = 0 := by
  simp [lines, cut_of_free h]

/-- Without a read that waits or has its data there is nothing to keep. -/
theorem Kept.of_no_read {s : ReadLoop} (hwait : s.read ≠ .waiting)
    (hready : ∀ chunk, s.read ≠ .ready chunk) : Kept s :=
  ⟨fun h => absurd h hwait, fun _ chunk h => absurd h (hready chunk)⟩

/-- A read that has its data does not wait. -/
theorem Kept.of_ready {s : ReadLoop} {bs : List RxByte} (hread : s.read = .ready bs)
    (henough : ¬ s.timer.Pending → s.len - s.readCnt ≤ s.atHand) : Kept s := by
  refine ⟨fun hwait => ?_, fun hgone _ _ => henough hgone⟩
  rw [hread] at hwait
  cases hwait

/-- A read that waits needs its deadline. -/
theorem Kept.of_waiting {s : ReadLoop} (hread : s.read = .waiting) (hpend : s.timer.Pending) :
    Kept s := by
  refine ⟨fun _ => hpend, fun _ chunk hready => ?_⟩
  rw [hread] at hready
  cases hready

/-- Going on after a line: the missing lines and those at hand both go
    down by one. -/
theorem kept_asyncRead {s : ReadLoop} (hidle : s.read = .idle)
    (henough : ¬ s.timer.Pending → s.len - s.readCnt ≤ s.atHand) : Kept s.asyncRead := by
  have hchunk : s.atHand = (lines isNewline s.rxBuff).length := by
    simp [atHand, hidle, ReadOp.chunk]
  rcases asyncRead_cases s with ⟨-, heq⟩ | ⟨-, -, heq⟩ | ⟨hlt, hfree, heq⟩
  · rw [heq]
    exact .of_no_read (by simp [hidle]) (by simp [hidle])
  · rw [heq]
    refine .of_ready rfl (fun hgone => ?_)
    have h := henough hgone
    rw [hchunk] at h
    simpa [atHand, ReadOp.chunk] using h
  · rw [heq]
    refine .of_waiting rfl ?_
    by_contra hgone
    have h := henough hgone
    rw [hchunk, lines_length_of_free hfree] at h
    omega

/-- **Step lemma.** -/
theorem kept_step {s s' : ReadLoop} {ev : ReadEvent} (hphase : s.Phase) (hkept : Kept s)
    (hsafe : DeadlineSafe s ev) (h : s.step ev = some s') : Kept s' := by
  cases transition_of_step h with
  | arrive bs hread _ =>
    -- The read was waiting, so its deadline is still there.
    exact .of_ready rfl (fun hgone => absurd (hkept.kept hread) hgone)
  | fail e hread _ => exact .of_no_read (by simp) (by simp)
  | expire ms htimer => exact ⟨fun _ => trivial, fun hgone => absurd trivial hgone⟩
  | completed chunk hread =>
    rw [Phase, hread] at hphase
    have henough : ¬ s.timer.Pending →
        s.len - s.readCnt ≤ (lines isNewline (s.rxBuff ++ chunk)).length := by
      intro hgone
      have h := hkept.enough hgone chunk hread
      rwa [atHand, hread] at h
    rcases readCompleted_cases chunk s with ⟨hfree, heq⟩ | ⟨hline, heq⟩
    · rw [heq]
      refine .of_waiting rfl ?_
      by_contra hgone
      have h := henough hgone
      rw [lines_length_of_free hfree] at h
      omega
    · rw [heq]
      rcases readHandler_cases .ok { s with rxBuff := s.rxBuff ++ chunk } with
        ⟨hor, -⟩ | ⟨line, rest, -, hfind, -, heq'⟩ | ⟨_, _, _, _, hge, _⟩
      · exact absurd (hor.resolve_left (by simp)) hline
      · rw [heq']
        refine kept_asyncRead rfl ?_
        intro hgone
        have h := henough hgone
        have hfind' : findLine (s.rxBuff ++ chunk) = some (line, rest) := hfind
        rw [lines_length_of_findLine hfind'] at h
        show s.len - (s.readCnt + 1) ≤ (lines isNewline (rest ++ [])).length
        rw [List.append_nil]
        omega
      · have hge' : s.len ≤ s.readCnt := hge
        omega
  | readFailed e hread =>
    rw [Phase, hread] at hphase
    rcases readHandler_cases e s with ⟨-, heq⟩ | ⟨_, _, _, hfind, _⟩ | ⟨_, _, _, hfind, _⟩
    · rw [heq]
      exact .of_no_read (by simp) (by simp)
    · rw [findLine_eq_none.mpr hphase.2] at hfind
      cases hfind
    · rw [findLine_eq_none.mpr hphase.2] at hfind
      cases hfind
  | deadline htimer =>
    rcases timerHandler_cases s with ⟨-, heq⟩ | ⟨hread, heq⟩
    · rw [heq]
      exact .of_no_read (by simp) (by simp)
    · -- The one place where the deadline is lost: the guard has the lines counted.
      rw [heq]
      exact ⟨fun hw => absurd hw hread, fun _ chunk hr => hsafe rfl htimer chunk hr⟩
  | timerAborted htimer =>
    -- `cancel` was called, so the deadline had gone before this step.
    have hgone : ¬ s.timer.Pending := by rw [htimer]; exact id
    exact ⟨fun hw => absurd (hkept.kept hw) hgone, fun _ => hkept.enough hgone⟩

theorem kept_start (rxBuff : List RxByte) (conn p len : Nat) (waitTime : Int) (m : Memory) :
    Kept (start rxBuff conn p len waitTime m) :=
  ⟨fun _ => trivial, fun hgone => absurd trivial hgone⟩

theorem kept_of_reachableBy {s : ReadLoop} (h : readSystem.ReachableBy DeadlineSafe s) :
    Kept s := by
  induction h with
  | init hinit =>
    obtain ⟨rxBuff, conn, p, len, waitTime, m, -, rfl⟩ := hinit
    exact kept_start ..
  | step ev hs hsafe hstep ih =>
    exact kept_step (phase_of_reachable hs.reachable) ih hsafe hstep

/-- The handler of a completed read that finds a line. -/
theorem readCompleted_line {s : ReadLoop} {chunk line rest : List RxByte}
    (hlt : s.readCnt < s.len) (hline : findLine (s.rxBuff ++ chunk) = some (line, rest)) :
    s.readCompleted chunk =
      (({ s with rxBuff := s.rxBuff ++ chunk }).nextLine line rest).asyncRead := by
  have hfree : ¬ Free isNewline (s.rxBuff ++ chunk) := by
    rw [← findLine_eq_none, hline]
    simp
  rcases readCompleted_cases chunk s with ⟨hfree', -⟩ | ⟨-, heq⟩
  · exact absurd hfree' hfree
  · rw [heq]
    rcases readHandler_cases .ok { s with rxBuff := s.rxBuff ++ chunk } with
      ⟨hor, -⟩ | ⟨line', rest', -, hline', -, heq'⟩ | ⟨_, _, _, _, hge, _⟩
    · exact absurd (hor.resolve_left (by simp)) hfree
    · obtain ⟨rfl, rfl⟩ : line = line' ∧ rest = rest' := by
        simpa using hline.symm.trans hline'
      exact heq'
    · have hge' : s.len ≤ s.readCnt := hge
      omega

/-- A read that goes on without a deadline and with too few lines at hand
    comes to wait for data. -/
theorem deadline_lost {s : ReadLoop} {chunk : List RxByte} (hread : s.read = .ready chunk)
    (htimer : s.timer = .idle) (hfew : s.atHand < s.len - s.readCnt) :
    ∃ evs t, readSystem.exec s evs = some t ∧ t.read = .waiting ∧ t.timer = .idle := by
  -- The induction is on the lines at hand, each of which is handed over by one completion.
  induction hn : s.atHand generalizing s chunk with
  | zero =>
    have hstep : readSystem.exec s [.runRead] = some (s.readCompleted chunk) := by
      simp [LTS.System.exec, readSystem, step, hread]
    rcases readCompleted_cases chunk s with ⟨-, heq⟩ | ⟨hfree, -⟩
    · exact ⟨_, _, hstep, by rw [heq], by rw [heq]; exact htimer⟩
    · refine absurd (findLine_eq_none.mp ?_) hfree
      cases hline : findLine (s.rxBuff ++ chunk) with
      | none => rfl
      | some lr =>
        have hcount := lines_length_of_findLine hline
        rw [atHand, hread] at hn
        simp only [ReadOp.chunk] at hn
        omega
  | succ n ih =>
    have hn' : (lines isNewline (s.rxBuff ++ chunk)).length = n + 1 := by
      rwa [atHand, hread] at hn
    cases hline : findLine (s.rxBuff ++ chunk) with
    | none =>
      rw [lines_length_of_free (findLine_eq_none.mp hline)] at hn'
      omega
    | some lr =>
      have hrest := lines_length_of_findLine hline
      obtain ⟨s₁, hs₁⟩ : ∃ s₁, s₁ = ({ s with rxBuff := s.rxBuff ++ chunk }).nextLine lr.1 lr.2 :=
        ⟨_, rfl⟩
      have hcnt₁ : s₁.len - s₁.readCnt = s.len - (s.readCnt + 1) := by rw [hs₁]; rfl
      have hbuff₁ : s₁.rxBuff = lr.2 := by rw [hs₁]; rfl
      have htimer₁ : s₁.timer = .idle := by rw [hs₁]; exact htimer
      have hstep : s.step .runRead = some s₁.asyncRead := by
        simp [step, hread, readCompleted_line (by omega) hline, hs₁]
      rcases asyncRead_cases s₁ with ⟨hge, -⟩ | ⟨-, -, heq⟩ | ⟨-, -, heq⟩
      · omega
      · have hat : atHand { s₁ with read := .ready [] } = n := by
          simp only [atHand, ReadOp.chunk, List.append_nil, hbuff₁]
          omega
        obtain ⟨evs, t, hexec, ht⟩ := ih (s := { s₁ with read := .ready [] }) rfl htimer₁
          (by rw [hat]; show n < s₁.len - s₁.readCnt; omega) hat
        refine ⟨.runRead :: evs, t, ?_, ht⟩
        rw [readSystem.exec_cons]
        show (s.step .runRead).bind _ = _
        rw [hstep, heq]
        exact hexec
      · refine ⟨[.runRead], s₁.asyncRead, ?_, by rw [heq], by rw [heq]; exact htimer₁⟩
        simp only [LTS.System.exec, readSystem, hstep, Option.bind_some]

end ReadLoop

/-- While the deadline handler never runs with a completed read queued and
    lines missing, a read that waits has its deadline; and when it does run
    so, the call can come to wait without one. -/
theorem receive_waits_with_deadline (s : ReadLoop) :
    (readSystem.ReachableBy ReadLoop.DeadlineSafe s → s.DeadlineKept) ∧
    (∀ s', ¬ s.DeadlineSafe .runTimer → s.step .runTimer = some s' →
      ∃ evs t, readSystem.exec s' evs = some t ∧ ¬ t.DeadlineKept) := by
  refine ⟨?_, ?_⟩
  · intro hs
    exact (ReadLoop.kept_of_reachableBy hs).kept
  · intro s' hunsafe hstep
    simp only [ReadLoop.DeadlineSafe, true_imp_iff, not_forall] at hunsafe
    obtain ⟨htimer, chunk, hread, hfew⟩ := hunsafe
    obtain rfl : s' = { s with timer := .idle } := by
      simpa [ReadLoop.step, htimer, ReadLoop.timerHandler, hread] using hstep.symm
    have hat : ({ s with timer := .idle } : ReadLoop).atHand = s.atHand := rfl
    obtain ⟨evs, t, hexec, hwait, hidle⟩ := ReadLoop.deadline_lost (s := { s with timer := .idle }) hread rfl
      (by rw [hat]; show s.atHand < s.len - s.readCnt; omega)
    refine ⟨evs, t, hexec, fun hkept => ?_⟩
    have hpend := hkept hwait
    rw [hidle] at hpend
    exact hpend

/-- A call for two lines that has got the first one, and waits for the
    second. -/
theorem receive_waits_with_deadline_sample :
    ∃ s, readSystem.ReachableBy ReadLoop.DeadlineSafe s ∧ s.readCnt = 1 ∧ s.read = .waiting ∧
      s.timer.Pending := by
  have hrun : (readSystem.exec (.start [] 1 0 2 100 (fun _ => 0))
      [.arrive (sampleLine 48), .runRead]).map
      (fun s => (s.readCnt, s.read == .waiting)) = some (1, true) := by
    decide +kernel
  obtain ⟨s, hs, hval⟩ := Option.map_eq_some_iff.mp hrun
  obtain ⟨hcnt, hwait⟩ := Prod.mk.inj hval
  have hreach : readSystem.ReachableBy ReadLoop.DeadlineSafe s := by
    refine LTS.System.ReachableBy.exec _ (.init ⟨_, _, _, _, _, _, by decide, rfl⟩) ?_ hs
    intro ev hev t htimer
    rcases List.mem_pair.mp hev with rfl | rfl <;> cases htimer
  have hwait' : s.read = .waiting := beq_iff_eq.mp hwait
  exact ⟨s, hreach, hcnt, hwait', (receive_waits_with_deadline s).1 hreach hwait'⟩

/-- The deadline passes, the first line comes in, and the deadline handler
    runs before the handler of the read: the read for the second line waits
    for ever. -/
theorem receive_waits_without_deadline :
    ∃ s, readSystem.Reachable s ∧ ¬ s.DeadlineKept := by
  obtain ⟨s, hs, hp⟩ := readSystem.exists_reachable_of_exec
    (.start [] 1 0 2 100 (fun _ => 0))
    [.expire, .arrive (sampleLine 48), .runTimer, .runRead]
    (fun s => s.read == .waiting && s.timer == .idle)
    ⟨_, _, _, _, _, _, by decide, rfl⟩ (by decide +kernel)
  simp only [Bool.and_eq_true, beq_iff_eq] at hp
  refine ⟨s, hs, fun hkept => ?_⟩
  have hpend := hkept hp.1
  rw [hp.2] at hpend
  exact hpend

end LibControlCan
