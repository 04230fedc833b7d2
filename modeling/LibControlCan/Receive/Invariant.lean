import LibControlCan.Receive.Model

/-! # The invariant of VCI_Receive

    `Progress n s` says that the call has read `n` lines off the stream and
    handed the `k`-th of them to slot `k`; `Phase s` says when a read can
    be outstanding and when complete lines can be left in the buffer.
    `inv_step` keeps both over every event, `inv_exec` over every schedule. -/

namespace LibControlCan

open ByteMemory Asio Lines

/-! ## Section 1: Lines at the front of the buffer -/

theorem findLine_eq_none {xs : List RxByte} : findLine xs = none ↔ Free isNewline xs := by
  rw [← findIdx_eq_length_iff]
  simp [findLine]

theorem findLine_eq_some {xs line rest : List RxByte} (h : findLine xs = some (line, rest)) :
    ∃ d, isNewline d = true ∧ Free isNewline line ∧ xs = line ++ d :: rest := by
  by_cases hpos : xs.findIdx isNewline = xs.length
  · simp [findLine, hpos] at h
  · simp only [findLine, hpos, if_false, Option.some.injEq, Prod.mk.injEq] at h
    obtain ⟨rfl, rfl⟩ := h
    exact split_at_findIdx hpos

theorem any_isNewline_eq_false {xs : List RxByte} :
    xs.any isNewline = false ↔ Free isNewline xs := by
  simp [Free]

/-- The calls of `line_process` recorded in a log, one after the other. -/
def replay (calls : List (List RxByte × Nat)) (m : Memory) : Memory :=
  calls.foldl (fun m c => (lineProcess (vals c.1) c.2 m).2) m

theorem replay_append (cs₁ cs₂ : List (List RxByte × Nat)) (m : Memory) :
    replay (cs₁ ++ cs₂) m = replay cs₂ (replay cs₁ m) := by
  simp [replay]

/-! ## Section 2: Invariants of the call -/

namespace ReadLoop

section invariants

variable {rxBuff₀ : List RxByte} {p : Nat} {m₀ : Memory}

/-- `n` lines have been read off the stream, which began with `rxBuff₀`;
    the `k`-th of them went to slot `p + k`. -/
structure Progress (rxBuff₀ : List RxByte) (p : Nat) (m₀ : Memory) (n : Nat) (s : ReadLoop) :
    Prop where
  stream : s.consumed ++ (s.rxBuff ++ s.read.chunk) = rxBuff₀ ++ s.arrived
  handed : cut isNewline s.consumed = (s.calls.map Prod.fst, [])
  slots : s.calls.map Prod.snd = (List.range n).map fun k => p + VciCanObj.size * k
  mem : s.mem = replay s.calls m₀

/-- Handing over the next line is one unit of progress. -/
theorem Progress.processLine {n : Nat} {s : ReadLoop} {line rest : List RxByte}
    (h : Progress rxBuff₀ p m₀ n s) (hline : findLine s.rxBuff = some (line, rest)) :
    Progress rxBuff₀ p m₀ (n + 1) (s.processLine line rest (p + VciCanObj.size * n)) := by
  obtain ⟨d, hd, hfree, hbuff⟩ := findLine_eq_some hline
  have htake : s.rxBuff.take (line.length + 1) = line ++ [d] := by
    rw [hbuff, List.take_append]
    simp
  constructor
  · show s.consumed ++ s.rxBuff.take (line.length + 1) ++ (rest ++ s.read.chunk) =
      rxBuff₀ ++ s.arrived
    rw [htake, ← h.stream, hbuff]
    simp
  · show cut isNewline (s.consumed ++ s.rxBuff.take (line.length + 1)) = _
    rw [htake, cut_append_line (by rw [h.handed]) hfree hd, h.handed]
    simp [ReadLoop.processLine]
  · simp [ReadLoop.processLine, List.range_succ, h.slots]
  · show _ = replay (s.calls ++ [(line, p + VciCanObj.size * n)]) m₀
    rw [replay_append, ← h.mem]
    rfl

/-- Where the call stands.  A read is outstanding only while lines are
    missing, and a read that got no data left no complete line behind. -/
def Phase (s : ReadLoop) : Prop :=
  match s.read with
  | .idle => s.readCnt = s.len ∨ (s.readCnt < s.len ∧ Free isNewline s.rxBuff)
  | .ready _ => s.readCnt < s.len
  | .waiting | .failed _ => s.readCnt < s.len ∧ Free isNewline s.rxBuff

/-- The invariant of `io_context_.run()`. -/
structure Inv (rxBuff₀ : List RxByte) (p : Nat) (m₀ : Memory) (s : ReadLoop) : Prop where
  progress : Progress rxBuff₀ p m₀ s.readCnt s
  cursor : s.canObjs = p + VciCanObj.size * s.readCnt
  phase : s.Phase

/-- Only the read operation and the fields of the ghost log matter. -/
theorem Progress.of_eq {n : Nat} {s s' : ReadLoop} (h : Progress rxBuff₀ p m₀ n s)
    (hstream : s'.rxBuff ++ s'.read.chunk = s.rxBuff ++ s.read.chunk)
    (hcons : s'.consumed = s.consumed) (harr : s'.arrived = s.arrived)
    (hcalls : s'.calls = s.calls) (hmem : s'.mem = s.mem) : Progress rxBuff₀ p m₀ n s' := by
  constructor
  · rw [hcons, hstream, harr, h.stream]
  · rw [hcons, hcalls, h.handed]
  · rw [hcalls, h.slots]
  · rw [hmem, hcalls, h.mem]

/-- The three ways to go on after a line. -/
theorem asyncRead_cases (s : ReadLoop) :
    (s.len ≤ s.readCnt ∧ s.asyncRead = { s with timer := s.timer.cancel }) ∨
    (s.readCnt < s.len ∧ ¬ Free isNewline s.rxBuff ∧ s.asyncRead = { s with read := .ready [] }) ∨
    (s.readCnt < s.len ∧ Free isNewline s.rxBuff ∧ s.asyncRead = { s with read := .waiting }) := by
  unfold asyncRead
  by_cases hcnt : s.readCnt ≥ s.len
  · exact Or.inl ⟨hcnt, if_pos hcnt⟩
  · rw [if_neg hcnt, ← any_isNewline_eq_false]
    by_cases hnl : s.rxBuff.any isNewline = true
    · exact Or.inr (Or.inl ⟨by omega, by simp [hnl], if_pos hnl⟩)
    · exact Or.inr (Or.inr ⟨by omega, by simpa using hnl, if_neg hnl⟩)

/-- Starting the next read keeps what has been read. -/
theorem inv_asyncRead {s : ReadLoop} (hidle : s.read = .idle)
    (hprog : Progress rxBuff₀ p m₀ s.readCnt s)
    (hcur : s.canObjs = p + VciCanObj.size * s.readCnt) (hle : s.readCnt ≤ s.len) :
    Inv rxBuff₀ p m₀ s.asyncRead := by
  have hchunk : s.read.chunk = [] := by rw [hidle]; rfl
  -- Enough lines, a line already buffered, or nothing but a wait.
  rcases asyncRead_cases s with ⟨hcnt, heq⟩ | ⟨hlt, -, heq⟩ | ⟨hlt, hfree, heq⟩
  · rw [heq]
    refine ⟨hprog.of_eq rfl rfl rfl rfl rfl, hcur, ?_⟩
    simp only [Phase, hidle]
    exact Or.inl (by omega)
  · rw [heq]
    exact ⟨hprog.of_eq (by rw [hchunk]; rfl) rfl rfl rfl rfl, hcur, hlt⟩
  · rw [heq]
    exact ⟨hprog.of_eq (by rw [hchunk]; rfl) rfl rfl rfl rfl, hcur, hlt, hfree⟩

/-- The state in which the handler calls `async_read` again: one line is
    handed over and counted. -/
def nextLine (line rest : List RxByte) (s : ReadLoop) : ReadLoop :=
  { ({ s with ec := .ok, read := .idle }).processLine line rest s.canObjs with
    readCnt := s.readCnt + 1
    canObjs := s.canObjs + VciCanObj.size }

/-- The three ways through the handler of the read. -/
theorem readHandler_cases (e : ErrorCode) (s : ReadLoop) :
    ((e.isError = true ∨ Free isNewline s.rxBuff) ∧
      s.readHandler e = { s with ec := e, read := .idle }) ∨
    (∃ line rest, e = .ok ∧ findLine s.rxBuff = some (line, rest) ∧ s.readCnt < s.len ∧
      s.readHandler e = (s.nextLine line rest).asyncRead) ∨
    (∃ line rest, e = .ok ∧ findLine s.rxBuff = some (line, rest) ∧ s.len ≤ s.readCnt ∧
      s.readHandler e =
        { ({ s with ec := .ok, read := .idle }).processLine line rest s.canObjs with
          timer := s.timer.cancel }) := by
  cases hline : findLine s.rxBuff with
  | none =>
    refine Or.inl ⟨Or.inr (findLine_eq_none.mp hline), ?_⟩
    simp only [readHandler, hline]
  | some lr =>
    by_cases he : e.isError = true
    · refine Or.inl ⟨Or.inl he, ?_⟩
      simp only [readHandler, hline, he, if_true]
    · obtain rfl : e = .ok := ErrorCode.isError_eq_false_iff.mp (by simpa using he)
      right
      by_cases hcnt : s.readCnt < s.len
      · refine Or.inl ⟨lr.1, lr.2, rfl, rfl, hcnt, ?_⟩
        simp only [readHandler, hline, ErrorCode.isError_ok, Bool.false_eq_true, if_false]
        exact if_pos hcnt
      · refine Or.inr ⟨lr.1, lr.2, rfl, rfl, by omega, ?_⟩
        simp only [readHandler, hline, ErrorCode.isError_ok, Bool.false_eq_true, if_false]
        exact if_neg hcnt

/-- The two outcomes of a completed socket read. -/
theorem readCompleted_cases (chunk : List RxByte) (s : ReadLoop) :
    (Free isNewline (s.rxBuff ++ chunk) ∧
      s.readCompleted chunk = { s with rxBuff := s.rxBuff ++ chunk, read := .waiting }) ∨
    (¬ Free isNewline (s.rxBuff ++ chunk) ∧
      s.readCompleted chunk = ({ s with rxBuff := s.rxBuff ++ chunk }).readHandler .ok) := by
  unfold readCompleted
  rw [← any_isNewline_eq_false]
  by_cases hnl : (s.rxBuff ++ chunk).any isNewline = true
  · exact Or.inr ⟨by simp only [hnl]; decide, if_pos hnl⟩
  · exact Or.inl ⟨by simpa using hnl, if_neg hnl⟩

/-- The transitions with their guards: everything that `step` can do. -/
inductive Transition (s : ReadLoop) : ReadEvent → ReadLoop → Prop where
  | arrive (bs : List UInt8) : s.read = .waiting → bs ≠ [] →
      Transition s (.arrive bs)
        { s with read := .ready (onConn s.conn bs), arrived := s.arrived ++ onConn s.conn bs }
  | fail (e : ErrorCode) : s.read = .waiting → e.isError = true →
      Transition s (.fail e) { s with read := .failed e }
  | expire (ms : Int) : s.timer = .armed ms → Transition s .expire { s with timer := .expired }
  | completed (chunk : List RxByte) : s.read = .ready chunk →
      Transition s .runRead (s.readCompleted chunk)
  | readFailed (e : ErrorCode) : s.read = .failed e → Transition s .runRead (s.readHandler e)
  | deadline : s.timer = .expired → Transition s .runTimer s.timerHandler
  | timerAborted : s.timer = .cancelled → Transition s .runTimer { s with timer := .idle }

theorem transition_of_step {s s' : ReadLoop} {ev : ReadEvent} (h : s.step ev = some s') :
    Transition s ev s' := by
  cases ev with
  | arrive bs =>
    by_cases hg : s.read = .waiting ∧ bs ≠ []
    · simp only [step, hg, ne_eq, not_false_eq_true, and_self, if_true, Option.some.injEq] at h
      subst h
      exact .arrive bs hg.1 hg.2
    · simp [step, hg] at h
  | fail e =>
    by_cases hg : s.read = .waiting ∧ e.isError = true
    · simp only [step, hg, and_self, if_true, Option.some.injEq] at h
      subst h
      exact .fail e hg.1 hg.2
    · simp [step, hg] at h
  | expire =>
    cases ht : s.timer with
    | armed ms =>
      simp only [step, ht, Option.some.injEq] at h
      subst h
      exact .expire ms ht
    | idle => simp [step, ht] at h
    | expired => simp [step, ht] at h
    | cancelled => simp [step, ht] at h
  | runRead =>
    cases hr : s.read with
    | ready chunk =>
      simp only [step, hr, Option.some.injEq] at h
      subst h
      exact .completed chunk hr
    | failed e =>
      simp only [step, hr, Option.some.injEq] at h
      subst h
      exact .readFailed e hr
    | idle => simp [step, hr] at h
    | waiting => simp [step, hr] at h
  | runTimer =>
    cases ht : s.timer with
    | expired =>
      simp only [step, ht, Option.some.injEq] at h
      subst h
      exact .deadline ht
    | cancelled =>
      simp only [step, ht, Option.some.injEq] at h
      subst h
      exact .timerAborted ht
    | idle => simp [step, ht] at h
    | armed ms => simp [step, ht] at h

/-- The state after the deadline handler. -/
theorem timerHandler_cases (s : ReadLoop) :
    (s.read = .waiting ∧
      s.timerHandler = { s with timer := .idle, read := .failed operationAborted }) ∨
    (s.read ≠ .waiting ∧ s.timerHandler = { s with timer := .idle }) := by
  unfold timerHandler
  cases hr : s.read <;> simp

/-- The handler keeps the invariant whether or not it finds a line. -/
theorem inv_readHandler (e : ErrorCode) {s : ReadLoop}
    (hprog : Progress rxBuff₀ p m₀ s.readCnt { s with read := .idle })
    (hcur : s.canObjs = p + VciCanObj.size * s.readCnt) (hlt : s.readCnt < s.len)
    (herr : e.isError = true → Free isNewline s.rxBuff) :
    Inv rxBuff₀ p m₀ (s.readHandler e) := by
  rcases readHandler_cases e s with ⟨hfree, heq⟩ | ⟨line, rest, -, hline, -, heq⟩ |
    ⟨_, _, _, _, hge, _⟩
  · -- No line: the reading ends here.
    rw [heq]
    exact ⟨hprog.of_eq rfl rfl rfl rfl rfl, hcur, Or.inr ⟨hlt, hfree.elim herr id⟩⟩
  · have hnext := hprog.processLine hline
    rw [← hcur] at hnext
    rw [heq]
    refine inv_asyncRead rfl (hnext.of_eq rfl rfl rfl rfl rfl) ?_ hlt
    show s.canObjs + VciCanObj.size = p + VciCanObj.size * (s.readCnt + 1)
    rw [hcur]
    ring
  · omega

/-- **Step lemma.** -/
theorem inv_step {s s' : ReadLoop} {ev : ReadEvent} (hinv : Inv rxBuff₀ p m₀ s)
    (h : s.step ev = some s') : Inv rxBuff₀ p m₀ s' := by
  have hphase := hinv.phase
  cases transition_of_step h with
  | arrive bs hread hne =>
    rw [Phase, hread] at hphase
    have hstream := hinv.progress.stream
    simp only [hread, ReadOp.chunk, List.append_nil] at hstream
    refine ⟨⟨?_, hinv.progress.handed, hinv.progress.slots, hinv.progress.mem⟩, hinv.cursor,
      hphase.1⟩
    show s.consumed ++ (s.rxBuff ++ onConn s.conn bs) = rxBuff₀ ++ (s.arrived ++ onConn s.conn bs)
    rw [← List.append_assoc, hstream, List.append_assoc]
  | fail e hread he =>
    rw [Phase, hread] at hphase
    exact ⟨hinv.progress.of_eq (by rw [hread]; rfl) rfl rfl rfl rfl, hinv.cursor, hphase⟩
  | expire ms htimer =>
    exact ⟨hinv.progress.of_eq rfl rfl rfl rfl rfl, hinv.cursor, hphase⟩
  | completed chunk hread =>
    rw [Phase, hread] at hphase
    rcases readCompleted_cases chunk s with ⟨hfree, heq⟩ | ⟨-, heq⟩
    · -- The chunk is committed, but the composed read still lacks its delimiter.
      rw [heq]
      exact ⟨hinv.progress.of_eq (by simp [hread, ReadOp.chunk]) rfl rfl rfl rfl, hinv.cursor,
        hphase, hfree⟩
    · rw [heq]
      refine inv_readHandler .ok ?_ hinv.cursor hphase (fun h => by cases h)
      exact hinv.progress.of_eq (by simp [hread, ReadOp.chunk]) rfl rfl rfl rfl
  | readFailed e hread =>
    -- A read fails only while it waits, and then no line is buffered.
    rw [Phase, hread] at hphase
    refine inv_readHandler e ?_ hinv.cursor hphase.1 (fun _ => hphase.2)
    exact hinv.progress.of_eq (by rw [hread]; rfl) rfl rfl rfl rfl
  | deadline htimer =>
    rcases timerHandler_cases s with ⟨hread, heq⟩ | ⟨-, heq⟩
    · rw [Phase, hread] at hphase
      rw [heq]
      exact ⟨hinv.progress.of_eq (by rw [hread]; rfl) rfl rfl rfl rfl, hinv.cursor, hphase⟩
    · rw [heq]
      exact ⟨hinv.progress.of_eq rfl rfl rfl rfl rfl, hinv.cursor, hphase⟩
  | timerAborted htimer =>
    exact ⟨hinv.progress.of_eq rfl rfl rfl rfl rfl, hinv.cursor, hphase⟩

theorem inv_start (conn len : Nat) (waitTime : Int) :
    Inv rxBuff₀ p m₀ (start rxBuff₀ conn p len waitTime m₀) := by
  have hinit : Inv rxBuff₀ p m₀ (asyncRead
      { rxBuff := rxBuff₀, canObjs := p, len, readCnt := 0, ec := .ok, read := .idle,
        timer := .idle, mem := m₀, conn, arrived := [], consumed := [], calls := [] }) :=
    inv_asyncRead rfl ⟨by simp [ReadOp.chunk], rfl, rfl, rfl⟩ rfl (Nat.zero_le _)
  exact ⟨hinit.progress.of_eq rfl rfl rfl rfl rfl, hinit.cursor, hinit.phase⟩

/-- **Run lemma.** -/
theorem inv_exec {conn len : Nat} {waitTime : Int} {sched : List ReadEvent} {s : ReadLoop}
    (h : readSystem.exec (start rxBuff₀ conn p len waitTime m₀) sched = some s) :
    Inv rxBuff₀ p m₀ s :=
  readSystem.exec_invariant (fun _ _ _ hinv hs => inv_step hinv hs) (inv_start conn len waitTime) h

theorem phase_of_reachable {s : ReadLoop} (h : readSystem.Reachable s) : s.Phase := by
  have hinv : ∃ rxBuff₀ p m₀, Inv rxBuff₀ p m₀ s := by
    induction h with
    | init hinit =>
      obtain ⟨rxBuff, conn, p, len, waitTime, m, -, rfl⟩ := hinit
      exact ⟨rxBuff, p, m, inv_start conn len waitTime⟩
    | step ev _ _ hstep ih =>
      obtain ⟨rxBuff, p, m, hinv⟩ := ih
      exact ⟨rxBuff, p, m, inv_step hinv hstep⟩
  obtain ⟨_, _, _, hinv⟩ := hinv
  exact hinv.phase

end invariants

/-! ## Section 3: What a run leaves alone -/

/-- No step changes the bound or the connection, and only the network adds
    bytes. -/
structure Frame (s : ReadLoop) (bs : List RxByte) (s' : ReadLoop) : Prop where
  len : s'.len = s.len
  conn : s'.conn = s.conn
  arrived : s'.arrived = s.arrived ++ bs

theorem frame_asyncRead (s : ReadLoop) : Frame s [] s.asyncRead := by
  rcases asyncRead_cases s with ⟨-, h⟩ | ⟨-, -, h⟩ | ⟨-, -, h⟩ <;>
    exact ⟨by rw [h], by rw [h], by rw [h]; simp⟩

theorem frame_start (rxBuff : List RxByte) (conn p len : Nat) (waitTime : Int) (m : Memory) :
    (start rxBuff conn p len waitTime m).len = len ∧
      (start rxBuff conn p len waitTime m).conn = conn ∧
      (start rxBuff conn p len waitTime m).arrived = [] := by
  have h := frame_asyncRead
    { rxBuff, canObjs := p, len, readCnt := 0, ec := .ok, read := .idle, timer := .idle,
      mem := m, conn, arrived := [], consumed := [], calls := [] }
  exact ⟨h.len, h.conn, h.arrived⟩

theorem frame_readHandler (e : ErrorCode) (s : ReadLoop) : Frame s [] (s.readHandler e) := by
  rcases readHandler_cases e s with ⟨-, heq⟩ | ⟨line, rest, -, -, -, heq⟩ |
    ⟨line, rest, -, -, -, heq⟩
  · rw [heq]
    exact ⟨rfl, rfl, (List.append_nil _).symm⟩
  · have hnext := frame_asyncRead (s.nextLine line rest)
    rw [heq]
    exact ⟨hnext.len, hnext.conn, hnext.arrived⟩
  · rw [heq]
    exact ⟨rfl, rfl, (List.append_nil _).symm⟩

theorem frame_step {s s' : ReadLoop} {ev : ReadEvent} (h : s.step ev = some s') :
    Frame s (onConn s.conn ev.bytes) s' := by
  cases transition_of_step h with
  | arrive bs _ _ => exact ⟨rfl, rfl, rfl⟩
  | fail e _ _ => exact ⟨rfl, rfl, (List.append_nil _).symm⟩
  | expire ms _ => exact ⟨rfl, rfl, (List.append_nil _).symm⟩
  | completed chunk _ =>
    rcases readCompleted_cases chunk s with ⟨-, heq⟩ | ⟨-, heq⟩
    · rw [heq]
      exact ⟨rfl, rfl, (List.append_nil _).symm⟩
    · have hframe := frame_readHandler .ok { s with rxBuff := s.rxBuff ++ chunk }
      rw [heq]
      exact ⟨hframe.len, hframe.conn, hframe.arrived⟩
  | readFailed e _ => exact frame_readHandler e s
  | deadline _ =>
    rcases timerHandler_cases s with ⟨-, heq⟩ | ⟨-, heq⟩ <;>
      exact ⟨by rw [heq], by rw [heq], by rw [heq]; simp [ReadEvent.bytes, onConn]⟩
  | timerAborted _ => exact ⟨rfl, rfl, (List.append_nil _).symm⟩

theorem frame_exec {s s' : ReadLoop} {sched : List ReadEvent}
    (h : readSystem.exec s sched = some s') : Frame s (arrivals s.conn sched) s' := by
  induction sched generalizing s with
  | nil =>
    cases h
    exact ⟨rfl, rfl, by simp [arrivals]⟩
  | cons ev sched ih =>
    obtain ⟨t, ht, hrest⟩ := readSystem.exec_cons_eq_some h
    have hstep := frame_step ht
    have hrun := ih hrest
    refine ⟨hrun.len.trans hstep.len, hrun.conn.trans hstep.conn, ?_⟩
    rw [hrun.arrived, hstep.arrived, hstep.conn]
    simp [arrivals]

/-! ## Section 4: The memory does not steer the run -/

/-- The state with another memory. -/
def withMem (m : Memory) (s : ReadLoop) : ReadLoop := { s with mem := m }

theorem asyncRead_withMem (m : Memory) (s : ReadLoop) :
    (s.withMem m).asyncRead = s.asyncRead.withMem m := by
  unfold asyncRead withMem
  by_cases hcnt : s.readCnt ≥ s.len
  · simp only [hcnt, if_true]
  · by_cases hnl : s.rxBuff.any isNewline = true <;>
      simp only [hcnt, hnl, Bool.false_eq_true, if_true, if_false]

theorem readHandler_withMem (m : Memory) (e : ErrorCode) (s : ReadLoop) :
    ∃ m', (s.withMem m).readHandler e = (s.readHandler e).withMem m' := by
  cases hline : findLine s.rxBuff with
  | none => exact ⟨m, by simp [readHandler, withMem, hline]⟩
  | some lr =>
    by_cases he : e.isError = true
    · exact ⟨m, by simp [readHandler, withMem, hline, he]⟩
    · have hcomm := asyncRead_withMem (lineProcess (vals lr.1) s.canObjs m).2
        { ({ s with ec := e, read := .idle }).processLine lr.1 lr.2 s.canObjs with
          readCnt := s.readCnt + 1, canObjs := s.canObjs + VciCanObj.size }
      refine ⟨(lineProcess (vals lr.1) s.canObjs m).2, ?_⟩
      by_cases hcnt : s.readCnt < s.len
      · simpa [readHandler, withMem, hline, he, processLine, hcnt] using hcomm
      · simp [readHandler, withMem, hline, he, processLine, hcnt]

theorem readCompleted_withMem (m : Memory) (chunk : List RxByte) (s : ReadLoop) :
    ∃ m', (s.withMem m).readCompleted chunk = (s.readCompleted chunk).withMem m' := by
  by_cases hnl : (s.rxBuff ++ chunk).any isNewline = true
  · obtain ⟨m', hm'⟩ := readHandler_withMem m .ok { s with rxBuff := s.rxBuff ++ chunk }
    refine ⟨m', ?_⟩
    simp only [readCompleted, withMem, hnl, if_true] at hm' ⊢
    exact hm'
  · refine ⟨m, ?_⟩
    simp [readCompleted, withMem, hnl]

theorem step_withMem (m : Memory) {s s' : ReadLoop} {ev : ReadEvent} (h : s.step ev = some s') :
    ∃ m', (s.withMem m).step ev = some (s'.withMem m') := by
  cases transition_of_step h with
  | arrive bs hread hne => exact ⟨m, by simp [step, withMem, hread, hne]⟩
  | fail e hread he => exact ⟨m, by simp [step, withMem, hread, he]⟩
  | expire ms htimer => exact ⟨m, by simp [step, withMem, htimer]⟩
  | completed chunk hread =>
    obtain ⟨m', hm'⟩ := readCompleted_withMem m chunk s
    refine ⟨m', ?_⟩
    rw [← hm']
    simp [step, withMem, hread]
  | readFailed e hread =>
    obtain ⟨m', hm'⟩ := readHandler_withMem m e s
    refine ⟨m', ?_⟩
    rw [← hm']
    simp [step, withMem, hread]
  | deadline htimer =>
    refine ⟨m, ?_⟩
    cases hread : s.read <;> simp [step, withMem, htimer, timerHandler, hread]
  | timerAborted htimer => exact ⟨m, by simp [step, withMem, htimer]⟩

/-- A schedule that is a run is one whatever the memory holds. -/
theorem exec_withMem (m : Memory) {s s' : ReadLoop} {sched : List ReadEvent}
    (h : readSystem.exec s sched = some s') :
    ∃ m', readSystem.exec (s.withMem m) sched = some (s'.withMem m') := by
  induction sched generalizing s m with
  | nil =>
    cases h
    exact ⟨m, rfl⟩
  | cons ev sched ih =>
    obtain ⟨t, ht, hrest⟩ := readSystem.exec_cons_eq_some h
    obtain ⟨m₁, hm₁⟩ := step_withMem m ht
    obtain ⟨m', hm'⟩ := ih m₁ hrest
    refine ⟨m', ?_⟩
    rw [readSystem.exec_cons]
    show (ReadLoop.step (s.withMem m) ev).bind _ = _
    rw [hm₁]
    exact hm'

end ReadLoop

end LibControlCan
