import LibControlCan.Net.Model

/-! # What VCI_Transmit reports

    `transmitLoop_cases` says how a call ends: either every frame went out
    under a clean schedule, or the frames before some frame did and the
    write of that frame left an error in the error variable.

    The error variable does not tell the two things a caller needs.  A
    write that failed is reported as a failure only if its handler runs
    after the timer handler (`transmit_detects_dead_connection_iff`), and a
    write that succeeded is reported as a success unless the timer handler
    was already queued and runs last (`transmit_verdict_truthful_iff`). -/

namespace LibControlCan

open Asio

/-! ## Section 1: The loop -/

/-- The size of every transmit line. -/
def transmitLen : Nat := 86

/-- The write of a transmit line under this schedule leaves no error. -/
def CleanWrite (sched : List WriteEvent) : Prop :=
  ∃ w, writeLine transmitLen .ok sched = some w ∧ w.ec = .ok

/-- The record of a frame that went out completely. -/
def sentRecord (conn : Nat) (t i c : UInt32) (o : VciCanObj) : WriteRecord :=
  ⟨conn, .transmit t i c o, (Request.transmit t i c o).line.length⟩

/-- How the loop of `VCI_Transmit` ends at a frame: the frames before it
    went out, and its own write left an error. -/
structure Stopped (net : CanImpCanNet) (t i c : UInt32) (pSend : List VciCanObj)
    (scheds : List (List WriteEvent)) (r : Reply) (o : VciCanObj) (before after : List VciCanObj)
    (clean : List (List WriteEvent)) (sched : List WriteEvent) (w : Written) : Prop where
  pSend_eq : pSend = before ++ o :: after
  scheds_eq : scheds = clean ++ [sched]
  clean_length : clean.length = before.length
  clean_ok : ∀ s ∈ clean, CleanWrite s
  write : writeLine transmitLen .ok sched = some w
  error : w.ec ≠ .ok
  ret : r.ret = .ok .statusErr
  net_eq : r.net = if w.ret < 0 then net.drop else net
  writes : r.writes = before.map (sentRecord net.conn t i c) ++
    [⟨net.conn, .transmit t i c o, w.written⟩]

/-- A frame that went out before the loop over the others. -/
theorem Stopped.cons {net : CanImpCanNet} {t i c : UInt32} {pSend : List VciCanObj}
    {scheds : List (List WriteEvent)} {r : Reply} {o : VciCanObj} {before after : List VciCanObj}
    {clean : List (List WriteEvent)} {sched : List WriteEvent} {w : Written}
    (hstop : Stopped net t i c pSend scheds r o before after clean sched w) (first : VciCanObj)
    {s : List WriteEvent} (hclean : CleanWrite s) :
    Stopped net t i c (first :: pSend) (s :: scheds)
      { r with writes := sentRecord net.conn t i c first :: r.writes } o (first :: before) after
      (s :: clean) sched w where
  pSend_eq := by rw [hstop.pSend_eq]; rfl
  scheds_eq := by rw [hstop.scheds_eq]; rfl
  clean_length := by simp [hstop.clean_length]
  clean_ok := List.forall_mem_cons.mpr ⟨hclean, hstop.clean_ok⟩
  write := hstop.write
  error := hstop.error
  ret := hstop.ret
  net_eq := hstop.net_eq
  writes := by simp [hstop.writes]

/-- The two ways the loop ends. -/
theorem transmitLoop_cases {net : CanImpCanNet} {t i c : UInt32} {pSend : List VciCanObj}
    {scheds : List (List WriteEvent)} {r : Reply}
    (h : CanImpCanNet.transmitLoop t i c net .ok pSend scheds = some r) :
    (r = ⟨.ok .statusOk, net, pSend.map (sentRecord net.conn t i c)⟩ ∧
      scheds.length = pSend.length ∧ ∀ s ∈ scheds, CleanWrite s) ∨
    (∃ o before after clean sched w,
      Stopped net t i c pSend scheds r o before after clean sched w) := by
  induction pSend generalizing scheds r with
  | nil =>
    cases scheds with
    | nil =>
      simp only [CanImpCanNet.transmitLoop, Option.some.injEq] at h
      exact Or.inl ⟨h.symm, rfl, nofun⟩
    | cons s ss => simp [CanImpCanNet.transmitLoop] at h
  | cons o pSend ih =>
    cases scheds with
    | nil => simp [CanImpCanNet.transmitLoop] at h
    | cons sched scheds =>
      have hlen : (Request.transmit t i c o).line.length = transmitLen :=
        length_transmit_line t i c o
      simp only [CanImpCanNet.transmitLoop, hlen, Option.bind_eq_some_iff] at h
      obtain ⟨w, hw, h⟩ := h
      have hspec := writeLine_spec hw
      have hret : w.ret = transmitLen ↔ w.ec = .ok := by
        rw [hspec.ret, writeReturn_eq_len (by decide)]
      by_cases hok : w.ec = .ok
      · -- The frame went out: the rest of the run is a run for the rest of the frames.
        have hwhole := (hspec.ec_ok_iff.mp hok).1
        have hclean : CleanWrite sched := ⟨w, hw, hok⟩
        have hrecord : (⟨net.conn, .transmit t i c o, transmitLen⟩ : WriteRecord) =
            sentRecord net.conn t i c o := by
          rw [sentRecord, hlen]
        simp only [hret.mpr hok, hok, ErrorCode.isError_ok, ne_eq, not_true_eq_false,
          Bool.false_and, Bool.false_eq_true, if_false, Option.map_eq_some_iff, hwhole,
          hrecord] at h
        obtain ⟨r', hr', rfl⟩ := h
        rcases ih hr' with ⟨rfl, hlength, hall⟩ | ⟨o', before, after, clean, s', w', hstop⟩
        · exact Or.inl ⟨rfl, by simp [hlength], List.forall_mem_cons.mpr ⟨hclean, hall⟩⟩
        · exact Or.inr ⟨o', o :: before, after, sched :: clean, s', w', hstop.cons o hclean⟩
      · -- The write left an error: `ret` differs from the size and the loop returns.
        have hne : w.ret ≠ transmitLen := fun heq => hok (hret.mp heq)
        simp only [hne, ne_eq, not_false_eq_true, if_true] at h
        by_cases hnil : scheds = []
        · simp only [hnil, if_true, Option.some.injEq] at h
          subst hnil h
          -- The test of `ec` beside the one of `ret` changes nothing.
          have hneg : (w.ec.isError && decide (w.ret < 0)) = decide (w.ret < 0) := by
            by_cases hlt : w.ret < 0
            · rw [hspec.ret] at hlt
              simp [(writeReturn_neg.mp hlt).1]
            · simp [hlt]
          refine Or.inr ⟨o, [], pSend, [], sched, w, rfl, rfl, rfl, nofun, hw, hok, rfl, ?_, rfl⟩
          simp [hneg]
        · simp [hnil] at h

theorem vciTransmit_eq_loop {net : CanImpCanNet} (hconn : net.connected = true) (t i c : UInt32)
    (pSend : List VciCanObj) (scheds : List (List WriteEvent)) :
    net.vciTransmit t i c pSend scheds =
      CanImpCanNet.transmitLoop t i c net .ok pSend scheds := by
  simp [CanImpCanNet.vciTransmit, hconn]

/-- A write that is not clean is the one that the call stopped at. -/
theorem transmit_stops_at {net : CanImpCanNet} {t i c : UInt32} {pSend : List VciCanObj}
    {scheds : List (List WriteEvent)} {r : Reply} (hconn : net.connected = true)
    (h : net.vciTransmit t i c pSend scheds = some r) {sched : List WriteEvent}
    (hsched : sched ∈ scheds) (hdirty : ¬ CleanWrite sched) :
    ∃ o before after clean w, Stopped net t i c pSend scheds r o before after clean sched w := by
  rw [vciTransmit_eq_loop hconn] at h
  rcases transmitLoop_cases h with ⟨-, -, hall⟩ | ⟨o, before, after, clean, s, w, hstop⟩
  · exact absurd (hall sched hsched) hdirty
  · obtain rfl : s = sched := by
      rw [hstop.scheds_eq] at hsched
      rcases List.mem_append.mp hsched with hs | hs
      · exact absurd (hstop.clean_ok sched hs) hdirty
      · exact (List.mem_singleton.mp hs).symm
    exact ⟨o, before, after, clean, w, hstop⟩

/-! ## Section 2: Failed writes -/

/-- The call noticed that the connection is dead: `write_line` returned a
    negative value, the call an error, and the next open reconnects. -/
structure DeathNoticed (sched : List WriteEvent) (r : Reply) : Prop where
  negative : ∃ w, writeLine transmitLen .ok sched = some w ∧ w.ret < 0
  ret : r.ret = .ok .statusErr
  disconnected : r.net.connected = false
  closed : r.net.sockOpen = false
  reconnects : ∀ t i rsv conn s r', r.net.vciOpenDevice t i rsv conn s = some r' →
    r'.ret = .ok .statusOk → r'.net.conn = r.net.conn + 1

/-- When a write of the call fails with an error other than cancellation,
    the call notices exactly when the write handler runs after the timer
    handler. -/
theorem transmit_detects_dead_connection_iff {net : CanImpCanNet} {t i c : UInt32}
    {pSend : List VciCanObj} {scheds : List (List WriteEvent)} {r : Reply}
    (hconn : net.connected = true) (h : net.vciTransmit t i c pSend scheds = some r)
    {sched : List WriteEvent} (hsched : sched ∈ scheds) {e : ErrorCode}
    (hfail : failure sched = some e) (hcancel : e.value ≠ operationCanceled) :
    DeathNoticed sched r ↔ sched.getLast? ≠ some .runTimer := by
  -- A failed write is never clean, whichever handler runs last.
  have hdirty : ¬ CleanWrite sched := by
    rintro ⟨w, hw, hok⟩
    have hspec := writeLine_spec hw
    have hwhole := hspec.whole.mpr (hspec.ec_ok_iff.mp hok).1
    rw [writeResult, hfail] at hwhole
    exact ErrorCode.isError_iff_ne.mp (hspec.errors e hfail) hwhole
  obtain ⟨o, before, after, clean, w, hstop⟩ := transmit_stops_at hconn h hsched hdirty
  have hspec := writeLine_spec hstop.write
  have hec := hspec.ec_of_failure hfail
  have hnet := hstop.net_eq
  by_cases hlast : sched.getLast? = some .runTimer
  · -- The timer handler overwrote the error: `write_line` returns 0.
    rw [if_pos hlast] at hec
    refine iff_of_false ?_ (fun hne => hne hlast)
    intro hnoticed
    obtain ⟨w', hw', hneg⟩ := hnoticed.negative
    obtain rfl : w = w' := Option.some.inj (hstop.write.symm.trans hw')
    rw [hspec.ret, hec, writeReturn_neg] at hneg
    exact hneg.2 rfl
  · -- The write handler stored last: its error is what `write_line` returns.
    rw [if_neg hlast] at hec
    have hneg : w.ret < 0 := by
      rw [hspec.ret, hec, writeReturn_neg]
      exact ⟨hspec.errors e hfail, hcancel⟩
    rw [if_pos hneg] at hnet
    have hdown : r.net.connected = false := by rw [hnet]; rfl
    refine iff_of_true ⟨⟨w, hstop.write, hneg⟩, hstop.ret, hdown, by rw [hnet]; rfl, ?_⟩ hlast
    intro _ _ _ _ _ _ hopen hok
    exact CanImpCanNet.vciOpenDevice_reconnects hdown hopen hok

/-- The peer reset the connection; the timer handler runs before the
    handler of the write. -/
theorem transmit_detects_dead_connection_sample :
    ∃ r, freshClient.vciTransmit 4 0 0 [.zero] [[.fail ⟨104⟩, .expire, .runTimer, .runWrite]] =
      some r ∧ DeathNoticed [.fail ⟨104⟩, .expire, .runTimer, .runWrite] r := by
  have hrun : (freshClient.vciTransmit 4 0 0 [.zero]
      [[.fail ⟨104⟩, .expire, .runTimer, .runWrite]]).isSome = true := by
    decide +kernel
  obtain ⟨r, hr⟩ := Option.isSome_iff_exists.mp hrun
  exact ⟨r, hr, (transmit_detects_dead_connection_iff rfl hr List.mem_cons_self rfl
    (by decide)).mpr (by decide)⟩

/-- The handler of a write that failed at once runs first.  It leaves the
    timer armed, and the timer handler hides the error: the client stays
    connected. -/
theorem transmit_misses_dead_connection :
    ∃ r, freshClient.vciTransmit 4 0 0 [.zero] [[.fail ⟨104⟩, .runWrite, .expire, .runTimer]] =
      some r ∧ r.net.connected = true ∧ r.net.sockOpen = true := by
  have hrun : (freshClient.vciTransmit 4 0 0 [.zero]
      [[.fail ⟨104⟩, .runWrite, .expire, .runTimer]]).map
        (fun r => (r.net.connected, r.net.sockOpen)) = some (true, true) := by
    decide +kernel
  obtain ⟨r, hr, hnet⟩ := Option.map_eq_some_iff.mp hrun
  exact ⟨r, hr, congrArg Prod.fst hnet, congrArg Prod.snd hnet⟩

/-! ## Section 3: The verdict -/

/-- The write of the last frame was complete, but the timer handler was
    queued already and ran after the write handler. -/
def LastWriteLate (pSend : List VciCanObj) (scheds : List (List WriteEvent)) : Prop :=
  scheds.length = pSend.length ∧
    ∃ sched, scheds.getLast? = some sched ∧ sentBytes sched = transmitLen ∧ LateTimer sched

/-- The returned status says whether all frames went out, each once and in
    order, except when the timer handler hides the success of the last
    write. -/
theorem transmit_verdict_truthful_iff {net : CanImpCanNet} {t i c : UInt32}
    {pSend : List VciCanObj} {scheds : List (List WriteEvent)} {r : Reply}
    (hconn : net.connected = true) (h : net.vciTransmit t i c pSend scheds = some r) :
    (r.ret = .ok .statusOk ↔ r.writes = pSend.map (sentRecord net.conn t i c)) ↔
      ¬ LastWriteLate pSend scheds := by
  rw [vciTransmit_eq_loop hconn] at h
  rcases transmitLoop_cases h with ⟨rfl, -, hall⟩ | ⟨o, before, after, clean, s, w, hstop⟩
  · -- Every write was clean: the verdict is right, and no timer handler came last.
    refine iff_of_true (iff_of_true rfl rfl) ?_
    rintro ⟨-, s, hlast, -, hlate⟩
    obtain ⟨w, hw, hok⟩ := hall s (List.mem_of_getLast? hlast)
    exact ((writeLine_spec hw).ec_ok_iff.mp hok).2 hlate
  · have hspec := writeLine_spec hstop.write
    have hret : r.ret ≠ .ok .statusOk := by rw [hstop.ret]; nofun
    have hlen : (Request.transmit t i c o).line.length = transmitLen := length_transmit_line t i c o
    -- The call stopped at a write with an error.  It was late if and only if
    -- nothing was left to send.
    have hlate : LastWriteLate pSend scheds ↔ after = [] ∧ w.written = transmitLen := by
      have hcount := hstop.clean_length
      simp only [LastWriteLate, hstop.scheds_eq, hstop.pSend_eq, List.getLast?_concat,
        Option.some.injEq, exists_eq_left', List.length_append, List.length_cons, ← hspec.written]
      constructor
      · rintro ⟨hlength, hwhole, -⟩
        refine ⟨List.length_eq_zero_iff.mp ?_, hwhole⟩
        simp only [List.length_nil] at hlength
        omega
      · rintro ⟨rfl, hwhole⟩
        refine ⟨by simp [hcount], hwhole, ?_⟩
        by_contra hnot
        exact hstop.error (hspec.ec_ok_iff.mpr ⟨hwhole, hnot⟩)
    have hwrites : r.writes = pSend.map (sentRecord net.conn t i c) ↔
        after = [] ∧ w.written = transmitLen := by
      rw [hstop.writes, hstop.pSend_eq, List.map_append, List.append_cancel_left_eq]
      simp [sentRecord, hlen, eq_comm, and_comm]
    rw [hlate, ← hwrites]
    simp [hret]

/-- Two frames whose lines go out before the timer expires. -/
theorem transmit_verdict_truthful_sample :
    ∃ r, freshClient.vciTransmit 4 0 0 [.zero, .zero]
        [[.accept 80, .runWrite, .accept 6, .runWrite, .runTimer],
          [.accept 86, .runWrite, .runTimer]] = some r ∧
      r.ret = .ok .statusOk ∧ r.writes = [.zero, .zero].map (sentRecord 1 4 0 0) := by
  have hrun : (freshClient.vciTransmit 4 0 0 [.zero, .zero]
      [[.accept 80, .runWrite, .accept 6, .runWrite, .runTimer],
        [.accept 86, .runWrite, .runTimer]]).map Reply.ret = some (.ok .statusOk) := by
    decide +kernel
  obtain ⟨r, hr, hok⟩ := Option.map_eq_some_iff.mp hrun
  have hclean : ¬ LastWriteLate [.zero, .zero]
      [[.accept 80, .runWrite, .accept 6, .runWrite, .runTimer],
        [.accept 86, .runWrite, .runTimer]] := by
    rintro ⟨-, sched, hlast, -, hlate⟩
    cases hlast
    exact absurd hlate (by decide)
  exact ⟨r, hr, hok, ((transmit_verdict_truthful_iff rfl hr).mpr hclean).mp hok⟩

/-- The line went out, but 100 ms had passed by the time its handler ran:
    the call returns `STATUS_ERR`. -/
theorem transmit_denies_sent_frame :
    ∃ r, freshClient.vciTransmit 4 0 0 [.zero] [[.accept 86, .expire, .runWrite, .runTimer]] =
      some r ∧ r.ret = .ok .statusErr ∧ r.writes = [VciCanObj.zero].map (sentRecord 1 4 0 0) := by
  have hrun : (freshClient.vciTransmit 4 0 0 [.zero]
      [[.accept 86, .expire, .runWrite, .runTimer]]).map (fun r => (r.ret, r.writes)) =
        some (.ok .statusErr, [VciCanObj.zero].map (sentRecord 1 4 0 0)) := by
    decide +kernel
  obtain ⟨r, hr, hres⟩ := Option.map_eq_some_iff.mp hrun
  exact ⟨r, hr, congrArg Prod.fst hres, congrArg Prod.snd hres⟩

end LibControlCan
