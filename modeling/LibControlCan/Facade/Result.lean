import LibControlCan.Facade.Opening

/-! # What a non-zero result means

    The users of the library take every non-zero result for success.  For
    the functions that send one request, `nonzero_means_done_iff` says when
    that is right: always, except for an explicit open for which no
    connection to the agent can be had.  `STATUS_NET_CONN_FAIL` is -1, and
    only `VCI_OpenDevice` looks at it; the other two opens return it as
    `0xFFFFFFFF`. -/

namespace LibControlCan

open ByteMemory

/-! ## Section 1: Carrying out a request -/

/-- The request line of a call that sends one. -/
def VciCall.request? : VciCall → Option Request
  | .openDevice t i r => some (.openDevice t i r)
  | .closeDevice t i => some (.closeDevice t i)
  | .device (.initCAN t i c p) => some (.initCAN t i c p.pointee)
  | .device (.readErrInfo t i c (some p)) => some (.readErrInfo t i c p.pointee)
  | .device (.clearBuffer t i c) => some (.clearBuffer t i c)
  | .device (.startCAN t i c) => some (.startCAN t i c)
  | .device (.resetCAN t i c) => some (.resetCAN t i c)
  | _ => none

/-- The backend is a client that is up on connection `conn`. -/
def LiveOn (conn : Nat) (b : Option Backend) : Prop :=
  ∃ net, b = some (.net net) ∧ net.connected = true ∧ net.conn = conn

/-- The backend that was asked last carried out the request: the complete
    line was written to a connection that is up, or the kernel function
    returned a non-zero value. -/
def CarriedOut (before : Option Backend) (call : VciCall) (req : Request) (o : Outcome) : Prop :=
  match o.asked.getLast? with
  | some .net => ∃ conn, o.writes = [⟨conn, req, req.line.length⟩] ∧
      (LiveOn conn before ∨ LiveOn conn o.canImp)
  | some .direct => ∃ path err, o.kernel = [⟨path, call, err⟩] ∧ err ≠ 0
  | none => False

/-- The call is an explicit open on a network backend, and no connection
    can be had. -/
def ReportsConnFail (cc : CanAbstract) (env : Env) : ExportedCall → Prop
  | .openNetCan .. => ∃ net, cc.canImp.getD (.net (.new env.controlIni)) = .net net ∧
      net.ConnFails env.io.conn
  | .deirectOpenCan .. => ∃ net, cc.canImp = some (.net net) ∧ net.ConnFails env.io.conn
  | _ => False

namespace CanImpCanNet

/-- A command that reports success has written its line. -/
theorem command_statusOk {net : CanImpCanNet} {req : Request} {sched : List WriteEvent} {r : Reply}
    (h : net.command req sched = some r) (hok : r.ret = .ok .statusOk) :
    r.writes = [⟨net.conn, req, req.line.length⟩] ∧ r.net = net := by
  obtain ⟨w, hw, rfl⟩ := command_eq_some h
  by_cases hec : w.ec = .ok
  · have hall := ((writeLine_spec hw).ec_ok_iff.mp hec).1
    simp [hec, hall]
  · simp [hec] at hok

theorem request_statusOk {net : CanImpCanNet} {req : Request} {sched : List WriteEvent} {r : Reply}
    (h : net.request req sched = some r) (hok : r.ret = .ok .statusOk) :
    r.writes = [⟨net.conn, req, req.line.length⟩] ∧ net.connected = true := by
  unfold request at h
  cases hup : net.connected with
  | false =>
    simp only [hup, Bool.not_false, if_true] at h
    obtain rfl := returns_eq_some h
    cases hok
  | true =>
    simp only [hup, Bool.not_true, Bool.false_eq_true, if_false] at h
    exact ⟨(command_statusOk h hok).1, rfl⟩

/-- A command returns one of two values. -/
theorem request_ret {net : CanImpCanNet} {req : Request} {sched : List WriteEvent} {r : Reply}
    (h : net.request req sched = some r) : r.ret = .ok .statusOk ∨ r.ret = .ok .statusErr := by
  unfold request at h
  split at h
  · obtain rfl := returns_eq_some h
    exact Or.inr rfl
  · obtain ⟨w, -, rfl⟩ := command_eq_some h
    by_cases hec : w.ec = .ok <;> simp [hec]

/-- `VCI_OpenDevice` succeeds with its line written on the connection that
    the client has afterwards. -/
theorem vciOpenDevice_statusOk {net : CanImpCanNet} {t i rsv : UInt32} {conn : Option ConnectRun}
    {sched : List WriteEvent} {r : Reply} (h : net.vciOpenDevice t i rsv conn sched = some r)
    (hok : r.ret = .ok .statusOk) :
    r.writes = [⟨r.net.conn, .openDevice t i rsv, (Request.openDevice t i rsv).line.length⟩] ∧
      r.net.connected = true := by
  cases openPath_of_vciOpenDevice h with
  | unconfigured _ hr => subst hr; cases hok
  | unresolved _ _ hr => subst hr; cases hok
  | failed _ _ _ _ _ _ hr => subst hr; cases hok
  | connects _ _ _ _ hcmd =>
    obtain ⟨hw, hnet⟩ := command_statusOk hcmd hok
    rw [hnet]
    exact ⟨hw, rfl⟩
  | reuses _ hup hcmd =>
    obtain ⟨hw, hnet⟩ := command_statusOk hcmd hok
    rw [hnet]
    exact ⟨hw, hup⟩

/-- A call other than an open that sends a line. -/
theorem serve_request {net : CanImpCanNet} {io : Schedules} {m : Memory} {call : VciCall}
    {req : Request} {s : NetServed} (h : net.serve io m call = some s)
    (hreq : call.request? = some req) (hopen : ∀ t i r, call ≠ .openDevice t i r) :
    ∃ rep, net.request req io.write = some rep ∧ s.ret = rep.ret.map VciResult.ofType ∧
      s.writes = rep.writes := by
  cases call with
  | openDevice t i r => exact absurd rfl (hopen t i r)
  | closeDevice t i =>
    cases hreq
    obtain ⟨rep', hrep', rfl⟩ := Option.map_eq_some_iff.mp h
    obtain ⟨rep, hrep, rfl⟩ := Option.map_eq_some_iff.mp hrep'
    -- Closing the socket afterwards keeps the result and the writes.
    refine ⟨rep, hrep, ?_⟩
    split <;> exact ⟨rfl, rfl⟩
  | device call =>
    match call, hreq with
    | .initCAN .., rfl | .readErrInfo _ _ _ (some _), rfl | .clearBuffer .., rfl
    | .startCAN .., rfl | .resetCAN .., rfl =>
      obtain ⟨rep, hrep, rfl⟩ := Option.map_eq_some_iff.mp h
      exact ⟨rep, hrep, rfl, rfl⟩

end CanImpCanNet

/-! ## Section 2: One backend -/

/-- A direct backend returns a non-zero value only if the kernel function
    did. -/
theorem CanImpDirectCan2.serve_nonzero {W : Type} {k : Kernel W} {w : W} {dir : KernelDir}
    {o : CanImpDirectCan2} {call : VciCall} {v : VciResult}
    (hret : (o.serve k w dir call).ret = .ok v) (hne : v.dword ≠ 0) :
    ∃ path err, (o.serve k w dir call).kernel = some ⟨path, call, err⟩ ∧ err ≠ 0 := by
  have hrefused : ∀ obj : CanImpDirectCan2, (Served.refused call obj w).ret ≠ .ok v := by
    rintro obj ⟨⟩
    exact hne (VciCall.dword_refused call)
  have hpassed : ∀ path (obj : UInt32 → CanImpDirectCan2),
      (Served.passed k path call obj w).ret = .ok v → (k.call path call w).1 ≠ 0 := by
    rintro path obj ⟨⟩
    simpa using hne
  have hforward : (o.forward k call w).ret = .ok v →
      ∃ path err, (o.forward k call w).kernel = some ⟨path, call, err⟩ ∧ err ≠ 0 := by
    rcases o.forward_cases k w call with ⟨-, heq⟩ | ⟨lib, -, -, heq⟩ <;> rw [heq]
    · exact fun hs => absurd hs (hrefused _)
    · exact fun hs => ⟨_, _, rfl, hpassed _ _ hs⟩
  cases call with
  | openDevice t i r =>
    rcases o.vciOpenDevice_cases k w dir t i r with ⟨e, heq⟩ | heq | ⟨path, heq⟩ <;>
      simp only [serve, heq] at hret ⊢
    · cases hret
    · exact absurd hret (hrefused _)
    · exact ⟨_, _, rfl, hpassed _ _ hret⟩
  | closeDevice t i => exact hforward hret
  | device call =>
    rw [serve_device] at hret ⊢
    exact hforward hret

theorem dword_ofType_ne_zero {ret : VciReturnType} :
    (VciResult.ofType ret).dword ≠ 0 ↔ ret ≠ .statusErr := by
  cases ret <;> decide

/-- The result of a network backend is one of the enumerators. -/
theorem eq_ofType_of_map {ret : Except SystemError VciReturnType} {v : VciResult}
    (h : (ret.map VciResult.ofType).mapError Failure.network = .ok v) :
    ∃ s, ret = .ok s ∧ v = .ofType s := by
  cases ret with
  | error e => cases h
  | ok s => cases h; exact ⟨s, rfl, rfl⟩

/-- A direct backend returns a non-zero value only for a call that it has
    carried out, whatever becomes of the backend afterwards. -/
theorem CanImpDirectCan2.carriedOut_of_nonzero {env : Env} {call : VciCall} {m : Memory}
    {d : CanImpDirectCan2} {o : Outcome} {v : VciResult}
    (h : (Backend.direct d).serve env call m = some o) (hret : o.ret = .ok v) (hne : v.dword ≠ 0)
    (before canImp : Option Backend) (req : Request) (released : List Library) :
    CarriedOut before call req { o with canImp, released } := by
  cases h
  cases hd : (d.serve env.kernel m env.dir call).ret with
  | error e => simp [hd, Except.mapError] at hret
  | ok v' =>
    obtain rfl : v' = v := by simpa [hd, Except.mapError] using hret
    obtain ⟨path, err, hkernel, herr⟩ := CanImpDirectCan2.serve_nonzero hd hne
    exact ⟨path, err, by simp [hkernel], herr⟩

/-- A call other than an open, whatever becomes of the backend afterwards. -/
theorem Backend.request_nonzero {env : Env} {call : VciCall} {m : Memory} {b : Backend}
    {o : Outcome} {req : Request} {v : VciResult} (h : b.serve env call m = some o)
    (hreq : call.request? = some req) (hopen : ∀ t i r, call ≠ .openDevice t i r)
    (hret : o.ret = .ok v) (hne : v.dword ≠ 0) (canImp : Option Backend)
    (released : List Library) : CarriedOut (some b) call req { o with canImp, released } := by
  cases b with
  | net net =>
    obtain ⟨s, hs, rfl⟩ := Option.map_eq_some_iff.mp h
    obtain ⟨rep, hrep, hret', hwrites⟩ := CanImpCanNet.serve_request hs hreq hopen
    simp only [hret'] at hret
    obtain ⟨ret, hok, rfl⟩ := eq_ofType_of_map hret
    have hstatus : rep.ret = .ok .statusOk := by
      refine (CanImpCanNet.request_ret hrep).resolve_right fun herr => ?_
      rw [hok] at herr
      cases herr
      exact dword_ofType_ne_zero.mp hne rfl
    obtain ⟨hw, hup⟩ := CanImpCanNet.request_statusOk hrep hstatus
    exact ⟨net.conn, hwrites.trans hw, Or.inl ⟨net, rfl, hup, rfl⟩⟩
  | direct d => exact CanImpDirectCan2.carriedOut_of_nonzero h hret hne _ _ _ _

/-- An open: the result is non-zero without need only when the backend is a
    client that gets no connection. -/
theorem Backend.open_nonzero_iff {env : Env} {t i r : UInt32} {m : Memory} {b : Backend}
    {o : Outcome} {v : VciResult} (h : b.serve env (.openDevice t i r) m = some o)
    (hret : o.ret = .ok v) (before : Option Backend) :
    (v.dword ≠ 0 → CarriedOut before (.openDevice t i r) (.openDevice t i r) o) ↔
      ¬ ∃ net, b = .net net ∧ net.ConnFails env.io.conn := by
  cases b with
  | net net =>
    obtain ⟨s, hs, rfl⟩ := Option.map_eq_some_iff.mp h
    obtain ⟨rep, hrep, rfl⟩ := Option.map_eq_some_iff.mp hs
    obtain ⟨ret, hok, rfl⟩ := eq_ofType_of_map hret
    obtain ⟨hfail, hsilent⟩ := CanImpCanNet.connFail_iff hrep
    by_cases hconn : net.ConnFails env.io.conn
    · -- `STATUS_NET_CONN_FAIL` is not zero, and nothing was written.
      refine iff_of_false (fun himp => ?_) (fun hno => hno ⟨net, rfl, hconn⟩)
      have hret' : ret = .statusNetConnFail := by
        rw [hok] at hfail
        simpa using hfail.mpr hconn
      obtain ⟨conn, hw, -⟩ := himp (dword_ofType_ne_zero.mpr (by simp [hret']))
      have hnil : rep.writes = [⟨conn, .openDevice t i r, _⟩] := hw
      rw [hsilent hconn] at hnil
      cases hnil
    · refine iff_of_true (fun hne => ?_) ?_
      · have hstatus : rep.ret = .ok .statusOk := by
          cases ret with
          | statusOk => exact hok
          | statusErr => exact absurd rfl (dword_ofType_ne_zero.mp hne)
          | statusNetConnFail => exact absurd (hfail.mp hok) hconn
        obtain ⟨hw, hup⟩ := CanImpCanNet.vciOpenDevice_statusOk hrep hstatus
        exact ⟨rep.net.conn, hw, Or.inr ⟨rep.net, rfl, hup, rfl⟩⟩
      · rintro ⟨net', ⟨⟩, hconn'⟩
        exact hconn hconn'
  | direct d =>
    refine iff_of_true (fun hne => ?_) (by simp)
    exact CanImpDirectCan2.carriedOut_of_nonzero h hret hne before o.canImp _ o.released

/-! ## Section 3: The facade -/

/-- A network backend that does not answer `STATUS_NET_CONN_FAIL` had a
    connection. -/
theorem Backend.not_connFails {env : Env} {t i r : UInt32} {m : Memory} {net : CanImpCanNet}
    {o : Outcome} (h : (Backend.net net).serve env (.openDevice t i r) m = some o)
    (hok : o.ret.toOption ≠ some (.ofType .statusNetConnFail)) : ¬ net.ConnFails env.io.conn := by
  obtain ⟨s, hs, rfl⟩ := Option.map_eq_some_iff.mp h
  obtain ⟨rep, hrep, rfl⟩ := Option.map_eq_some_iff.mp hs
  intro hconn
  apply hok
  simp [Reply.served, (CanImpCanNet.connFail_iff hrep).1.mpr hconn, Except.map, Except.mapError,
    Except.toOption]

/-- For every state of the facade and every outcome of the network and of
    the kernel library, each exported function that sends one request
    returns a non-zero value only if the request was carried out, if and
    only if it is not an explicit open for which no connection can be had. -/
theorem nonzero_means_done_iff {cc : CanAbstract} {env : Env} {m : Memory} {c : ExportedCall}
    {o : Outcome} {req : Request} {v : VciResult} (h : cc.exported env m c = some o)
    (hreq : c.vciCall.request? = some req) (hret : o.ret = .ok v) :
    (v.dword ≠ 0 → CarriedOut cc.canImp c.vciCall req o) ↔ ¬ ReportsConnFail cc env c := by
  cases CanAbstract.path_of_exported h with
  | fallsBack t i r err o' herr _ ho' =>
    cases hreq
    refine iff_of_true (fun hne => ?_) id
    have hdone := CanImpDirectCan2.carriedOut_of_nonzero ho' hret hne cc.canImp o'.canImp
      (.openDevice t i r) o'.released
    -- The direct backend was asked last, and the network one called no kernel function.
    have hkernel : err.kernel = [] := by
      obtain ⟨s, -, rfl⟩ := Option.map_eq_some_iff.mp herr
      rfl
    obtain ⟨hasked, -, -⟩ := Backend.serve_kind ho'
    unfold CarriedOut at hdone ⊢
    simpa [hasked, hkernel, Backend.kind, ExportedCall.vciCall] using hdone
  | opensNet t i r err herr hok =>
    cases hreq
    refine iff_of_true (fun hne => ?_) id
    refine (Backend.open_nonzero_iff herr hret cc.canImp).mpr ?_ hne
    rintro ⟨net, ⟨⟩, hconn⟩
    exact Backend.not_connFails herr hok hconn
  | deirectOpens t i r _ ho =>
    cases hreq
    refine (Backend.open_nonzero_iff ho hret cc.canImp).trans (not_congr ?_)
    cases hb : cc.canImp <;> simp [ReportsConnFail, hb]
  | netOpens t i r _ ho =>
    cases hreq
    exact Backend.open_nonzero_iff ho hret cc.canImp
  | refused c _ hopen =>
    cases hret
    refine iff_of_true (fun hne => absurd (VciCall.dword_refused _) hne) ?_
    cases c with
    | openDevice t i r => exact id
    | deirectOpenCan t i r => exact absurd rfl (hopen t i r)
    | openNetCan t i r => exact absurd rfl (hopen t i r)
    | closeDevice t i => exact id
    | device call => exact id
  | closes t i b o' hb ho' =>
    refine iff_of_true (fun hne => ?_) id
    rw [hb]
    exact Backend.request_nonzero ho' hreq (fun _ _ _ hc => by cases hc) hret hne _ _
  | passes call b _ hb ho =>
    refine iff_of_true (fun hne => ?_) id
    rw [hb]
    exact Backend.request_nonzero ho hreq (fun _ _ _ hc => by cases hc) hret hne o.canImp o.released

theorem nonzero_means_done_sample :
    ∃ o, (⟨none⟩ : CanAbstract).exported localEnv (fun _ => 0) (.deirectOpenCan 4 0 0) = some o ∧
      CarriedOut none (.openDevice 4 0 0) (.openDevice 4 0 0) o := by
  have hrun : ((⟨none⟩ : CanAbstract).exported localEnv (fun _ => 0) (.deirectOpenCan 4 0 0)).map
      Outcome.ret = some (.ok (.status 1)) := by
    decide +kernel
  obtain ⟨o, ho, hret⟩ := Option.map_eq_some_iff.mp hrun
  refine ⟨o, ho, (nonzero_means_done_iff ho rfl hret).mpr ?_ (by decide)⟩
  rintro ⟨net, ⟨⟩, -⟩

/-- `VCI_OpenNetCan` without an ini file returns `0xFFFFFFFF`, with nothing
    sent and no kernel function called. -/
theorem open_net_reports_failure_as_nonzero :
    ((⟨none⟩ : CanAbstract).exported localEnv (fun _ => 0) (.openNetCan 4 0 0)).map
        (fun o => (o.ret.toOption.map VciResult.dword, o.writes, o.kernel)) =
      some (some 0xFFFFFFFF, [], []) := by
  decide +kernel

end LibControlCan
