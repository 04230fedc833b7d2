import LibControlCan.Facade.Model
import LibControlCan.Net.Connect

/-! # Opening a device through the facade

    Three exported functions open a device.  `VCI_OpenDevice` tries the
    agent and falls back to the direct backend; the other two are named
    after the backend they are meant for, but use whatever backend is
    there.

    * `explicit_open_selects_backend_iff`: the explicit opens reach the
      backend they name exactly when no other one is there.
    * `open_falls_back_iff`: without a connection `VCI_OpenDevice` does what
      a fresh direct backend does, unless the name cannot be resolved. -/

namespace LibControlCan

open ByteMemory Bytes

/-! ## Section 1: Which backend is asked -/

/-- A backend stays what it is; a direct one sends nothing. -/
theorem Backend.serve_kind {env : Env} {call : VciCall} {m : Memory} {b : Backend} {o : Outcome}
    (h : b.serve env call m = some o) :
    o.asked = [b.kind] ∧ o.canImp.map Backend.kind = some b.kind ∧
      (b.kind = .direct → o.writes = []) := by
  cases b with
  | net net =>
    obtain ⟨r, -, rfl⟩ := Option.map_eq_some_iff.mp h
    exact ⟨rfl, rfl, nofun⟩
  | direct d =>
    cases h
    exact ⟨rfl, rfl, fun _ => rfl⟩

/-- The request went to a backend of class `k` only, which is the current
    one; with a direct one nothing was sent over the network. -/
structure Selects (k : BackendKind) (o : Outcome) : Prop where
  asked : o.asked = [k]
  current : o.canImp.map Backend.kind = some k
  unsent : k = .direct → o.writes = []

theorem Backend.selects_iff {env : Env} {call : VciCall} {m : Memory} {b : Backend} {o : Outcome}
    (h : b.serve env call m = some o) (k : BackendKind) : Selects k o ↔ b.kind = k := by
  obtain ⟨hasked, hcurrent, hunsent⟩ := Backend.serve_kind h
  constructor
  · intro hsel
    have hboth := hasked.symm.trans hsel.asked
    simpa using hboth
  · rintro rfl
    exact ⟨hasked, hcurrent, hunsent⟩

/-- `VCI_DeirectOpenCan` and `VCI_OpenNetCan` reach the backend they name
    exactly when the facade has no backend or one of that class. -/
theorem explicit_open_selects_backend_iff (cc : CanAbstract) (env : Env) (t i r : UInt32)
    (m : Memory) (o : Outcome) :
    (cc.vciDeirectOpenCan env t i r m = some o →
      (Selects .direct o ↔ cc.canImp.map Backend.kind ≠ some .net)) ∧
    (cc.vciOpenNetCan env t i r m = some o →
      (Selects .net o ↔ cc.canImp.map Backend.kind ≠ some .direct)) := by
  constructor
  · intro h
    rw [Backend.selects_iff h]
    cases hb : cc.canImp with
    | none => simp [Backend.kind]
    | some b => cases b <;> simp [Backend.kind]
  · intro h
    rw [Backend.selects_iff h]
    cases hb : cc.canImp with
    | none => simp [Backend.kind]
    | some b => cases b <;> simp [Backend.kind]

/-- An outside with no ini file for the agent and a library for device
    type 4, whose functions return 1. -/
def localEnv : Env where
  controlIni := none
  dir := { kerneldll := some [(ascii "4", ascii "usbcan.so")], present := fun _ => true,
           loads := fun _ => true }
  kernel := { call := fun _ _ m => (1, m) }
  io := { conn := none, write := [], transmit := [], receive := [] }

/-- The same outside with an address for the agent. -/
def agentEnv (conn : Option ConnectRun) (write : List WriteEvent) : Env :=
  { localEnv with
    controlIni := some (ascii "127.0.0.1", ascii "9999")
    io := { localEnv.io with conn, write } }

/-- A connect and a write of 40 bytes that succeed. -/
def connectRun : ConnectRun := .run [.establish, .runConnect, .runTimer]
def writeRun : List WriteEvent := [.accept 40, .runWrite, .runTimer]

/-- The process before its first call. -/
def freshProcess : Process := { cc := ⟨none⟩, mem := fun _ => 0 }

theorem explicit_open_selects_backend_sample :
    ∃ o, (⟨none⟩ : CanAbstract).vciDeirectOpenCan localEnv 4 0 0 (fun _ => 0) = some o ∧
      Selects .direct o := by
  refine ⟨_, rfl, ?_⟩
  exact ((explicit_open_selects_backend_iff ⟨none⟩ localEnv 4 0 0 (fun _ => 0) _).1 rfl).mpr nofun

/-- After a `VCI_OpenDevice` that reached the agent, `VCI_DeirectOpenCan`
    sends its request to the agent. -/
theorem deirect_open_sent_to_agent :
    ((processSystem.exec freshProcess
      [.call (.openDevice 4 0 0) (agentEnv (some connectRun) writeRun)]).bind fun p =>
      (p.cc.vciDeirectOpenCan (agentEnv none writeRun) 4 0 0 p.mem).map fun o =>
        (o.asked, o.writes)) =
    some ([.net], [⟨1, .openDevice 4 0 0, 40⟩]) := by
  decide +kernel

/-! ## Section 2: Falling back -/

namespace CanImpCanNet

/-- No connection can be had: the ini file has no address or no port, or
    the client is not connected and its connect is not established. -/
def ConnFails (net : CanImpCanNet) (conn : Option ConnectRun) : Prop :=
  ¬ net.Configured ∨
    (net.connected = false ∧ ∃ csched, conn = some (.run csched) ∧ ¬ Established csched)

/-- `STATUS_NET_CONN_FAIL` is returned exactly for want of a connection, and
    then nothing is sent. -/
theorem connFail_iff {net : CanImpCanNet} {t i rsv : UInt32} {conn : Option ConnectRun}
    {sched : List WriteEvent} {r : Reply} (h : net.vciOpenDevice t i rsv conn sched = some r) :
    (r.ret = .ok .statusNetConnFail ↔ net.ConnFails conn) ∧
      (net.ConnFails conn → r.writes = []) := by
  -- A command on a connection never returns it.
  have hcommand : ∀ net' : CanImpCanNet, net'.command (.openDevice t i rsv) sched = some r →
      r.ret ≠ .ok .statusNetConnFail := by
    intro net' hcmd
    obtain ⟨w, -, rfl⟩ := command_eq_some hcmd
    by_cases hok : w.ec = .ok <;> simp [hok]
  cases openPath_of_vciOpenDevice h with
  | unconfigured hnot hr =>
    subst hr
    exact ⟨iff_of_true rfl (Or.inl hnot), fun _ => rfl⟩
  | unresolved hconf _ hr =>
    subst hr
    exact ⟨iff_of_false nofun (by simp [ConnFails, hconf]), fun _ => rfl⟩
  | failed csched ec hconf hdown hec hne hr =>
    subst hr
    have hnot : ¬ Established csched := fun hest => hne ((connect_eq_zero_iff hec).mpr hest)
    exact ⟨iff_of_true rfl (Or.inr ⟨hdown, csched, rfl, hnot⟩), fun _ => rfl⟩
  | connects csched hconf _ hec hcmd =>
    have hest : Established csched := (connect_eq_zero_iff hec).mp rfl
    have hnot : ¬ net.ConnFails (some (.run csched)) := by
      rintro (hno | ⟨-, _, hrun, hno⟩)
      · exact hno hconf
      · cases hrun
        exact hno hest
    exact ⟨iff_of_false (hcommand _ hcmd) hnot, fun hf => absurd hf hnot⟩
  | reuses hconf hup hcmd =>
    have hnot : ¬ net.ConnFails none := by
      rintro (hno | ⟨hdown, -⟩)
      · exact hno hconf
      · rw [hup] at hdown
        cases hdown
    exact ⟨iff_of_false (hcommand _ hcmd) hnot, fun hf => absurd hf hnot⟩

end CanImpCanNet

/-- The run of `connect`, if there is one, establishes no connection in
    time. -/
def NoConnection (conn : Option ConnectRun) : Prop :=
  ∀ csched, conn = some (.run csched) → ¬ Established csched

/-- The answer of a new network backend when there is no connection. -/
theorem new_vciOpenDevice_ret {ini : Option (List UInt8 × List UInt8)} {t i rsv : UInt32}
    {conn : Option ConnectRun} {sched : List WriteEvent} {r : Reply} (hno : NoConnection conn)
    (h : (CanImpCanNet.new ini).vciOpenDevice t i rsv conn sched = some r) :
    r.writes = [] ∧
      r.ret = if conn = some .resolveFails then .error .resolve else .ok .statusNetConnFail := by
  cases CanImpCanNet.openPath_of_vciOpenDevice h with
  | unconfigured _ hr => subst hr; exact ⟨rfl, rfl⟩
  | unresolved _ _ hr => subst hr; exact ⟨rfl, rfl⟩
  | failed csched ec _ _ _ _ hr => subst hr; exact ⟨rfl, rfl⟩
  | connects csched _ _ hec _ =>
    exact absurd ((connect_eq_zero_iff hec).mp rfl) (hno csched rfl)
  | reuses _ hup _ => cases hup

/-- `VCI_OpenDevice` of a fresh `CanImpDirectCan2`. -/
def freshDirectOpen (env : Env) (t i r : UInt32) (m : Memory) : Served CanImpDirectCan2 Memory :=
  CanImpDirectCan2.new.vciOpenDevice env.kernel env.dir t i r m

/-- When no connection to the agent is established, `VCI_OpenDevice` does
    exactly what a fresh direct backend does, with that object as the
    backend and no exception of the network, if and only if it is not the
    resolution of the name that fails. -/
theorem open_falls_back_iff {cc : CanAbstract} {env : Env} {t i r : UInt32} {m : Memory}
    {o : Outcome} (h : cc.vciOpenDevice env t i r m = some o) (hno : NoConnection env.io.conn) :
    (o.ret = (freshDirectOpen env t i r m).ret.mapError .load ∧
      o.canImp = some (.direct (freshDirectOpen env t i r m).obj) ∧
      o.mem = (freshDirectOpen env t i r m).world ∧
      ∀ e, o.ret ≠ .error (.network e)) ↔
    env.io.conn ≠ some .resolveFails := by
  obtain ⟨err, herr, ho⟩ := Option.bind_eq_some_iff.mp h
  obtain ⟨served, hserved, rfl⟩ := Option.map_eq_some_iff.mp herr
  obtain ⟨reply, hreply, rfl⟩ := Option.map_eq_some_iff.mp hserved
  have hret := (new_vciOpenDevice_ret hno hreply).2
  by_cases hres : env.io.conn = some .resolveFails
  · -- The exception passes through: the facade never looks at a result.
    rw [if_pos hres] at hret
    simp only [Reply.served, hret, Except.map, Except.mapError, Except.toOption] at ho
    cases ho
    simp [hres]
  · rw [if_neg hres] at hret
    simp only [Reply.served, hret, Except.map, Except.mapError, Except.toOption, if_true] at ho
    obtain ⟨direct, hdirect, rfl⟩ := Option.map_eq_some_iff.mp ho
    cases hdirect
    refine iff_of_true ⟨rfl, rfl, rfl, ?_⟩ hres
    intro e
    show (freshDirectOpen env t i r m).ret.mapError Failure.load ≠ .error (.network e)
    cases (freshDirectOpen env t i r m).ret <;> simp [Except.mapError]

/-- An agent that refuses the connection. -/
def refusedEnv : Env := agentEnv (some (.run [.refuse ⟨111⟩, .runConnect, .runTimer])) []

theorem open_falls_back_sample :
    ∃ o, (⟨none⟩ : CanAbstract).vciOpenDevice refusedEnv 4 0 0 (fun _ => 0) = some o ∧
      o.ret = .ok (.status 1) ∧ o.canImp.map Backend.kind = some .direct := by
  have hrun : ((⟨none⟩ : CanAbstract).vciOpenDevice refusedEnv 4 0 0 (fun _ => 0)).isSome = true := by
    decide +kernel
  have hfresh : (freshDirectOpen refusedEnv 4 0 0 (fun _ => 0)).ret = .ok (.status 1) := by
    decide +kernel
  have hno : NoConnection refusedEnv.io.conn := by
    rintro _ ⟨⟩
    decide
  obtain ⟨o, ho⟩ := Option.isSome_iff_exists.mp hrun
  obtain ⟨hret, himp, -⟩ := (open_falls_back_iff ho hno).mpr nofun
  refine ⟨o, ho, ?_, ?_⟩
  · rw [hret, hfresh]
    rfl
  · rw [himp]
    rfl

/-- A name that cannot be resolved: the exception leaves `VCI_OpenDevice`,
    and the direct backend, which could open the device, is not asked. -/
theorem open_throws_on_unresolved_name :
    ((⟨none⟩ : CanAbstract).vciOpenDevice (agentEnv (some .resolveFails) []) 4 0 0
        (fun _ => 0)).map (fun o => (o.ret, o.asked)) =
      some (.error (.network .resolve), [.net]) ∧
    (freshDirectOpen (agentEnv (some .resolveFails) []) 4 0 0 (fun _ => 0)).ret =
      .ok (.status 1) := by
  decide +kernel

end LibControlCan
