import LibControlCan.Framework.Simulation
import LibControlCan.Net.Transmit
import LibControlCan.Receive.Call

/-! # The client object over its lifetime

    Any sequence of calls on one `CanImpCanNet`, over any number of
    connections.  Two invariants would be expected of such a run: a
    connection carries no byte after an incomplete line, and a line handed
    to `line_process` holds bytes of the current connection only.

    The first is kept by every call but `VCI_Transmit`, which goes on using
    a connection after a write that a cancellation stopped inside a line;
    `outgoing_lines_framed` is the invariant for the other runs.  The second
    is broken by a connect that finds old bytes in `rx_buff_`, which nothing
    clears; `received_lines_on_connection` is the invariant for the runs
    without one. -/

namespace LibControlCan

open Asio ByteMemory Lines

/-! ## Section 1: Runs -/

/-- A call, its arguments and its schedules. -/
inductive NetCall where
  | openDevice (t i rsv : UInt32) (conn : Option ConnectRun) (sched : List WriteEvent)
  | closeDevice (t i : UInt32) (sched : List WriteEvent)
  | initCAN (t i c : UInt32) (initConfig : VciInitConfig) (sched : List WriteEvent)
  | readErrInfo (t i c : UInt32) (pErrInfo : Option VciErrInfo) (sched : List WriteEvent)
  | clearBuffer (t i c : UInt32) (sched : List WriteEvent)
  | startCAN (t i c : UInt32) (sched : List WriteEvent)
  | resetCAN (t i c : UInt32) (sched : List WriteEvent)
  | transmit (t i c : UInt32) (pSend : List VciCanObj) (scheds : List (List WriteEvent))
  | receive (pReceive : Option Nat) (len : Nat) (waitTime : Int) (sched : List ReadEvent)

/-- The object, and what happened on its connections so far. -/
structure NetRun where
  net : CanImpCanNet
  mem : Memory
  /-- The writes, in order. -/
  writes : List WriteRecord
  /-- The lines handed to `line_process`, each with the connection that
      the client had at the time. -/
  handed : List (Nat × List RxByte)
  /-- What each `VCI_Receive` took out of `rx_buff_`, newlines included, with
      the connection. -/
  taken : List (Nat × List RxByte)

namespace NetRun

/-- A call that sends has returned. -/
def replied (s : NetRun) (r : Reply) : NetRun :=
  { s with net := r.net, writes := s.writes ++ r.writes }

/-- `VCI_Receive` has returned. -/
def received (s : NetRun) (r : Received) : NetRun :=
  { s with
    net := r.net
    mem := r.mem
    handed := s.handed ++ r.calls.map fun c => (s.net.conn, c.1)
    taken := s.taken ++ [(s.net.conn, r.consumed)] }

/-- The reply of a call that sends. -/
def reply (s : NetRun) : NetCall → Option Reply
  | .openDevice t i rsv conn sched => s.net.vciOpenDevice t i rsv conn sched
  | .closeDevice t i sched => s.net.vciCloseDevice t i sched
  | .initCAN t i c cfg sched => s.net.vciInitCAN t i c cfg sched
  | .readErrInfo t i c e sched => s.net.vciReadErrInfo t i c e sched
  | .clearBuffer t i c sched => s.net.vciClearBuffer t i c sched
  | .startCAN t i c sched => s.net.vciStartCAN t i c sched
  | .resetCAN t i c sched => s.net.vciResetCAN t i c sched
  | .transmit t i c pSend scheds => s.net.vciTransmit t i c pSend scheds
  | .receive .. => none

def step (s : NetRun) (call : NetCall) : Option NetRun :=
  match call with
  | .receive pReceive len waitTime sched =>
    (vciReceive s.net pReceive len waitTime sched s.mem).map s.received
  | _ => (s.reply call).map s.replied

end NetRun

/-- The calls on one object, from its construction on. -/
def netSystem : LTS.System NetRun NetCall where
  init s := s.net.connected = false ∧ s.net.rxBuff = [] ∧ s.writes = [] ∧ s.handed = [] ∧
    s.taken = []
  step := NetRun.step

/-- The two kinds of steps. -/
theorem netStep_cases {s s' : NetRun} {call : NetCall} (h : s.step call = some s') :
    (∃ r, s.reply call = some r ∧ s' = s.replied r) ∨
    (∃ pReceive len waitTime sched r, call = .receive pReceive len waitTime sched ∧
      vciReceive s.net pReceive len waitTime sched s.mem = some r ∧ s' = s.received r) := by
  cases call with
  | receive pReceive len waitTime sched =>
    obtain ⟨r, hr, rfl⟩ := Option.map_eq_some_iff.mp h
    exact Or.inr ⟨_, _, _, _, r, rfl, hr, rfl⟩
  | _ =>
    obtain ⟨r, hr, rfl⟩ := Option.map_eq_some_iff.mp h
    exact Or.inl ⟨r, hr, rfl⟩

/-! ## Section 2: What a sending call may do -/

namespace WriteRecord

/-- The write stopped inside the line. -/
def Incomplete (w : WriteRecord) : Prop := 0 < w.n ∧ w.n < w.req.line.length

/-- The bytes that went out. -/
def bytes (w : WriteRecord) : List UInt8 := w.req.line.take w.n

end WriteRecord

/-- What the calls have in common: they leave `rx_buff_` alone, write on
    one connection, which is up or was just made, and stop at a write that
    was incomplete.  `connects` says when the call makes a connection. -/
structure Orderly (net : CanImpCanNet) (connects : Prop) (r : Reply) : Prop where
  rxBuff : r.net.rxBuff = net.rxBuff
  conn : r.net.conn = net.conn ∨
    (connects ∧ net.connected = false ∧ r.net.conn = net.conn + 1)
  up : r.net.connected = true ∨ r.writes ≠ [] → net.connected = true ∨ r.net.conn = net.conn + 1
  sameConn : ∀ w ∈ r.writes, w.conn = r.net.conn
  bound : ∀ w ∈ r.writes, w.n ≤ w.req.line.length
  stops : r.writes.Pairwise fun a _ => ¬ a.Incomplete

/-- A call that finds a write incomplete gives up the connection. -/
def GivesUp (r : Reply) : Prop := (∃ w ∈ r.writes, w.Incomplete) → r.net.connected = false

section calls

variable {net : CanImpCanNet} {connects : Prop} {r : Reply}

/-- A call that sends nothing. -/
theorem orderly_silent (hwrites : r.writes = [])
    (hnet : ∃ sock, r.net = { net with sockOpen := sock }) :
    Orderly net connects r ∧ GivesUp r := by
  obtain ⟨sock, hnet⟩ := hnet
  refine ⟨⟨by rw [hnet], by rw [hnet]; exact Or.inl rfl, ?_, ?_, ?_, ?_⟩, ?_⟩
  · rintro (hup | hne)
    · rw [hnet] at hup
      exact Or.inl hup
    · exact absurd hwrites hne
  · rw [hwrites]; nofun
  · rw [hwrites]; nofun
  · rw [hwrites]; exact .nil
  · rintro ⟨w, hw, -⟩
    rw [hwrites] at hw
    cases hw

/-- A command on the connection that is up, or on one just made. -/
theorem orderly_command {net' : CanImpCanNet} {req : Request} {sched : List WriteEvent}
    (h : net'.command req sched = some r) (hrx : net'.rxBuff = net.rxBuff)
    (hconn : (net.connected = true ∧ net'.conn = net.conn) ∨
      (connects ∧ net.connected = false ∧ net'.conn = net.conn + 1)) :
    Orderly net connects r ∧ GivesUp r := by
  obtain ⟨w, hw, rfl⟩ := CanImpCanNet.command_eq_some h
  have hspec := writeLine_spec hw
  have hnet : ∀ b : Prop, ∀ _ : Decidable b, (if b then net' else net'.drop).rxBuff = net'.rxBuff ∧
      (if b then net' else net'.drop).conn = net'.conn := by
    intro b _
    by_cases hb : b <;> simp [hb, CanImpCanNet.drop]
  obtain ⟨hrx', hconn'⟩ := hnet (w.ec = .ok) inferInstance
  refine ⟨⟨hrx'.trans hrx, ?_, fun _ => ?_, ?_, ?_, List.pairwise_singleton _ _⟩, ?_⟩
  · rcases hconn with ⟨-, h⟩ | ⟨hnew, hdown, h⟩
    · exact Or.inl (hconn'.trans h)
    · exact Or.inr ⟨hnew, hdown, hconn'.trans h⟩
  · rcases hconn with ⟨hup, -⟩ | ⟨-, -, h⟩
    · exact Or.inl hup
    · exact Or.inr (hconn'.trans h)
  · intro rec hrec
    rw [List.mem_singleton.mp hrec]
    exact hconn'.symm
  · intro rec hrec
    rw [List.mem_singleton.mp hrec]
    exact hspec.bound
  · rintro ⟨rec, hrec, hinc⟩
    rw [List.mem_singleton.mp hrec] at hinc
    -- An incomplete line leaves an error, and a command gives up on any error.
    have hpart : w.written < req.line.length := hinc.2
    have herr : w.ec ≠ .ok := fun hok => by
      have := (hspec.ec_ok_iff.mp hok).1
      omega
    show (if w.ec = .ok then net' else net'.drop).connected = false
    rw [if_neg herr]
    rfl

theorem orderly_request {req : Request} {sched : List WriteEvent}
    (h : net.request req sched = some r) : Orderly net connects r ∧ GivesUp r := by
  unfold CanImpCanNet.request at h
  cases hup : net.connected with
  | false =>
    simp only [hup, Bool.not_false, if_true] at h
    obtain rfl := CanImpCanNet.returns_eq_some h
    exact orderly_silent rfl ⟨net.sockOpen, rfl⟩
  | true =>
    simp only [hup, Bool.not_true, Bool.false_eq_true, if_false] at h
    exact orderly_command h rfl (Or.inl ⟨hup, rfl⟩)

theorem orderly_openDevice {t i rsv : UInt32} {conn : Option ConnectRun}
    {sched : List WriteEvent} (h : net.vciOpenDevice t i rsv conn sched = some r) :
    Orderly net (∃ csched, conn = some (.run csched) ∧ connect 400 csched = some 0) r ∧
      GivesUp r := by
  rcases CanImpCanNet.vciOpenDevice_cases h with ⟨hw, -, hnet⟩ | ⟨hdown, hnew, hcmd⟩ | ⟨hup, hcmd⟩
  · exact orderly_silent hw hnet
  · exact orderly_command hcmd rfl (Or.inr ⟨hnew, hdown, rfl⟩)
  · exact orderly_command hcmd rfl (Or.inl ⟨hup, rfl⟩)

theorem orderly_closeDevice {t i : UInt32} {sched : List WriteEvent}
    (h : net.vciCloseDevice t i sched = some r) : Orderly net connects r ∧ GivesUp r := by
  obtain ⟨r₀, hr₀, hr⟩ := Option.map_eq_some_iff.mp h
  obtain ⟨hord, hgive⟩ : Orderly net connects r₀ ∧ GivesUp r₀ := orderly_request hr₀
  -- Closing the socket afterwards changes nothing about what was sent.
  have hdropped : Orderly net connects { r₀ with net := r₀.net.drop } :=
    ⟨hord.rxBuff, hord.conn, fun hor => hord.up (Or.inr (hor.resolve_left nofun)), hord.sameConn,
      hord.bound, hord.stops⟩
  split at hr
  · rw [← hr]
    exact ⟨hdropped, fun _ => rfl⟩
  · rw [← hr]
    exact ⟨hord, hgive⟩

/-- The write stopped inside a transmit line, and `write_line` does not say
    so: no error other than cancellation came up, or the timer handler hid
    it. -/
def SilentlyIncomplete (sched : List WriteEvent) : Prop :=
  0 < sentBytes sched ∧ sentBytes sched < transmitLen ∧
    ((∀ e, failure sched = some e → e.value = operationCanceled) ∨
      sched.getLast? = some .runTimer)

/-- `write_line` returns a negative value for the other incomplete writes. -/
theorem ret_neg_iff_not_silent {sched : List WriteEvent} {w : Written}
    (h : writeLine transmitLen .ok sched = some w) (hinc : 0 < w.written ∧ w.written < transmitLen) :
    w.ret < 0 ↔ ¬ SilentlyIncomplete sched := by
  have hspec := writeLine_spec h
  have hsilent : SilentlyIncomplete sched ↔
      ((∀ e, failure sched = some e → e.value = operationCanceled) ∨
        sched.getLast? = some .runTimer) := by
    rw [SilentlyIncomplete, ← hspec.written]
    exact ⟨fun h => h.2.2, fun h => ⟨hinc.1, hinc.2, h⟩⟩
  rw [hsilent, hspec.ret, writeReturn_neg]
  cases hf : failure sched with
  | none =>
    -- No error came up: the deadline handler cancelled the write.
    have hec : w.ec = ⟨operationCanceled⟩ := by
      have hres : writeResult transmitLen sched = operationAborted := by
        rw [writeResult, hf]
        exact if_neg (by rw [← hspec.written]; omega)
      rw [hspec.ec, finalEc, hres]
      exact ite_self _
    simp [hec]
  | some e =>
    rw [hspec.ec_of_failure hf]
    have herr := hspec.errors e hf
    by_cases hlast : sched.getLast? = some .runTimer
    · simp [hlast]
    · simp [hlast, herr]

theorem sentRecord_n (conn : Nat) (t i c : UInt32) (o : VciCanObj) :
    (sentRecord conn t i c o).n = (sentRecord conn t i c o).req.line.length := by
  simp only [sentRecord]

theorem sentRecord_complete {conn : Nat} {t i c : UInt32} {o : VciCanObj} :
    ¬ (sentRecord conn t i c o).Incomplete := by
  intro h
  have hlt := h.2
  rw [sentRecord_n] at hlt
  exact Nat.lt_irrefl _ hlt

/-- A `VCI_Transmit` whose frames all went out. -/
theorem orderly_sent (hup : net.connected = true) (t i c : UInt32) (pSend : List VciCanObj) :
    Orderly net connects ⟨.ok .statusOk, net, pSend.map (sentRecord net.conn t i c)⟩ ∧
      GivesUp ⟨.ok .statusOk, net, pSend.map (sentRecord net.conn t i c)⟩ := by
  refine ⟨⟨rfl, Or.inl rfl, fun _ => Or.inl hup, ?_, ?_, ?_⟩, ?_⟩
  · intro rec hrec
    obtain ⟨o, -, rfl⟩ := List.mem_map.mp hrec
    rfl
  · intro rec hrec
    obtain ⟨o, -, rfl⟩ := List.mem_map.mp hrec
    exact (sentRecord_n ..).le
  · exact List.pairwise_map.mpr (List.pairwise_of_forall fun _ _ => sentRecord_complete)
  · rintro ⟨rec, hrec, hinc⟩
    obtain ⟨o, -, rfl⟩ := List.mem_map.mp hrec
    exact absurd hinc sentRecord_complete

/-- A `VCI_Transmit` that stopped at a frame.  It gives up the connection
    unless the write of that frame was silently incomplete. -/
theorem orderly_stopped {t i c : UInt32} {pSend : List VciCanObj}
    {scheds : List (List WriteEvent)} {o : VciCanObj} {before after : List VciCanObj}
    {clean : List (List WriteEvent)} {sched : List WriteEvent} {w : Written}
    (hup : net.connected = true)
    (hstop : Stopped net t i c pSend scheds r o before after clean sched w) :
    Orderly net connects r ∧ (¬ SilentlyIncomplete sched → GivesUp r) := by
  have hspec := writeLine_spec hstop.write
  have hnet := hstop.net_eq
  have hkeep : r.net.rxBuff = net.rxBuff ∧ r.net.conn = net.conn := by
    rw [hnet]
    by_cases hneg : w.ret < 0 <;> simp [hneg, CanImpCanNet.drop]
  -- The frames before the last write are complete.
  have hmem : ∀ rec ∈ r.writes, rec.conn = net.conn ∧ rec.n ≤ rec.req.line.length ∧
      (rec.Incomplete → rec = ⟨net.conn, .transmit t i c o, w.written⟩) := by
    intro rec hrec
    rw [hstop.writes] at hrec
    rcases List.mem_append.mp hrec with hrec | hrec
    · obtain ⟨o, -, rfl⟩ := List.mem_map.mp hrec
      exact ⟨rfl, (sentRecord_n ..).le, fun hinc => absurd hinc sentRecord_complete⟩
    · rw [List.mem_singleton.mp hrec]
      refine ⟨rfl, ?_, fun _ => rfl⟩
      rw [length_transmit_line]
      exact hspec.bound
  refine ⟨⟨hkeep.1, Or.inl hkeep.2, fun _ => Or.inl hup, ?_, fun rec hrec => (hmem rec hrec).2.1, ?_⟩,
    ?_⟩
  · intro rec hrec
    rw [(hmem rec hrec).1, hkeep.2]
  · rw [hstop.writes, List.pairwise_append]
    refine ⟨List.pairwise_map.mpr (List.pairwise_of_forall fun _ _ => sentRecord_complete),
      List.pairwise_singleton _ _, ?_⟩
    intro rec hrec _ _
    obtain ⟨o, -, rfl⟩ := List.mem_map.mp hrec
    exact sentRecord_complete
  · rintro hloud ⟨rec, hrec, hinc⟩
    rw [(hmem rec hrec).2.2 hinc] at hinc
    have hpart : 0 < w.written ∧ w.written < transmitLen := by
      have hlt := hinc.2
      rw [length_transmit_line] at hlt
      exact ⟨hinc.1, hlt⟩
    have hneg : w.ret < 0 := (ret_neg_iff_not_silent hstop.write hpart).mpr hloud
    rw [hnet, if_pos hneg]
    rfl

theorem orderly_transmit {t i c : UInt32} {pSend : List VciCanObj}
    {scheds : List (List WriteEvent)} (h : net.vciTransmit t i c pSend scheds = some r) :
    Orderly net connects r ∧ ((∀ sched ∈ scheds, ¬ SilentlyIncomplete sched) → GivesUp r) := by
  cases hup : net.connected with
  | false =>
    simp only [CanImpCanNet.vciTransmit, hup, Bool.not_false, if_true] at h
    by_cases hs : scheds = []
    · simp only [hs, if_true, Option.some.injEq] at h
      have hsilent : Orderly net connects r ∧ GivesUp r :=
        orderly_silent (by rw [← h]) ⟨net.sockOpen, by rw [← h]⟩
      exact ⟨hsilent.1, fun _ => hsilent.2⟩
    · simp [hs] at h
  | true =>
    rw [vciTransmit_eq_loop hup] at h
    rcases transmitLoop_cases h with ⟨rfl, -, -⟩ | ⟨o, before, after, clean, sched, w, hstop⟩
    · refine (orderly_sent hup t i c pSend).imp id ?_
      intro hgive _
      exact hgive
    · refine (orderly_stopped hup hstop).imp id ?_
      intro hgive hloud
      exact hgive (hloud sched (by rw [hstop.scheds_eq]; simp))

end calls

/-- The call makes a connection, if the client has none. -/
def NetCall.Connects : NetCall → Prop
  | .openDevice _ _ _ conn _ => ∃ csched, conn = some (.run csched) ∧ connect 400 csched = some 0
  | _ => False

/-- No frame of a `VCI_Transmit` is silently left incomplete. -/
def NoSilentlyIncomplete (_ : NetRun) : NetCall → Prop
  | .transmit _ _ _ _ scheds => ∀ sched ∈ scheds, ¬ SilentlyIncomplete sched
  | _ => True

theorem orderly_reply {s : NetRun} {call : NetCall} {r : Reply} (h : s.reply call = some r) :
    Orderly s.net call.Connects r ∧ (NoSilentlyIncomplete s call → GivesUp r) := by
  have hcommand : Orderly s.net call.Connects r ∧ GivesUp r →
      Orderly s.net call.Connects r ∧ (NoSilentlyIncomplete s call → GivesUp r) :=
    fun hboth => ⟨hboth.1, fun _ => hboth.2⟩
  cases call with
  | openDevice t i rsv conn sched => exact hcommand (orderly_openDevice h)
  | closeDevice t i sched => exact hcommand (orderly_closeDevice h)
  | initCAN t i c cfg sched => exact hcommand (orderly_request h)
  | readErrInfo t i c pErrInfo sched =>
    cases pErrInfo with
    | none =>
      obtain rfl := CanImpCanNet.returns_eq_some h
      exact hcommand (orderly_silent rfl ⟨s.net.sockOpen, rfl⟩)
    | some errInfo => exact hcommand (orderly_request h)
  | clearBuffer t i c sched => exact hcommand (orderly_request h)
  | startCAN t i c sched => exact hcommand (orderly_request h)
  | resetCAN t i c sched => exact hcommand (orderly_request h)
  | transmit t i c pSend scheds => exact orderly_transmit h
  | receive pReceive len waitTime sched => cases h

/-- `VCI_Receive` writes nothing and stays on its connection. -/
theorem vciReceive_net {net : CanImpCanNet} {pReceive : Option Nat} {len : Nat} {waitTime : Int}
    {sched : List ReadEvent} {m : Memory} {r : Received}
    (h : vciReceive net pReceive len waitTime sched m = some r) :
    r.net.conn = net.conn ∧ (r.net.connected = true → net.connected = true) := by
  rcases vciReceive_cases h with ⟨-, -, rfl⟩ | ⟨p, s, -, hconn, -, -, -, rfl⟩
  · exact ⟨rfl, id⟩
  · exact ⟨rfl, fun _ => hconn⟩

/-! ## Section 3: Outgoing lines -/

/-- The bytes sent on connection `k`. -/
def bytesOn (k : Nat) (writes : List WriteRecord) : List UInt8 :=
  (writes.filter fun w => w.conn == k).flatMap WriteRecord.bytes

/-- On connection `k` the bytes sent are complete request lines followed by
    at most one incomplete line, and nothing follows an incomplete line. -/
structure Framed (k : Nat) (writes : List WriteRecord) : Prop where
  lines : ∃ (reqs : List Request) (tail : List UInt8),
    bytesOn k writes = reqs.flatMap Request.line ++ tail ∧
      (tail = [] ∨ ∃ req : Request, tail <+: req.line ∧ tail ≠ req.line)
  closed : writes.Pairwise fun a b => a.conn = k → b.conn = k → a.Incomplete → b.n = 0

/-- Writes that stop at the first incomplete one send complete lines and at
    most one incomplete line. -/
theorem bytes_of_closed {ws : List WriteRecord} (hbound : ∀ w ∈ ws, w.n ≤ w.req.line.length)
    (hclosed : ws.Pairwise fun a b => a.Incomplete → b.n = 0) :
    ∃ (reqs : List Request) (tail : List UInt8),
      ws.flatMap WriteRecord.bytes = reqs.flatMap Request.line ++ tail ∧
        (tail = [] ∨ ∃ req : Request, tail <+: req.line ∧ tail ≠ req.line) := by
  induction ws with
  | nil => exact ⟨[], [], rfl, Or.inl rfl⟩
  | cons w ws ih =>
    obtain ⟨hw, hclosed'⟩ := List.pairwise_cons.mp hclosed
    obtain ⟨reqs, tail, hbytes, htail⟩ :=
      ih (fun v hv => hbound v (List.mem_cons_of_mem _ hv)) hclosed'
    have hle := hbound w List.mem_cons_self
    rw [List.flatMap_cons]
    by_cases hnone : w.n = 0
    · refine ⟨reqs, tail, ?_, htail⟩
      rw [hbytes, WriteRecord.bytes, hnone]
      rfl
    · by_cases hall : w.n = w.req.line.length
      · refine ⟨w.req :: reqs, tail, ?_, htail⟩
        rw [hbytes, WriteRecord.bytes, hall, List.take_length, List.flatMap_cons, List.append_assoc]
      · -- The write was incomplete, so the writes after it sent nothing.
        have hinc : w.Incomplete := ⟨by omega, by omega⟩
        have hrest : ws.flatMap WriteRecord.bytes = [] := by
          rw [List.flatMap_eq_nil_iff]
          intro v hv
          rw [WriteRecord.bytes, hw v hv hinc]
          rfl
        refine ⟨[], w.bytes, by rw [hrest]; simp, Or.inr ⟨w.req, List.take_prefix _ _, ?_⟩⟩
        intro heq
        have hlen := congrArg List.length heq
        rw [WriteRecord.bytes, List.length_take] at hlen
        omega

/-- The invariant of the writes: a connection that is up carries complete
    lines only. -/
structure WritesInv (s : NetRun) : Prop where
  bound : ∀ w ∈ s.writes, w.n ≤ w.req.line.length
  past : ∀ w ∈ s.writes, w.conn ≤ s.net.conn
  live : s.net.connected = true → ∀ w ∈ s.writes, w.conn = s.net.conn → ¬ w.Incomplete
  closed : s.writes.Pairwise fun a b => a.conn = b.conn → ¬ a.Incomplete

/-- **Step lemma.** -/
theorem writesInv_step {s s' : NetRun} {call : NetCall} (hinv : WritesInv s)
    (hguard : NoSilentlyIncomplete s call) (h : s.step call = some s') : WritesInv s' := by
  rcases netStep_cases h with ⟨r, hr, rfl⟩ | ⟨_, _, _, _, r, -, hr, rfl⟩
  · obtain ⟨hord, hgive⟩ := orderly_reply hr
    have hgive := hgive hguard
    have hpast : ∀ w ∈ s.writes, w.conn ≤ r.net.conn := by
      intro w hw
      have := hinv.past w hw
      rcases hord.conn with hconn | ⟨-, -, hconn⟩ <;> omega
    -- An old write on the connection that the call ends on was complete.
    have hold : (r.net.connected = true ∨ r.writes ≠ []) → ∀ w ∈ s.writes,
        w.conn = r.net.conn → ¬ w.Incomplete := by
      intro huse w hw hconn
      have hle := hinv.past w hw
      rcases hord.up huse with hup | hnew
      · rcases hord.conn with hsame | ⟨-, hdown, -⟩
        · exact hinv.live hup w hw (hconn.trans hsame)
        · rw [hup] at hdown
          cases hdown
      · omega
    refine ⟨?_, ?_, ?_, ?_⟩
    · intro w hw
      exact (List.mem_append.mp hw).elim (hinv.bound w) (hord.bound w)
    · intro w hw
      rcases List.mem_append.mp hw with hw | hw
      · exact hpast w hw
      · exact le_of_eq (hord.sameConn w hw)
    · intro hup w hw hconn hinc
      have hup' : r.net.connected = true := hup
      rcases List.mem_append.mp hw with hw | hw
      · exact hold (Or.inl hup') w hw hconn hinc
      · rw [hgive ⟨w, hw, hinc⟩] at hup'
        cases hup'
    · have hstops : r.writes.Pairwise fun a b => a.conn = b.conn → ¬ a.Incomplete :=
        hord.stops.imp fun {a b} hnot (_ : a.conn = b.conn) => hnot
      refine List.pairwise_append.mpr ⟨hinv.closed, hstops, ?_⟩
      intro a ha b hb hconn
      exact hold (Or.inr (List.ne_nil_of_mem hb)) a ha (hconn.trans (hord.sameConn b hb))
  · obtain ⟨hconn, hup⟩ := vciReceive_net hr
    refine ⟨hinv.bound, ?_, ?_, hinv.closed⟩
    · intro w hw
      exact (hinv.past w hw).trans (le_of_eq hconn.symm)
    · intro hup' w hw hw'
      exact hinv.live (hup hup') w hw (hw'.trans hconn)

theorem writesInv_of_reachableBy {s : NetRun}
    (h : netSystem.ReachableBy NoSilentlyIncomplete s) : WritesInv s := by
  refine netSystem.reachableBy_invariant ?_ (fun _ _ _ hinv hg hs => writesInv_step hinv hg hs) h
  rintro s ⟨-, -, hwrites, -⟩
  constructor <;> simp [hwrites]

theorem framed_of_writesInv {s : NetRun} (h : WritesInv s) (k : Nat) : Framed k s.writes := by
  have hclosed : s.writes.Pairwise fun a b => a.conn = k → b.conn = k → a.Incomplete → b.n = 0 :=
    h.closed.imp fun hnot ha hb hinc => absurd hinc (hnot (ha.trans hb.symm))
  refine ⟨?_, hclosed⟩
  apply bytes_of_closed
  · intro w hw
    exact h.bound w (List.mem_filter.mp hw).1
  · refine List.pairwise_filter.mpr (hclosed.imp fun himp ha hb => ?_)
    exact himp (by simpa using ha) (by simpa using hb)

/-- The schedule of a write that goes out in one piece. -/
def wholeWrite : List WriteEvent := [.accept transmitLen, .runWrite, .runTimer]

/-- A `VCI_Transmit` of one frame that goes out in one piece. -/
theorem vciTransmit_whole {net : CanImpCanNet} (hup : net.connected = true) :
    net.vciTransmit 0 0 0 [.zero] [wholeWrite] =
      some ⟨.ok .statusOk, net, [sentRecord net.conn 0 0 0 .zero]⟩ := by
  have hlen : (Request.transmit 0 0 0 .zero).line.length = transmitLen := length_transmit_line ..
  have hwrite : writeLine transmitLen .ok wholeWrite = some ⟨transmitLen, .ok, transmitLen⟩ := by
    decide
  rw [vciTransmit_eq_loop hup]
  simp [CanImpCanNet.transmitLoop, hlen, hwrite, sentRecord]

/-- A silently incomplete write leaves the connection in use. -/
theorem transmit_keeps_connection {net : CanImpCanNet} {t i c : UInt32} {pSend : List VciCanObj}
    {scheds : List (List WriteEvent)} {r : Reply} (hup : net.connected = true)
    (h : net.vciTransmit t i c pSend scheds = some r) {sched : List WriteEvent}
    (hsched : sched ∈ scheds) (hsilent : SilentlyIncomplete sched) :
    r.net = net ∧ ∃ w ∈ r.writes, w.conn = net.conn ∧ w.Incomplete := by
  have hdirty : ¬ CleanWrite sched := by
    rintro ⟨w, hw, hok⟩
    have hspec := writeLine_spec hw
    have hwhole := (hspec.ec_ok_iff.mp hok).1
    rw [hspec.written] at hwhole
    exact absurd hwhole (Nat.ne_of_lt hsilent.2.1)
  obtain ⟨o, before, after, clean, w, hstop⟩ := transmit_stops_at hup h hsched hdirty
  have hpart : 0 < w.written ∧ w.written < transmitLen := by
    rw [(writeLine_spec hstop.write).written]
    exact ⟨hsilent.1, hsilent.2.1⟩
  have hret : ¬ w.ret < 0 := fun hneg =>
    (ret_neg_iff_not_silent hstop.write hpart).mp hneg hsilent
  refine ⟨by rw [hstop.net_eq, if_neg hret], ⟨net.conn, .transmit t i c o, w.written⟩,
    by rw [hstop.writes]; simp, rfl, hpart.1, ?_⟩
  rw [length_transmit_line]
  exact hpart.2

/-- While no `VCI_Transmit` leaves a line silently incomplete, every
    connection carries complete lines followed by at most one incomplete
    line; and after one that does, the next frame follows the fragment. -/
theorem outgoing_lines_framed (s : NetRun) :
    (netSystem.ReachableBy NoSilentlyIncomplete s → ∀ k, Framed k s.writes) ∧
    (∀ s' call, s.net.connected = true → ¬ NoSilentlyIncomplete s call → s.step call = some s' →
      ∃ call' s'', s'.step call' = some s'' ∧ ¬ Framed s.net.conn s''.writes) := by
  refine ⟨fun hs k => framed_of_writesInv (writesInv_of_reachableBy hs) k, ?_⟩
  intro s' call hup hsilent hstep
  cases call with
  | transmit t i c pSend scheds =>
    simp only [NoSilentlyIncomplete, not_forall, not_not] at hsilent
    obtain ⟨sched, hsched, hsilent⟩ := hsilent
    obtain ⟨r, hr, rfl⟩ := Option.map_eq_some_iff.mp hstep
    -- The client is as before the call, so a frame sent next follows the fragment.
    obtain ⟨hnet, w, hw, hconn, hinc⟩ := transmit_keeps_connection hup hr hsched hsilent
    have hnext : (s.replied r).step (.transmit 0 0 0 [.zero] [wholeWrite]) =
        some ((s.replied r).replied ⟨.ok .statusOk, s.net, [sentRecord s.net.conn 0 0 0 .zero]⟩) := by
      have hwhole := vciTransmit_whole hup
      simp [NetRun.step, NetRun.reply, NetRun.replied, hnet, hwhole]
    refine ⟨_, _, hnext, fun hframed => ?_⟩
    obtain ⟨-, -, hcross⟩ := List.pairwise_append.mp hframed.closed
    have hzero := hcross w (List.mem_append_right _ hw) _ List.mem_cons_self hconn rfl hinc
    exact absurd hzero (Nat.ne_of_gt (Request.line_pos _))
  | _ => exact absurd trivial hsilent

/-- The object as constructed, with its address and port configured. -/
def newRun : NetRun :=
  { net := { freshClient with connected := false, sockOpen := false, conn := 0 }
    mem := fun _ => 0
    writes := []
    handed := []
    taken := [] }

/-- `VCI_OpenDevice` with a connect and a write that succeed. -/
def openCall : NetCall :=
  .openDevice 4 0 0 (some (.run [.establish, .runConnect, .runTimer]))
    [.accept 40, .runWrite, .runTimer]

/-- `VCI_CloseDevice` with a write that succeeds. -/
def closeCall : NetCall := .closeDevice 4 0 [.accept 33, .runWrite, .runTimer]

/-- An open and a frame, both written completely. -/
theorem outgoing_lines_framed_sample :
    ∃ s, netSystem.ReachableBy NoSilentlyIncomplete s ∧ s.writes.length = 2 ∧
      Framed 1 s.writes := by
  have hrun : (netSystem.exec newRun [openCall, .transmit 4 0 0 [.zero] [wholeWrite]]).map
      (fun s => s.writes.length) = some 2 := by
    decide +kernel
  obtain ⟨s, hs, htwo⟩ := Option.map_eq_some_iff.mp hrun
  have hreach : netSystem.ReachableBy NoSilentlyIncomplete s := by
    refine LTS.System.ReachableBy.exec netSystem (.init ⟨rfl, rfl, rfl, rfl, rfl⟩) ?_ hs
    intro call hcall _
    rcases List.mem_cons.mp hcall with rfl | hcall
    · trivial
    · rw [List.mem_singleton.mp hcall]
      intro sched hsched hsilent
      rw [List.mem_singleton.mp hsched] at hsilent
      exact absurd hsilent.2.1 (by decide)
  exact ⟨s, hreach, htwo, (outgoing_lines_framed s).1 hreach 1⟩

/-- The timer stops a frame after 40 of its 86 bytes.  `VCI_Transmit`
    reports the error but keeps the connection, and the line of the next
    frame follows the fragment. -/
theorem transmit_sends_after_incomplete_line :
    ∃ s, netSystem.Reachable s ∧ ¬ Framed 1 s.writes := by
  obtain ⟨s, hs, hw⟩ := netSystem.exists_reachable_of_exec newRun
    [openCall, .transmit 4 0 0 [.zero] [[.accept 40, .runWrite, .expire, .runTimer, .runWrite]],
      .transmit 4 0 0 [.zero] [wholeWrite]]
    (fun s => s.writes == [⟨1, .openDevice 4 0 0, 40⟩, ⟨1, .transmit 4 0 0 .zero, 40⟩,
      ⟨1, .transmit 4 0 0 .zero, 86⟩])
    ⟨rfl, rfl, rfl, rfl, rfl⟩ (by decide +kernel)
  rw [beq_iff_eq] at hw
  refine ⟨s, hs, fun hframed => ?_⟩
  have hclosed := hframed.closed
  rw [hw] at hclosed
  have hnext := (List.pairwise_cons.mp (List.pairwise_cons.mp hclosed).2).1 _ List.mem_cons_self
  have hpart : (⟨1, .transmit 4 0 0 .zero, 40⟩ : WriteRecord).Incomplete :=
    ⟨by decide, by rw [length_transmit_line]; decide⟩
  exact absurd (hnext rfl rfl hpart) (by decide)

/-! ## Section 4: Received lines -/

/-- Every line was received on the connection that the client had when it
    was handed over. -/
def LinesOnConnection (s : NetRun) : Prop :=
  ∀ k line, (k, line) ∈ s.handed → ∀ b ∈ line, b.conn = k

/-- So was all that was taken out of the buffer. -/
def TakenOnConnection (s : NetRun) : Prop :=
  ∀ k bytes, (k, bytes) ∈ s.taken → ∀ b ∈ bytes, b.conn = k

/-- A connect that succeeds finds `rx_buff_` empty. -/
def CleanConnect (s : NetRun) (call : NetCall) : Prop :=
  call.Connects → s.net.connected = false → s.net.rxBuff = []

/-- The invariant: the buffer holds bytes of the last connection only. -/
structure ReceivedInv (s : NetRun) : Prop where
  buffer : ∀ b ∈ s.net.rxBuff, b.conn = s.net.conn
  handed : LinesOnConnection s
  taken : TakenOnConnection s

theorem conn_of_mem_arrivals {k : Nat} {sched : List ReadEvent} {b : RxByte}
    (h : b ∈ arrivals k sched) : b.conn = k := by
  obtain ⟨ev, -, hb⟩ := List.mem_flatMap.mp h
  obtain ⟨v, -, rfl⟩ := List.mem_map.mp hb
  rfl

/-- **Step lemma.** -/
theorem receivedInv_step {s s' : NetRun} {call : NetCall} (hinv : ReceivedInv s)
    (hclean : CleanConnect s call) (h : s.step call = some s') : ReceivedInv s' := by
  rcases netStep_cases h with ⟨r, hr, rfl⟩ | ⟨_, _, _, sched, r, -, hr, rfl⟩
  · obtain ⟨hord, -⟩ := orderly_reply hr
    refine ⟨?_, hinv.handed, hinv.taken⟩
    intro b hb
    have hb' : b ∈ s.net.rxBuff := by rw [← hord.rxBuff]; exact hb
    rcases hord.conn with hsame | ⟨hnew, hdown, -⟩
    · exact (hinv.buffer b hb').trans hsame.symm
    · -- A new connection: the guard says that nothing old is left.
      rw [hclean hnew hdown] at hb'
      cases hb'
  · obtain ⟨hspec, -⟩ := vciReceive_spec hr
    obtain ⟨hconn, -⟩ := vciReceive_net hr
    have hstream : ∀ b ∈ r.consumed ++ r.net.rxBuff, b.conn = s.net.conn := by
      intro b hb
      rw [hspec.stream] at hb
      exact (List.mem_append.mp hb).elim (hinv.buffer b) conn_of_mem_arrivals
    refine ⟨?_, ?_, ?_⟩
    · intro b hb
      exact (hstream b (List.mem_append_right _ hb)).trans hconn.symm
    · intro k line hline b hb
      rcases List.mem_append.mp hline with hline | hline
      · exact hinv.handed k line hline b hb
      · obtain ⟨c, hc, heq⟩ := List.mem_map.mp hline
        obtain ⟨rfl, rfl⟩ := Prod.mk.inj heq
        have hmem : c.1 ∈ (cut isNewline r.consumed).1 := by
          rw [hspec.handed]
          exact List.mem_map_of_mem hc
        exact hstream b (List.mem_append_left _ (mem_of_mem_lines hmem hb))
    · intro k bytes hbytes b hb
      rcases List.mem_append.mp hbytes with hbytes | hbytes
      · exact hinv.taken k bytes hbytes b hb
      · obtain ⟨rfl, rfl⟩ := Prod.mk.inj (List.mem_singleton.mp hbytes)
        exact hstream b (List.mem_append_left _ hb)

/-- While every connect that succeeds finds `rx_buff_` empty, every line
    handed to `line_process` holds bytes of the current connection only, and
    so does, with its newlines, all that `VCI_Receive` takes out of
    `rx_buff_`. -/
theorem received_lines_on_connection {s : NetRun} (h : netSystem.ReachableBy CleanConnect s) :
    LinesOnConnection s ∧ TakenOnConnection s := by
  have hinv : ReceivedInv s := by
    refine netSystem.reachableBy_invariant ?_ (fun _ _ _ hinv hg hs => receivedInv_step hinv hg hs) h
    rintro s ⟨-, hbuff, -, hhanded, htaken⟩
    refine ⟨by rw [hbuff]; nofun, ?_, ?_⟩
    · intro k line hline
      rw [hhanded] at hline
      cases hline
    · intro k bytes hbytes
      rw [htaken] at hbytes
      cases hbytes
  exact ⟨hinv.handed, hinv.taken⟩

/-- Two connections, the second one made when all of the first was read,
    and a line received on each. -/
theorem received_lines_on_connection_sample :
    ∃ s, netSystem.ReachableBy CleanConnect s ∧ s.handed.map Prod.fst = [1, 2] ∧
      LinesOnConnection s := by
  have hrun : (netSystem.execWithin (fun s _ => decide (s.net.rxBuff = [])) newRun
      [openCall, .receive (some 0) 1 0 (oneRead (sampleLine 48)), closeCall, openCall,
        .receive (some 0) 1 0 (oneRead (sampleLine 49))]).map
      (fun s => s.handed.map Prod.fst) = some [1, 2] := by
    decide +kernel
  obtain ⟨s, hs, htwo⟩ := Option.map_eq_some_iff.mp hrun
  have hreach : netSystem.ReachableBy CleanConnect s :=
    LTS.System.ReachableBy.execWithin _ (fun _ _ hempty _ _ => of_decide_eq_true hempty)
      (.init ⟨rfl, rfl, rfl, rfl, rfl⟩) hs
  exact ⟨s, hreach, htwo, (received_lines_on_connection hreach).1⟩

/-- Half a line is left in `rx_buff_` when the client closes the device.
    After it has opened it again, the rest of a line that comes in on the
    new connection is appended to the old half. -/
theorem received_line_crosses_connections :
    ∃ s, netSystem.Reachable s ∧ ¬ LinesOnConnection s := by
  obtain ⟨s, hs, hline⟩ := netSystem.exists_reachable_of_exec newRun
    [openCall,
      .receive (some 0) 1 0 [.arrive (Bytes.ascii "VCI_"), .runRead, .expire, .runTimer, .runRead],
      closeCall, openCall, .receive (some 0) 1 0 (oneRead (Bytes.ascii "Receive,\n"))]
    (fun s => s.handed == [(2, onConn 1 (Bytes.ascii "VCI_") ++ onConn 2 (Bytes.ascii "Receive,"))])
    ⟨rfl, rfl, rfl, rfl, rfl⟩ (by decide +kernel)
  rw [beq_iff_eq] at hline
  refine ⟨s, hs, fun hon => ?_⟩
  have hfirst := hon 2 _ (by rw [hline]; exact List.mem_cons_self) ⟨86, 1⟩ List.mem_cons_self
  exact absurd hfirst (by decide)

end LibControlCan
