import LibControlCan.LineProcess
import LibControlCan.Framework.Asio
import LibControlCan.Framework.System

/-! # The agent's side of a connection

    `canRxFunc` encodes each frame it reads into a `CanobjQueueNodeT`, and
    the event queue hands the node to every `Session`.  The session keeps
    it in `spsc_queue_` until `doCanObjTranspose` moves it into
    `shr_tx_buff_`, which `writeMessage` and `handleWrite` send.

    The pushing thread and the thread of the I/O context run side by side,
    so a session is a state machine whose steps are the accesses that the
    two threads can interleave: one push, one round of the loop of
    `doCanObjTranspose`, some bytes taken by the socket, one completion.

    * `payload?_frameLine`: the line of a frame is one that `line_process`
      accepts, with the digits of the frame as its payload.
    * `Session.inv_step`: no accepted node is lost, repeated or reordered
      on its way to the socket.
    * `session_output_conserved`: what that means for the bytes, in every
      interleaving of the two threads. -/

namespace LibControlCan

open ByteMemory Bytes CStrings Asio

/-! ## Section 1: The text of a frame -/

/-- The arguments that `canRxFunc` passes to `bin2hex_fast`. -/
def recvArgs (sendCount now : UInt64) (canObj : VciCanObj) : List Arg :=
  [.str ⟨receiveHead, by decide⟩, .pod (leBytes 8 sendCount.toNat), .pod (leBytes 8 now.toNat),
    .pod canObj.bytes, lr]

/-- The line of a frame, without its newline. -/
def frameLine (sendCount now : UInt64) (canObj : VciCanObj) : List UInt8 :=
  receiveHead ++ (hexText (leBytes 8 sendCount.toNat ++ leBytes 8 now.toNat) ++
    hexText canObj.bytes)

theorem argsText_recvArgs (sendCount now : UInt64) (canObj : VciCanObj) :
    argsText (recvArgs sendCount now canObj) = frameLine sendCount now canObj ++ [10] := by
  have hnl : ascii "\n" = [10] := rfl
  simp [argsText, recvArgs, Arg.text, lr, frameLine, hnl]

theorem length_frameLine (sendCount now : UInt64) (canObj : VciCanObj) :
    (frameLine sendCount now canObj).length = 92 := by
  have hhead : receiveHead.length = 12 := rfl
  simp [frameLine, hhead, VciCanObj.size]

/-- The header of the line is the 32 digits that `line_process` skips. -/
theorem payload?_frameLine (sendCount now : UInt64) (canObj : VciCanObj) :
    payload? (frameLine sendCount now canObj) = some (hexText canObj.bytes) := by
  refine payload?_eq_some_iff.mpr ⟨receiveHead, _, Or.inl rfl, rfl, by simp, ?_, ?_, ?_, ?_⟩
  · exact fun c hc => isHexDigit_of_mem_hexText hc
  · exact fun c hc => isHexDigit_of_mem_hexText hc
  · simp
  · simp [VciCanObj.size]

theorem newline_not_mem_frameLine (sendCount now : UInt64) (canObj : VciCanObj) :
    (10 : UInt8) ∉ frameLine sendCount now canObj := by
  intro h
  -- Neither the head nor a hex digit is a newline.
  rcases List.mem_append.mp h with hhead | hdigits
  · exact absurd hhead (by decide)
  · rw [← hexText_append] at hdigits
    exact absurd (isHexDigit_of_mem_hexText hdigits) (by decide)

/-! ## Section 2: Queue nodes -/

/-- `kCanobjCapacity`. -/
def kCanobjCapacity : Nat := 256

/-- `CanobjQueueNodeT`, as `canRxFunc` fills it. -/
structure CanobjQueueNodeT where
  /-- `can_obj_`. -/
  canObj : List UInt8
  /-- `len_`. -/
  len : Nat
  /-- Ghost: the frame and its number. -/
  frame : VciCanObj
  sendCount : UInt64
  /-- The array holds the line of the frame, in its first `len_` bytes and
      up to its first NUL. -/
  encodes : ∃ now, canObj.take len = frameLine sendCount now frame ++ [10]
  terminated : cstr canObj = canObj.take len

/-- The body of the loop of `canRxFunc` up to `enqueue`: the node for a
    frame, and `send_buff` after it. -/
def fillNode (sendBuff : Memory) (sendCount now : UInt64) (canObj : VciCanObj) :
    CanobjQueueNodeT × Memory :=
  let r := bin2hexFast sendBuff 0 (recvArgs sendCount now canObj)
  have hcap : (argsText (recvArgs sendCount now canObj)).length < kCanobjCapacity := by
    simp [argsText_recvArgs, length_frameLine, kCanobjCapacity]
  have hfilled := readBytes_bin2hexFast sendBuff hcap
  ({ canObj := readBytes r.2 0 kCanobjCapacity
     len := r.1
     frame := canObj
     sendCount
     encodes := ⟨now, hfilled.1.trans (argsText_recvArgs sendCount now canObj)⟩
     terminated := hfilled.2.trans hfilled.1.symm }, r.2)

namespace CanobjQueueNodeT

/-- The line of the node, without its newline. -/
def line (node : CanobjQueueNodeT) : List UInt8 := (cstr node.canObj).dropLast

theorem exists_cstr_eq (node : CanobjQueueNodeT) :
    ∃ now, cstr node.canObj = frameLine node.sendCount now node.frame ++ [10] := by
  obtain ⟨now, hnow⟩ := node.encodes
  exact ⟨now, node.terminated.trans hnow⟩

theorem cstr_eq (node : CanobjQueueNodeT) : cstr node.canObj = node.line ++ [10] := by
  obtain ⟨now, hnow⟩ := node.exists_cstr_eq
  rw [line, hnow, List.dropLast_concat]

theorem newline_not_mem_line (node : CanobjQueueNodeT) : (10 : UInt8) ∉ node.line := by
  obtain ⟨now, hnow⟩ := node.exists_cstr_eq
  rw [line, hnow, List.dropLast_concat]
  exact newline_not_mem_frameLine _ _ _

/-- **Round trip** from the agent's encoder to the client's decoder. -/
theorem payload?_line (node : CanobjQueueNodeT) :
    payload? node.line = some (hexText node.frame.bytes) := by
  obtain ⟨now, hnow⟩ := node.exists_cstr_eq
  rw [line, hnow, List.dropLast_concat]
  exact payload?_frameLine _ _ _

end CanobjQueueNodeT

/-! ## Section 3: The session -/

/-- The capacity of `spsc_queue_`. -/
def spscCapacity : Nat := 2048

/-- An asynchronous operation of a session. -/
inductive SessionOp where
  /-- An `async_write` of the contents `data` that `shr_tx_buff_` had when
      it began; the socket took `n` bytes of them so far. -/
  | write (data : List UInt8) (n : Nat)
  /-- A wait on `deadline_`. -/
  | wait
  deriving DecidableEq, Repr

/-- How much of `shr_tx_buff_` an operation has sent. -/
def SessionOp.sent : SessionOp → Nat
  | write _ n => n
  | wait => 0

/-- A `Session`. -/
structure Session where
  spscQueue : List CanobjQueueNodeT
  shrTxBuff : List UInt8
  /-- The listener `ppq_handle_` is on the event queue. -/
  registered : Bool
  /-- The round of the loop of `doCanObjTranspose` that comes next, while
      the I/O thread is in it. -/
  running : Option Nat
  /-- The outstanding operations. -/
  ops : List SessionOp
  /-- Ghosts: `start()` was called; a write has failed. -/
  started : Bool
  failed : Bool
  /-- Ghost: how many events had been dispatched without this session. -/
  joined : Nat
  /-- Ghost: the nodes handed to `consumeCanObjHandler`, and whether the
      push succeeded. -/
  offers : List (CanobjQueueNodeT × Bool)
  /-- Ghost: the bytes that the socket took. -/
  sent : List UInt8

/-- What the I/O context and the socket can do for a session; `j` is the
    position of the operation. -/
inductive SessionEvent where
  /-- The next round, or the end, of the loop of `doCanObjTranspose`. -/
  | transpose
  /-- The socket takes `n` more bytes of a write. -/
  | send (j n : Nat)
  /-- A write completes and its handler runs. -/
  | written (j : Nat) (ec : ErrorCode)
  /-- A wait ends and its handler runs. -/
  | wake (j : Nat) (ec : ErrorCode)
  deriving DecidableEq, Repr

namespace Session

/-- The constructor. -/
def new : Session :=
  { spscQueue := [], shrTxBuff := [], registered := false, running := none, ops := [],
    started := false, failed := false, joined := 0, offers := [], sent := [] }

/-- `start()`, up to the loop of `doCanObjTranspose`. -/
def start (joined : Nat) (s : Session) : Session :=
  { s with registered := true, running := some 0, started := true, joined }

/-- `disconnectToEventqq`. -/
def disconnectToEventqq (s : Session) : Session := { s with registered := false }

/-- `consumeCanObjHandler`. -/
def consumeCanObjHandler (node : CanobjQueueNodeT) (s : Session) : Session :=
  if s.spscQueue.length < spscCapacity then
    { s with spscQueue := s.spscQueue ++ [node], offers := s.offers ++ [(node, true)] }
  else { s with offers := s.offers ++ [(node, false)] }

/-- `writeMessage`. -/
def writeMessage (s : Session) : Session := { s with ops := s.ops ++ [.write s.shrTxBuff 0] }

/-- `doCanObjTranspose` after its loop. -/
def endTranspose (s : Session) : Session :=
  let s := { s with running := none }
  if s.shrTxBuff.length > 0 then s.writeMessage else { s with ops := s.ops ++ [.wait] }

/-- `doCanObjTranspose` from round `i` of its loop to the next. -/
def doCanObjTranspose (i : Nat) (s : Session) : Session :=
  if i < 8 then
    match s.spscQueue with
    -- `os << node.can_obj_` inserts the array as a C string.
    | node :: queue =>
      { s with
        spscQueue := queue
        shrTxBuff := s.shrTxBuff ++ cstr node.canObj
        running := some (i + 1) }
    | [] => s.endTranspose
  else s.endTranspose

/-- `handleWrite`. -/
def handleWrite (ec : ErrorCode) (bytesTransfered : Nat) (s : Session) : Session :=
  let s := { s with shrTxBuff := s.shrTxBuff.drop bytesTransfered }
  if ec.isError then s.disconnectToEventqq else { s with running := some 0 }

/-- One event.  A composed `async_write` consumes what it has sent before
    it calls its handler, and succeeds only with all its data sent. -/
def step (s : Session) : SessionEvent → Option Session
  | .transpose => s.running.map s.doCanObjTranspose
  | .send j n =>
    match s.ops[j]? with
    | some (.write data k) =>
      if 0 < n ∧ k + n ≤ data.length then
        some { s with
          ops := s.ops.set j (.write data (k + n))
          sent := s.sent ++ (data.drop k).take n }
      else none
    | _ => none
  | .written j ec =>
    match s.running, s.ops[j]? with
    | none, some (.write data k) =>
      if ec.isError ∨ k = data.length then
        -- The library's own consume; `handleWrite` consumes once more.
        let s := { s with
          ops := s.ops.eraseIdx j
          shrTxBuff := s.shrTxBuff.drop k
          failed := s.failed || ec.isError }
        some (s.handleWrite ec k)
      else none
    | _, _ => none
  | .wake j _ =>
    match s.running, s.ops[j]? with
    | none, some .wait => some { s with ops := s.ops.eraseIdx j, running := some 0 }
    | _, _ => none

/-- Everything that `step` can do, with its guards. -/
inductive Transition (s : Session) : SessionEvent → Session → Prop where
  | pop (i : Nat) (node : CanobjQueueNodeT) (queue : List CanobjQueueNodeT) :
      s.running = some i → i < 8 → s.spscQueue = node :: queue →
      Transition s .transpose
        { s with
          spscQueue := queue
          shrTxBuff := s.shrTxBuff ++ cstr node.canObj
          running := some (i + 1) }
  | write (i : Nat) : s.running = some i → (i < 8 → s.spscQueue = []) → s.shrTxBuff ≠ [] →
      Transition s .transpose
        { s with running := none, ops := s.ops ++ [.write s.shrTxBuff 0] }
  | wait (i : Nat) : s.running = some i → (i < 8 → s.spscQueue = []) → s.shrTxBuff = [] →
      Transition s .transpose { s with running := none, ops := s.ops ++ [.wait] }
  | send (j n : Nat) (data : List UInt8) (k : Nat) : s.ops[j]? = some (.write data k) →
      0 < n → k + n ≤ data.length →
      Transition s (.send j n)
        { s with
          ops := s.ops.set j (.write data (k + n))
          sent := s.sent ++ (data.drop k).take n }
  | written (j : Nat) (data : List UInt8) : s.running = none →
      s.ops[j]? = some (.write data data.length) →
      Transition s (.written j .ok)
        { s with
          ops := s.ops.eraseIdx j
          shrTxBuff := (s.shrTxBuff.drop data.length).drop data.length
          running := some 0 }
  | failed (j : Nat) (ec : ErrorCode) (data : List UInt8) (k : Nat) : s.running = none →
      s.ops[j]? = some (.write data k) → ec.isError = true →
      Transition s (.written j ec)
        { s with
          ops := s.ops.eraseIdx j
          shrTxBuff := (s.shrTxBuff.drop k).drop k
          failed := true
          registered := false }
  | wake (j : Nat) (ec : ErrorCode) : s.running = none → s.ops[j]? = some .wait →
      Transition s (.wake j ec) { s with ops := s.ops.eraseIdx j, running := some 0 }

theorem transition_endTranspose {s : Session} {i : Nat} (h : s.running = some i)
    (hend : i < 8 → s.spscQueue = []) : Transition s .transpose s.endTranspose := by
  by_cases hbuff : s.shrTxBuff = []
  · have heq : s.endTranspose = { s with running := none, ops := s.ops ++ [.wait] } :=
      if_neg (by simp [hbuff])
    rw [heq]
    exact .wait i h hend hbuff
  · have heq : s.endTranspose =
        { s with running := none, ops := s.ops ++ [.write s.shrTxBuff 0] } :=
      if_pos (List.length_pos_iff.mpr hbuff)
    rw [heq]
    exact .write i h hend hbuff

theorem transition_of_step {s s' : Session} {ev : SessionEvent} (h : s.step ev = some s') :
    Transition s ev s' := by
  cases ev with
  | transpose =>
    obtain ⟨i, hi, rfl⟩ := Option.map_eq_some_iff.mp h
    unfold doCanObjTranspose
    by_cases hlt : i < 8
    · cases hq : s.spscQueue with
      | nil => simp only [hlt, if_true]; exact transition_endTranspose hi (fun _ => hq)
      | cons node queue => simp only [hlt, if_true]; exact .pop i node queue hi hlt hq
    · rw [if_neg hlt]
      exact transition_endTranspose hi (fun h8 => absurd h8 hlt)
  | send j n =>
    simp only [step] at h
    split at h
    case h_1 data k hop =>
      by_cases hg : 0 < n ∧ k + n ≤ data.length
      · simp only [hg, and_self, if_true, Option.some.injEq] at h
        subst h
        exact .send j n data k hop hg.1 hg.2
      · simp [hg] at h
    case h_2 => cases h
  | written j ec =>
    simp only [step] at h
    split at h
    case h_1 data k hrun hop =>
      by_cases he : ec.isError = true
      · simp only [he, true_or, if_true, Option.some.injEq, handleWrite, disconnectToEventqq,
          Bool.or_true] at h
        subst h
        exact .failed j ec data k hrun hop he
      · obtain rfl : ec = .ok := ErrorCode.isError_eq_false_iff.mp (by simpa using he)
        by_cases hk : k = data.length
        · subst hk
          simp only [or_true, if_true, Option.some.injEq, handleWrite, ErrorCode.isError_ok,
            Bool.false_eq_true, if_false, Bool.or_false] at h
          subst h
          exact .written j data hrun hop
        · simp [hk] at h
    case h_2 => cases h
  | wake j ec =>
    simp only [step] at h
    split at h
    case h_1 hrun hop =>
      simp only [Option.some.injEq] at h
      subst h
      exact .wake j ec hrun hop
    case h_2 => cases h

/-! ## Section 4: Conservation -/

/-- The nodes that were pushed, in order. -/
def accepted (s : Session) : List CanobjQueueNodeT := (s.offers.filter Prod.snd).map Prod.fst

/-- The bytes of `shr_tx_buff_` that the socket has not taken. -/
def unsent (s : Session) : List UInt8 := s.shrTxBuff.drop (s.ops.map SessionOp.sent).sum

/-- The texts of some nodes, one after the other. -/
def texts (nodes : List CanobjQueueNodeT) : List UInt8 := nodes.flatMap fun node => cstr node.canObj

@[simp] theorem texts_nil : texts [] = [] := rfl

@[simp] theorem texts_cons (node : CanobjQueueNodeT) (nodes : List CanobjQueueNodeT) :
    texts (node :: nodes) = cstr node.canObj ++ texts nodes := rfl

@[simp] theorem texts_append (ns ms : List CanobjQueueNodeT) :
    texts (ns ++ ms) = texts ns ++ texts ms := by
  simp [texts]

/-- Which operations can be outstanding: none while the loop runs, and one
    between two runs of it.  Nothing is appended to `shr_tx_buff_` during a
    write, so the data of the write are the whole buffer. -/
inductive Flight (s : Session) : Prop where
  | created : s.started = false → s.failed = false → s.running = none → s.ops = [] → Flight s
  | stopped : s.started = true → s.failed = true → s.running = none → s.ops = [] → Flight s
  | looping (i : Nat) : s.started = true → s.failed = false → s.running = some i → s.ops = [] →
      Flight s
  | writing (n : Nat) : s.started = true → s.failed = false → s.running = none →
      s.ops = [.write s.shrTxBuff n] → n ≤ s.shrTxBuff.length → Flight s
  | waiting : s.started = true → s.failed = false → s.running = none → s.ops = [.wait] → Flight s

theorem Flight.of_not_started {s : Session} (hf : s.Flight) (h : s.started = false) :
    s.failed = false ∧ s.ops = [] := by
  cases hf with
  | created _ hfl _ hops => exact ⟨hfl, hops⟩
  | stopped hst _ _ _ => rw [h] at hst; cases hst
  | looping _ hst _ _ _ => rw [h] at hst; cases hst
  | writing _ hst _ _ _ _ => rw [h] at hst; cases hst
  | waiting hst _ _ _ => rw [h] at hst; cases hst

theorem Flight.of_running {s : Session} {i : Nat} (hf : s.Flight) (h : s.running = some i) :
    s.started = true ∧ s.failed = false ∧ s.ops = [] := by
  cases hf with
  | looping i' hst hfl hrun hops => exact ⟨hst, hfl, hops⟩
  | created _ _ hrun _ => rw [h] at hrun; cases hrun
  | stopped _ _ hrun _ => rw [h] at hrun; cases hrun
  | writing _ _ _ hrun _ _ => rw [h] at hrun; cases hrun
  | waiting _ _ hrun _ => rw [h] at hrun; cases hrun

theorem Flight.of_op {s : Session} {j : Nat} {op : SessionOp} (hf : s.Flight)
    (h : s.ops[j]? = some op) :
    s.started = true ∧ s.failed = false ∧ s.running = none ∧ j = 0 ∧ s.ops = [op] ∧
      (op = .wait ∨ ∃ n, op = .write s.shrTxBuff n ∧ n ≤ s.shrTxBuff.length) := by
  -- With one operation outstanding there is one position.
  have hsingle : ∀ op', s.ops = [op'] → j = 0 ∧ op = op' := by
    intro op' hops
    rw [hops, List.getElem?_singleton] at h
    split at h
    case isTrue hj => exact ⟨hj, (Option.some.inj h).symm⟩
    case isFalse => cases h
  cases hf with
  | created _ _ _ hops => simp [hops] at h
  | stopped _ _ _ hops => simp [hops] at h
  | looping _ _ _ _ hops => simp [hops] at h
  | writing n hst hfl hrun hops hle =>
    obtain ⟨hj, rfl⟩ := hsingle _ hops
    exact ⟨hst, hfl, hrun, hj, hops, Or.inr ⟨n, rfl, hle⟩⟩
  | waiting hst hfl hrun hops =>
    obtain ⟨hj, rfl⟩ := hsingle _ hops
    exact ⟨hst, hfl, hrun, hj, hops, Or.inl rfl⟩

/-- The invariant of a session.  While no write has failed, what was
    sent, what waits in the buffer and what waits in the queue are together
    the texts of the accepted nodes. -/
structure Inv (s : Session) : Prop where
  flight : s.Flight
  sent_isPrefix : s.sent <+: texts s.accepted
  conserved : s.failed = false → s.sent ++ (s.unsent ++ texts s.spscQueue) = texts s.accepted

theorem inv_new : new.Inv :=
  ⟨.created rfl rfl rfl rfl, List.nil_prefix, fun _ => rfl⟩

/-- A step that only moves bytes along keeps the invariant. -/
theorem Inv.advance {s s' : Session} (hinv : s.Inv) (hfl : s.failed = false) (hf : s'.Flight)
    (hoffers : s'.offers = s.offers)
    (h : s'.sent ++ (s'.unsent ++ texts s'.spscQueue) =
      s.sent ++ (s.unsent ++ texts s.spscQueue)) : s'.Inv := by
  have hacc : s'.accepted = s.accepted := by rw [accepted, hoffers, accepted]
  have hcons : s'.sent ++ (s'.unsent ++ texts s'.spscQueue) = texts s'.accepted := by
    rw [h, hacc, hinv.conserved hfl]
  exact ⟨hf, ⟨_, hcons⟩, fun _ => hcons⟩

theorem inv_start {s : Session} (hinv : s.Inv) (h : s.started = false) (joined : Nat) :
    (s.start joined).Inv := by
  obtain ⟨hfl, hops⟩ := hinv.flight.of_not_started h
  exact hinv.advance hfl (.looping 0 rfl hfl rfl hops) rfl rfl

/-- The outcome of a push. -/
theorem consumeCanObjHandler_cases (node : CanobjQueueNodeT) (s : Session) :
    (s.spscQueue.length < spscCapacity ∧ s.consumeCanObjHandler node =
      { s with spscQueue := s.spscQueue ++ [node], offers := s.offers ++ [(node, true)] }) ∨
    (spscCapacity ≤ s.spscQueue.length ∧ s.consumeCanObjHandler node =
      { s with offers := s.offers ++ [(node, false)] }) := by
  unfold consumeCanObjHandler
  by_cases hroom : s.spscQueue.length < spscCapacity
  · exact Or.inl ⟨hroom, if_pos hroom⟩
  · exact Or.inr ⟨Nat.le_of_not_lt hroom, if_neg hroom⟩

/-- A push adds the node to the accepted ones exactly when it succeeds. -/
theorem inv_consumeCanObjHandler {s : Session} (hinv : s.Inv) (node : CanobjQueueNodeT) :
    (s.consumeCanObjHandler node).Inv := by
  have hflight : ∀ queue offers, ({ s with spscQueue := queue, offers } : Session).Flight := by
    intro queue offers
    cases hinv.flight with
    | created hst hfl hrun hops => exact .created hst hfl hrun hops
    | stopped hst hfl hrun hops => exact .stopped hst hfl hrun hops
    | looping i hst hfl hrun hops => exact .looping i hst hfl hrun hops
    | writing n hst hfl hrun hops hle => exact .writing n hst hfl hrun hops hle
    | waiting hst hfl hrun hops => exact .waiting hst hfl hrun hops
  rcases consumeCanObjHandler_cases node s with ⟨-, heq⟩ | ⟨-, heq⟩
  · have hacc : (s.consumeCanObjHandler node).accepted = s.accepted ++ [node] := by
      simp [heq, accepted]
    refine ⟨by rw [heq]; exact hflight _ _, ?_, ?_⟩
    · rw [hacc, texts_append, heq]
      exact hinv.sent_isPrefix.trans (List.prefix_append _ _)
    · rw [hacc, texts_append, heq]
      intro hfl
      rw [← hinv.conserved hfl]
      simp [unsent]
  · have hacc : (s.consumeCanObjHandler node).accepted = s.accepted := by
      simp [heq, accepted]
    refine ⟨by rw [heq]; exact hflight _ _, ?_, ?_⟩
    · rw [hacc, heq]
      exact hinv.sent_isPrefix
    · rw [hacc, heq]
      exact hinv.conserved

/-- **Step lemma.** -/
theorem inv_step {s s' : Session} {ev : SessionEvent} (hinv : s.Inv) (h : s.step ev = some s') :
    s'.Inv := by
  cases transition_of_step h with
  | pop i node queue hrun hlt hq =>
    obtain ⟨hst, hfl, hops⟩ := hinv.flight.of_running hrun
    exact hinv.advance hfl (.looping (i + 1) hst hfl rfl hops) rfl (by simp [unsent, hops, hq])
  | write i hrun hend hne =>
    obtain ⟨hst, hfl, hops⟩ := hinv.flight.of_running hrun
    exact hinv.advance hfl (.writing 0 hst hfl rfl (by rw [hops]; rfl) (Nat.zero_le _)) rfl
      (by simp [unsent, hops, SessionOp.sent])
  | wait i hrun hend hnil =>
    obtain ⟨hst, hfl, hops⟩ := hinv.flight.of_running hrun
    exact hinv.advance hfl (.waiting hst hfl rfl (by rw [hops]; rfl)) rfl
      (by simp [unsent, hops, SessionOp.sent])
  | send j n data k hop hpos hle =>
    obtain ⟨hst, hfl, hrun, rfl, hops, hdata⟩ := hinv.flight.of_op hop
    obtain ⟨_, hw, -⟩ := hdata.resolve_left (by simp)
    obtain ⟨rfl, -⟩ := SessionOp.write.inj hw
    refine hinv.advance hfl (.writing (k + n) hst hfl hrun (by rw [hops]; rfl) hle) rfl ?_
    have hsplit : (s.shrTxBuff.drop k).take n ++ s.shrTxBuff.drop (k + n) = s.shrTxBuff.drop k := by
      rw [← List.drop_drop, List.take_append_drop]
    simp only [unsent, hops, List.set_cons_zero, List.map_cons, List.map_nil, SessionOp.sent,
      List.sum_singleton]
    rw [List.append_assoc, ← List.append_assoc ((s.shrTxBuff.drop k).take n), hsplit]
  | written j data hrun hop =>
    obtain ⟨hst, hfl, -, rfl, hops, hdata⟩ := hinv.flight.of_op hop
    obtain ⟨_, hw, -⟩ := hdata.resolve_left (by simp)
    obtain ⟨rfl, -⟩ := SessionOp.write.inj hw
    -- The write took the whole buffer, so the second consume finds nothing.
    exact hinv.advance hfl (.looping 0 hst hfl rfl (by rw [hops]; rfl)) rfl
      (by simp [unsent, hops, SessionOp.sent])
  | failed j ec data k hrun hop he =>
    -- The second consume may discard unsent bytes, but nothing is sent any more.
    obtain ⟨hst, hfl, -, rfl, hops, -⟩ := hinv.flight.of_op hop
    exact ⟨.stopped hst rfl hrun (by rw [hops]; rfl), hinv.sent_isPrefix,
      fun hfalse => by cases hfalse⟩
  | wake j ec hrun hop =>
    obtain ⟨hst, hfl, -, rfl, hops, -⟩ := hinv.flight.of_op hop
    exact hinv.advance hfl (.looping 0 hst hfl rfl (by rw [hops]; rfl)) rfl
      (by simp [unsent, hops, SessionOp.sent])

/-- What the I/O context leaves alone: the record of the pushes.  It only
    ever removes the listener. -/
structure Frame (s s' : Session) : Prop where
  started : s'.started = s.started
  joined : s'.joined = s.joined
  offers : s'.offers = s.offers
  registered : s'.registered = true → s.registered = true

theorem Frame.refl (s : Session) : Frame s s := ⟨rfl, rfl, rfl, id⟩

theorem frame_step {s s' : Session} {ev : SessionEvent} (h : s.step ev = some s') :
    Frame s s' := by
  cases transition_of_step h with
  | failed => exact ⟨rfl, rfl, rfl, fun hfalse => by cases hfalse⟩
  | pop => exact ⟨rfl, rfl, rfl, id⟩
  | write => exact ⟨rfl, rfl, rfl, id⟩
  | wait => exact ⟨rfl, rfl, rfl, id⟩
  | send => exact ⟨rfl, rfl, rfl, id⟩
  | written => exact ⟨rfl, rfl, rfl, id⟩
  | wake => exact ⟨rfl, rfl, rfl, id⟩

/-- The socket only ever takes more bytes. -/
theorem sent_isPrefix_step {s s' : Session} {ev : SessionEvent} (h : s.step ev = some s') :
    s.sent <+: s'.sent := by
  cases transition_of_step h with
  | send => exact List.prefix_append _ _
  | pop => exact List.prefix_rfl
  | write => exact List.prefix_rfl
  | wait => exact List.prefix_rfl
  | written => exact List.prefix_rfl
  | failed => exact List.prefix_rfl
  | wake => exact List.prefix_rfl

/-- What an event of the whole system can do to a session. -/
inductive Move (s : Session) : Session → Prop where
  | idle : Move s s
  | push (node : CanobjQueueNodeT) : Move s (s.consumeCanObjHandler node)
  | start (joined : Nat) : s.started = false → Move s (s.start joined)
  | io (ev : SessionEvent) (s' : Session) : s.step ev = some s' → Move s s'

theorem Move.inv {s s' : Session} (h : Move s s') (hinv : s.Inv) : s'.Inv := by
  cases h with
  | idle => exact hinv
  | push node => exact inv_consumeCanObjHandler hinv node
  | start joined hst => exact inv_start hinv hst joined
  | io ev s' hstep => exact inv_step hinv hstep

theorem Move.sent_isPrefix {s s' : Session} (h : Move s s') : s.sent <+: s'.sent := by
  cases h with
  | idle => exact List.prefix_rfl
  | push node =>
    rcases consumeCanObjHandler_cases node s with ⟨-, heq⟩ | ⟨-, heq⟩ <;> rw [heq]
  | start joined _ => exact List.prefix_rfl
  | io ev s' hstep => exact sent_isPrefix_step hstep

/-- A completed write has taken the whole buffer, so the second consume
    finds nothing to discard. -/
theorem Inv.unsent_written {s s' : Session} {j : Nat} (hinv : s.Inv)
    (h : s.step (.written j .ok) = some s') : s'.sent = s.sent ∧ s'.unsent = s.unsent := by
  cases transition_of_step h with
  | written j data hrun hop =>
    obtain ⟨-, -, -, rfl, hops, hdata⟩ := hinv.flight.of_op hop
    obtain ⟨_, hw, -⟩ := hdata.resolve_left (by simp)
    obtain ⟨rfl, -⟩ := SessionOp.write.inj hw
    exact ⟨rfl, by simp [unsent, hops, SessionOp.sent]⟩
  | failed j ec data k hrun hop he => cases he

end Session

/-! ## Section 5: A session between the two threads -/

/-- What can happen to a started session: a push by the publishing thread,
    or an event of the I/O context. -/
inductive SessionLabel where
  | push (node : CanobjQueueNodeT)
  | io (ev : SessionEvent)

/-- Any interleaving of the two threads, from `start()` on. -/
def sessionSystem : LTS.System Session SessionLabel where
  init s := ∃ joined, s = Session.new.start joined
  step s
    | .push node => some (s.consumeCanObjHandler node)
    | .io ev => s.step ev

theorem Session.inv_of_reachable {s : Session} (h : sessionSystem.Reachable s) : s.Inv := by
  refine sessionSystem.reachable_invariant ?_ ?_ h
  · rintro _ ⟨joined, rfl⟩
    exact inv_start inv_new rfl joined
  · intro s l s' hinv hstep
    cases l with
    | push node =>
      cases hstep
      exact inv_consumeCanObjHandler hinv node
    | io ev => exact inv_step hinv hstep

/-- What `operator<<` of `CanobjQueueNodeT` emits: the first `len_` bytes. -/
def CanobjQueueNodeT.text (node : CanobjQueueNodeT) : List UInt8 := node.canObj.take node.len

/-- Both ways to output nodes emit the same bytes. -/
theorem Session.texts_eq (nodes : List CanobjQueueNodeT) :
    texts nodes = nodes.flatMap CanobjQueueNodeT.text :=
  List.flatMap_congr fun node _ => node.terminated

/-- **Conservation.** In every interleaving, while no write has failed: the
    bytes that the socket took, those of `shr_tx_buff_` that it did not, and
    the texts of the nodes in `spsc_queue_` are together the texts of the
    accepted nodes, in the order in which they were accepted.  A write that
    completes discards none of them. -/
theorem session_output_conserved {s : Session} (h : sessionSystem.Reachable s)
    (hok : s.failed = false) :
    s.sent ++ s.unsent ++ s.spscQueue.flatMap CanobjQueueNodeT.text =
      s.accepted.flatMap CanobjQueueNodeT.text ∧
    ∀ j s', s.step (.written j .ok) = some s' → s'.sent = s.sent ∧ s'.unsent = s.unsent := by
  have hinv := Session.inv_of_reachable h
  refine ⟨?_, fun j s' hstep => hinv.unsent_written hstep⟩
  rw [← Session.texts_eq, ← Session.texts_eq, List.append_assoc]
  exact hinv.conserved hok

/-- Two nodes; the second one is pushed while the first is on its way, with
    40 of its 93 bytes taken. -/
def twoPushes : List SessionLabel :=
  [.push (fillNode (fun _ => 0) 0 7 .zero).1, .io .transpose, .io .transpose, .io (.send 0 40),
    .push (fillNode (fun _ => 0) 1 8 .zero).1]

theorem session_output_conserved_sample :
    ∃ s, sessionSystem.exec (Session.new.start 0) twoPushes = some s ∧
      (s.sent.length, s.unsent.length, s.spscQueue.length) = (40, 53, 1) ∧
      s.sent ++ s.unsent ++ s.spscQueue.flatMap CanobjQueueNodeT.text =
        s.accepted.flatMap CanobjQueueNodeT.text := by
  have hrun : (sessionSystem.exec (Session.new.start 0) twoPushes).map (fun s =>
      (s.failed, s.sent.length, s.unsent.length, s.spscQueue.length)) = some (false, 40, 53, 1) := by
    decide +kernel
  obtain ⟨s, hs, hval⟩ := Option.map_eq_some_iff.mp hrun
  obtain ⟨hok, hlen⟩ := Prod.ext_iff.mp hval
  have hinit : sessionSystem.Reachable (Session.new.start 0) := .init ⟨0, rfl⟩
  have hreach : sessionSystem.Reachable s := LTS.System.Reachable.exec _ hinit hs
  exact ⟨s, hs, hlen, (session_output_conserved hreach hok).1⟩

end LibControlCan
