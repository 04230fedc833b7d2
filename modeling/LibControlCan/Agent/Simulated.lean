import LibControlCan.Agent.Session
import LibControlCan.Eventpp.EventQueue

/-! # The simulated publisher

    `pubSimuFunc` publishes frames of its own in the place of those from the
    bus: in each round of its loop it enqueues ten, each with its number as
    its data, and then dispatches all that is in the queue.

    * `Counted` says that the events, dispatched or enqueued, carry the
      numbers from 0 on, in their lines and in their frames.
    * `simulated_publishes`: for every number of rounds, no assertion and no
      `CHECK` fails, every event is dispatched in its turn, the queue needs
      no more than ten buffers, and a client that decodes the `k`-th line
      finds `k` in the frame. -/

namespace LibControlCan

open ByteMemory Bytes

/-! ## Section 1: The loop -/

/-- `VCI_CAN_OBJ can_obj{}`, with `send_count` stored over its `Data`. -/
def simuObj (sendCount : UInt64) : VciCanObj :=
  { VciCanObj.zero with data := Vector.ofFn fun i => (leBytes 8 sendCount.toNat).getD i 0 }

/-- The state of `pubSimuFunc`, with the event queue. -/
structure PubSimu where
  sendBuff : Memory
  sendCount : UInt64
  queue : EventQueue CanobjQueueNodeT
  /-- Ghost: the events that were dispatched. -/
  dispatched : List CanobjQueueNodeT

namespace PubSimu

/-- Before the loop; `send_buff` is not initialised. -/
def new (sendBuff : Memory) : PubSimu :=
  { sendBuff, sendCount := 0, queue := .new, dispatched := [] }

/-- The body of the inner loop; `now` is the tick. -/
def enqueue (p : PubSimu) (now : UInt64) : Option PubSimu :=
  let (node, sendBuff) := fillNode p.sendBuff p.sendCount now (simuObj p.sendCount)
  (p.queue.doEnqueue node).map fun queue =>
    { p with sendBuff, sendCount := p.sendCount + 1, queue }

/-- A round of the loop.  It fails where an assertion of the queue does, or
    the `CHECK` of what `process` returns. -/
def round (p : PubSimu) (ticks : Fin 10 → UInt64) : Option PubSimu :=
  ((List.ofFn ticks).foldlM enqueue p).bind fun p =>
    p.queue.process.bind fun (queue, events, err) =>
      if err then some { p with queue, dispatched := p.dispatched ++ events } else none

/-! ## Section 2: Numbers -/

/-- The `k`-th event has number `k`, and so has its frame. -/
def Counted (nodes : List CanobjQueueNodeT) : Prop :=
  ∀ k node, nodes[k]? = some node →
    node.sendCount = UInt64.ofNat k ∧ node.frame = simuObj (UInt64.ofNat k)

/-- The queue holds `es` and `n` free buffers; together with the events that
    were dispatched they are counted. -/
structure Inv (p : PubSimu) (es : List CanobjQueueNodeT) (n : Nat) : Prop where
  queue : p.queue = .ofEvents es n
  counted : Counted (p.dispatched ++ es)
  sendCount : p.sendCount = UInt64.ofNat (p.dispatched ++ es).length

theorem inv_new (sendBuff : Memory) : (new sendBuff).Inv [] 0 :=
  ⟨rfl, fun k node h => by simp [new] at h, rfl⟩

theorem Counted.concat {nodes : List CanobjQueueNodeT} (h : Counted nodes) {node : CanobjQueueNodeT}
    (hcount : node.sendCount = UInt64.ofNat nodes.length)
    (hframe : node.frame = simuObj (UInt64.ofNat nodes.length)) : Counted (nodes ++ [node]) := by
  intro k node' hk
  by_cases hlt : k < nodes.length
  · rw [List.getElem?_append_left hlt] at hk
    exact h k node' hk
  · have hlen := (List.getElem?_eq_some_iff.mp hk).1
    rw [List.length_append, List.length_singleton] at hlen
    obtain rfl : k = nodes.length := by omega
    rw [List.getElem?_concat_length] at hk
    cases hk
    exact ⟨hcount, hframe⟩

variable {p : PubSimu} {es : List CanobjQueueNodeT} {n : Nat}

theorem inv_enqueue (h : p.Inv es n) (now : UInt64) :
    ∃ p' node, p.enqueue now = some p' ∧ p'.dispatched = p.dispatched ∧
      p'.Inv (es ++ [node]) (n - 1) := by
  let filled := fillNode p.sendBuff p.sendCount now (simuObj p.sendCount)
  refine ⟨{ p with
      sendBuff := filled.2
      sendCount := p.sendCount + 1
      queue := .ofEvents (es ++ [filled.1]) (n - 1) }, filled.1, ?_, rfl, rfl, ?_, ?_⟩
  · simp [enqueue, h.queue, filled]
  · rw [← List.append_assoc]
    refine h.counted.concat h.sendCount ?_
    rw [← h.sendCount]
    rfl
  · rw [← List.append_assoc, List.length_append, List.length_singleton, UInt64.ofNat_add,
      ← h.sendCount]
    rfl

/-- The inner loop. -/
theorem inv_foldlM_enqueue (h : p.Inv es n) (ticks : List UInt64) :
    ∃ p' more, ticks.foldlM enqueue p = some p' ∧ p'.dispatched = p.dispatched ∧
      more.length = ticks.length ∧ p'.Inv (es ++ more) (n - ticks.length) := by
  induction ticks generalizing p es n with
  | nil => exact ⟨p, [], rfl, rfl, rfl, by simpa using h⟩
  | cons now ticks ih =>
    obtain ⟨p₁, node, hstep, hdisp, hinv⟩ := inv_enqueue h now
    obtain ⟨p', more, hfold, hdisp', hlen, hinv'⟩ := ih hinv
    refine ⟨p', node :: more, ?_, hdisp'.trans hdisp, by simp [hlen], ?_⟩
    · rw [List.foldlM_cons, hstep]
      exact hfold
    · rw [List.append_cons, List.length_cons, Nat.add_comm, Nat.sub_add_eq]
      exact hinv'

/-- **Step lemma.**  A round dispatches its ten events, and leaves their
    buffers. -/
theorem inv_round (h : p.Inv [] n) (hn : n ≤ 10) (ticks : Fin 10 → UInt64) :
    ∃ p', p.round ticks = some p' ∧ p'.dispatched.length = p.dispatched.length + 10 ∧
      p'.Inv [] 10 := by
  obtain ⟨p₁, es, hfold, hdisp, hlen, hinv⟩ := inv_foldlM_enqueue h (List.ofFn ticks)
  rw [List.length_ofFn] at hlen
  rw [List.nil_append, List.length_ofFn] at hinv
  have hne : es.isEmpty = false := by
    cases es with
    | nil => simp at hlen
    | cons => rfl
  refine ⟨{ p₁ with queue := .ofEvents [] 10, dispatched := p₁.dispatched ++ es }, ?_, ?_, rfl, ?_,
    ?_⟩
  · simp only [round, hfold, Option.bind_some, hinv.queue, EventQueue.process_ofEvents, hne,
      Bool.not_false, if_true, hlen, show n - 10 + 10 = 10 by omega]
  · rw [List.length_append, hlen, hdisp]
  · simpa using hinv.counted
  · simpa using hinv.sendCount

/-- **Run lemma.** -/
theorem inv_rounds (h : p.Inv [] n) (hn : n ≤ 10) (rounds : List (Fin 10 → UInt64)) :
    ∃ p' n', rounds.foldlM round p = some p' ∧ n' ≤ 10 ∧
      p'.dispatched.length = p.dispatched.length + 10 * rounds.length ∧ p'.Inv [] n' := by
  induction rounds generalizing p n with
  | nil => exact ⟨p, n, rfl, hn, rfl, h⟩
  | cons ticks rounds ih =>
    obtain ⟨p₁, hround, hlen, hinv⟩ := inv_round h hn ticks
    obtain ⟨p', n', hfold, hn', hlen', hinv'⟩ := ih hinv (Nat.le_refl 10)
    refine ⟨p', n', ?_, hn', by rw [hlen', hlen, List.length_cons]; omega, hinv'⟩
    rw [List.foldlM_cons, hround]
    exact hfold

end PubSimu

/-! ## Section 3: What a client reads -/

/-- The number in the data of a simulated frame. -/
theorem ofLeBytes_simuObj (sendCount : UInt64) :
    ofLeBytes (simuObj sendCount).data.toList = sendCount.toNat := by
  have hdata : (simuObj sendCount).data.toList = leBytes 8 sendCount.toNat := by
    refine List.ext_getElem (by simp) fun i h h' => ?_
    simp [simuObj]
  rw [hdata, ofLeBytes_leBytes (by have := sendCount.toNat_lt; omega)]

/-- The line of a node leaves its frame where the client decodes it. -/
theorem CanobjQueueNodeT.read_lineProcess (node : CanobjQueueNodeT) (dst : Nat) (m : Memory) :
    (lineProcess node.line dst m).1 = 0 ∧
      VciCanObj.read (lineProcess node.line dst m).2 dst = node.frame := by
  refine ⟨lineProcess_fst_eq_zero.mpr (by rw [accepts, node.payload?_line]; rfl), ?_⟩
  rw [VciCanObj.read, readBytes_lineProcess node.payload?_line, decodeHex_hexText,
    List.take_of_length_le (by rw [VciCanObj.length_bytes]), VciCanObj.ofBytes_bytes]

/-- For every number of rounds and whatever the ticks are, `pubSimuFunc` runs
    on: no assertion of the queue and no `CHECK` fails.  Ten events are
    dispatched in each round, none is left behind, and the queue needs ten
    buffers at most.  The `k`-th line has number `k`, and a client that
    decodes it finds `k` in the data of the frame. -/
theorem simulated_publishes (sendBuff : Memory) (rounds : List (Fin 10 → UInt64)) :
    ∃ p, rounds.foldlM PubSimu.round (.new sendBuff) = some p ∧
      p.dispatched.length = 10 * rounds.length ∧ p.queue.queueList = [] ∧
      p.queue.freeList.length ≤ 10 ∧
      ∀ k node, p.dispatched[k]? = some node → node.sendCount = UInt64.ofNat k ∧
        ∀ dst m, (lineProcess node.line dst m).1 = 0 ∧
          ofLeBytes (VciCanObj.read (lineProcess node.line dst m).2 dst).data.toList =
            k % 2 ^ 64 := by
  obtain ⟨p, n, hfold, hn, hlen, hinv⟩ :=
    PubSimu.inv_rounds (PubSimu.inv_new sendBuff) (Nat.zero_le 10) rounds
  refine ⟨p, hfold, by simpa [PubSimu.new] using hlen, ?_, ?_, fun k node hk => ?_⟩
  · rw [hinv.queue]
    rfl
  · rw [hinv.queue]
    simpa [EventQueue.ofEvents] using hn
  · obtain ⟨hcount, hframe⟩ := hinv.counted k node (by simpa using hk)
    refine ⟨hcount, fun dst m => ?_⟩
    obtain ⟨hzero, hread⟩ := node.read_lineProcess dst m
    refine ⟨hzero, ?_⟩
    rw [hread, hframe, ofLeBytes_simuObj]
    simp

end LibControlCan
