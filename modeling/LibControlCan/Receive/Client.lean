import LibControlCan.Receive.Call

/-! # A client over its successive calls

    A client calls `VCI_Receive` again and again on one connection.  Here
    the events of the calls are steps of a state machine, so that they can
    be interleaved with those of the agent.

    `Client.inv_step` says that the calls together read the stream line by
    line, and that each returned slot holds the frame of its line. -/

namespace LibControlCan

open ByteMemory Asio Lines

/-! ## Section 1: The client -/

/-- A call of `VCI_Receive` that is inside `io_context_.run()`. -/
structure ActiveCall where
  pReceive : Nat
  loop : ReadLoop
  /-- Ghost: the memory that the call found. -/
  mem : Memory

/-- The client side of a connection. -/
structure Client where
  net : CanImpCanNet
  call : Option ActiveCall
  /-- Ghosts: the bytes taken from the socket so far, and those consumed
      by the calls that have returned. -/
  received : List RxByte
  consumed : List RxByte
  /-- Ghost: the lines handed to `line_process` by these calls. -/
  handed : List (List RxByte)
  /-- Ghost: the object bytes of the slots that they returned. -/
  returned : List (List UInt8)

/-- What a client can do next. -/
inductive ClientEvent where
  /-- Call `VCI_Receive`. -/
  | call (pReceive len : Nat) (waitTime : Int) (m : Memory)
  /-- An event inside `io_context_.run()`. -/
  | io (ev : ReadEvent)
  /-- The call returns. -/
  | ret

/-- The first `num` slots of the array. -/
def Received.slots (pReceive : Nat) (r : Received) : List (List UInt8) :=
  (List.range r.num).map fun k => readBytes r.mem (pReceive + VciCanObj.size * k) VciCanObj.size

namespace Client

/-- A client that has made no call yet. -/
def new (net : CanImpCanNet) : Client :=
  { net, call := none, received := [], consumed := [], handed := [], returned := [] }

/-- One event. -/
def step (c : Client) : ClientEvent → Option Client
  | .call pReceive len waitTime m =>
    if c.call.isNone ∧ c.net.connected ∧ 0 < len then
      let loop := ReadLoop.start c.net.rxBuff c.net.conn pReceive len waitTime m
      some { c with call := some ⟨pReceive, loop, m⟩ }
    else none
  | .io ev =>
    c.call.bind fun a => (a.loop.step ev).map fun loop =>
      { c with
        call := some { a with loop }
        received := c.received ++ onConn c.net.conn ev.bytes }
  | .ret =>
    c.call.bind fun a =>
      if a.loop.done then
        let r := receiveReturn c.net a.pReceive a.loop
        some
          { net := r.net
            call := none
            received := c.received
            consumed := c.consumed ++ r.consumed
            handed := c.handed ++ r.calls.map Prod.fst
            returned := c.returned ++ r.slots a.pReceive }
      else none

/-- Everything that `step` can do, with its guards. -/
inductive Transition (c : Client) : ClientEvent → Client → Prop where
  | call (p len : Nat) (waitTime : Int) (m : Memory) : c.call = none → c.net.connected = true →
      0 < len →
      Transition c (.call p len waitTime m)
        { c with call := some ⟨p, .start c.net.rxBuff c.net.conn p len waitTime m, m⟩ }
  | io (ev : ReadEvent) (a : ActiveCall) (loop : ReadLoop) : c.call = some a →
      a.loop.step ev = some loop →
      Transition c (.io ev)
        { c with
          call := some { a with loop }
          received := c.received ++ onConn c.net.conn ev.bytes }
  | ret (a : ActiveCall) : c.call = some a → a.loop.done = true →
      Transition c .ret
        { net := (receiveReturn c.net a.pReceive a.loop).net
          call := none
          received := c.received
          consumed := c.consumed ++ (receiveReturn c.net a.pReceive a.loop).consumed
          handed := c.handed ++ (receiveReturn c.net a.pReceive a.loop).calls.map Prod.fst
          returned := c.returned ++ (receiveReturn c.net a.pReceive a.loop).slots a.pReceive }

theorem transition_of_step {c c' : Client} {ev : ClientEvent} (h : c.step ev = some c') :
    Transition c ev c' := by
  cases ev with
  | call p len waitTime m =>
    by_cases hg : c.call.isNone = true ∧ c.net.connected = true ∧ 0 < len
    · simp only [step, hg, and_self, if_true, Option.some.injEq] at h
      subst h
      exact .call p len waitTime m (Option.isNone_iff_eq_none.mp hg.1) hg.2.1 hg.2.2
    · rw [step, if_neg hg] at h
      cases h
  | io ev =>
    obtain ⟨a, ha, hstep⟩ := Option.bind_eq_some_iff.mp h
    obtain ⟨loop, hloop, rfl⟩ := Option.map_eq_some_iff.mp hstep
    exact .io ev a loop ha hloop
  | ret =>
    obtain ⟨a, ha, hret⟩ := Option.bind_eq_some_iff.mp h
    by_cases hdone : a.loop.done = true
    · simp only [hdone, if_true, Option.some.injEq] at hret
      subst hret
      exact .ret a ha hdone
    · simp [hdone] at hret

/-! ## Section 2: What the calls read -/

/-- The slot holds what `line_process` decodes, if it accepts the line. -/
def SlotOf (line : List RxByte) (slot : List UInt8) : Prop :=
  ∀ pl, payload? (vals line) = some pl → slot = (decodeHex pl).take VciCanObj.size

/-- The bytes received that no finished call has consumed. -/
def pending (c : Client) : List RxByte :=
  match c.call with
  | none => c.net.rxBuff
  | some a => c.net.rxBuff ++ a.loop.arrived

/-- The invariant of a client. -/
structure Inv (c : Client) : Prop where
  stream : c.consumed ++ c.pending = c.received
  handed : cut isNewline c.consumed = (c.handed, [])
  slots : List.Forall₂ SlotOf c.handed c.returned
  call : ∀ a, c.call = some a →
    a.loop.Inv c.net.rxBuff a.pReceive a.mem ∧ a.loop.conn = c.net.conn

theorem inv_new {net : CanImpCanNet} (h : net.rxBuff = []) : (new net).Inv :=
  ⟨h, rfl, .nil, fun _ hcall => by cases hcall⟩

/-- The slots of a finished call hold the frames of its lines. -/
theorem slots_of_spec {p len : Nat} {stream : List RxByte} {m : Memory} {r : Received}
    (hspec : r.Spec (some p) len stream m) :
    List.Forall₂ SlotOf (r.calls.map Prod.fst) (r.slots p) := by
  have hslots : ∀ j d, r.calls[j]? = some d → d.2 = p + VciCanObj.size * j := by
    intro j d hd
    simpa using (hspec.slots j d hd).symm
  rw [List.forall₂_iff_get]
  refine ⟨by simp [Received.slots, hspec.count], ?_⟩
  intro k hk hk' pl hpl
  rw [List.length_map] at hk
  have hcall : r.calls[k]? = some r.calls[k] := List.getElem?_eq_getElem hk
  simp only [List.get_eq_getElem, List.getElem_map] at hpl
  simp only [Received.slots, List.get_eq_getElem, List.getElem_map, List.getElem_range]
  rw [hspec.mem, readBytes_replay_slot hslots hcall hpl]

/-- **Step lemma.** -/
theorem inv_step {c c' : Client} {ev : ClientEvent} (hinv : c.Inv) (h : c.step ev = some c') :
    c'.Inv := by
  cases transition_of_step h with
  | call p len waitTime m hnone _ hlen =>
    obtain ⟨-, hconn, harr⟩ := ReadLoop.frame_start c.net.rxBuff c.net.conn p len waitTime m
    refine ⟨?_, hinv.handed, hinv.slots, ?_⟩
    · rw [← hinv.stream]
      simp [pending, hnone, harr]
    · rintro _ ⟨⟩
      exact ⟨ReadLoop.inv_start _ len waitTime, hconn⟩
  | io ev a loop hcall hloop =>
    -- Only the network adds to the stream, on the connection of the client.
    obtain ⟨hread, hconn⟩ := hinv.call a hcall
    have hframe := ReadLoop.frame_step hloop
    refine ⟨?_, hinv.handed, hinv.slots, ?_⟩
    · rw [← hinv.stream]
      simp [pending, hcall, hframe.arrived, hconn]
    · rintro _ ⟨⟩
      exact ⟨ReadLoop.inv_step hread hloop, hframe.conn.trans hconn⟩
  | ret a hcall hdone =>
    obtain ⟨hread, -⟩ := hinv.call a hcall
    -- What the call leaves in `rx_buff_` is what the next call begins with.
    obtain ⟨hspec, -⟩ := receiveReturn_spec hread hdone c.net
    refine ⟨?_, ?_, ?_, fun _ hnone => by cases hnone⟩
    · rw [← hinv.stream]
      simp [pending, hcall, hspec.stream]
    · rw [cut_append, hinv.handed, List.nil_append, hspec.handed]
    · exact List.rel_append hinv.slots (slots_of_spec hspec)

/-- The bytes received only grow, by what the event brings in. -/
theorem received_step {c c' : Client} {ev : ClientEvent} (h : c.step ev = some c') :
    (∃ rev, ev = .io rev ∧ vals c'.received = vals c.received ++ rev.bytes) ∨
      c'.received = c.received := by
  cases transition_of_step h with
  | call => exact Or.inr rfl
  | io rev a loop _ _ =>
    refine Or.inl ⟨rev, rfl, ?_⟩
    simp [vals, onConn, Function.comp_def]
  | ret => exact Or.inr rfl

end Client

end LibControlCan
