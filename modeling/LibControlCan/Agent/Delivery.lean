import LibControlCan.Agent.Dispatch

/-! # From the agent's bus to the slots of a client

    `Link` follows the bytes of one session to the slots that its client
    returns, and `delivery_in_order` is the result on the whole path, from
    the frames that the agent reads on. -/

namespace LibControlCan

open ByteMemory Lines

namespace Deployment

/-! ## Section 1: What a client returns -/

/-- Session `i`, its client, and the connection between them. -/
structure Link (d : Deployment) (i : Nat) : Prop where
  session : (d.sessions i).Inv
  client : (d.clients i).Inv
  stream : vals (d.clients i).received <+: (d.sessions i).sent

theorem link_step {d d' : Deployment} {ev : DeploymentEvent} (hlink : ∀ i, d.Link i)
    (h : d.step ev = some d') (i : Nat) : d'.Link i := by
  have hkeep := hlink i
  have hmove := move_of_step h i
  rcases clients_of_step h i with hsame | ⟨cev, hin, hc, hsessions⟩
  · refine ⟨hmove.inv hkeep.session, ?_, ?_⟩
    · rw [hsame]
      exact hkeep.client
    · rw [hsame]
      exact hkeep.stream.trans hmove.sent_isPrefix
  · refine ⟨hmove.inv hkeep.session, Client.inv_step hkeep.client hc, ?_⟩
    -- The guard of the step is what the connection promises.
    rw [hsessions]
    rcases Client.received_step hc with ⟨rev, rfl, heq⟩ | heq
    · rw [heq]
      exact List.isPrefixOf_iff_prefix.mp hin
    · rw [heq]
      exact hkeep.stream

end Deployment

/-- The slots of the first lines of some nodes hold their frames. -/
theorem slots_isPrefix {lines : List (List RxByte)} {slots : List (List UInt8)}
    {nodes : List CanobjQueueNodeT} (hslots : List.Forall₂ Client.SlotOf lines slots)
    (h : lines.map vals <+: nodes.map CanobjQueueNodeT.line) :
    slots <+: nodes.map fun node => node.frame.bytes := by
  induction hslots generalizing nodes with
  | nil => exact List.nil_prefix
  | cons hslot _ ih =>
    cases nodes with
    | nil => simp at h
    | cons node nodes =>
      rw [List.map_cons, List.map_cons, List.cons_prefix_cons] at h
      have hframe := hslot _ (h.1 ▸ node.payload?_line)
      rw [decodeHex_hexText, List.take_of_length_le (by simp)] at hframe
      rw [List.map_cons, List.cons_prefix_cons]
      exact ⟨hframe, ih h.2⟩

/-- The texts of nodes are their lines, joined. -/
theorem texts_eq_joinLines (nodes : List CanobjQueueNodeT) :
    Session.texts nodes = joinLines 10 (nodes.map CanobjQueueNodeT.line) := by
  induction nodes with
  | nil => rfl
  | cons node nodes ih => simp [ih, node.cstr_eq]

/-- The client's slots are the frames of the first nodes accepted. -/
theorem Deployment.Link.returned_isPrefix {d : Deployment} {i : Nat} (hlink : d.Link i) :
    (d.clients i).returned <+: (d.sessions i).accepted.map fun node => node.frame.bytes := by
  -- Consumed, received, sent, accepted: each is a front of the next.
  refine slots_isPrefix hlink.client.slots ?_
  have hconsumed : vals (d.clients i).consumed <+: Session.texts (d.sessions i).accepted := by
    have hfront : vals (d.clients i).consumed <+: vals (d.clients i).received := by
      rw [← hlink.client.stream]
      simp [vals]
    exact hfront.trans (hlink.stream.trans hlink.session.sent_isPrefix)
  have hcut : cut (· == 10) (vals (d.clients i).consumed) =
      ((d.clients i).handed.map vals, []) := by
    have hmap := cut_map (p := fun b : UInt8 => b == 10) RxByte.val (d.clients i).consumed
    have hnl : ((fun b : UInt8 => b == 10) ∘ RxByte.val) = isNewline := rfl
    rw [hnl, hlink.client.handed] at hmap
    exact hmap
  have hjoined : lines (· == 10) (Session.texts (d.sessions i).accepted) =
      (d.sessions i).accepted.map CanobjQueueNodeT.line := by
    rw [texts_eq_joinLines, lines, cut_joinLines (by decide)]
    intro l hl
    obtain ⟨node, -, rfl⟩ := List.mem_map.mp hl
    intro c hc
    have hne : c ≠ 10 := fun h10 => node.newline_not_mem_line (h10 ▸ hc)
    simpa using hne
  -- Both ends are cut into lines at the same newlines.
  have hfirst := lines_isPrefix (by rw [hcut]) hconsumed
  rwa [lines, hcut, hjoined] at hfirst

/-! ## Section 2: Whole runs -/

/-- The agent before the first frame, with no session started and with
    clients that have made no call. -/
def Deployment.new (sendBuff : Memory) (nets : Nat → CanImpCanNet) : Deployment :=
  { rx := .new sendBuff, listeners := [], sessions := fun _ => .new,
    clients := fun i => .new (nets i) }

def deploymentSystem : LTS.System Deployment DeploymentEvent where
  init d := ∃ sendBuff nets, (∀ i, (nets i).connected = true ∧ (nets i).rxBuff = []) ∧
    d = .new sendBuff nets
  step := Deployment.step

/-- The invariant of the whole system. -/
structure Deployment.Inv (d : Deployment) : Prop where
  rx : d.rx.Inv
  registry : d.Registry
  offered : ∀ i, Offered d.rx i (d.sessions i)
  link : ∀ i, d.Link i

theorem Deployment.inv_of_reachable {d : Deployment} (h : deploymentSystem.Reachable d) :
    d.Inv := by
  refine deploymentSystem.reachable_invariant ?_ ?_ h
  · rintro _ ⟨sendBuff, nets, hnets, rfl⟩
    refine ⟨RxThread.inv_new sendBuff, ?_, ?_, ?_⟩
    · exact ⟨List.nodup_nil, fun i => by simp [Deployment.new, Session.new],
        fun i hr => (by cases hr), List.nodup_nil, fun i hi => (by cases hi)⟩
    · exact fun i => ⟨Nat.le_refl _, List.nil_prefix, fun hr => (by cases hr), fun _ => rfl⟩
    · exact fun i => ⟨Session.inv_new, Client.inv_new (hnets i).2, List.nil_prefix⟩
  · intro d ev d' hinv hs
    exact ⟨rx_step hinv.rx hs, registry_step hinv.registry hs,
      offered_step hinv.registry hinv.rx hinv.offered hs, link_step hinv.link hs⟩

/-- **Delivery.** In every state that any interleaving can reach, for every
    session `i` and its client:
    the slots returned so far hold, byte for byte and in order, the frames
    of the first nodes that the session accepted;
    the nodes offered to the session are the events dispatched since it
    joined, without a gap, and all of them as long as it listens;
    the `k`-th event dispatched has number `k` and is the `k`-th frame that
    the agent read. -/
theorem delivery_in_order {d : Deployment} (h : deploymentSystem.Reachable d) (i : Nat) :
    ((d.clients i).returned <+: (d.sessions i).accepted.map fun node => node.frame.bytes) ∧
    (d.sessions i).offers.map Prod.fst <+: d.rx.dispatched.drop (d.sessions i).joined ∧
    ((d.sessions i).registered = true → i ∉ d.rx.toVisit →
      (d.sessions i).offers.map Prod.fst = d.rx.dispatched.drop (d.sessions i).joined) ∧
    ∀ k node, d.rx.dispatched[k]? = some node →
      node.sendCount = UInt64.ofNat k ∧ d.rx.frames[k]? = some node.frame := by
  have hinv := Deployment.inv_of_reachable h
  refine ⟨(hinv.link i).returned_isPrefix, ?_, ?_, ?_⟩
  · exact (List.prefix_append _ _).trans (hinv.offered i).isPrefix
  · intro hr hnot
    have hall := (hinv.offered i).complete hr
    rwa [RxThread.current_of_not_mem hnot, List.append_nil] at hall
  · intro k node hk
    have hk' : (d.rx.dispatched ++ d.rx.queue)[k]? = some node := by
      rw [List.getElem?_append_left (List.getElem?_eq_some_iff.mp hk).1, hk]
    refine ⟨hinv.rx.numbers k node hk', ?_⟩
    rw [← hinv.rx.frames, List.getElem?_map, hk']
    rfl

/-- One frame on its way from the bus to the slot of a client, whose read
    gets the line in two pieces. -/
def oneFrame (frame : VciCanObj) : List DeploymentEvent :=
  let line := frameLine 0 7 frame ++ [10]
  [.start 0 false, .canRx [(7, frame)], .dispatch, .visit false, .finish,
    .session 0 .transpose, .session 0 .transpose, .session 0 (.send 0 93),
    .session 0 (.written 0 .ok), .client 0 (.call 0 1 10 fun _ => 0),
    .client 0 (.io (.arrive (line.take 40))), .client 0 (.io .runRead),
    .client 0 (.io (.arrive (line.drop 40))), .client 0 (.io .runRead),
    .client 0 (.io .runTimer), .client 0 .ret]

theorem delivery_in_order_sample :
    ∃ d, deploymentSystem.Reachable d ∧ (d.clients 0).returned = [VciCanObj.zero.bytes] ∧
      ((d.clients 0).returned <+: (d.sessions 0).accepted.map fun node => node.frame.bytes) := by
  have hrun : (deploymentSystem.exec (.new (fun _ => 0) fun _ => freshClient)
      (oneFrame .zero)).map (fun d => (d.clients 0).returned) = some [VciCanObj.zero.bytes] := by
    decide +kernel
  obtain ⟨d, hd, hret⟩ := Option.map_eq_some_iff.mp hrun
  have hreach : deploymentSystem.Reachable d :=
    LTS.System.Reachable.exec _
      (LTS.System.ReachableBy.init ⟨_, _, fun _ => ⟨rfl, rfl⟩, rfl⟩) hd
  exact ⟨d, hreach, hret, (delivery_in_order hreach 0).1⟩

end LibControlCan