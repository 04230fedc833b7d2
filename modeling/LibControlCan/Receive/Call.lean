import LibControlCan.Receive.Invariant

/-! # Results on whole calls of VCI_Receive

    `vciReceive_spec` is the specification of one call: out of what was in
    the buffer and what came in, it reads the first `len` complete lines and
    hands the `k`-th of them to slot `k`.  From it follow

    * the frame of a call: exactly which schedules keep its stores inside
      the array of the caller (`receive_stays_in_buffer_iff`);
    * what the returned slots hold (`receive_slots_decoded_iff`);
    * conservation of lines over any sequence of calls on one connection
      (`receive_conserves_lines`). -/

namespace LibControlCan

open ByteMemory Asio Lines Bytes

/-! ## Section 1: The specification of one call -/

/-- The two ways through `VCI_Receive`. -/
theorem vciReceive_cases {net : CanImpCanNet} {pReceive : Option Nat} {len : Nat} {waitTime : Int}
    {sched : List ReadEvent} {m : Memory} {r : Received}
    (h : vciReceive net pReceive len waitTime sched m = some r) :
    ((pReceive = none ∨ net.connected = false ∨ len = 0) ∧ sched = [] ∧
      r = ⟨0, net, m, [], [], []⟩) ∨
    (∃ p s, pReceive = some p ∧ net.connected = true ∧ 0 < len ∧
      readSystem.exec (.start net.rxBuff net.conn p len waitTime m) sched = some s ∧
      s.done = true ∧ r = receiveReturn net p s) := by
  unfold vciReceive at h
  cases pReceive with
  | none =>
    by_cases hs : sched = []
    · simp only [hs, if_true, Option.some.injEq] at h
      exact Or.inl ⟨Or.inl rfl, hs, h.symm⟩
    · simp [hs] at h
  | some p =>
    by_cases hearly : (!net.connected || len == 0) = true
    · by_cases hs : sched = []
      · simp only [hearly, hs, if_true, Option.some.injEq] at h
        refine Or.inl ⟨Or.inr ?_, hs, h.symm⟩
        simpa using hearly
      · simp [hearly, hs] at h
    · simp only [hearly, Bool.false_eq_true, if_false, Option.bind_eq_some_iff] at h
      obtain ⟨s, hs, hdone⟩ := h
      by_cases hd : s.done = true
      · simp only [hd, if_true, Option.some.injEq] at hdone
        simp only [Bool.or_eq_true, Bool.not_eq_true', beq_iff_eq, not_or, Bool.not_eq_false]
          at hearly
        exact Or.inr ⟨p, s, rfl, hearly.1, by omega, hs, hd, hdone.symm⟩
      · simp [hd] at hdone

/-- When `io_context_.run()` returns, the reading is over: the loop after
    it finds no line to hand over. -/
theorem postProcess_of_done {rxBuff₀ : List RxByte} {p : Nat} {m₀ : Memory} {s : ReadLoop}
    (hinv : s.Inv rxBuff₀ p m₀) (hdone : s.done = true) (connected : Bool) (q : Nat) :
    s.postProcess connected q (s.len - s.readCnt) s.readCnt = (s.readCnt, s) := by
  have hread : s.read = .idle := by
    simp only [ReadLoop.done, Bool.and_eq_true, beq_iff_eq] at hdone
    exact hdone.1
  have hphase := hinv.phase
  rw [ReadLoop.Phase, hread] at hphase
  -- Either no round is left, or the first round finds no newline.
  rcases hphase with hall | ⟨hlt, hfree⟩
  · rw [hall, Nat.sub_self]
    rfl
  · obtain ⟨fuel, hfuel⟩ : ∃ fuel, s.len - s.readCnt = fuel + 1 := ⟨s.len - s.readCnt - 1, by omega⟩
    rw [hfuel]
    simp [ReadLoop.postProcess, findLine_eq_none.mpr hfree]

/-- The calls of `line_process` for a stream: the first `len` lines, the
    `k`-th of them to slot `k`. -/
def handedCalls (p len : Nat) (stream : List RxByte) : List (List RxByte × Nat) :=
  ((lines isNewline stream).take len).mapIdx fun k line => (line, p + VciCanObj.size * k)

/-- What a call leaves, in terms of the bytes `stream` that were in the
    buffer or came in during the call. -/
structure Received.Spec (pReceive : Option Nat) (len : Nat) (stream : List RxByte) (m : Memory)
    (r : Received) : Prop where
  stream : r.consumed ++ r.net.rxBuff = stream
  handed : cut isNewline r.consumed = (r.calls.map Prod.fst, [])
  slots : ∀ k c, r.calls[k]? = some c → pReceive.map (· + VciCanObj.size * k) = some c.2
  count : r.num = r.calls.length
  bound : r.num ≤ len
  mem : r.mem = replay r.calls m

/-- A call that stopped for want of lines, or with `len` of them, has
    handed over the first `len` lines of the stream. -/
theorem Received.Spec.calls_eq {p len : Nat} {stream : List RxByte} {m : Memory} {r : Received}
    (hspec : r.Spec (some p) len stream m) (hend : r.num = len ∨ Free isNewline r.net.rxBuff) :
    r.calls = handedCalls p len stream := by
  have hlines : lines isNewline stream = r.calls.map Prod.fst ++ lines isNewline r.net.rxBuff := by
    rw [← hspec.stream, lines_of_consumed (by rw [hspec.handed]), lines, hspec.handed]
  have htake : (lines isNewline stream).take len = r.calls.map Prod.fst := by
    have hcount := hspec.count
    have hbound := hspec.bound
    rcases hend with hall | hfree
    · rw [hlines, List.take_left' (by rw [List.length_map]; omega)]
    · have hnone : lines isNewline r.net.rxBuff = [] := by rw [lines, cut_of_free hfree]
      rw [hlines, hnone, List.append_nil, List.take_of_length_le (by rw [List.length_map]; omega)]
  rw [handedCalls, htake]
  apply List.ext_getElem?
  intro k
  rw [List.getElem?_mapIdx, List.getElem?_map]
  cases hk : r.calls[k]? with
  | none => rfl
  | some c =>
    have hslot := hspec.slots k c hk
    simp only [Option.map_some, Option.some.injEq] at hslot
    simp [hslot]

/-- What the call returns after `io_context_.run()`. -/
theorem receiveReturn_of_done {rxBuff₀ : List RxByte} {p : Nat} {m : Memory} {s : ReadLoop}
    (hinv : s.Inv rxBuff₀ p m) (hdone : s.done = true) (net : CanImpCanNet) :
    receiveReturn net p s =
      { num := s.readCnt
        net := { net with
          connected := net.connected && !s.dead
          sockOpen := net.sockOpen && !s.dead
          rxBuff := s.rxBuff }
        mem := s.mem, arrived := s.arrived, consumed := s.consumed, calls := s.calls } := by
  simp only [receiveReturn, postProcess_of_done hinv hdone]

theorem receiveReturn_spec {rxBuff₀ : List RxByte} {p : Nat} {m : Memory} {s : ReadLoop}
    (hinv : s.Inv rxBuff₀ p m) (hdone : s.done = true) (net : CanImpCanNet) :
    (receiveReturn net p s).Spec (some p) s.len (rxBuff₀ ++ s.arrived) m ∧
      ((receiveReturn net p s).num = s.len ∨
        Free isNewline (receiveReturn net p s).net.rxBuff) := by
  have hread : s.read = .idle := by
    simp only [ReadLoop.done, Bool.and_eq_true, beq_iff_eq] at hdone
    exact hdone.1
  have hphase : s.readCnt = s.len ∨ (s.readCnt < s.len ∧ Free isNewline s.rxBuff) := by
    have hphase := hinv.phase
    rwa [ReadLoop.Phase, hread] at hphase
  have hcount : s.calls.length = s.readCnt := by
    simpa using congrArg List.length hinv.progress.slots
  rw [receiveReturn_of_done hinv hdone]
  refine ⟨⟨?_, hinv.progress.handed, ?_, hcount.symm, ?_, hinv.progress.mem⟩,
    hphase.imp id And.right⟩
  · simpa [hread, ReadOp.chunk] using hinv.progress.stream
  · intro k c hk
    have hlt : k < s.readCnt := by
      rw [← hcount]
      exact (List.getElem?_eq_some_iff.mp hk).1
    have hslot := congrArg (fun l => l[k]?) hinv.progress.slots
    have hk' : s.calls[k]? = some c := hk
    simpa [hk', hlt] using hslot.symm
  · show s.readCnt ≤ s.len
    omega

/-- **Specification of `VCI_Receive`.** -/
theorem vciReceive_spec {net : CanImpCanNet} {pReceive : Option Nat} {len : Nat} {waitTime : Int}
    {sched : List ReadEvent} {m : Memory} {r : Received}
    (h : vciReceive net pReceive len waitTime sched m = some r) :
    r.Spec pReceive len (net.rxBuff ++ arrivals net.conn sched) m ∧
      (net.connected = true → ∀ p, pReceive = some p →
        r.calls = handedCalls p len (net.rxBuff ++ arrivals net.conn sched)) := by
  rcases vciReceive_cases h with ⟨hearly, rfl, rfl⟩ | ⟨p, s, rfl, hconn, hlen, hs, hdone, rfl⟩
  · refine ⟨⟨by simp [arrivals], rfl, by simp, rfl, Nat.zero_le _, rfl⟩, ?_⟩
    intro hconn p hp
    obtain rfl : len = 0 := by simpa [hp, hconn] using hearly
    simp [handedCalls]
  · obtain ⟨hlen₀, hconn₀, harr₀⟩ := ReadLoop.frame_start net.rxBuff net.conn p len waitTime m
    have hframe := ReadLoop.frame_exec hs
    obtain ⟨hspec, hend⟩ := receiveReturn_spec (ReadLoop.inv_exec hs) hdone net
    have hslen : s.len = len := hframe.len.trans hlen₀
    have harr : s.arrived = arrivals net.conn sched := by
      rw [hframe.arrived, harr₀, hconn₀, List.nil_append]
    rw [hslen, harr] at hspec
    rw [hslen] at hend
    refine ⟨hspec, ?_⟩
    rintro _ _ ⟨⟩
    exact hspec.calls_eq hend

/-! ## Section 2: The frame of a call -/

theorem replay_eq_writeAll (calls : List (List RxByte × Nat)) (m : Memory) :
    replay calls m = writeAll (calls.flatMap fun c => lineStores (vals c.1) c.2) m := by
  induction calls generalizing m with
  | nil => rfl
  | cons c calls ih =>
    rw [List.flatMap_cons, writeAll_append, ← ih]
    show replay calls (lineProcess (vals c.1) c.2 m).2 = _
    rw [lineProcess_eq]

/-- The memory that a call leaves, for the memory that it finds. -/
def receiveMem (net : CanImpCanNet) (p len : Nat) (waitTime : Int) (sched : List ReadEvent)
    (m : Memory) : Memory :=
  ((vciReceive net (some p) len waitTime sched m).map Received.mem).getD m

/-- A schedule that is a run of the call is one whatever the memory holds. -/
theorem vciReceive_of_mem {net : CanImpCanNet} {pReceive : Option Nat} {len : Nat}
    {waitTime : Int} {sched : List ReadEvent} {m₀ : Memory} {r₀ : Received}
    (h : vciReceive net pReceive len waitTime sched m₀ = some r₀) (m : Memory) :
    ∃ r, vciReceive net pReceive len waitTime sched m = some r := by
  rcases vciReceive_cases h with ⟨hearly, rfl, -⟩ | ⟨p, s, rfl, hconn, hlen, hs, hdone, -⟩
  · refine ⟨⟨0, net, m, [], [], []⟩, ?_⟩
    unfold vciReceive
    rcases pReceive with _ | p
    · rfl
    · have hguard : (!net.connected || len == 0) = true := by simpa using hearly
      simp [hguard]
  · obtain ⟨m', hm'⟩ := ReadLoop.exec_withMem m hs
    refine ⟨receiveReturn net p (s.withMem m'), ?_⟩
    have hguard : (!net.connected || len == 0) = false := by
      simp [hconn, Nat.pos_iff_ne_zero.mp hlen]
    have hstart : (ReadLoop.start net.rxBuff net.conn p len waitTime m₀).withMem m =
        .start net.rxBuff net.conn p len waitTime m := by
      unfold ReadLoop.start
      exact congrArg (fun s : ReadLoop => { s with timer := .armed waitTime })
        (ReadLoop.asyncRead_withMem m _).symm
    have hdone' : (s.withMem m').done = true := hdone
    simp only [vciReceive, hguard, Bool.false_eq_true, if_false]
    rw [← hstart, hm']
    simp [hdone']

/-- The call performs the stores of the lines it hands over. -/
theorem receiveMem_eq {net : CanImpCanNet} {p len : Nat} {waitTime : Int}
    {sched : List ReadEvent} {m₀ : Memory} {r₀ : Received}
    (h : vciReceive net (some p) len waitTime sched m₀ = some r₀) (hconn : net.connected = true) :
    receiveMem net p len waitTime sched =
      writeAll ((handedCalls p len (net.rxBuff ++ arrivals net.conn sched)).flatMap
        fun c => lineStores (vals c.1) c.2) := by
  funext m
  obtain ⟨r, hr⟩ := vciReceive_of_mem h m
  obtain ⟨hspec, hcalls⟩ := vciReceive_spec hr
  rw [receiveMem, hr, ← hcalls hconn p rfl, ← replay_eq_writeAll]
  exact hspec.mem

/-- Every line that the call hands over fits into what its slot and the
    slots after it have room for. -/
def LinesFit (net : CanImpCanNet) (len : Nat) (sched : List ReadEvent) : Prop :=
  net.connected = true → ∀ k line, k < len →
    (lines isNewline (net.rxBuff ++ arrivals net.conn sched))[k]? = some line →
      ∀ pl, IsFrameLine (vals line) pl →
        VciCanObj.size * k + pl.length / 2 ≤ VciCanObj.size * len

theorem mem_handedCalls {p len : Nat} {stream : List RxByte} {c : List RxByte × Nat} :
    c ∈ handedCalls p len stream ↔
      ∃ k, k < len ∧ (lines isNewline stream)[k]? = some c.1 ∧ c.2 = p + VciCanObj.size * k := by
  rw [List.mem_iff_getElem?]
  simp only [handedCalls, List.getElem?_mapIdx, List.getElem?_take, Option.map_eq_some_iff]
  constructor
  · rintro ⟨k, line, hline, rfl⟩
    by_cases hk : k < len
    · exact ⟨k, hk, by simpa [hk] using hline, rfl⟩
    · simp [hk] at hline
  · rintro ⟨k, hk, hline, hslot⟩
    exact ⟨k, c.1, by simpa [hk] using hline, by rw [← hslot]⟩

/-- **Frame of `VCI_Receive`.** -/
theorem receiveMem_modifiesOnly {net : CanImpCanNet} {p len : Nat} {waitTime : Int}
    {sched : List ReadEvent} {m₀ : Memory} {r₀ : Received}
    (h : vciReceive net (some p) len waitTime sched m₀ = some r₀) :
    ModifiesOnly (receiveMem net p len waitTime sched)
        (Set.Ico p (p + VciCanObj.size * len)) ↔ LinesFit net len sched := by
  by_cases hconn : net.connected = true
  · rw [receiveMem_eq h hconn, modifiesOnly_writeAll]
    simp only [List.mem_flatMap, LinesFit, hconn, true_imp_iff]
    constructor
    · intro hcov k line hk hline pl hpl
      have hmem : (line, p + VciCanObj.size * k) ∈
          handedCalls p len (net.rxBuff ++ arrivals net.conn sched) :=
        mem_handedCalls.mpr ⟨k, hk, hline, rfl⟩
      have hwithin := (lineStores_within (Nat.le_add_right p (VciCanObj.size * k))).mp
        (fun w hw => hcov w ⟨_, hmem, hw⟩) pl hpl
      omega
    · rintro hfit w ⟨c, hc, hw⟩
      obtain ⟨k, hk, hline, hslot⟩ := mem_handedCalls.mp hc
      have hlo : p ≤ c.2 := by omega
      refine (lineStores_within hlo).mpr ?_ w hw
      intro pl hpl
      have := hfit k c.1 hk hline pl hpl
      omega
  · -- A client that is not connected returns at once.
    have hskip : receiveMem net p len waitTime sched = id := by
      funext m
      obtain ⟨r, hr⟩ := vciReceive_of_mem h m
      rcases vciReceive_cases hr with ⟨-, -, rfl⟩ | ⟨_, _, _, hconn', _⟩
      · simp [receiveMem, hr]
      · exact absurd hconn' hconn
    rw [hskip]
    exact iff_of_true (fun _ _ _ => rfl) (fun hconn' => absurd hconn' hconn)

/-- The stores of `line_process` and of `VCI_Receive` stay where they
    belong exactly when no overlong payload comes in. -/
theorem receive_stays_in_buffer_iff (str : List UInt8) (dst : Nat) {net : CanImpCanNet}
    {p len : Nat} {waitTime : Int} {sched : List ReadEvent} {m₀ : Memory} {r₀ : Received}
    (h : vciReceive net (some p) len waitTime sched m₀ = some r₀) :
    (ModifiesOnly (fun m => (lineProcess str dst m).2) (Set.Ico dst (dst + VciCanObj.size)) ↔
      ∀ pl, IsFrameLine str pl → pl.length ≤ 2 * VciCanObj.size) ∧
    (ModifiesOnly (receiveMem net p len waitTime sched)
        (Set.Ico p (p + VciCanObj.size * len)) ↔ LinesFit net len sched) :=
  ⟨lineProcess_modifiesOnly str dst, receiveMem_modifiesOnly h⟩

/-- One read brings in `bs`; the call ends when it has its lines. -/
def oneRead (bs : List UInt8) : List ReadEvent := [.arrive bs, .runRead, .runTimer]

theorem receive_stays_in_buffer_iff_sample :
    (vciReceive freshClient (some 0) 1 0 (oneRead (sampleLine 48)) (fun _ => 0)).isSome = true ∧
      (ModifiesOnly (receiveMem freshClient 0 1 0 (oneRead (sampleLine 48)))
        (Set.Ico 0 (0 + VciCanObj.size * 1)) ↔
          LinesFit freshClient 1 (oneRead (sampleLine 48))) := by
  have hrun : (vciReceive freshClient (some 0) 1 0 (oneRead (sampleLine 48))
      (fun _ => 0)).isSome = true := by
    decide +kernel
  obtain ⟨r, hr⟩ := Option.isSome_iff_exists.mp hrun
  exact ⟨hrun, (receive_stays_in_buffer_iff (sampleLine 48) 0 hr).2⟩

/-- A line of 50 payload digits, received into an array of one frame,
    writes the byte behind the array. -/
theorem receive_overlong_line_overflows :
    ¬ ModifiesOnly (receiveMem freshClient 0 1 0 (oneRead (sampleLine 50)))
      (Set.Ico 0 (0 + VciCanObj.size * 1)) := by
  intro hmod
  have hbyte := hmod (fun _ => 0) 24 (by simp [VciCanObj.size])
  have hwritten : receiveMem freshClient 0 1 0 (oneRead (sampleLine 50)) (fun _ => 0) 24 = 0x11 := by
    decide +kernel
  rw [hwritten] at hbyte
  exact absurd hbyte (by decide)

/-! ## Section 3: The returned slots -/

/-- Calls at higher addresses leave what lies below them. -/
theorem readBytes_replay_below {calls : List (List RxByte × Nat)} {b n : Nat} {m : Memory}
    (h : ∀ c ∈ calls, b + n ≤ c.2) : readBytes (replay calls m) b n = readBytes m b n := by
  induction calls generalizing m with
  | nil => rfl
  | cons c calls ih =>
    have hrest := ih (m := (lineProcess (vals c.1) c.2 m).2)
      (fun d hd => h d (List.mem_cons_of_mem _ hd))
    exact hrest.trans (readBytes_lineProcess_below (h c List.mem_cons_self))

/-- A slot keeps the object of its own line: the lines after it go to
    higher slots. -/
theorem readBytes_replay_slot {calls : List (List RxByte × Nat)} {p k : Nat} {m : Memory}
    {c : List RxByte × Nat} {pl : List UInt8}
    (hslots : ∀ j d, calls[j]? = some d → d.2 = p + VciCanObj.size * j)
    (hk : calls[k]? = some c) (hpl : payload? (vals c.1) = some pl) :
    readBytes (replay calls m) (p + VciCanObj.size * k) VciCanObj.size =
      (decodeHex pl).take VciCanObj.size := by
  obtain ⟨hlt, hget⟩ := List.getElem?_eq_some_iff.mp hk
  have hsplit : calls = calls.take k ++ c :: calls.drop (k + 1) := by
    rw [← hget, List.getElem_cons_drop, List.take_append_drop]
  have habove : ∀ d ∈ calls.drop (k + 1), p + VciCanObj.size * k + VciCanObj.size ≤ d.2 := by
    intro d hd
    obtain ⟨i, hi⟩ := List.mem_iff_getElem?.mp hd
    rw [List.getElem?_drop] at hi
    rw [hslots _ d hi]
    simp only [VciCanObj.size]
    omega
  -- The calls after the `k`-th store above its slot, and the calls before it do not matter.
  rw [hsplit, replay_append]
  show readBytes (replay (calls.drop (k + 1)) (lineProcess (vals c.1) c.2 _).2) _ _ = _
  rw [readBytes_replay_below habove, ← hslots k c hk]
  exact readBytes_lineProcess hpl c.2 _

/-- Each of the returned slots holds what `line_process` decodes from a
    line that it accepts, the lines being lines of this call in the order
    of the stream. -/
def SlotsDecoded (p : Nat) (m : Memory) (r : Received) : Prop :=
  ∃ ls : List (List UInt8), ls.length = r.num ∧ ls.Sublist (r.calls.map fun c => vals c.1) ∧
    ∀ k str, ls[k]? = some str →
      (lineProcess str (p + VciCanObj.size * k) m).1 = 0 ∧
        readBytes r.mem (p + VciCanObj.size * k) VciCanObj.size =
          readBytes (lineProcess str (p + VciCanObj.size * k) m).2 (p + VciCanObj.size * k)
            VciCanObj.size

/-- The returned slots are decoded frames exactly when `line_process`
    accepts each of the first `len` lines. -/
theorem receive_slots_decoded_iff {net : CanImpCanNet} {p len : Nat} {waitTime : Int}
    {sched : List ReadEvent} {m : Memory} {r : Received}
    (h : vciReceive net (some p) len waitTime sched m = some r) :
    SlotsDecoded p m r ↔
      (net.connected = true → ∀ k line, k < len →
        (lines isNewline (net.rxBuff ++ arrivals net.conn sched))[k]? = some line →
          accepts (vals line) = true) := by
  obtain ⟨hspec, hcalls⟩ := vciReceive_spec h
  have hslots : ∀ j d, r.calls[j]? = some d → d.2 = p + VciCanObj.size * j := by
    intro j d hd
    simpa using (hspec.slots j d hd).symm
  constructor
  · rintro ⟨ls, hlen, hsub, hdec⟩ hconn k line hk hline
    -- As many lines as there were calls: none of them was rejected.
    have hall : ls = r.calls.map fun c => vals c.1 :=
      hsub.eq_of_length (by rw [hlen, hspec.count, List.length_map])
    have hmem : (line, p + VciCanObj.size * k) ∈ r.calls := by
      rw [hcalls hconn p rfl]
      exact mem_handedCalls.mpr ⟨k, hk, hline, rfl⟩
    obtain ⟨j, hj⟩ := List.mem_iff_getElem?.mp hmem
    have hzero := (hdec j (vals line) (by rw [hall, List.getElem?_map, hj]; rfl)).1
    exact lineProcess_fst_eq_zero.mp hzero
  · intro hacc
    -- The lines of the calls themselves, in order.
    refine ⟨r.calls.map fun c => vals c.1, by rw [List.length_map, hspec.count],
      List.Sublist.refl _, ?_⟩
    intro k str hstr
    rw [List.getElem?_map, Option.map_eq_some_iff] at hstr
    obtain ⟨c, hc, rfl⟩ := hstr
    have hmem : c ∈ r.calls := List.mem_of_getElem? hc
    have haccept : accepts (vals c.1) = true := by
      by_cases hconn : net.connected = true
      · rw [hcalls hconn p rfl] at hmem
        obtain ⟨j, hj, hline, -⟩ := mem_handedCalls.mp hmem
        exact hacc hconn j c.1 hj hline
      · rcases vciReceive_cases h with ⟨-, -, rfl⟩ | ⟨_, _, _, hconn', _⟩
        · simp at hmem
        · exact absurd hconn' hconn
    obtain ⟨pl, hpl⟩ := Option.isSome_iff_exists.mp haccept
    refine ⟨lineProcess_fst_eq_zero.mpr haccept, ?_⟩
    rw [hspec.mem, readBytes_replay_slot hslots hc hpl, readBytes_lineProcess hpl]

theorem receive_slots_decoded_iff_sample :
    ∃ r, vciReceive freshClient (some 0) 1 0 (oneRead (sampleLine 48)) (fun _ => 0) = some r ∧
      r.num = 1 ∧ SlotsDecoded 0 (fun _ => 0) r := by
  have hnum : (vciReceive freshClient (some 0) 1 0 (oneRead (sampleLine 48))
      (fun _ => 0)).map Received.num = some 1 := by
    decide +kernel
  obtain ⟨r, hr, hone⟩ := Option.map_eq_some_iff.mp hnum
  refine ⟨r, hr, hone, (receive_slots_decoded_iff hr).mpr ?_⟩
  have hlines : lines isNewline (freshClient.rxBuff ++ arrivals freshClient.conn
      (oneRead (sampleLine 48))) = [onConn 1 (sampleLine 48).dropLast] := by
    decide +kernel
  intro _ k line hk hline
  obtain rfl : k = 0 := by omega
  rw [hlines] at hline
  cases hline
  decide +kernel

/-- A line that is no frame line is counted like one: the call returns 1
    and leaves the slot as the caller passed it in. -/
theorem receive_counts_rejected_line :
    ∃ r, vciReceive freshClient (some 0) 1 0 (oneRead (ascii "garbage\n")) (fun _ => 7) = some r ∧
      r.num = 1 ∧ readBytes r.mem 0 VciCanObj.size = List.replicate 24 7 ∧
      ¬ SlotsDecoded 0 (fun _ => 7) r := by
  have hrun : (vciReceive freshClient (some 0) 1 0 (oneRead (ascii "garbage\n"))
      (fun _ => 7)).map (fun r => (r.num, r.calls.map (fun c => vals c.1),
        readBytes r.mem 0 VciCanObj.size)) =
      some (1, [ascii "garbage"], List.replicate 24 7) := by
    decide +kernel
  obtain ⟨r, hr, hres⟩ := Option.map_eq_some_iff.mp hrun
  simp only [Prod.mk.injEq] at hres
  obtain ⟨hnum, hcalls, hmem⟩ := hres
  refine ⟨r, hr, hnum, hmem, ?_⟩
  rintro ⟨ls, hlen, hsub, hdec⟩
  rw [hnum] at hlen
  rw [hcalls] at hsub
  have hls : ls = [ascii "garbage"] := hsub.eq_of_length hlen
  subst hls
  have hzero := (hdec 0 _ rfl).1
  rw [lineProcess_fst_eq_zero] at hzero
  exact absurd hzero (by decide +kernel)

/-! ## Section 4: Sequences of calls on one connection -/

/-- The arguments of a call and the schedule it runs under. -/
structure ReceiveCall where
  pReceive : Option Nat
  len : Nat
  waitTime : Int
  sched : List ReadEvent

/-- The client after some calls, and what they did to the stream. -/
structure ReceiveRun where
  net : CanImpCanNet
  mem : Memory
  /-- The bytes received so far. -/
  received : List RxByte
  /-- The bytes consumed from `rx_buff_` so far. -/
  consumed : List RxByte
  /-- The lines handed to `line_process` so far. -/
  handed : List (List RxByte)

/-- The call that a run makes next. -/
def ReceiveRun.call (s : ReceiveRun) (c : ReceiveCall) : Option Received :=
  vciReceive s.net c.pReceive c.len c.waitTime c.sched s.mem

/-- Calls of `VCI_Receive` on a connection that was made with an empty
    receive buffer. -/
def receiveSystem : LTS.System ReceiveRun ReceiveCall where
  init s := s.net.connected = true ∧ s.net.rxBuff = [] ∧ s.received = [] ∧ s.consumed = [] ∧
    s.handed = []
  step s c := (s.call c).map fun r =>
    { net := r.net
      mem := r.mem
      received := s.received ++ arrivals s.net.conn c.sched
      consumed := s.consumed ++ r.consumed
      handed := s.handed ++ r.calls.map Prod.fst }

/-- Nothing of the stream is lost: what was received is what was consumed,
    line by line, and what is still in the buffer. -/
def ReceiveRun.Conserved (s : ReceiveRun) : Prop :=
  s.consumed ++ s.net.rxBuff = s.received ∧ cut isNewline s.consumed = (s.handed, [])

/-- **Step lemma.** -/
theorem conserved_step {s s' : ReceiveRun} {c : ReceiveCall} (hcons : s.Conserved)
    (h : receiveSystem.step s c = some s') : s'.Conserved := by
  obtain ⟨r, hr, rfl⟩ := Option.map_eq_some_iff.mp h
  obtain ⟨hspec, -⟩ := vciReceive_spec hr
  refine ⟨?_, ?_⟩
  · show s.consumed ++ r.consumed ++ r.net.rxBuff = s.received ++ arrivals s.net.conn c.sched
    rw [List.append_assoc, hspec.stream, ← hcons.1, List.append_assoc]
  · show cut isNewline (s.consumed ++ r.consumed) = (s.handed ++ r.calls.map Prod.fst, [])
    rw [cut_append, hcons.2, List.nil_append, hspec.handed]

theorem conserved_of_reachable {s : ReceiveRun} (h : receiveSystem.Reachable s) :
    s.Conserved := by
  refine receiveSystem.reachable_invariant ?_ (fun _ _ _ hcons hs => conserved_step hcons hs) h
  rintro s ⟨-, hbuff, hrec, hcons, hhand⟩
  exact ⟨by rw [hcons, hbuff, hrec]; rfl, by rw [hcons, hhand]; rfl⟩

/-- After every sequence of calls the stream is conserved; and in every
    call that follows, the `k`-th line consumed goes to slot `k` and the
    returned count is the number of lines consumed, at most `len`. -/
theorem receive_conserves_lines {s : ReceiveRun} (h : receiveSystem.Reachable s) :
    s.consumed ++ s.net.rxBuff = s.received ∧
    cut isNewline s.consumed = (s.handed, []) ∧
    ∀ c r, s.call c = some r →
      r.calls.map Prod.fst = lines isNewline r.consumed ∧
      (∀ k d, r.calls[k]? = some d → c.pReceive.map (· + VciCanObj.size * k) = some d.2) ∧
      r.num = (lines isNewline r.consumed).length ∧ r.num ≤ c.len := by
  obtain ⟨hstream, hlines⟩ := conserved_of_reachable h
  refine ⟨hstream, hlines, ?_⟩
  intro c r hr
  obtain ⟨hspec, -⟩ := vciReceive_spec hr
  have hfst : r.calls.map Prod.fst = lines isNewline r.consumed := by
    rw [lines, hspec.handed]
  exact ⟨hfst, hspec.slots, by rw [← hfst, List.length_map, hspec.count], hspec.bound⟩

/-- Two calls: the first ends with its line and leaves half a line behind,
    which the second one completes. -/
theorem receive_conserves_lines_sample :
    ∃ s, receiveSystem.Reachable s ∧ s.handed.length = 2 ∧
      s.consumed ++ s.net.rxBuff = s.received := by
  let s₀ : ReceiveRun := ⟨freshClient, fun _ => 0, [], [], []⟩
  let c₁ : ReceiveCall := ⟨some 0, 1, 0, oneRead (sampleLine 48 ++ (sampleLine 48).take 20)⟩
  let c₂ : ReceiveCall := ⟨some 0, 1, 0, oneRead ((sampleLine 48).drop 20)⟩
  have hrun : (receiveSystem.exec s₀ [c₁, c₂]).map (fun s => s.handed.length) = some 2 := by
    decide +kernel
  obtain ⟨s, hs, htwo⟩ := Option.map_eq_some_iff.mp hrun
  have hreach : receiveSystem.Reachable s :=
    LTS.System.Reachable.exec _ (LTS.System.ReachableBy.init ⟨rfl, rfl, rfl, rfl, rfl⟩) hs
  exact ⟨s, hreach, htwo, (receive_conserves_lines hreach).1⟩

end LibControlCan
