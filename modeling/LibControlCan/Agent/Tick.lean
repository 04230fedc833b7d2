import LibControlCan.Framework.System

/-! # Time stamps

    `tickUpdate` and `tickExt` of `tick_ext.h`, the clock that the agent
    stamps its frames with.  `getTick` extrapolates from a milestone: a
    value of the tick counter and the time at which it was read.

    Every stored value carries, as a ghost, the number of the call that
    read it, and the run keeps all calls.  So the question whether a
    milestone was sampled in one call is a question about the state
    (`TickRun.SampledTogether`).

    `reset_state` carries the time of the latest sample over to the next
    round, but the tick of the first one.  The first round therefore leaves
    a milestone that was sampled together, and every later one a mixed one
    (`mixed_of_later`); `milestones_sampled_together_iff` says so of whole
    runs, and `canRx_sampled_together_iff` of the calls that `canRxFunc`
    makes. -/

namespace LibControlCan

/-! ## Section 1: Clocks -/

/-- The arithmetic of doubles, as far as the clock uses it.  Nothing is
    assumed of it. -/
structure Doubles (D : Type) where
  zero : D
  ofUInt64 : UInt64 → D
  toUInt64 : D → UInt64
  add : D → D → D
  sub : D → D → D
  mul : D → D → D
  div : D → D → D
  gt : D → D → Bool

/-- What a call reads, as far as it gets there. -/
structure Clock where
  /-- `my_get_tick()` on its own: `now_tick` of `update`, and in `getTick`. -/
  nowTick : UInt64
  /-- The microseconds of `system_clock::now()`, and `my_get_tick()` right
      after it. -/
  tm : UInt64
  tick : UInt64

/-- A stored value, and as a ghost the call in which it was read (`none`
    for the zeros in the beginning). -/
structure Reading where
  value : UInt64
  call : Option Nat
  deriving DecidableEq

/-- `tickUpdate::stage`. -/
inductive Stage where
  | init
  | tick0
  | tick1
  | finish
  deriving DecidableEq

variable {D : Type}

/-- `tickUpdate`. -/
structure TickUpdate (D : Type) where
  tick0 : Reading
  tick1 : Reading
  tm0 : Reading
  tm1 : Reading
  deltaRatio : D
  stat : Stage

namespace TickUpdate

def new (fp : Doubles D) : TickUpdate D :=
  { tick0 := ⟨0, none⟩, tick1 := ⟨0, none⟩, tm0 := ⟨0, none⟩, tm1 := ⟨0, none⟩
    deltaRatio := fp.zero, stat := .init }

def isEllapsed (u : TickUpdate D) (fp : Doubles D) (nowTick : UInt64) : Bool :=
  if fp.gt u.deltaRatio fp.zero then
    let nowTm := fp.mul (fp.ofUInt64 nowTick) u.deltaRatio
    fp.gt (fp.sub nowTm (fp.ofUInt64 u.tm0.value)) (fp.ofUInt64 1000)
  else nowTick - u.tick0.value > 1000 * 1000 * 100

/-- `update()` in call number `n`. -/
def update (u : TickUpdate D) (fp : Doubles D) (clock : Clock) (n : Nat) : Bool × TickUpdate D :=
  let tm : Reading := ⟨clock.tm, some n⟩
  let tick : Reading := ⟨clock.tick, some n⟩
  if u.stat = .init then
    (false, { u with tm1 := tm, tm0 := tm, tick1 := tick, tick0 := tick, stat := .tick0 })
  else if u.stat = .tick0 then
    (false, { u with stat := .tick1 })
  else if u.stat = .tick1 ∧ u.isEllapsed fp clock.nowTick then
    let temp := fp.ofUInt64 (tm.value - u.tm0.value)
    let deltaRatio := fp.div temp (fp.ofUInt64 (tick.value - u.tick0.value))
    (true, { u with tm1 := tm, tick1 := tick, deltaRatio, stat := .finish })
  else (false, u)

def resetState (u : TickUpdate D) : TickUpdate D :=
  { u with stat := .tick0, tick1 := u.tick0, tm0 := u.tm1 }

/-- What `update` can do. -/
inductive Updated (u : TickUpdate D) (clock : Clock) (n : Nat) : Bool → TickUpdate D → Prop where
  /-- The first call samples. -/
  | first (h : u.stat = .init) : Updated u clock n false
      { u with
        tm1 := ⟨clock.tm, some n⟩, tm0 := ⟨clock.tm, some n⟩
        tick1 := ⟨clock.tick, some n⟩, tick0 := ⟨clock.tick, some n⟩, stat := .tick0 }
  /-- The next call does nothing but go on. -/
  | armed (h : u.stat = .tick0) : Updated u clock n false { u with stat := .tick1 }
  /-- Not enough time has passed. -/
  | waiting (h : u.stat ≠ .init) : Updated u clock n false u
  /-- A round ends with another sample. -/
  | done (h : u.stat = .tick1) (deltaRatio : D) : Updated u clock n true
      { u with tm1 := ⟨clock.tm, some n⟩, tick1 := ⟨clock.tick, some n⟩, deltaRatio,
               stat := .finish }

theorem updated (u : TickUpdate D) (fp : Doubles D) (clock : Clock) (n : Nat) :
    Updated u clock n (u.update fp clock n).1 (u.update fp clock n).2 := by
  unfold update
  by_cases hinit : u.stat = .init
  · rw [if_pos hinit]
    exact .first hinit
  · rw [if_neg hinit]
    by_cases htick0 : u.stat = .tick0
    · rw [if_pos htick0]
      exact .armed htick0
    · rw [if_neg htick0]
      by_cases hdone : u.stat = .tick1 ∧ u.isEllapsed fp clock.nowTick
      · rw [if_pos hdone]
        exact .done hdone.1 _
      · rw [if_neg hdone]
        exact .waiting hinit

/-- When `update` returns true. -/
theorem update_fst (u : TickUpdate D) (fp : Doubles D) (clock : Clock) (n : Nat) :
    (u.update fp clock n).1 = (decide (u.stat = .tick1) && u.isEllapsed fp clock.nowTick) := by
  unfold update
  cases hstat : u.stat with
  | init => simp
  | tick0 => simp
  | tick1 => cases u.isEllapsed fp clock.nowTick <;> simp
  | finish => simp

end TickUpdate

/-- `tickExt`. -/
structure TickExt (D : Type) where
  mileStoneTick : Reading
  mileStoneTm64 : Reading
  deltaRatio : D
  validTick : Bool
  tu : TickUpdate D

namespace TickExt

def beginInitTick (t : TickExt D) (clock : Clock) (n : Nat) : TickExt D :=
  { t with mileStoneTm64 := ⟨clock.tm, some n⟩, mileStoneTick := ⟨clock.tick, some n⟩ }

/-- The constructor, which calls `beginInitTick`. -/
def new (fp : Doubles D) (clock : Clock) : TickExt D :=
  beginInitTick
    { mileStoneTick := ⟨0, none⟩, mileStoneTm64 := ⟨0, none⟩, deltaRatio := fp.zero
      validTick := false, tu := .new fp } clock 0

def getTick (t : TickExt D) (fp : Doubles D) (clock : Clock) : UInt64 :=
  if !t.validTick then 0
  else
    let tickDiff := clock.nowTick - t.mileStoneTick.value
    fp.toUInt64 (fp.add (fp.ofUInt64 t.mileStoneTm64.value)
      (fp.mul (fp.ofUInt64 tickDiff) t.deltaRatio))

def updateTick (t : TickExt D) (fp : Doubles D) (clock : Clock) (n : Nat) : TickExt D :=
  let (done, tu) := t.tu.update fp clock n
  if done then
    { t with mileStoneTick := tu.tick0, mileStoneTm64 := tu.tm0, tu := tu.resetState }
  else { t with tu }

/-- Both error branches clear `valid_tick_`; the second one returns
    `false`, which is 0. -/
def endInitTick (t : TickExt D) (fp : Doubles D) (clock : Clock) : Int × TickExt D :=
  if clock.tm < t.mileStoneTm64.value ∨ clock.tick < t.mileStoneTick.value then
    (-1, { t with validTick := false })
  else if clock.tm - t.mileStoneTm64.value < 10 ∨ clock.tick - t.mileStoneTick.value < 1000 then
    (0, { t with validTick := false })
  else
    let temp := fp.ofUInt64 (clock.tm - t.mileStoneTm64.value)
    let deltaRatio := fp.div temp (fp.ofUInt64 (clock.tick - t.mileStoneTick.value))
    (0, { t with deltaRatio, validTick := true })

end TickExt

/-! ## Section 2: Runs -/

/-- The member functions. -/
inductive TickOp where
  | beginInitTick
  | endInitTick
  | getTick
  | updateTick
  deriving DecidableEq

/-- What a call finds: its clocks, and its arithmetic of doubles, which need
    not answer twice in the same way. -/
structure TickInput (D : Type) where
  fp : Doubles D
  clock : Clock

structure TickCall (D : Type) extends TickInput D where
  op : TickOp

/-- What a call returns. -/
inductive TickResult where
  | none
  | code (err : Int)
  | stamp (tick : UInt64)

/-- Call number `n`. -/
def TickExt.serve (t : TickExt D) (n : Nat) (c : TickCall D) : TickResult × TickExt D :=
  match c.op with
  | .beginInitTick => (.none, t.beginInitTick c.clock n)
  | .endInitTick =>
    let (err, t) := t.endInitTick c.fp c.clock
    (.code err, t)
  | .getTick => (.stamp (t.getTick c.fp c.clock), t)
  | .updateTick => (.none, t.updateTick c.fp c.clock n)

/-- A `tickExt` and its history. -/
structure TickRun (D : Type) where
  ext : TickExt D
  /-- Ghosts: all calls, that of the constructor first, and how many of them
      ended a round. -/
  calls : List (TickCall D)
  rounds : Nat

namespace TickRun

def new (i : TickInput D) : TickRun D :=
  { ext := .new i.fp i.clock, calls := [⟨i, .beginInitTick⟩], rounds := 0 }

/-- The call ends a round of `tickUpdate`: an `updateTick` that finds `stat_`
    at `tick1` and `is_ellapsed` true. -/
def completes (s : TickRun D) (c : TickCall D) : Bool :=
  decide (c.op = .updateTick) &&
    (decide (s.ext.tu.stat = .tick1) && s.ext.tu.isEllapsed c.fp c.clock.nowTick)

/-- The next call. -/
def next (s : TickRun D) (c : TickCall D) : TickRun D where
  ext := (s.ext.serve s.calls.length c).2
  calls := s.calls ++ [c]
  rounds := s.rounds + (s.completes c).toNat

/-- All calls, one after the other. -/
def run (i : TickInput D) (calls : List (TickCall D)) : TickRun D := calls.foldl next (new i)

end TickRun

/-- `tickExt` as a transition system. -/
def tickSystem (D : Type) : LTS.System (TickRun D) (TickCall D) where
  init s := ∃ i, s = .new i
  step s c := some (s.next c)

/-- Call number `n` sampled `tick` and `tm` together. -/
def SampledIn (calls : List (TickCall D)) (n : Nat) (tick tm : Reading) : Prop :=
  ∃ c, calls[n]? = some c ∧ (c.op = .beginInitTick ∨ c.op = .updateTick) ∧
    tick = ⟨c.clock.tick, some n⟩ ∧ tm = ⟨c.clock.tm, some n⟩

/-- `tick` and `tm` were read in different calls. -/
def Mixed (calls : List (TickCall D)) (tick tm : Reading) : Prop :=
  ∃ a b, tick.call = some a ∧ tm.call = some b ∧ a < b ∧ b < calls.length

/-- The milestone is a tick and a time that one call sampled. -/
def TickRun.SampledTogether (s : TickRun D) : Prop :=
  ∃ n, SampledIn s.calls n s.ext.mileStoneTick s.ext.mileStoneTm64

/-! ## Section 3: Where the values come from -/

theorem SampledIn.append {calls : List (TickCall D)} {n : Nat} {tick tm : Reading}
    (h : SampledIn calls n tick tm) (c : TickCall D) : SampledIn (calls ++ [c]) n tick tm := by
  obtain ⟨c', hn, hrest⟩ := h
  have hlt : n < calls.length := (List.getElem?_eq_some_iff.mp hn).1
  exact ⟨c', by rw [List.getElem?_append_left hlt, hn], hrest⟩

theorem Mixed.append {calls : List (TickCall D)} {tick tm : Reading} (h : Mixed calls tick tm)
    (c : TickCall D) : Mixed (calls ++ [c]) tick tm := by
  obtain ⟨a, b, ha, hb, hlt, hlen⟩ := h
  refine ⟨a, b, ha, hb, hlt, ?_⟩
  rw [List.length_append]
  omega

/-- The call that is being made samples. -/
theorem sampledIn_last (calls : List (TickCall D)) {c : TickCall D}
    (h : c.op = .beginInitTick ∨ c.op = .updateTick) :
    SampledIn (calls ++ [c]) calls.length ⟨c.clock.tick, some calls.length⟩
      ⟨c.clock.tm, some calls.length⟩ :=
  ⟨c, List.getElem?_concat_length, h, rfl, rfl⟩

theorem Mixed.not_sampledIn {calls : List (TickCall D)} {tick tm : Reading}
    (h : Mixed calls tick tm) (n : Nat) : ¬ SampledIn calls n tick tm := by
  intro hsampled
  obtain ⟨a, b, ha, hb, hlt, -⟩ := h
  obtain ⟨c, -, -, rfl, rfl⟩ := hsampled
  cases ha
  cases hb
  omega

namespace TickRun

/-- Where the values of `tu_` come from, and the milestone as long as at
    most one round has ended. -/
structure Inv (s : TickRun D) : Prop where
  fresh : s.ext.tu.stat = .init → s.rounds = 0
  first : s.ext.tu.stat ≠ .init → s.rounds = 0 →
    ∃ n, SampledIn s.calls n s.ext.tu.tick0 s.ext.tu.tm0
  later : 0 < s.rounds → Mixed s.calls s.ext.tu.tick0 s.ext.tu.tm0
  milestone : s.rounds ≤ 1 → s.SampledTogether

theorem inv_new (i : TickInput D) : (new i).Inv where
  fresh := fun _ => rfl
  first := fun h => absurd rfl h
  later := fun h => absurd h (Nat.lt_irrefl 0)
  milestone := fun _ => ⟨0, sampledIn_last [] (.inl rfl)⟩

/-- What a call can do. -/
inductive Moved (s : TickRun D) (c : TickCall D) (s' : TickRun D) : Prop where
  /-- `beginInitTick` samples a milestone. -/
  | begun (hop : c.op = .beginInitTick) (hrounds : s'.rounds = s.rounds)
      (htu : s'.ext.tu = s.ext.tu)
      (htick : s'.ext.mileStoneTick = ⟨c.clock.tick, some s.calls.length⟩)
      (htm : s'.ext.mileStoneTm64 = ⟨c.clock.tm, some s.calls.length⟩)
  /-- The samples stay as they are. -/
  | kept (hop : c.op ≠ .beginInitTick) (hrounds : s'.rounds = s.rounds)
      (hstat : s'.ext.tu.stat = .init ↔ s.ext.tu.stat = .init)
      (htick0 : s'.ext.tu.tick0 = s.ext.tu.tick0) (htm0 : s'.ext.tu.tm0 = s.ext.tu.tm0)
      (htick : s'.ext.mileStoneTick = s.ext.mileStoneTick)
      (htm : s'.ext.mileStoneTm64 = s.ext.mileStoneTm64)
  /-- The first `updateTick` samples for the first round. -/
  | started (hop : c.op = .updateTick) (hrounds : s'.rounds = s.rounds)
      (hstat : s.ext.tu.stat = .init) (hstat' : s'.ext.tu.stat ≠ .init)
      (htick0 : s'.ext.tu.tick0 = ⟨c.clock.tick, some s.calls.length⟩)
      (htm0 : s'.ext.tu.tm0 = ⟨c.clock.tm, some s.calls.length⟩)
      (htick : s'.ext.mileStoneTick = s.ext.mileStoneTick)
      (htm : s'.ext.mileStoneTm64 = s.ext.mileStoneTm64)
  /-- A round ends: its first sample becomes the milestone, and the next
      round has the old tick and the new time. -/
  | completed (hop : c.op = .updateTick) (hrounds : s'.rounds = s.rounds + 1)
      (hstat : s.ext.tu.stat ≠ .init) (hstat' : s'.ext.tu.stat ≠ .init)
      (htick0 : s'.ext.tu.tick0 = s.ext.tu.tick0)
      (htm0 : s'.ext.tu.tm0 = ⟨c.clock.tm, some s.calls.length⟩)
      (htick : s'.ext.mileStoneTick = s.ext.tu.tick0)
      (htm : s'.ext.mileStoneTm64 = s.ext.tu.tm0)

theorem endInitTick_frame (t : TickExt D) (fp : Doubles D) (clock : Clock) :
    (t.endInitTick fp clock).2.tu = t.tu ∧
      (t.endInitTick fp clock).2.mileStoneTick = t.mileStoneTick ∧
      (t.endInitTick fp clock).2.mileStoneTm64 = t.mileStoneTm64 := by
  unfold TickExt.endInitTick
  split
  · exact ⟨rfl, rfl, rfl⟩
  · split
    · exact ⟨rfl, rfl, rfl⟩
    · exact ⟨rfl, rfl, rfl⟩

theorem moved_updateTick (s : TickRun D) (i : TickInput D) :
    Moved s ⟨i, .updateTick⟩ (s.next ⟨i, .updateTick⟩) := by
  have hupd := s.ext.tu.updated i.fp i.clock s.calls.length
  have hnext : s.next ⟨i, .updateTick⟩ =
      { ext := s.ext.updateTick i.fp i.clock s.calls.length
        calls := s.calls ++ [⟨i, .updateTick⟩]
        rounds := s.rounds + (s.ext.tu.update i.fp i.clock s.calls.length).1.toNat } := by
    rw [TickUpdate.update_fst]
    rfl
  unfold TickExt.updateTick at hnext
  generalize s.ext.tu.update i.fp i.clock s.calls.length = r at hupd hnext
  obtain ⟨done, tu⟩ := r
  rw [hnext]
  cases hupd with
  | first h => exact .started rfl rfl h (by simp) rfl rfl rfl rfl
  | armed h => exact .kept (by simp) rfl (by simp [h]) rfl rfl rfl rfl
  | waiting h => exact .kept (by simp) rfl Iff.rfl rfl rfl rfl rfl
  | done h deltaRatio =>
    exact .completed rfl rfl (by simp [h]) (by simp [TickUpdate.resetState]) rfl rfl rfl rfl

theorem moved (s : TickRun D) (c : TickCall D) : Moved s c (s.next c) := by
  obtain ⟨i, op⟩ := c
  cases op with
  | beginInitTick => exact .begun rfl rfl rfl rfl rfl
  | endInitTick =>
    obtain ⟨htu, htick, htm⟩ := endInitTick_frame s.ext i.fp i.clock
    exact .kept (by simp) rfl (by rw [← htu]; rfl) (congrArg TickUpdate.tick0 htu)
      (congrArg TickUpdate.tm0 htu) htick htm
  | getTick => exact .kept (by simp) rfl Iff.rfl rfl rfl rfl rfl
  | updateTick => exact moved_updateTick s i

/-- A milestone that stays keeps its origin. -/
theorem SampledTogether.keep {s : TickRun D} {c : TickCall D} (h : s.SampledTogether)
    (htick : (s.next c).ext.mileStoneTick = s.ext.mileStoneTick)
    (htm : (s.next c).ext.mileStoneTm64 = s.ext.mileStoneTm64) : (s.next c).SampledTogether := by
  obtain ⟨n, hn⟩ := h
  refine ⟨n, ?_⟩
  rw [htick, htm]
  exact hn.append c

/-- The step lemma of `Inv` for the values of `tu_` that stay. -/
theorem Inv.keep {s : TickRun D} {c : TickCall D} (hinv : s.Inv)
    (hrounds : (s.next c).rounds = s.rounds)
    (hstat : (s.next c).ext.tu.stat = .init ↔ s.ext.tu.stat = .init)
    (htick0 : (s.next c).ext.tu.tick0 = s.ext.tu.tick0)
    (htm0 : (s.next c).ext.tu.tm0 = s.ext.tu.tm0)
    (hmile : s.SampledTogether → (s.next c).SampledTogether) : (s.next c).Inv where
  fresh := by
    intro h
    rw [hrounds]
    exact hinv.fresh (hstat.mp h)
  first := by
    intro h hzero
    rw [hrounds] at hzero
    obtain ⟨n, hn⟩ := hinv.first (fun h' => h (hstat.mpr h')) hzero
    rw [htick0, htm0]
    exact ⟨n, hn.append c⟩
  later := by
    intro hpos
    rw [hrounds] at hpos
    rw [htick0, htm0]
    exact (hinv.later hpos).append c
  milestone := by
    intro hle
    rw [hrounds] at hle
    exact hmile (hinv.milestone hle)

/-- The tick of a round that has begun was read in an earlier call. -/
theorem Inv.tick0_call {s : TickRun D} (hinv : s.Inv) (hstat : s.ext.tu.stat ≠ .init) :
    ∃ a, s.ext.tu.tick0.call = some a ∧ a < s.calls.length := by
  rcases Nat.eq_zero_or_pos s.rounds with hzero | hpos
  · obtain ⟨n, c, hn, -, htick0, -⟩ := hinv.first hstat hzero
    exact ⟨n, by rw [htick0], (List.getElem?_eq_some_iff.mp hn).1⟩
  · obtain ⟨a, b, ha, -, hlt, hlen⟩ := hinv.later hpos
    exact ⟨a, ha, by omega⟩

/-- **Step lemma.** -/
theorem inv_next {s : TickRun D} (hinv : s.Inv) (c : TickCall D) : (s.next c).Inv := by
  cases moved s c with
  | begun hop hrounds htu htick htm =>
    apply hinv.keep hrounds (by rw [htu]) (by rw [htu]) (by rw [htu])
    intro _
    refine ⟨s.calls.length, ?_⟩
    rw [htick, htm]
    exact sampledIn_last s.calls (.inl hop)
  | kept _ hrounds hstat htick0 htm0 htick htm =>
    exact hinv.keep hrounds hstat htick0 htm0 fun h => h.keep htick htm
  | started hop hrounds hstat hstat' htick0 htm0 htick htm =>
    have hzero : (s.next c).rounds = 0 := hrounds.trans (hinv.fresh hstat)
    refine ⟨fun h => absurd h hstat', fun _ _ => ?_, fun h => ?_, fun _ => ?_⟩
    · refine ⟨s.calls.length, ?_⟩
      rw [htick0, htm0]
      exact sampledIn_last s.calls (.inr hop)
    · omega
    · have hle : s.rounds ≤ 1 := by omega
      exact (hinv.milestone hle).keep htick htm
  | completed hop hrounds hstat hstat' htick0 htm0 htick htm =>
    refine ⟨fun h => absurd h hstat', fun _ hzero => ?_, fun _ => ?_, fun hle => ?_⟩
    · omega
    · obtain ⟨a, ha, hlt⟩ := hinv.tick0_call hstat
      refine ⟨a, s.calls.length, by rw [htick0, ha], by rw [htm0], hlt, ?_⟩
      show s.calls.length < (s.calls ++ [c]).length
      simp
    · have hzero : s.rounds = 0 := by omega
      obtain ⟨n, hn⟩ := hinv.first hstat hzero
      refine ⟨n, ?_⟩
      rw [htick, htm]
      exact hn.append c

/-- Every reachable state meets the invariant. -/
theorem inv_of_reachable {s : TickRun D} (h : (tickSystem D).Reachable s) : s.Inv := by
  have hinit : ∀ s, (tickSystem D).init s → s.Inv := by
    intro s hs
    obtain ⟨i, rfl⟩ := hs
    exact inv_new i
  have hstep : ∀ s c s', s.Inv → (tickSystem D).step s c = some s' → s'.Inv := by
    intro s c s' hinv hs
    cases hs
    exact inv_next hinv c
  exact (tickSystem D).reachable_invariant hinit hstep h

/-! ## Section 4: Whole runs -/

/-- The milestone is mixed. -/
def MilestoneMixed (s : TickRun D) : Prop :=
  Mixed s.calls s.ext.mileStoneTick s.ext.mileStoneTm64

theorem MilestoneMixed.not_sampledTogether {s : TickRun D} (h : s.MilestoneMixed) :
    ¬ s.SampledTogether := by
  intro hsampled
  obtain ⟨n, hn⟩ := hsampled
  exact h.not_sampledIn n hn

/-- Every round but the first leaves a mixed milestone. -/
theorem mixed_of_later {s : TickRun D} {c : TickCall D} (hinv : s.Inv) (hpos : 0 < s.rounds)
    (hends : (s.next c).rounds ≠ s.rounds) : (s.next c).MilestoneMixed := by
  cases moved s c with
  | begun _ hrounds | kept _ hrounds | started _ hrounds => exact absurd hrounds hends
  | completed _ _ _ _ _ _ htick htm =>
    unfold MilestoneMixed
    rw [htick, htm]
    exact (hinv.later hpos).append c

theorem run_append (i : TickInput D) (calls : List (TickCall D)) (c : TickCall D) :
    run i (calls ++ [c]) = (run i calls).next c := by
  simp [run]

theorem reachable_run (i : TickInput D) (calls : List (TickCall D)) :
    (tickSystem D).Reachable (run i calls) := by
  induction calls using List.reverseRecOn with
  | nil => exact .init ⟨i, rfl⟩
  | append_singleton calls c ih =>
    rw [run_append]
    exact .step c ih trivial rfl

theorem rounds_next_le (s : TickRun D) (c : TickCall D) :
    s.rounds ≤ (s.next c).rounds ∧ (s.next c).rounds ≤ s.rounds + 1 := by
  cases moved s c with
  | begun _ hrounds | kept _ hrounds | started _ hrounds | completed _ hrounds => omega

theorem rounds_mono (i : TickInput D) {front calls : List (TickCall D)} (h : front <+: calls) :
    (run i front).rounds ≤ (run i calls).rounds := by
  induction calls using List.reverseRecOn with
  | nil => rw [List.prefix_nil.mp h]
  | append_singleton calls c ih =>
    rcases List.prefix_concat_iff.mp h with rfl | hprefix
    · exact Nat.le_refl _
    · rw [run_append]
      exact (ih hprefix).trans (rounds_next_le _ c).1

/-- A run of two rounds passes through a mixed milestone. -/
theorem exists_mixed_of_two_rounds (i : TickInput D) (calls : List (TickCall D))
    (h : 2 ≤ (run i calls).rounds) : ∃ front, front <+: calls ∧ (run i front).MilestoneMixed := by
  induction calls using List.reverseRecOn with
  | nil => exact absurd h (by simp [run, new])
  | append_singleton calls c ih =>
    by_cases hbefore : 2 ≤ (run i calls).rounds
    · obtain ⟨front, hprefix, hmixed⟩ := ih hbefore
      exact ⟨front, hprefix.trans (List.prefix_append _ _), hmixed⟩
    · -- The last call ends the second round.
      have hle := (rounds_next_le (run i calls) c).2
      rw [run_append] at h
      refine ⟨calls ++ [c], List.prefix_refl _, ?_⟩
      rw [run_append]
      exact mixed_of_later (inv_of_reachable (reachable_run i calls)) (by omega) (by omega)

/-- Without `beginInitTick`, nothing mends a mixed milestone. -/
theorem mixed_next {s : TickRun D} {c : TickCall D} (hinv : s.Inv) (hop : c.op ≠ .beginInitTick)
    (hmixed : 2 ≤ s.rounds → s.MilestoneMixed) (htwo : 2 ≤ (s.next c).rounds) :
    (s.next c).MilestoneMixed := by
  cases moved s c with
  | begun hbegin => exact absurd hbegin hop
  | kept _ hrounds _ _ _ htick htm | started _ hrounds _ _ _ _ htick htm =>
    rw [hrounds] at htwo
    unfold MilestoneMixed
    rw [htick, htm]
    exact (hmixed htwo).append c
  | completed _ hrounds => exact mixed_of_later hinv (by omega) (by omega)

theorem mixed_foldl {s : TickRun D} (calls : List (TickCall D)) (hinv : s.Inv)
    (hop : ∀ c ∈ calls, c.op ≠ .beginInitTick) (hmixed : 2 ≤ s.rounds → s.MilestoneMixed)
    (htwo : 2 ≤ (calls.foldl next s).rounds) : (calls.foldl next s).MilestoneMixed := by
  induction calls generalizing s with
  | nil => exact hmixed htwo
  | cons c calls ih =>
    obtain ⟨hc, hcalls⟩ := List.forall_mem_cons.mp hop
    exact ih (inv_next hinv c) hcalls (mixed_next hinv hc hmixed) htwo

end TickRun

/-- **When milestones are sampled together.** In every state of a run the
    milestone is a tick and a time of one sampling, exactly when at most one
    `updateTick` of the run finds `stat_` at `tick1` and `is_ellapsed`
    true. -/
theorem milestones_sampled_together_iff (i : TickInput D) (calls : List (TickCall D)) :
    (∀ front, front <+: calls → (TickRun.run i front).SampledTogether) ↔
      (TickRun.run i calls).rounds ≤ 1 := by
  constructor
  · intro hall
    by_contra hgt
    obtain ⟨front, hprefix, hmixed⟩ := TickRun.exists_mixed_of_two_rounds i calls (by omega)
    exact hmixed.not_sampledTogether (hall front hprefix)
  · intro hle front hprefix
    have hinv := TickRun.inv_of_reachable (TickRun.reachable_run i front)
    exact hinv.milestone ((TickRun.rounds_mono i hprefix).trans hle)

/-- Exact numbers in place of doubles. -/
def exactDoubles : Doubles ℚ where
  zero := 0
  ofUInt64 n := n.toNat
  toUInt64 x := UInt64.ofNat x.floor.toNat
  add x y := x + y
  sub x y := x - y
  mul x y := x * y
  div x y := x / y
  gt x y := x > y

/-- A clock with 1024 ticks a microsecond, after `2 ^ k` microseconds. -/
def clockAt (k : Nat) : Clock :=
  { nowTick := UInt64.ofNat (2 ^ (k + 10)), tm := UInt64.ofNat (2 ^ k)
    tick := UInt64.ofNat (2 ^ (k + 10)) }

/-- Five times `updateTick`. -/
def twoRounds : List (TickCall ℚ) :=
  [20, 20, 21, 21, 22].map fun k => ⟨⟨exactDoubles, clockAt k⟩, .updateTick⟩

/-- Two rounds: the tick of the milestone is that of the first `updateTick`
    and its time that of the third; no call has read these two. -/
theorem second_round_mixes_samples :
    ¬ (TickRun.run ⟨exactDoubles, clockAt 19⟩ twoRounds).SampledTogether ∧
    (TickRun.run ⟨exactDoubles, clockAt 19⟩ twoRounds).ext.mileStoneTick = ⟨1073741824, some 1⟩ ∧
    (TickRun.run ⟨exactDoubles, clockAt 19⟩ twoRounds).ext.mileStoneTm64 = ⟨2097152, some 3⟩ ∧
    ∀ c ∈ (TickRun.run ⟨exactDoubles, clockAt 19⟩ twoRounds).calls,
      ¬ (c.clock.tick = 1073741824 ∧ c.clock.tm = 2097152) := by
  have htick : (TickRun.run ⟨exactDoubles, clockAt 19⟩ twoRounds).ext.mileStoneTick =
      ⟨1073741824, some 1⟩ := by decide +kernel
  have htm : (TickRun.run ⟨exactDoubles, clockAt 19⟩ twoRounds).ext.mileStoneTm64 =
      ⟨2097152, some 3⟩ := by decide +kernel
  have hmixed : (TickRun.run ⟨exactDoubles, clockAt 19⟩ twoRounds).MilestoneMixed :=
    ⟨1, 3, by rw [htick], by rw [htm], by decide, by decide +kernel⟩
  exact ⟨hmixed.not_sampledTogether, htick, htm, by decide +kernel⟩

/-! ## Section 5: The agent -/

/-- The calls of `canRxFunc` after the constructor: `beginInitTick` and
    `endInitTick` before its loop, and `getTick` and `updateTick` for each
    frame. -/
def canRxCalls (begun ended : TickInput D) (frames : List (TickInput D × TickInput D)) :
    List (TickCall D) :=
  [⟨begun, .beginInitTick⟩, ⟨ended, .endInitTick⟩] ++
    frames.flatMap fun f => [⟨f.1, .getTick⟩, ⟨f.2, .updateTick⟩]

/-- **The stamps of the agent**: after any number of frames, the milestone
    that the next stamp is computed from was sampled together exactly when
    at most one round has ended. -/
theorem canRx_sampled_together_iff (i begun ended : TickInput D)
    (frames : List (TickInput D × TickInput D)) :
    (TickRun.run i (canRxCalls begun ended frames)).SampledTogether ↔
      (TickRun.run i (canRxCalls begun ended frames)).rounds ≤ 1 := by
  constructor
  · intro hsampled
    by_contra hgt
    -- The loop starts without a round, and never calls `beginInitTick`.
    have hstart := TickRun.inv_of_reachable
      (TickRun.reachable_run i [⟨begun, .beginInitTick⟩, ⟨ended, .endInitTick⟩])
    have hop : ∀ c ∈ frames.flatMap fun f =>
        ([⟨f.1, .getTick⟩, ⟨f.2, .updateTick⟩] : List (TickCall D)), c.op ≠ .beginInitTick := by
      intro c hc
      obtain ⟨f, -, hf⟩ := List.mem_flatMap.mp hc
      rcases List.mem_pair.mp hf with rfl | rfl
      · simp
      · simp
    have hmixed := TickRun.mixed_foldl _ hstart hop
      (fun htwo => absurd (show 2 ≤ 0 from htwo) (by decide)) (Nat.lt_of_not_le hgt)
    exact hmixed.not_sampledTogether hsampled
  · exact (TickRun.inv_of_reachable (TickRun.reachable_run i _)).milestone

end LibControlCan
