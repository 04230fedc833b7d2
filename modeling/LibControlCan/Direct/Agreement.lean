import LibControlCan.Direct.Model
import LibControlCan.Framework.Machine

/-! # The two direct backends agree

    `CanImpDirectCan` keeps a library for every device type, and
    `CanImpDirectCan2` only the one of the last open.  A caller that uses,
    after each open, the device type it opened cannot tell them apart:
    `direct_backends_agree`.

    The reason is in `lookup_loadLibraries`: the map keeps the first entry
    of a type whose file exists, and that is the one that the loop of
    `CanImpDirectCan2` stops at. -/

namespace LibControlCan

open LTS Bytes

variable {W : Type}

/-! ## Section 1: Which library a device type has -/

/-- The path of the first entry of a type whose file exists. -/
def firstPath (dir : KernelDir) (deviceType : UInt32) : List (List UInt8 × List UInt8) →
    Option (List UInt8)
  | [] => none
  | (key, value) :: sec =>
    if tryLexicalConvert key = some deviceType ∧ dir.present value = true then some value
    else firstPath dir deviceType sec

/-- Every file of the section that exists can be loaded. -/
def KernelDir.AllLoad (dir : KernelDir) : Prop :=
  ∀ kv ∈ dir.kerneldll.getD [], dir.present kv.2 = true → dir.loads kv.2 = true

theorem loadLibraryS_ok {dir : KernelDir} {path : List UInt8} (h : dir.loads path = true) :
    loadLibraryS dir path = .ok ⟨path, []⟩ := if_pos h

theorem CanImpDirectCan2.chooseLibrary_eq {dir : KernelDir} (t : UInt32)
    {sec : List (List UInt8 × List UInt8)}
    (hload : ∀ kv ∈ sec, dir.present kv.2 = true → dir.loads kv.2 = true) :
    chooseLibrary dir t sec = .ok ((firstPath dir t sec).map fun path => (t, ⟨path, []⟩)) := by
  induction sec with
  | nil => rfl
  | cons kv sec ih =>
    have hrest := ih fun kv' hkv' => hload kv' (List.mem_cons_of_mem _ hkv')
    obtain ⟨key, value⟩ := kv
    simp only [chooseLibrary, firstPath]
    cases hkey : tryLexicalConvert key with
    | none => simp [hrest]
    | some type =>
      by_cases htype : type = t
      · subst htype
        cases hp : dir.present value with
        | false => simp [hrest]
        | true =>
          have hl := hload _ List.mem_cons_self hp
          simp [loadLibraryS_ok hl, Except.map]
      · simp [htype, hrest]

namespace CanImpDirectCan

theorem lookup_insert (libMap : List (UInt32 × List UInt8)) (type t : UInt32) (path : List UInt8) :
    (insert libMap type path).lookup t =
      (libMap.lookup t).or (if type = t then some path else none) := by
  unfold insert
  by_cases htype : type = t
  · subst htype
    cases h : libMap.lookup type with
    | some p => simp [h]
    | none => simp [h, List.lookup_append]
  · have hne : (t == type) = false := by simpa using Ne.symm htype
    rw [if_neg htype, Option.or_none]
    split
    · rfl
    · simp [List.lookup_append, List.lookup_cons, hne]

/-- The loop fills the map with the first path of every type. -/
theorem lookup_loadLibraries {dir : KernelDir} {sec : List (List UInt8 × List UInt8)}
    (hload : ∀ kv ∈ sec, dir.present kv.2 = true → dir.loads kv.2 = true)
    (libMap : List (UInt32 × List UInt8)) :
    ∃ libMap', loadLibraries dir sec libMap = .ok libMap' ∧
      ∀ t, libMap'.lookup t = (libMap.lookup t).or (firstPath dir t sec) := by
  -- Over the section; what the map has already takes precedence.
  induction sec generalizing libMap with
  | nil => exact ⟨libMap, rfl, fun t => by simp [firstPath]⟩
  | cons kv sec ih =>
    have ih' := ih fun kv' hkv' => hload kv' (List.mem_cons_of_mem _ hkv')
    obtain ⟨key, value⟩ := kv
    simp only [loadLibraries, firstPath]
    cases hkey : tryLexicalConvert key with
    | none => simpa using ih' libMap
    | some type =>
      cases hp : dir.present value with
      | false => simpa using ih' libMap
      | true =>
        have hl := hload _ List.mem_cons_self hp
        obtain ⟨libMap', heq, hlookup⟩ := ih' (insert libMap type value)
        refine ⟨libMap', by simpa [loadLibraryS_ok hl] using heq, fun t => ?_⟩
        rw [hlookup t, lookup_insert, Option.or_assoc]
        by_cases htype : type = t <;> simp [htype]

/-- The constructor succeeds, and the map has the first path of every type. -/
theorem new_eq {dir : KernelDir} (hload : dir.AllLoad) :
    ∃ o, new dir = .ok o ∧
      ∀ t, o.libMap.lookup t = firstPath dir t (dir.kerneldll.getD []) := by
  unfold new
  cases hsec : dir.kerneldll with
  | none => exact ⟨⟨[]⟩, rfl, fun t => rfl⟩
  | some sec =>
    have hload' : ∀ kv ∈ sec, dir.present kv.2 = true → dir.loads kv.2 = true := by
      simpa [KernelDir.AllLoad, hsec] using hload
    obtain ⟨libMap, heq, hlookup⟩ := lookup_loadLibraries hload' []
    exact ⟨⟨libMap⟩, by simp [heq, Except.map], fun t => by simpa using hlookup t⟩

end CanImpDirectCan

/-! ## Section 2: The simulation -/

/-- What a caller sees of a call: the result, and the call that was made
    to a kernel library. -/
abbrev Answer : Type := Except LoadError VciResult × Option KernelRecord

def directMachine (k : Kernel W) : Machine (CanImpDirectCan × W) VciCall Answer where
  step s call :=
    let r := s.1.serve k s.2 call
    ((r.obj, r.world), (r.ret, r.kernel))

def direct2Machine (k : Kernel W) (dir : KernelDir) :
    Machine (CanImpDirectCan2 × W) VciCall Answer where
  step s call :=
    let r := s.1.serve k s.2 dir call
    ((r.obj, r.world), (r.ret, r.kernel))

/-- The use of a device: every call but an open is for the device type of
    the last open, and none comes after a close before the next open.  The
    state is the device type in use. -/
def deviceUse : Protocol (Option UInt32) VciCall where
  next
    | _, .openDevice t _ _ => some (some t)
    | some t, .closeDevice t' _ => if t' = t then some none else none
    | some t, .device call => if call.deviceType = t then some (some t) else none
    | none, _ => none

/-- The second object holds the library that `path` says for the type. -/
def CanImpDirectCan2.Holds (o : CanImpDirectCan2) (t : UInt32) (path : Option (List UInt8)) : Prop :=
  match path with
  | none => o = .new
  | some p => ∃ calls, o = { lib := some ⟨p, calls⟩, devType := some t }

/-- The states of the two objects while type `use` is in use.  After a
    close the second object has no library, whatever the map says. -/
structure Agree (dir : KernelDir) (use : Option UInt32) (s : CanImpDirectCan × W)
    (s2 : CanImpDirectCan2 × W) : Prop where
  world : s.2 = s2.2
  libMap : ∀ t, s.1.libMap.lookup t = firstPath dir t (dir.kerneldll.getD [])
  holds : ∀ t, use = some t → s2.1.Holds t (firstPath dir t (dir.kerneldll.getD []))

theorem CanImpDirectCan2.vciOpenDevice_eq {dir : KernelDir} (hload : dir.AllLoad) (k : Kernel W)
    (o : CanImpDirectCan2) (t i r : UInt32) (w : W) :
    o.vciOpenDevice k dir t i r w =
      { (match firstPath dir t (dir.kerneldll.getD []) with
        | none => Served.refused (.openDevice t i r) new w
        | some path => Served.passed k path (.openDevice t i r)
            (fun err => { lib := some (Library.record ⟨path, []⟩ (.openDevice t i r) err),
                          devType := some t }) w) with
        released := o.lib.toList } := by
  have hchoose : (dir.kerneldll.map (chooseLibrary dir t)).getD (.ok none) =
      .ok ((firstPath dir t (dir.kerneldll.getD [])).map fun path => (t, ⟨path, []⟩)) := by
    cases hsec : dir.kerneldll with
    | none => rfl
    | some sec => exact chooseLibrary_eq t (by simpa [KernelDir.AllLoad, hsec] using hload)
  unfold vciOpenDevice
  rw [hchoose]
  cases firstPath dir t (dir.kerneldll.getD []) <;> rfl

/-- A call for the type in use: both objects pass it to the same library,
    or both refuse it. -/
theorem forward_agree {dir : KernelDir} {t : UInt32} {s : CanImpDirectCan × W}
    {s2 : CanImpDirectCan2 × W} (hagree : Agree dir (some t) s s2) (k : Kernel W) (call : VciCall)
    (hcall : call.deviceType = t) :
    (s.1.forward k call s.2).ret = (s2.1.forward k call s2.2).ret ∧
    (s.1.forward k call s.2).kernel = (s2.1.forward k call s2.2).kernel ∧
    Agree dir (some t) ((s.1.forward k call s.2).obj, (s.1.forward k call s.2).world)
      ((s2.1.forward k call s2.2).obj, (s2.1.forward k call s2.2).world) := by
  have hlook := hagree.libMap t
  have hholds := hagree.holds t rfl
  subst hcall
  unfold CanImpDirectCan.forward CanImpDirectCan2.forward
  cases hpath : firstPath dir call.deviceType (dir.kerneldll.getD []) with
  | none =>
    rw [hpath] at hlook hholds
    have hnew : s2.1 = .new := hholds
    simp only [hlook, hnew, CanImpDirectCan2.new]
    exact ⟨rfl, rfl, hagree.world, hagree.libMap,
      fun t' ht' => by cases ht'; rw [hpath]; rfl⟩
  | some path =>
    rw [hpath] at hlook hholds
    obtain ⟨calls, hobj⟩ := hholds
    simp only [hlook, hobj, if_true, Served.passed, hagree.world]
    exact ⟨trivial, trivial, rfl, hagree.libMap,
      fun t' ht' => by cases ht'; rw [hpath]; exact ⟨_, rfl⟩⟩

/-- An open: both look for the same library. -/
theorem open_agree {dir : KernelDir} (hload : dir.AllLoad) {use : Option UInt32}
    {s : CanImpDirectCan × W} {s2 : CanImpDirectCan2 × W} (hagree : Agree dir use s s2)
    (k : Kernel W) (t i r : UInt32) :
    (s.1.vciOpenDevice k s.2 t i r).ret = (s2.1.vciOpenDevice k dir t i r s2.2).ret ∧
    (s.1.vciOpenDevice k s.2 t i r).kernel = (s2.1.vciOpenDevice k dir t i r s2.2).kernel ∧
    Agree dir (some t)
      ((s.1.vciOpenDevice k s.2 t i r).obj, (s.1.vciOpenDevice k s.2 t i r).world)
      ((s2.1.vciOpenDevice k dir t i r s2.2).obj, (s2.1.vciOpenDevice k dir t i r s2.2).world) := by
  have hlook := hagree.libMap t
  rw [CanImpDirectCan2.vciOpenDevice_eq hload]
  unfold CanImpDirectCan.vciOpenDevice CanImpDirectCan.forward
  simp only [VciCall.deviceType]
  cases hpath : firstPath dir t (dir.kerneldll.getD []) with
  | none =>
    rw [hpath] at hlook
    simp only [hlook]
    exact ⟨rfl, rfl, hagree.world, hagree.libMap,
      fun t' ht' => by cases ht'; rw [hpath]; rfl⟩
  | some path =>
    rw [hpath] at hlook
    simp only [hlook, Served.passed, hagree.world]
    exact ⟨trivial, trivial, rfl, hagree.libMap,
      fun t' ht' => by cases ht'; rw [hpath]; exact ⟨_, rfl⟩⟩

/-- The simulation between the two objects. -/
def directSimulation (k : Kernel W) (dir : KernelDir) (hload : dir.AllLoad) :
    Simulation (directMachine k) (direct2Machine k dir) deviceUse where
  Rel := Agree dir
  step := by
    intro use use' s s2 call hagree hnext
    simp only [directMachine, direct2Machine]
    cases call with
    | openDevice t i r =>
      cases hnext
      obtain ⟨hret, hkernel, hagree'⟩ := open_agree hload hagree k t i r
      exact ⟨Prod.ext hret hkernel, hagree'⟩
    | closeDevice t i =>
      match use, hnext with
      | some t', hnext =>
        simp only [deviceUse] at hnext
        split at hnext
        case isTrue ht =>
          cases hnext
          rw [CanImpDirectCan.serve_eq]
          obtain ⟨hret, hkernel, hagree'⟩ := forward_agree hagree k (.closeDevice t i) ht
          exact ⟨Prod.ext hret hkernel, hagree'.world, hagree'.libMap, fun _ h => by cases h⟩
        case isFalse => cases hnext
    | device call =>
      match use, hnext with
      | some t', hnext =>
        simp only [deviceUse] at hnext
        split at hnext
        case isTrue ht =>
          cases hnext
          rw [CanImpDirectCan.serve_eq, CanImpDirectCan2.serve_device]
          obtain ⟨hret, hkernel, hagree'⟩ := forward_agree hagree k (.device call) ht
          exact ⟨Prod.ext hret hkernel, hagree'⟩
        case isFalse => cases hnext

/-! ## Section 3: Whole runs -/

/-- **Agreement.** For every content of the section and every set of
    existing files, all of which can be loaded, and whatever the libraries
    answer: on every sequence of calls that uses the device type it opened,
    the two backends return the same values and make the same calls to the
    kernel libraries. -/
theorem direct_backends_agree (k : Kernel W) (dir : KernelDir) (hload : dir.AllLoad) (w : W)
    (calls : List VciCall) (huse : deviceUse.Allows none calls) :
    ∃ o, CanImpDirectCan.new dir = .ok o ∧
      (directMachine k).outputs (o, w) calls =
        (direct2Machine k dir).outputs (CanImpDirectCan2.new, w) calls := by
  obtain ⟨o, hnew, hlookup⟩ := CanImpDirectCan.new_eq hload
  refine ⟨o, hnew, ?_⟩
  exact (directSimulation k dir hload).outputs_eq (p := none)
    ⟨rfl, hlookup, fun t ht => by cases ht⟩ huse

/-- Two keys for one type, the first with a file that is missing. -/
def sampleDir : KernelDir where
  kerneldll := some [(ascii "3", ascii "a.so"), (ascii "4", ascii "b.so"), (ascii "04", ascii "c.so")]
  present path := path != ascii "b.so"
  loads _ := true

/-- Libraries that count the calls made to them. -/
def sampleKernel : Kernel Nat where
  call _ _ n := (UInt32.ofNat n, n + 1)

def sampleUse : List VciCall :=
  [.openDevice 4 0 0, .device (.startCAN 4 0 0), .closeDevice 4 0, .openDevice 5 0 0,
    .device (.getReceiveNum 5 0 0)]

theorem direct_backends_agree_sample :
    sampleDir.AllLoad ∧ deviceUse.Allows none sampleUse ∧
      ∃ o, CanImpDirectCan.new sampleDir = .ok o ∧
        (directMachine sampleKernel).outputs (o, 1) sampleUse =
          (direct2Machine sampleKernel sampleDir).outputs (CanImpDirectCan2.new, 1) sampleUse := by
  have hload : sampleDir.AllLoad := fun _ _ _ => rfl
  have huse : deviceUse.Allows none sampleUse :=
    ⟨_, rfl, _, rfl, _, rfl, _, rfl, _, rfl, trivial⟩
  exact ⟨hload, huse, direct_backends_agree sampleKernel sampleDir hload 1 sampleUse huse⟩

end LibControlCan
