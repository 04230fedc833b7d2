import LibControlCan.Facade.Opening

/-! # Libraries that are released with a device open

    A direct backend reaches the devices through the library it has loaded,
    and nobody but that library can close them.  The library goes when a
    device is opened or closed, when the facade replaces its backend, and
    when the process ends.  `releases_closed_libraries_iff` says when no
    device is left open then: when the event is the close of every device
    that is open, or a function that releases nothing. -/

namespace LibControlCan

open ByteMemory

/-! ## Section 1: The devices that a library has open -/

/-- What a call means for the devices that are open.  A result other than
    zero is success. -/
def trackOpen (devices : List (UInt32 × UInt32)) : VciCall × UInt32 → List (UInt32 × UInt32)
  | (.openDevice t i _, err) => if err = 0 then devices else devices ++ [(t, i)]
  | (.closeDevice t i, _) => devices.filter (· ≠ (t, i))
  | (.device _, _) => devices

/-- The devices, by type and index, that were opened through the library
    and have not been passed to `fCloseDevice` since. -/
def Library.opened (lib : Library) : List (UInt32 × UInt32) := lib.calls.foldl trackOpen []

@[simp] theorem Library.opened_record (lib : Library) (call : VciCall) (err : UInt32) :
    (lib.record call err).opened = trackOpen lib.opened (call, err) := by
  simp [opened, record]

/-- A backend has devices of one type only: the type of its library. -/
def CanImpDirectCan2.OneType (o : CanImpDirectCan2) : Prop :=
  ∀ lib, o.lib = some lib → ∀ d ∈ lib.opened, o.devType = some d.1

theorem CanImpDirectCan2.oneType_new : new.OneType := by
  intro lib hlib
  cases hlib

/-- Every call on the object keeps to one type. -/
theorem CanImpDirectCan2.oneType_serve {W : Type} {o : CanImpDirectCan2} (ho : o.OneType)
    (k : Kernel W) (w : W) (dir : KernelDir) (call : VciCall) :
    (o.serve k w dir call).obj.OneType := by
  cases call with
  | openDevice t i r =>
    rcases o.vciOpenDevice_cases k w dir t i r with ⟨e, heq⟩ | heq | ⟨path, heq⟩ <;>
      simp only [serve, heq]
    · exact oneType_new
    · exact oneType_new
    · -- The library is new: at most the device of this call is open.
      rintro lib ⟨⟩ d hd
      simp only [Library.opened, List.foldl_cons, List.foldl_nil, trackOpen] at hd
      split at hd
      · cases hd
      · rw [List.mem_singleton.mp hd]
        rfl
  | closeDevice t i => exact oneType_new
  | device call =>
    rw [serve_device]
    rcases o.forward_cases k w (.device call) with ⟨-, heq⟩ | ⟨lib, hlib, -, heq⟩ <;> rw [heq]
    · exact ho
    · rintro lib' ⟨⟩ d hd
      rw [Library.opened_record] at hd
      exact ho lib hlib d hd

/-! ## Section 2: What a call releases -/

/-- An open releases what the backend had. -/
theorem Backend.released_of_open {env : Env} {t i r : UInt32} {m : Memory} {b : Backend}
    {o : Outcome} (h : b.serve env (.openDevice t i r) m = some o) : o.released = b.libs := by
  cases b with
  | net net =>
    obtain ⟨s, -, rfl⟩ := Option.map_eq_some_iff.mp h
    rfl
  | direct d =>
    cases h
    rcases d.vciOpenDevice_cases env.kernel m env.dir t i r with ⟨e, heq⟩ | heq | ⟨path, heq⟩ <;>
      simp [CanImpDirectCan2.serve, heq, libs]

/-- A call that is neither an open nor a close releases nothing. -/
theorem Backend.released_of_device {env : Env} {call : DeviceCall} {m : Memory} {b : Backend}
    {o : Outcome} (h : b.serve env (.device call) m = some o) : o.released = [] := by
  cases b with
  | net net =>
    obtain ⟨s, -, rfl⟩ := Option.map_eq_some_iff.mp h
    rfl
  | direct d =>
    cases h
    rw [CanImpDirectCan2.serve_device]
    rcases d.forward_cases env.kernel m (.device call) with ⟨-, heq⟩ | ⟨lib, -, -, heq⟩
    · rw [heq]
      rfl
    · rw [heq]
      rfl

/-- The facade has devices of one type only. -/
def CanAbstract.OneType (cc : CanAbstract) : Prop :=
  ∀ d, cc.canImp = some (.direct d) → d.OneType

/-- A close releases the library in any case, but passes the device to it
    only if the type is right. -/
theorem Backend.close_leaves_none_iff {env : Env} {t i : UInt32} {m : Memory} {b : Backend}
    {o : Outcome} (hone : CanAbstract.OneType ⟨some b⟩)
    (h : b.serve env (.closeDevice t i) m = some o) :
    (∀ lib ∈ o.released ++ o.canImp.toList.flatMap libs, lib.opened = []) ↔
      ∀ lib ∈ b.libs, ∀ d ∈ lib.opened, d = (t, i) := by
  cases b with
  | net net =>
    obtain ⟨s, -, rfl⟩ := Option.map_eq_some_iff.mp h
    simp [libs]
  | direct d =>
    cases h
    simp only [CanImpDirectCan2.serve, CanImpDirectCan2.vciCloseDevice, libs, Option.toList_some,
      List.flatMap_cons, List.flatMap_nil, List.append_nil, CanImpDirectCan2.new,
      Option.toList_none]
    have hcases := d.forward_cases env.kernel m (.closeDevice t i)
    rcases hcases with ⟨hne, heq⟩ | ⟨lib, hlib, -, heq⟩ <;> rw [heq]
    · -- The type is wrong, so no device that is open is the one to be closed.
      simp only [Served.refused, Option.mem_toList]
      refine forall₂_congr fun lib hlib => ?_
      have hnot : ∀ dev ∈ lib.opened, dev ≠ (t, i) := by
        rintro dev hdev rfl
        exact hne lib hlib (hone d rfl lib hlib _ hdev)
      rw [List.eq_nil_iff_forall_not_mem]
      exact forall₂_congr fun dev hdev => iff_of_false id (hnot dev hdev)
    · simp [Served.passed, hlib, trackOpen]

theorem Backend.oneType_serve {env : Env} {call : VciCall} {m : Memory} {b : Backend}
    {o : Outcome} (hone : CanAbstract.OneType ⟨some b⟩) (h : b.serve env call m = some o) :
    CanAbstract.OneType ⟨o.canImp⟩ := by
  cases b with
  | net net =>
    obtain ⟨s, -, rfl⟩ := Option.map_eq_some_iff.mp h
    intro d hd
    cases hd
  | direct d =>
    cases h
    intro d' hd'
    cases hd'
    exact CanImpDirectCan2.oneType_serve (hone d rfl) _ _ _ _

/-! ## Section 3: The process -/

/-- The devices that are open through the backend. -/
def CanAbstract.opened (cc : CanAbstract) : List (UInt32 × UInt32) :=
  cc.libs.flatMap Library.opened

/-- The event may happen while device `d` is open: it releases no library,
    or it closes `d`. -/
def ProcessEvent.Settles (d : UInt32 × UInt32) : ProcessEvent → Prop
  | .call (.device _) _ => True
  | .call (.closeDevice t i) _ => d = (t, i)
  | _ => False

namespace CanAbstract

theorem forall_opened_iff (cc : CanAbstract) (P : UInt32 × UInt32 → Prop) :
    (∀ d ∈ cc.opened, P d) ↔ ∀ lib ∈ cc.libs, ∀ d ∈ lib.opened, P d := by
  simp only [opened, List.mem_flatMap]
  constructor
  · exact fun h lib hlib d hd => h d ⟨lib, hlib, hd⟩
  · rintro h d ⟨lib, hlib, hd⟩
    exact h lib hlib d hd

/-- Creating a backend where there is none adds no library. -/
theorem libs_getD {cc : CanAbstract} {b : Backend} (hb : b.libs = []) :
    (cc.canImp.getD b).libs = cc.libs := by
  cases hcc : cc.canImp <;> simp [libs, hcc, hb]

theorem oneType_direct : OneType ⟨some (.direct .new)⟩ := by
  intro d hd
  cases hd
  exact CanImpDirectCan2.oneType_new

theorem oneType_net (net : CanImpCanNet) : OneType ⟨some (.net net)⟩ := by
  intro d hd
  cases hd

theorem oneType_getD {cc : CanAbstract} {b : Backend} (hone : cc.OneType)
    (hb : OneType ⟨some b⟩) : OneType ⟨some (cc.canImp.getD b)⟩ := by
  cases hcc : cc.canImp with
  | none => exact hb
  | some b' =>
    intro d hd
    cases hd
    exact hone d hcc

/-- Every call keeps to one type. -/
theorem oneType_exported {cc : CanAbstract} {env : Env} {m : Memory} {c : ExportedCall}
    {o : Outcome} (hone : cc.OneType) (h : cc.exported env m c = some o) :
    OneType ⟨o.canImp⟩ := by
  have hsome : ∀ b, cc.canImp = some b → OneType ⟨some b⟩ := by
    intro b hb d hd
    cases hd
    exact hone d hb
  cases path_of_exported h with
  | fallsBack t i r err o' _ _ ho' =>
    have hkept : OneType ⟨o'.canImp⟩ := Backend.oneType_serve oneType_direct ho'
    exact hkept
  | opensNet t i r err herr _ =>
    have hkept : OneType ⟨err.canImp⟩ := Backend.oneType_serve (oneType_net _) herr
    exact hkept
  | deirectOpens t i r _ ho => exact Backend.oneType_serve (oneType_getD hone oneType_direct) ho
  | netOpens t i r _ ho => exact Backend.oneType_serve (oneType_getD hone (oneType_net _)) ho
  | refused c _ _ =>
    intro d hd
    cases hd
  | closes t i b o' _ _ =>
    intro d hd
    cases hd
  | passes call b _ hb ho => exact Backend.oneType_serve (hsome b hb) ho

end CanAbstract

theorem oneType_of_reachable {p : Process} (hp : processSystem.Reachable p) : p.cc.OneType := by
  have hinit : ∀ p, processSystem.init p → p.cc.OneType := by
    intro p hinit d hd
    rw [hinit] at hd
    cases hd
  have hstep : ∀ p ev p', p.cc.OneType → processSystem.step p ev = some p' → p'.cc.OneType := by
    intro p ev p' hone hstep
    cases ev with
    | call c env =>
      simp only [processSystem, Process.run, Option.map_map] at hstep
      obtain ⟨o, ho, rfl⟩ := Option.map_eq_some_iff.mp hstep
      exact CanAbstract.oneType_exported hone ho
    | exit =>
      cases hstep
      intro d hd
      cases hd
  exact processSystem.reachable_invariant hinit hstep hp

/-- For every sequence of calls, whatever the kernel functions return: the
    libraries that the next event releases have no device open, if and only
    if the event is the close of every device that is open, or one of the
    functions that release nothing.  Every second open, every close with
    another type or index and the end of the process leave a device open. -/
theorem releases_closed_libraries_iff {p p' : Process} {ev : ProcessEvent}
    {released : List Library} (hp : processSystem.Reachable p)
    (h : p.run ev = some (p', released)) :
    (∀ lib ∈ released, lib.opened = []) ↔ ∀ d ∈ p.cc.opened, ev.Settles d := by
  -- Where the library is dropped as it is, no device may be open at all.
  have hdropped : (∀ lib ∈ p.cc.libs, lib.opened = []) ↔ ∀ d ∈ p.cc.opened, False := by
    rw [CanAbstract.forall_opened_iff]
    exact forall₂_congr fun lib _ => List.eq_nil_iff_forall_not_mem
  cases ev with
  | exit =>
    cases h
    exact hdropped
  | call c env =>
    obtain ⟨o, ho, heq⟩ := Option.map_eq_some_iff.mp h
    cases heq
    cases CanAbstract.path_of_exported ho with
    | fallsBack t i r err o' _ _ ho' =>
      have hnone : o'.released = [] := Backend.released_of_open ho'
      rw [hnone, List.append_nil]
      exact hdropped
    | opensNet t i r err herr _ =>
      have hnone : err.released = [] := Backend.released_of_open herr
      rw [hnone, List.append_nil]
      exact hdropped
    | deirectOpens t i r _ ho =>
      rw [Backend.released_of_open ho, CanAbstract.libs_getD rfl]
      exact hdropped
    | netOpens t i r _ ho =>
      rw [Backend.released_of_open ho, CanAbstract.libs_getD rfl]
      exact hdropped
    | refused c hnone _ =>
      have hempty : p.cc.opened = [] := by simp [CanAbstract.opened, CanAbstract.libs, hnone]
      simp [CanAbstract.refuse, hempty]
    | closes t i b o' hb ho' =>
      have hone : CanAbstract.OneType ⟨some b⟩ := by
        intro d hd
        cases hd
        exact oneType_of_reachable hp d hb
      rw [Backend.close_leaves_none_iff hone ho', CanAbstract.forall_opened_iff]
      simp [CanAbstract.libs, hb, ProcessEvent.Settles]
    | passes call b _ _ ho =>
      rw [Backend.released_of_device ho]
      exact iff_of_true (fun _ hlib => by cases hlib) fun _ _ => trivial

/-- Opening a device through the library on disk. -/
def openFirst : ProcessEvent := .call (.deirectOpenCan 4 0 0) localEnv

theorem releases_closed_libraries_sample :
    ∃ p p' released, processSystem.exec freshProcess [openFirst] = some p ∧
      p.cc.opened = [(4, 0)] ∧
      p.run (.call (.closeDevice 4 0) localEnv) = some (p', released) ∧
      ∀ lib ∈ released, lib.opened = [] := by
  have hrun : (processSystem.exec freshProcess [openFirst]).map (fun p =>
      (p.cc.opened, (p.run (.call (.closeDevice 4 0) localEnv)).isSome)) = some ([(4, 0)], true) := by
    decide +kernel
  obtain ⟨p, hp, hval⟩ := Option.map_eq_some_iff.mp hrun
  obtain ⟨hopened, hclose⟩ := Prod.mk.inj hval
  obtain ⟨⟨p', released⟩, hrel⟩ := Option.isSome_iff_exists.mp hclose
  have hfresh : processSystem.Reachable freshProcess := .init rfl
  have hreach : processSystem.Reachable p := LTS.System.Reachable.exec _ hfresh hp
  refine ⟨p, p', released, hp, hopened, hrel, (releases_closed_libraries_iff hreach hrel).mpr ?_⟩
  simp [hopened, ProcessEvent.Settles]

/-- A second open, of another device of the type, drops the library with
    the first device open; so does the close of the other device. -/
theorem second_open_leaves_first_open :
    ((processSystem.exec freshProcess [openFirst]).bind fun p =>
        (p.run (.call (.deirectOpenCan 4 1 0) localEnv)).map fun r => r.2.map Library.opened) =
      some [[(4, 0)]] ∧
    ((processSystem.exec freshProcess [openFirst]).bind fun p =>
        (p.run (.call (.closeDevice 4 1) localEnv)).map fun r => r.2.map Library.opened) =
      some [[(4, 0)]] := by
  decide +kernel

end LibControlCan
