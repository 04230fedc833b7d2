import LibControlCan.Ini.Parse
import LibControlCan.Facade.Model

/-! # What the configuration files decide

    The network backend reads its address from `control_can.ini`, and the
    direct backends look for their libraries in `kerneldlls/kerneldll.ini`.

    * `loadControlIni` and `loadKerneldll` are how the backends read the two
      files; the keys of a section come in any order.
    * `open_follows_config`: from the lines of the two files it follows
      whether `VCI_OpenDevice` tries to connect at all, and which libraries
      it may open. -/

namespace LibControlCan

open Bytes CStrings

/-! ## Section 1: Reading the files -/

/-- A file, as `exists` and a parse find it. -/
inductive ConfigFile where
  | absent
  /-- It exists, but cannot be opened. -/
  | unreadable
  | text (contents : List UInt8)

/-- `ini_t ini(path, true)`. -/
def ConfigFile.load (fuel : Nat) : ConfigFile → Option (Except IniFault Ini)
  | .text contents => Ini.parse fuel contents .new
  | _ => some (.ok .new)

/-- `_str_sock_addr` and `_str_sock_port`, in the constructor of
    `CanImpCanNet`. -/
def Ini.server (ini : Ini) : Except IniFault (FiniStringT × FiniStringT) := do
  let (ini, addr) ← ini.value (ascii "Server") (ascii "IpAddr")
  let (_, port) ← ini.value (ascii "Server") (ascii "IpPort")
  return (addr, port)

def loadControlIni (fuel : Nat) (file : ConfigFile) :
    Option (Except IniFault (Option (FiniStringT × FiniStringT))) :=
  match file with
  | .absent => some (.ok none)
  | file => (file.load fuel).map fun ini => ini.bind fun ini => ini.server.map some

/-- `auto sec = ini["KERNELDLL"]`. -/
def Ini.kerneldll (ini : Ini) : Except IniFault KeysT := do
  let (ini, p) := ini.index (ascii "KERNELDLL")
  let (_, keys) ← ini.deref (.keys p)
  return keys

def loadKerneldll (fuel : Nat) (file : ConfigFile) : Option (Except IniFault (Option KeysT)) :=
  match file with
  | .absent => some (.ok none)
  | file => (file.load fuel).map fun ini => ini.bind fun ini => ini.kerneldll.map some

/-- A loop over a map visits its entries in this order. -/
def KeysT.WalkedAs (keys : KeysT) (sec : List (FiniStringT × FiniStringT)) : Prop :=
  sec.Perm (keys.entries.map fun e => (e.1, e.2))

/-- The outside of a call has these two files. -/
structure Env.LoadedFrom (env : Env) (control kernel : ConfigFile) : Prop where
  control : ∃ fuel, loadControlIni fuel control = some (.ok env.controlIni)
  kernel : ∃ fuel sec, loadKerneldll fuel kernel = some (.ok sec) ∧
    Option.Rel KeysT.WalkedAs sec env.dir.kerneldll

/-! ## Section 2: What the backends find -/

namespace Ini

variable {ini : Ini} {st : Store}

theorem Represents.server (h : ini.Represents st) :
    ini.server = .ok ((st.find (ascii "Server") (ascii "IpAddr")).getD [],
      (st.find (ascii "Server") (ascii "IpPort")).getD []) := by
  obtain ⟨ini', hvalue, hrep⟩ := h.exists_value (ascii "Server") (ascii "IpAddr")
  obtain ⟨ini'', hvalue', -⟩ := hrep.exists_value (ascii "Server") (ascii "IpPort")
  have hother : ascii "IpAddr" ≠ ascii "IpPort" := by decide +kernel
  rw [Store.find_put, if_neg fun h => hother h.2] at hvalue'
  simp [Ini.server, hvalue, hvalue', bind, Except.bind, pure, Except.pure]

/-- The keys of the section, as the store has them. -/
theorem Represents.kerneldll (h : ini.Represents st) :
    ∃ keys, ini.kerneldll = .ok keys ∧
      ∀ key, keys.lookup key = st.find (ascii "KERNELDLL") key := by
  rcases h.lookup_cases (ascii "KERNELDLL") with ⟨hp, hcontent⟩ | ⟨p, keys, hp, hkeys, hcontent⟩
  · refine ⟨∅, ?_, fun key => by simp [Store.find, hcontent]⟩
    simp [Ini.kerneldll, index, hp, deref, bind, Except.bind, pure, Except.pure]
  · refine ⟨keys, ?_, fun key => by simp [Store.find, hcontent]⟩
    simp [Ini.kerneldll, index, hp, deref, hkeys, bind, Except.bind, pure, Except.pure]

end Ini

/-! ## Section 3: Opening a device -/

variable {env : Env} {cc : CanAbstract} {t i r : UInt32} {m : ByteMemory.Memory} {o : Outcome}

/-- A key has a value in the last section with the name. -/
def Says (items : List IniItem) (name key : FiniStringT) : Prop :=
  (lastValue name key items).isSome = true

/-- The client is configured by just two keys. -/
theorem configured_iff {fuel : Nat} {text : List UInt8}
    {controlIni : Option (FiniStringT × FiniStringT)}
    (h : loadControlIni fuel (.text text) = some (.ok controlIni)) :
    ∃ items, Reads (Ini.fileLines text) items ∧
      ((CanImpCanNet.new controlIni).Configured ↔
        Says items (ascii "Server") (ascii "IpAddr") ∧
          Says items (ascii "Server") (ascii "IpPort")) := by
  obtain ⟨loaded, hload, hserver⟩ := Option.map_eq_some_iff.mp h
  cases loaded with
  | error e => cases hserver
  | ok ini =>
    obtain ⟨items, hreads, -, hrep⟩ := Ini.represents_of_parse hload
    refine ⟨items, hreads, ?_⟩
    simp only [Except.bind, hrep.server, Store.find_foldl_read_new, Except.map,
      Except.ok.injEq] at hserver
    subst hserver
    have hsays : ∀ key, ((lastValue (ascii "Server") key items).getD [] ≠ [] ↔
        Says items (ascii "Server") key) := by
      intro key
      cases hvalue : lastValue (ascii "Server") key items with
      | none => simp [Says, hvalue]
      | some value => simp [Says, hvalue, ne_nil_of_lastValue hreads hvalue]
    simp only [CanImpCanNet.Configured, CanImpCanNet.new, Option.map_some, Option.getD_some, hsays]

/-- The libraries that an open may choose. -/
theorem path_of_chooseLibrary {dir : KernelDir} {type : UInt32} {up : Library}
    {sec : List (List UInt8 × List UInt8)}
    (h : CanImpDirectCan2.chooseLibrary dir t sec = .ok (some (type, up))) :
    ∃ key, (key, up.path) ∈ sec ∧ tryLexicalConvert key = some t ∧ dir.present up.path = true ∧
      dir.loads up.path = true := by
  induction sec with
  | nil => cases h
  | cons kv sec ih =>
    obtain ⟨key, value⟩ := kv
    -- An entry that is passed over leaves the rest of the section.
    have hrest : CanImpDirectCan2.chooseLibrary dir t sec = .ok (some (type, up)) → ∃ key',
        (key', up.path) ∈ (key, value) :: sec ∧ tryLexicalConvert key' = some t ∧
          dir.present up.path = true ∧ dir.loads up.path = true := by
      intro h
      obtain ⟨key', hmem, hfound⟩ := ih h
      exact ⟨key', List.mem_cons_of_mem _ hmem, hfound⟩
    simp only [CanImpDirectCan2.chooseLibrary] at h
    split at h
    case h_1 => exact hrest h
    case h_2 type' htype =>
      split at h
      case isTrue => exact hrest h
      case isFalse heq =>
        split at h
        case isTrue => exact hrest h
        case isFalse hpresent =>
          unfold loadLibraryS at h
          split at h
          case isTrue hloads =>
            cases h
            obtain rfl : type = t := by simpa using heq
            exact ⟨key, List.mem_cons_self, htype, by simpa using hpresent, hloads⟩
          case isFalse => cases h

/-- The direct backend walks over what the file says. -/
theorem kerneldll_of_loaded {control : ConfigFile} {kernel : List UInt8}
    (h : env.LoadedFrom control (.text kernel)) :
    ∃ items, Reads (Ini.fileLines kernel) items ∧ ∀ sec, env.dir.kerneldll = some sec →
      ∀ key value, (key, value) ∈ sec → lastValue (ascii "KERNELDLL") key items = some value := by
  obtain ⟨fuel, sec, hload, hwalk⟩ := h.kernel
  obtain ⟨loaded, hparse, hsec⟩ := Option.map_eq_some_iff.mp hload
  cases loaded with
  | error e => cases hsec
  | ok ini =>
    obtain ⟨items, hreads, -, hrep⟩ := Ini.represents_of_parse hparse
    obtain ⟨keys, hkeys, hlookup⟩ := hrep.kerneldll
    simp only [Except.bind, hkeys, Except.map, Except.ok.injEq] at hsec
    subst hsec
    refine ⟨items, hreads, fun sec hsec key value hmem => ?_⟩
    rw [hsec] at hwalk
    cases hwalk with
    | some hperm =>
      obtain ⟨e, he, heq⟩ := List.mem_map.mp (hperm.mem_iff.mp hmem)
      obtain ⟨rfl, rfl⟩ := Prod.mk.inj heq
      rw [← Store.find_foldl_read_new, ← hlookup]
      exact AList.mem_lookup_iff.mpr he

/-- A direct backend calls a library of the section. -/
theorem section_of_kernel {W : Type} {k : Kernel W} {dir : KernelDir} {d : CanImpDirectCan2} {w : W}
    {call : KernelRecord} (h : (d.vciOpenDevice k dir t i r w).kernel = some call) :
    ∃ sec key, dir.kerneldll = some sec ∧ (key, call.path) ∈ sec ∧
      tryLexicalConvert key = some t ∧ dir.present call.path = true ∧
      dir.loads call.path = true := by
  unfold CanImpDirectCan2.vciOpenDevice at h
  split at h
  case h_1 => cases h
  case h_2 => cases h
  case h_3 type up hup =>
    cases h
    cases hsec : dir.kerneldll with
    | none => simp [hsec] at hup
    | some sec =>
      simp only [hsec, Option.map_some, Option.getD_some] at hup
      obtain ⟨key, hfound⟩ := path_of_chooseLibrary hup
      exact ⟨sec, key, rfl, hfound⟩

/-- **Paths of `VCI_OpenDevice`**, through a client that is new.  Without an
    address nothing is sent; and the libraries are those of a direct
    backend. -/
theorem open_paths (h : cc.vciOpenDevice env t i r m = some o) :
    (env.io.conn ≠ none ↔ (CanImpCanNet.new env.controlIni).Configured) ∧
    (env.io.conn = none → o.asked = [.net, .direct] ∧ o.writes = []) ∧
    ∀ call ∈ o.kernel, ∃ sec key, env.dir.kerneldll = some sec ∧ (key, call.path) ∈ sec ∧
      tryLexicalConvert key = some t ∧ env.dir.present call.path = true ∧
      env.dir.loads call.path = true := by
  obtain ⟨err, herr, ho⟩ := Option.bind_eq_some_iff.mp h
  obtain ⟨served, hserved, rfl⟩ := Option.map_eq_some_iff.mp herr
  obtain ⟨reply, hreply, rfl⟩ := Option.map_eq_some_iff.mp hserved
  have hpath := CanImpCanNet.openPath_of_vciOpenDevice hreply
  -- The direct backend is asked, or no library is called.
  have hkernel : ∀ call ∈ o.kernel,
      (CanImpDirectCan2.new.vciOpenDevice env.kernel env.dir t i r m).kernel = some call := by
    intro call hcall
    split at ho
    case isTrue =>
      obtain ⟨direct, hdirect, rfl⟩ := Option.map_eq_some_iff.mp ho
      cases hdirect
      simpa [CanImpDirectCan2.serve, Reply.served] using hcall
    case isFalse =>
      cases ho
      cases hcall
  refine ⟨?_, fun hnone => ?_, fun call hcall => section_of_kernel (hkernel call hcall)⟩
  · generalize env.io.conn = conn at hpath
    cases hpath with
    | unconfigured hnot => simp [hnot]
    | unresolved hconf => simp [hconf]
    | failed _ _ hconf => simp [hconf]
    | connects _ hconf => simp [hconf]
    | reuses _ hup => cases hup
  · rw [hnone] at hpath
    cases hpath with
    | unconfigured _ hr =>
      subst hr
      simp only [Reply.served, Except.map, Except.mapError, Except.toOption, if_true] at ho
      obtain ⟨direct, hdirect, rfl⟩ := Option.map_eq_some_iff.mp ho
      cases hdirect
      exact ⟨rfl, rfl⟩
    | reuses _ hup => cases hup

/-- What `VCI_OpenDevice` does is decided by the two files.  It calls
    `connect` just when the last section `Server` of `control_can.ini` has
    the keys `IpAddr` and `IpPort`; without them it asks the direct backend
    at once, and sends nothing.  A library that it opens is one that the last
    section `KERNELDLL` of `kerneldll.ini` has for the device type, in
    whatever order that section is walked. -/
theorem open_follows_config {control kernel : List UInt8}
    (hfiles : env.LoadedFrom (.text control) (.text kernel))
    (h : cc.vciOpenDevice env t i r m = some o) :
    ∃ items items', Reads (Ini.fileLines control) items ∧ Reads (Ini.fileLines kernel) items' ∧
      (env.io.conn ≠ none ↔ Says items (ascii "Server") (ascii "IpAddr") ∧
        Says items (ascii "Server") (ascii "IpPort")) ∧
      (env.io.conn = none → o.asked = [.net, .direct] ∧ o.writes = []) ∧
      ∀ call ∈ o.kernel, ∃ key, lastValue (ascii "KERNELDLL") key items' = some call.path ∧
        tryLexicalConvert key = some t ∧ env.dir.present call.path = true ∧
        env.dir.loads call.path = true := by
  obtain ⟨fuel, hcontrol⟩ := hfiles.control
  obtain ⟨items, hreads, hconf⟩ := configured_iff hcontrol
  obtain ⟨items', hreads', hkernel⟩ := kerneldll_of_loaded hfiles
  obtain ⟨hconn, hdirect, hlibs⟩ := open_paths h
  refine ⟨items, items', hreads, hreads', hconn.trans hconf, hdirect, fun call hcall => ?_⟩
  obtain ⟨sec, key, hsec, hmem, hfound⟩ := hlibs call hcall
  exact ⟨key, hkernel sec hsec key call.path hmem, hfound⟩

/-- Blanks before the equals signs: the keys of this file are not those that
    the client looks for. -/
def blankIni : List UInt8 := ascii "[Server]\nIpAddr = 127.0.0.1\nIpPort = 9999"

def usbcanIni : List UInt8 := ascii "[KERNELDLL]\n4=usbcan.so"

/-- The outside with these two files. -/
def blankEnv : Env where
  controlIni := some ([], [])
  dir := { kerneldll := some [(ascii "4", ascii "usbcan.so")], present := fun _ => true,
           loads := fun _ => true }
  kernel := { call := fun _ _ m => (1, m) }
  io := { conn := none, write := [], transmit := [], receive := [] }

theorem blankEnv_loadedFrom : blankEnv.LoadedFrom (.text blankIni) (.text usbcanIni) := by
  refine ⟨⟨4, by decide +kernel⟩, ?_⟩
  have hload : (loadKerneldll 3 (.text usbcanIni)).map (fun loaded => loaded.toOption.map
      (Option.map fun keys => keys.entries.map fun e => (e.1, e.2))) =
      some (some (some [(ascii "4", ascii "usbcan.so")])) := by
    decide +kernel
  obtain ⟨loaded, hloaded, hsec⟩ := Option.map_eq_some_iff.mp hload
  cases loaded with
  | error e => cases hsec
  | ok sec =>
    cases sec with
    | none => cases hsec
    | some keys =>
      refine ⟨3, some keys, hloaded, .some ?_⟩
      have hentries : (keys.entries.map fun e => (e.1, e.2)) =
          [(ascii "4", ascii "usbcan.so")] := Option.some.inj (Option.some.inj hsec)
      exact List.Perm.of_eq hentries.symm

theorem open_follows_config_sample : blankEnv.LoadedFrom (.text blankIni) (.text usbcanIni) ∧
    ∃ o, (⟨none⟩ : CanAbstract).vciOpenDevice blankEnv 4 0 0 (fun _ => 0) = some o ∧
      o.asked = [.net, .direct] ∧ o.writes = [] := by
  have hrun : ((⟨none⟩ : CanAbstract).vciOpenDevice blankEnv 4 0 0 (fun _ => 0)).isSome = true := by
    decide +kernel
  obtain ⟨o, ho⟩ := Option.isSome_iff_exists.mp hrun
  obtain ⟨items, items', -, -, -, hdirect, -⟩ := open_follows_config blankEnv_loadedFrom ho
  exact ⟨blankEnv_loadedFrom, o, ho, hdirect rfl⟩

end LibControlCan
