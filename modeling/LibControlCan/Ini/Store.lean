import Mathlib.Data.List.AList
import LibControlCan.Framework.Machine

/-! # The object behind an INI file

    `Ini` holds its sections as pointers to maps, and `current` points to the
    section that was opened or selected last.  The constructor leaves
    `current` uninitialised.

    * `Ini` is the object on a heap, with every use of a bad pointer as a
      fault.
    * `Store` is what it is for: contents by section and key, and the name
      of the selected section.
    * `ini_refines_store`: on every sequence of operations the object gives
      the replies of the store.  So no map is used after it was deleted, and
      `current` never points to a map that no section owns. -/

namespace LibControlCan

open LTS

/-! ## Section 1: The object -/

/-- `fini_string_t`, for sections, keys and values. -/
abbrev FiniStringT := List UInt8

/-- `keys_t`. -/
abbrev KeysT := AList fun _ : FiniStringT => FiniStringT

/-- A `keys_t*`; the maps are numbered in the order of their allocation. -/
inductive KeysPointer where
  | uninitialised
  | null
  | keys (p : Nat)
  deriving DecidableEq, Repr

/-- What the source leaves undefined. -/
inductive IniFault where
  /-- `current` is used, and nothing was ever stored in it. -/
  | uninitialised
  /-- `current` is null, and is followed. -/
  | nullPointer
  /-- A map is used, or deleted, after it was deleted. -/
  | deleted
  /-- `parse`: the length of a section's name has wrapped around. -/
  | sectionLength
  /-- `parse`: there is no key to take the length of. -/
  | nullKey
  deriving DecidableEq, Repr

/-- `Ini`.  A map that was deleted is `none`; one that no section owns any
    more stays on the heap. -/
structure Ini where
  heap : List (Option KeysT)
  sections : AList fun _ : FiniStringT => Nat
  current : KeysPointer

/-- The calls on an object, and the two assignments by which `parse` works
    on it. -/
inductive IniOp where
  | header (name : FiniStringT)
  | entry (key value : FiniStringT)
  /-- `ini[name][key]`, as a value. -/
  | index (name key : FiniStringT)
  | create (name : FiniStringT)
  | select (name : FiniStringT)
  | set (key value : FiniStringT)
  | get (key fallback : FiniStringT)
  /-- `get` with a section. -/
  | getFrom (name key fallback : FiniStringT)
  | clear

inductive IniReply where
  | done
  | flag (b : Bool)
  | value (v : FiniStringT)
  deriving DecidableEq, Repr

namespace Ini

def new : Ini := { heap := [], sections := ∅, current := .uninitialised }

/-- The map behind a pointer. -/
def deref (ini : Ini) : KeysPointer → Except IniFault (Nat × KeysT)
  | .uninitialised => .error .uninitialised
  | .null => .error .nullPointer
  | .keys p =>
    match ini.heap[p]? with
    | some (some keys) => .ok (p, keys)
    | _ => .error .deleted

/-- `current = new keys_t; sections[section] = current`. -/
def newSection (ini : Ini) (name : FiniStringT) : Ini :=
  { heap := ini.heap ++ [some ∅]
    sections := ini.sections.insert name ini.heap.length
    current := .keys ini.heap.length }

/-- `(*current)[key] = value`. -/
def assign (ini : Ini) (key value : FiniStringT) : Except IniFault Ini := do
  let (p, keys) ← ini.deref ini.current
  return { ini with heap := ini.heap.set p (some (keys.insert key value)) }

/-- `operator[]`: a section that is missing is made, and not selected. -/
def index (ini : Ini) (name : FiniStringT) : Ini × Nat :=
  match ini.sections.lookup name with
  | some p => (ini, p)
  | none =>
    ({ ini with
        heap := ini.heap ++ [some ∅]
        sections := ini.sections.insert name ini.heap.length }, ini.heap.length)

/-- `ini[name][key]`: a key that is missing is made, with an empty value. -/
def value (ini : Ini) (name key : FiniStringT) : Except IniFault (Ini × FiniStringT) := do
  let (ini, p) := ini.index name
  let (p, keys) ← ini.deref (.keys p)
  match keys.lookup key with
  | some v => return (ini, v)
  | none => return ({ ini with heap := ini.heap.set p (some (keys.insert key [])) }, [])

def select (ini : Ini) (name : FiniStringT) : Ini × Bool :=
  match ini.sections.lookup name with
  | none => (ini, false)
  | some p => ({ ini with current := .keys p }, true)

/-- `create`.  A section that exists is selected all the same. -/
def create (ini : Ini) (name : FiniStringT) : Ini × Bool :=
  if (ini.select name).2 then ((ini.select name).1, false) else (ini.newSection name, true)

def set (ini : Ini) (key value : FiniStringT) : Except IniFault (Ini × Bool) :=
  match ini.current with
  | .uninitialised => .error .uninitialised
  | .null => .ok (ini, false)
  | .keys _ => (ini.assign key value).map fun ini' => (ini', true)

/-- `get`.  `current` is followed before it is compared with null. -/
def get (ini : Ini) (key fallback : FiniStringT) : Except IniFault FiniStringT := do
  let (_, keys) ← ini.deref ini.current
  return (keys.lookup key).getD fallback

def getFrom (ini : Ini) (name key fallback : FiniStringT) : Except IniFault (Ini × FiniStringT) :=
  let (ini', found) := ini.select name
  if found then (ini'.get key fallback).map fun v => (ini', v) else .ok (ini', fallback)

/-- `delete`. -/
def delete (heap : List (Option KeysT)) (p : Nat) : Except IniFault (List (Option KeysT)) :=
  match heap[p]? with
  | some (some _) => .ok (heap.set p none)
  | _ => .error .deleted

/-- `clear`, with `clean`. -/
def clear (ini : Ini) : Except IniFault Ini := do
  let heap ← ini.sections.entries.foldlM (fun heap e => delete heap e.2) ini.heap
  return { heap, sections := ∅, current := .null }

def step (ini : Ini) : IniOp → Except IniFault (Ini × IniReply)
  | .header name => .ok (ini.newSection name, .done)
  | .entry key value => (ini.assign key value).map fun ini' => (ini', .done)
  | .index name key => (ini.value name key).map fun (ini', v) => (ini', .value v)
  | .create name => .ok ((ini.create name).1, .flag (ini.create name).2)
  | .select name => .ok ((ini.select name).1, .flag (ini.select name).2)
  | .set key value => (ini.set key value).map fun (ini', b) => (ini', .flag b)
  | .get key fallback => (ini.get key fallback).map fun v => (ini, .value v)
  | .getFrom name key fallback =>
    (ini.getFrom name key fallback).map fun (ini', v) => (ini', .value v)
  | .clear => ini.clear.map fun ini' => (ini', .done)

end Ini

/-! ## Section 2: What it is for -/

/-- The section that is selected. -/
inductive Selected where
  /-- None was ever. -/
  | uninitialised
  /-- None is any more. -/
  | null
  | named (name : FiniStringT)

/-- Contents by section and key. -/
structure Store where
  content : FiniStringT → Option (FiniStringT → Option FiniStringT)
  selected : Selected

namespace Store

def new : Store := { content := fun _ => none, selected := .uninitialised }

/-- The value of a key, if it has one. -/
def find (st : Store) (name key : FiniStringT) : Option FiniStringT :=
  (st.content name).bind fun keys => keys key

/-- A key of a section gets a value. -/
def put (st : Store) (name key value : FiniStringT) : Store :=
  { st with
    content := Function.update st.content name
      (some (Function.update ((st.content name).getD fun _ => none) key (some value))) }

/-- An empty section, which is selected. -/
def openSection (st : Store) (name : FiniStringT) : Store :=
  { content := Function.update st.content name (some fun _ => none), selected := .named name }

/-- The name of the selected section, where the code follows `current`. -/
def current (st : Store) : Except IniFault FiniStringT :=
  match st.selected with
  | .uninitialised => .error .uninitialised
  | .null => .error .nullPointer
  | .named name => .ok name

def step (st : Store) : IniOp → Except IniFault (Store × IniReply)
  | .header name => .ok (st.openSection name, .done)
  | .entry key value => st.current.map fun name => (st.put name key value, .done)
  | .index name key =>
    let v := (st.find name key).getD []
    .ok (st.put name key v, .value v)
  | .create name =>
    match st.content name with
    | some _ => .ok ({ st with selected := .named name }, .flag false)
    | none => .ok (st.openSection name, .flag true)
  | .select name =>
    match st.content name with
    | some _ => .ok ({ st with selected := .named name }, .flag true)
    | none => .ok (st, .flag false)
  | .set key value =>
    match st.selected with
    | .uninitialised => .error .uninitialised
    | .null => .ok (st, .flag false)
    | .named name => .ok (st.put name key value, .flag true)
  | .get key fallback =>
    st.current.map fun name => (st, .value ((st.find name key).getD fallback))
  | .getFrom name key fallback =>
    match st.content name with
    | some keys => .ok ({ st with selected := .named name }, .value ((keys key).getD fallback))
    | none => .ok (st, .value fallback)
  | .clear => .ok ({ content := fun _ => none, selected := .null }, .done)

end Store

/-! ## Section 3: Representation -/

/-- What a pointer selects. -/
inductive Selecting (sections : AList fun _ : FiniStringT => Nat) :
    KeysPointer → Selected → Prop where
  | uninitialised : Selecting sections .uninitialised .uninitialised
  | null : Selecting sections .null .null
  | keys {name : FiniStringT} {p : Nat} : sections.lookup name = some p →
      Selecting sections (.keys p) (.named name)

/-- A section that was missing does not disturb what is selected. -/
theorem Selecting.insert {sections : AList fun _ : FiniStringT => Nat} {current : KeysPointer}
    {selected : Selected} {name : FiniStringT} (h : Selecting sections current selected)
    (hnone : sections.lookup name = none) (p : Nat) :
    Selecting (sections.insert name p) current selected := by
  cases h with
  | uninitialised => exact .uninitialised
  | null => exact .null
  | @keys name' q hq =>
    have hne : name' ≠ name := by
      rintro rfl
      rw [hq] at hnone
      cases hnone
    exact .keys (by rwa [AList.lookup_insert_ne hne])

/-- The object holds the contents of the store. -/
structure Ini.Represents (ini : Ini) (st : Store) : Prop where
  absent : ∀ name, ini.sections.lookup name = none → st.content name = none
  present : ∀ name p, ini.sections.lookup name = some p →
    ∃ keys, ini.heap[p]? = some (some keys) ∧ st.content name = some fun key => keys.lookup key
  distinct : ∀ name name' p, ini.sections.lookup name = some p →
    ini.sections.lookup name' = some p → name = name'
  selects : Selecting ini.sections ini.current st.selected

namespace Ini

variable {ini : Ini} {st : Store} {name : FiniStringT} {p : Nat} {keys : KeysT}

theorem represents_new : new.Represents .new :=
  ⟨fun _ _ => rfl, fun _ _ h => by simp [new] at h, fun _ _ _ h => by simp [new] at h,
    .uninitialised⟩

theorem Represents.lt_length (h : ini.Represents st) (hp : ini.sections.lookup name = some p) :
    p < ini.heap.length := by
  obtain ⟨keys, hkeys, -⟩ := h.present name p hp
  exact (List.getElem?_eq_some_iff.mp hkeys).1

/-- A new map has a number of its own. -/
theorem Represents.insert (h : ini.Represents st) (name : FiniStringT) {current : KeysPointer}
    {selected : Selected}
    (hsel : Selecting (ini.sections.insert name ini.heap.length) current selected) :
    Represents
      { heap := ini.heap ++ [some ∅]
        sections := ini.sections.insert name ini.heap.length
        current }
      { content := Function.update st.content name (some fun _ => none), selected } := by
  have hold : ∀ name' q, name' ≠ name →
      (ini.sections.insert name ini.heap.length).lookup name' = some q →
      ini.sections.lookup name' = some q := by
    intro name' q hne hq
    rwa [AList.lookup_insert_ne hne] at hq
  refine ⟨fun name' hnone => ?_, fun name' q hq => ?_, fun m m' q hm hm' => ?_, hsel⟩
  · have hne : name' ≠ name := by
      rintro rfl
      simp at hnone
    rw [AList.lookup_insert_ne hne] at hnone
    simpa [Function.update_of_ne hne] using h.absent name' hnone
  · by_cases hne : name' = name
    · subst hne
      simp only [AList.lookup_insert, Option.some.injEq] at hq
      subst hq
      exact ⟨∅, by simp, by simp⟩
    · obtain ⟨keys, hkeys, hcontent⟩ := h.present name' q (hold name' q hne hq)
      have hlt := (List.getElem?_eq_some_iff.mp hkeys).1
      exact ⟨keys, by rw [List.getElem?_append_left hlt, hkeys],
        by simpa [Function.update_of_ne hne] using hcontent⟩
  · by_cases hne : m = name <;> by_cases hne' : m' = name
    · rw [hne, hne']
    · subst hne
      simp only [AList.lookup_insert, Option.some.injEq] at hm
      have hlt := h.lt_length (hold m' q hne' hm')
      omega
    · subst hne'
      simp only [AList.lookup_insert, Option.some.injEq] at hm'
      have hlt := h.lt_length (hold m q hne hm)
      omega
    · exact h.distinct m m' q (hold m q hne hm) (hold m' q hne' hm')

theorem Represents.newSection (h : ini.Represents st) (name : FiniStringT) :
    (ini.newSection name).Represents (st.openSection name) :=
  h.insert name (.keys (AList.lookup_insert _))

/-- A write to the map of a section. -/
theorem Represents.write (h : ini.Represents st) (hp : ini.sections.lookup name = some p)
    (hkeys : ini.heap[p]? = some (some keys)) (key value : FiniStringT) :
    Represents { ini with heap := ini.heap.set p (some (keys.insert key value)) }
      (st.put name key value) := by
  have hlt := h.lt_length hp
  refine ⟨fun name' hnone => ?_, fun name' q hq => ?_, h.distinct, h.selects⟩
  · have hne : name' ≠ name := by
      rintro rfl
      rw [hp] at hnone
      cases hnone
    simpa [Store.put, Function.update_of_ne hne] using h.absent name' hnone
  · by_cases hne : name' = name
    · subst hne
      obtain rfl : p = q := Option.some.inj (hp.symm.trans hq)
      obtain ⟨keys', hkeys', hcontent⟩ := h.present name' p hp
      obtain rfl : keys = keys' := Option.some.inj (Option.some.inj (hkeys.symm.trans hkeys'))
      refine ⟨keys.insert key value, by simp [hlt], ?_⟩
      simp only [Store.put, Function.update_self, hcontent, Option.getD_some, Option.some.injEq]
      funext k
      by_cases hk : k = key
      · subst hk
        rw [Function.update_self, AList.lookup_insert]
      · rw [Function.update_of_ne hk, AList.lookup_insert_ne hk]
    · have hpq : p ≠ q := fun heq => hne (h.distinct name' name q hq (heq ▸ hp))
      obtain ⟨keys', hkeys', hcontent⟩ := h.present name' q hq
      exact ⟨keys', by rw [List.getElem?_set_ne hpq, hkeys'],
        by simpa [Store.put, Function.update_of_ne hne] using hcontent⟩

/-- `current` is not initialised, it is null, or it points to the map of the
    selected section. -/
theorem Represents.current_cases (h : ini.Represents st) :
    ini.current = .uninitialised ∧ st.selected = .uninitialised ∨
      ini.current = .null ∧ st.selected = .null ∨
      ∃ name p keys, ini.current = .keys p ∧ st.selected = .named name ∧
        ini.sections.lookup name = some p ∧ ini.heap[p]? = some (some keys) ∧
        st.content name = some fun key => keys.lookup key := by
  have hsel := h.selects
  generalize ini.current = current, st.selected = selected at hsel
  cases hsel with
  | uninitialised => exact Or.inl ⟨rfl, rfl⟩
  | null => exact Or.inr (Or.inl ⟨rfl, rfl⟩)
  | @keys name p hp =>
    obtain ⟨keys, hkeys, hcontent⟩ := h.present name p hp
    exact Or.inr (Or.inr ⟨name, p, keys, rfl, rfl, hp, hkeys, hcontent⟩)

/-- A section is in both, or in neither. -/
theorem Represents.lookup_cases (h : ini.Represents st) (name : FiniStringT) :
    ini.sections.lookup name = none ∧ st.content name = none ∨
      ∃ p keys, ini.sections.lookup name = some p ∧ ini.heap[p]? = some (some keys) ∧
        st.content name = some fun key => keys.lookup key := by
  cases hp : ini.sections.lookup name with
  | none => exact Or.inl ⟨rfl, h.absent name hp⟩
  | some p =>
    obtain ⟨keys, hkeys, hcontent⟩ := h.present name p hp
    exact Or.inr ⟨p, keys, rfl, hkeys, hcontent⟩

theorem Represents.selectNamed (h : ini.Represents st) (hp : ini.sections.lookup name = some p) :
    Represents { ini with current := .keys p } { st with selected := .named name } :=
  ⟨h.absent, h.present, h.distinct, .keys hp⟩

/-- Both sides fault alike, or give the same reply and go on as they should. -/
inductive Agrees :
    Except IniFault (Ini × IniReply) → Except IniFault (Store × IniReply) → Prop where
  | ok {ini : Ini} {st : Store} (r : IniReply) : ini.Represents st →
      Agrees (.ok (ini, r)) (.ok (st, r))
  | error (e : IniFault) : Agrees (.error e) (.error e)

theorem Represents.assign (h : ini.Represents st) (key value : FiniStringT) (r : IniReply) :
    Agrees ((ini.assign key value).map fun ini' => (ini', r))
      (st.current.map fun name => (st.put name key value, r)) := by
  rcases h.current_cases with ⟨hc, hs⟩ | ⟨hc, hs⟩ | ⟨name, p, keys, hc, hs, hp, hkeys, -⟩
  · simpa [Ini.assign, hc, deref, Store.current, hs, Except.map, bind, Except.bind]
      using Agrees.error .uninitialised
  · simpa [Ini.assign, hc, deref, Store.current, hs, Except.map, bind, Except.bind]
      using Agrees.error .nullPointer
  · simpa [Ini.assign, hc, deref, hkeys, Store.current, hs, Except.map, bind, Except.bind, pure,
      Except.pure] using Agrees.ok r (h.write hp hkeys key value)

/-- A section that is made is as good as one that was there and empty. -/
theorem put_of_absent (h : st.content name = none) (key value : FiniStringT) :
    Store.put { st with content := Function.update st.content name (some fun _ => none) } name key
      value = st.put name key value := by
  simp [Store.put, h]

theorem put_of_find {key value : FiniStringT} (h : st.find name key = some value) :
    st.put name key value = st := by
  obtain ⟨keys, hkeys, hvalue⟩ := Option.bind_eq_some_iff.mp h
  have hkey : Function.update keys key (some value) = keys := by
    rw [← hvalue, Function.update_eq_self]
  simp only [Store.put, hkeys, Option.getD_some, hkey]
  rw [← hkeys, Function.update_eq_self]

theorem Represents.value (h : ini.Represents st) (name key : FiniStringT) :
    Agrees ((ini.value name key).map fun (ini', v) => (ini', IniReply.value v))
      (st.step (.index name key)) := by
  rcases h.lookup_cases name with ⟨hp, hcontent⟩ | ⟨p, keys, hp, hkeys, hcontent⟩
  · -- The section is made first, and then the key.
    have hempty : (ini.heap ++ [some (∅ : KeysT)])[ini.heap.length]? = some (some ∅) := by simp
    have hmade := (h.insert name (h.selects.insert hp ini.heap.length)).write
      (AList.lookup_insert _) hempty key []
    rw [put_of_absent hcontent] at hmade
    simpa [Ini.value, Ini.index, hp, deref, Store.step, Store.find, hcontent, Except.map, bind,
      Except.bind, pure, Except.pure] using Agrees.ok (.value []) hmade
  · cases hv : keys.lookup key with
    | none =>
      simpa [Ini.value, Ini.index, hp, deref, hkeys, hv, Store.step, Store.find, hcontent,
        Except.map, bind, Except.bind, pure, Except.pure]
        using Agrees.ok (.value []) (h.write hp hkeys key [])
    | some v =>
      have hfind : st.find name key = some v := by simp [Store.find, hcontent, hv]
      simpa [Ini.value, Ini.index, hp, deref, hkeys, hv, Store.step, hfind, put_of_find hfind,
        Except.map, bind, Except.bind, pure, Except.pure] using Agrees.ok (.value v) h

theorem Represents.select (h : ini.Represents st) (name : FiniStringT) :
    Agrees (.ok ((ini.select name).1, .flag (ini.select name).2)) (st.step (.select name)) := by
  rcases h.lookup_cases name with ⟨hp, hcontent⟩ | ⟨p, keys, hp, -, hcontent⟩
  · simpa [Ini.select, hp, Store.step, hcontent] using Agrees.ok (.flag false) h
  · simpa [Ini.select, hp, Store.step, hcontent] using Agrees.ok (.flag true) (h.selectNamed hp)

theorem Represents.create (h : ini.Represents st) (name : FiniStringT) :
    Agrees (.ok ((ini.create name).1, .flag (ini.create name).2)) (st.step (.create name)) := by
  rcases h.lookup_cases name with ⟨hp, hcontent⟩ | ⟨p, keys, hp, -, hcontent⟩
  · simpa [Ini.create, Ini.select, hp, Store.step, hcontent]
      using Agrees.ok (.flag true) (h.newSection name)
  · simpa [Ini.create, Ini.select, hp, Store.step, hcontent]
      using Agrees.ok (.flag false) (h.selectNamed hp)

theorem Represents.set (h : ini.Represents st) (key value : FiniStringT) :
    Agrees ((ini.set key value).map fun (ini', b) => (ini', IniReply.flag b))
      (st.step (.set key value)) := by
  rcases h.current_cases with ⟨hc, hs⟩ | ⟨hc, hs⟩ | ⟨name, p, keys, hc, hs, -⟩
  · simpa [Ini.set, hc, Store.step, hs, Except.map] using Agrees.error .uninitialised
  · simpa [Ini.set, hc, Store.step, hs, Except.map] using Agrees.ok (.flag false) h
  · have hassign := h.assign key value (.flag true)
    simp only [Store.current, hs, Except.map] at hassign
    simp only [Ini.set, hc, Store.step, hs]
    convert hassign using 1
    cases ini.assign key value <;> rfl

theorem Represents.get (h : ini.Represents st) (key fallback : FiniStringT) :
    Agrees ((ini.get key fallback).map fun v => (ini, IniReply.value v))
      (st.step (.get key fallback)) := by
  rcases h.current_cases with ⟨hc, hs⟩ | ⟨hc, hs⟩ | ⟨name, p, keys, hc, hs, hp, hkeys, hcontent⟩
  · simpa [Ini.get, hc, deref, Store.step, Store.current, hs, Except.map, bind, Except.bind]
      using Agrees.error .uninitialised
  · simpa [Ini.get, hc, deref, Store.step, Store.current, hs, Except.map, bind, Except.bind]
      using Agrees.error .nullPointer
  · simpa [Ini.get, hc, deref, hkeys, Store.step, Store.current, hs, Store.find, hcontent,
      Except.map, bind, Except.bind, pure, Except.pure]
      using Agrees.ok (.value ((keys.lookup key).getD fallback)) h

theorem Represents.getFrom (h : ini.Represents st) (name key fallback : FiniStringT) :
    Agrees ((ini.getFrom name key fallback).map fun (ini', v) => (ini', IniReply.value v))
      (st.step (.getFrom name key fallback)) := by
  rcases h.lookup_cases name with ⟨hp, hcontent⟩ | ⟨p, keys, hp, hkeys, hcontent⟩
  · simpa [Ini.getFrom, Ini.select, hp, Store.step, hcontent, Except.map]
      using Agrees.ok (.value fallback) h
  · simpa [Ini.getFrom, Ini.select, hp, Ini.get, deref, hkeys, Store.step, hcontent, Except.map,
      bind, Except.bind, pure, Except.pure]
      using Agrees.ok (.value ((keys.lookup key).getD fallback)) (h.selectNamed hp)

/-- Maps that are there, under different numbers, can all be deleted. -/
theorem exists_deleted {es : List ((_ : FiniStringT) × Nat)} {heap : List (Option KeysT)}
    (hvalid : ∀ e ∈ es, ∃ keys, heap[e.2]? = some (some keys))
    (hdistinct : es.Pairwise fun e e' => e.2 ≠ e'.2) :
    ∃ heap', es.foldlM (fun heap e => delete heap e.2) heap = .ok heap' := by
  induction es generalizing heap with
  | nil => exact ⟨heap, rfl⟩
  | cons e es ih =>
    obtain ⟨hne, hrest⟩ := List.pairwise_cons.mp hdistinct
    obtain ⟨keys, hkeys⟩ := hvalid e List.mem_cons_self
    have hvalid' : ∀ e' ∈ es, ∃ keys, (heap.set e.2 none)[e'.2]? = some (some keys) := by
      intro e' he'
      rw [List.getElem?_set_ne (hne e' he')]
      exact hvalid e' (List.mem_cons_of_mem _ he')
    obtain ⟨heap', hheap'⟩ := ih hvalid' hrest
    exact ⟨heap', by simpa [delete, hkeys, bind, Except.bind] using hheap'⟩

theorem Represents.clear (h : ini.Represents st) :
    Agrees (ini.clear.map fun ini' => (ini', .done)) (st.step .clear) := by
  have hlookup : ∀ e ∈ ini.sections.entries, ini.sections.lookup e.1 = some e.2 := fun e he =>
    AList.mem_lookup_iff.mpr he
  have hvalid : ∀ e ∈ ini.sections.entries, ∃ keys, ini.heap[e.2]? = some (some keys) := by
    intro e he
    obtain ⟨keys, hkeys, -⟩ := h.present e.1 e.2 (hlookup e he)
    exact ⟨keys, hkeys⟩
  obtain ⟨heap', hheap'⟩ := exists_deleted hvalid
    ((List.nodupKeys_iff_pairwise.mp ini.sections.nodupKeys).imp_of_mem
      fun he he' hne heq => hne (h.distinct _ _ _ (hlookup _ he) (heq ▸ hlookup _ he')))
  have hempty : Represents { heap := heap', sections := ∅, current := .null }
      { content := fun _ => none, selected := .null } :=
    ⟨fun _ _ => rfl, fun _ _ h => by simp at h, fun _ _ _ h => by simp at h, .null⟩
  simpa [Ini.clear, hheap', Store.step, Except.map, bind, Except.bind, pure, Except.pure]
    using Agrees.ok .done hempty

/-- **Step lemma.** -/
theorem Represents.step (h : ini.Represents st) (op : IniOp) :
    Agrees (ini.step op) (st.step op) := by
  cases op with
  | header name => exact .ok .done (h.newSection name)
  | entry key value => exact h.assign key value .done
  | index name key => exact h.value name key
  | create name => exact h.create name
  | select name => exact h.select name
  | set key value => exact h.set key value
  | get key fallback => exact h.get key fallback
  | getFrom name key fallback => exact h.getFrom name key fallback
  | clear => exact h.clear

end Ini

/-! ## Section 4: Runs -/

/-- An object or a store that faulted gives nothing but its fault. -/
def faulting {S I O : Type} (step : S → I → Except IniFault (S × O)) :
    Machine (Except IniFault S) I (Except IniFault O) where
  step s i :=
    match s with
    | .error e => (.error e, .error e)
    | .ok s =>
      match step s i with
      | .error e => (.error e, .error e)
      | .ok (s', o) => (.ok s', .ok o)

def iniMachine : Machine (Except IniFault Ini) IniOp (Except IniFault IniReply) := faulting Ini.step

def storeMachine : Machine (Except IniFault Store) IniOp (Except IniFault IniReply) :=
  faulting Store.step

/-- Every call may come next. -/
def anyCall : Protocol Unit IniOp := ⟨fun _ _ => some ()⟩

theorem anyCall_allows (ops : List IniOp) : anyCall.Allows () ops := by
  induction ops with
  | nil => trivial
  | cons op ops ih => exact ⟨(), rfl, ih⟩

/-- The object simulates the store. -/
def iniSimulation : Simulation iniMachine storeMachine anyCall where
  Rel _ s t :=
    match s, t with
    | .ok ini, .ok st => ini.Represents st
    | .error e, .error e' => e = e'
    | _, _ => False
  step := by
    intro _ _ s t op hrel _
    match s, t, hrel with
    | .error e, .error _, rfl => exact ⟨rfl, rfl⟩
    | .ok ini, .ok st, hrel =>
      have hstep := Ini.Represents.step hrel op
      simp only [iniMachine, storeMachine, faulting]
      generalize ini.step op = x, st.step op = y at hstep ⊢
      cases hstep with
      | ok r hrep => exact ⟨rfl, hrep⟩
      | error e => exact ⟨rfl, rfl⟩

/-- On every sequence of calls, and whatever `parse` does in between, the
    object replies as the store does, up to and including a fault; and a
    fault is a use of `current` that the store faults at too. -/
theorem ini_refines_store (ops : List IniOp) :
    iniMachine.outputs (.ok .new) ops = storeMachine.outputs (.ok .new) ops :=
  iniSimulation.outputs_eq (p := ()) (s := .ok .new) (t := .ok .new) Ini.represents_new
    (anyCall_allows ops)

end LibControlCan
