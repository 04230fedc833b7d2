import LibControlCan.Ini.Parse

/-! # Saving an INI file

    `Ini::save` writes every section that has keys, and the keys of each, in
    the order in which the maps are walked.

    * `Visits` says that an order is one in which the maps of an object can
      be walked.
    * `WritableName` and `WritableEntry` are what can be written and read
      back.
    * `exists_reloaded`: in whatever order an object is saved, parsing the
      file gives an object with the same values.
    * `reload_keeps`: so it is for everything that was parsed from a file
      where no line begins with white space or an equals sign. -/

namespace LibControlCan

open Lines IStream CStrings

/-! ## Section 1: The writer -/

/-- The sections and their keys, in the order in which they are visited. -/
abbrev IniOrder := List (FiniStringT × List (FiniStringT × FiniStringT))

inductive IniSource where
  | file
  | memory
  deriving DecidableEq

namespace Ini

def hasFileAssociation (source : IniSource) (filename : List UInt8) : Bool :=
  !(source == .memory && filename == [])

def makeSection (name : FiniStringT) : FiniStringT := 91 :: (name ++ [93, 10])

def makeKeyValue (key value : FiniStringT) : FiniStringT := key ++ 61 :: (value ++ [10])

/-- What the loops of `save` write.  Each text is written up to its first
    null. -/
def saved (order : IniOrder) : List UInt8 :=
  order.flatMap fun (name, keys) =>
    if keys.length = 0 then []
    else cstr (makeSection name) ++ keys.flatMap fun (key, value) => cstr (makeKeyValue key value)

/-- `save`: the contents of the file, or `none` where it returns false.
    `opens` says whether the file can be opened. -/
def save (source : IniSource) (filename : List UInt8) (opens : Bool) (order : IniOrder) :
    Option (List UInt8) :=
  if !hasFileAssociation source filename then none
  else if !opens then none
  else some (saved order)

/-- The value of a key, without the side effects of a lookup. -/
def find (ini : Ini) (name key : FiniStringT) : Option FiniStringT :=
  (ini.sections.lookup name).bind fun p => ini.heap[p]?.join.bind fun keys => keys.lookup key

/-- The order in which the model keeps the maps. -/
def walk (ini : Ini) : IniOrder :=
  ini.sections.entries.map fun e =>
    (e.1, (ini.heap[e.2]?.join.getD ∅).entries.map fun kv => (kv.1, kv.2))

/-- The maps of an object can be walked in this order. -/
structure Visits (ini : Ini) (order : IniOrder) : Prop where
  sections : (order.map Prod.fst).Perm ini.sections.keys
  keys : ∀ name keys, (name, keys) ∈ order → ∃ p map, ini.sections.lookup name = some p ∧
    ini.heap[p]? = some (some map) ∧ keys.Perm (map.entries.map fun e => (e.1, e.2))

end Ini

/-! ## Section 2: What can be written -/

/-- A text that a line can hold. -/
def Printable (s : List UInt8) : Prop := 0 ∉ s ∧ Free isLineEnd s

structure WritableName (name : FiniStringT) : Prop where
  printable : Printable name
  length : name.length + 2 ≤ 255

/-- A key and a value whose line is read back as just these. -/
structure WritableEntry (key value : FiniStringT) : Prop where
  printable : Printable (key ++ 61 :: value)
  length : (key ++ 61 :: value).length ≤ 255
  plain : PlainLine (key ++ 61 :: value)
  key_ne : key ≠ []
  key_free : Free isEquals key
  key_first : ∀ c ∈ key.head?, isspace c = false
  value_ne : value ≠ []

/-- An order that can be written. -/
def WritableOrder (order : IniOrder) : Prop :=
  ∀ name keys, (name, keys) ∈ order → keys ≠ [] →
    WritableName name ∧ ∀ key value, (key, value) ∈ keys → WritableEntry key value

namespace Ini

/-- The lines of a saved file. -/
def savedLines (order : IniOrder) : List (List UInt8) :=
  order.flatMap fun (name, keys) =>
    if keys.length = 0 then []
    else (91 :: (name ++ [93])) :: keys.map fun (key, value) => key ++ 61 :: value

/-- What they say. -/
def savedItems (order : IniOrder) : List IniItem :=
  order.flatMap fun (name, keys) =>
    if keys.length = 0 then []
    else .header name :: keys.map fun (key, value) => .entry key value

variable {ini : Ini} {st : Store} {order : IniOrder} {name : FiniStringT}
  {keys : List (FiniStringT × FiniStringT)}

theorem writableOrder_cons (h : WritableOrder ((name, keys) :: order)) : WritableOrder order :=
  fun name' keys' hmem => h name' keys' (List.mem_cons_of_mem _ hmem)

theorem savedLines_cons (hne : keys ≠ []) : savedLines ((name, keys) :: order) =
    (91 :: (name ++ [93])) :: (keys.map fun (key, value) => key ++ 61 :: value) ++
      savedLines order := by
  simp [savedLines, hne]

theorem savedItems_cons (hne : keys ≠ []) : savedItems ((name, keys) :: order) =
    .header name :: (keys.map fun (key, value) => .entry key value) ++ savedItems order := by
  simp [savedItems, hne]

/-! ## Section 3: The lines of a saved file -/

theorem header_line (h : WritableName name) :
    cstr (91 :: (name ++ [93])) = 91 :: (name ++ [93]) ∧
      Free isLineEnd (91 :: (name ++ [93])) ∧ (91 :: (name ++ [93])).length ≤ 255 := by
  have hlen := h.length
  refine ⟨cstr_eq_self ?_, ?_, by simp; omega⟩
  · simpa using h.printable.1
  · intro c hc
    simp only [List.mem_cons, List.mem_append, List.not_mem_nil, or_false] at hc
    rcases hc with rfl | hc | rfl
    · rfl
    · exact h.printable.2 c hc
    · rfl

/-- **Written lines** are free of nulls and newlines, and short. -/
theorem savedLines_lines (h : WritableOrder order) :
    ∀ l ∈ savedLines order, Printable l ∧ l.length ≤ 255 := by
  induction order with
  | nil => simp [savedLines]
  | cons e order ih =>
    obtain ⟨name, keys⟩ := e
    by_cases hne : keys = []
    · simpa [savedLines, hne] using ih (writableOrder_cons h)
    · obtain ⟨hname, hkeys⟩ := h name keys List.mem_cons_self hne
      intro l hl
      rw [savedLines_cons hne, List.mem_append, List.mem_cons, List.mem_map] at hl
      rcases hl with (rfl | ⟨⟨key, value⟩, hkv, rfl⟩) | hl
      · obtain ⟨-, hfree, hlen⟩ := header_line hname
        exact ⟨⟨by simpa using hname.printable.1, hfree⟩, hlen⟩
      · exact ⟨(hkeys key value hkv).printable, (hkeys key value hkv).length⟩
      · exact ih (writableOrder_cons h) l hl

/-- `save` writes these lines. -/
theorem saved_eq_joinLines (h : WritableOrder order) :
    saved order = joinLines 10 (savedLines order) := by
  induction order with
  | nil => rfl
  | cons e order ih =>
    obtain ⟨name, keys⟩ := e
    have hrest : saved ((name, keys) :: order) = (if keys.length = 0 then [] else
        cstr (makeSection name) ++
          keys.flatMap fun (key, value) => cstr (makeKeyValue key value)) ++ saved order := by
      simp [saved]
    rw [hrest, ih (writableOrder_cons h)]
    by_cases hne : keys = []
    · simp [savedLines, hne]
    · obtain ⟨hname, hkeys⟩ := h name keys List.mem_cons_self hne
      have hsection : cstr (makeSection name) = 91 :: (name ++ [93]) ++ [10] := by
        rw [cstr_eq_self (by simpa [makeSection] using hname.printable.1)]
        simp [makeSection]
      have hentries : (keys.flatMap fun (key, value) => cstr (makeKeyValue key value)) =
          joinLines 10 (keys.map fun (key, value) => key ++ 61 :: value) := by
        rw [joinLines, List.flatMap_map]
        refine List.flatMap_congr ?_
        rintro ⟨key, value⟩ hkv
        have hzero := (hkeys key value hkv).printable.1
        show cstr (makeKeyValue key value) = key ++ 61 :: value ++ [10]
        rw [cstr_eq_self (by simpa [makeKeyValue] using hzero)]
        simp [makeKeyValue]
      rw [savedLines_cons hne, if_neg (by simpa using hne), hsection, hentries]
      simp [joinLines]

/-- A file is a sequence of sections, and so is what it says. -/
theorem reads_append {ls ls' : List (List UInt8)} {items items' : List IniItem}
    (h : Reads ls items) (h' : Reads ls' items') : Reads (ls ++ ls') (items ++ items') := by
  induction h with
  | nil => exact h'
  | skip hline _ ih => exact .skip hline ih
  | item hline _ ih => exact .item hline ih

theorem reads_entries (h : ∀ key value, (key, value) ∈ keys → WritableEntry key value) :
    Reads (keys.map fun (key, value) => key ++ 61 :: value)
      (keys.map fun (key, value) => .entry key value) := by
  induction keys with
  | nil => exact .nil
  | cons kv keys ih =>
    obtain ⟨key, value⟩ := kv
    have hkv := h key value List.mem_cons_self
    -- Neither an equals sign nor white space stands in front of the key.
    have hkey : KeyReads ([] ++ ([] ++ key ++ 61 :: value)) (some (storedKey [] key, value)) :=
      .entry (by simp) hkv.key_ne hkv.key_free (by simp) hkv.key_first hkv.value_ne
    refine .item ?_ (ih fun key' value' hmem => h key' value' (List.mem_cons_of_mem _ hmem))
    rw [cstr_eq_self hkv.printable.1]
    exact .plain hkv.plain (by simpa [storedKey] using hkey)

/-- **What a saved file says.** -/
theorem reads_saved (h : WritableOrder order) : Reads (savedLines order) (savedItems order) := by
  induction order with
  | nil => exact .nil
  | cons e order ih =>
    obtain ⟨name, keys⟩ := e
    by_cases hne : keys = []
    · simpa [savedLines, savedItems, hne] using ih (writableOrder_cons h)
    · obtain ⟨hname, hkeys⟩ := h name keys List.mem_cons_self hne
      rw [savedLines_cons hne, savedItems_cons hne]
      refine reads_append (.item ?_ (reads_entries hkeys)) (ih (writableOrder_cons h))
      rw [(header_line hname).1]
      exact .header rfl (by simp)

theorem startsWithHeader_saved (order : IniOrder) : StartsWithHeader (savedItems order) := by
  induction order with
  | nil => exact fun item hitem => by cases hitem
  | cons e order ih =>
    obtain ⟨name, keys⟩ := e
    by_cases hne : keys = []
    · simpa [savedItems, hne] using ih
    · rw [savedItems_cons hne]
      rintro _ ⟨⟩
      exact ⟨name, rfl⟩

/-- **A saved file can be parsed**, and leaves what its lines say. -/
theorem exists_parsed_saved (h : WritableOrder order) :
    ∃ fuel ini, parse fuel (saved order) new = some (.ok ini) ∧
      ini.Represents ((savedItems order).foldl Store.read .new) := by
  have hlines : fileLines (saved order) = savedLines order ++ [[]] := by
    rw [saved_eq_joinLines h]
    exact pieces_joinLines rfl fun l hl => (savedLines_lines h l hl).1.2
  have hreads : Reads (fileLines (saved order)) (savedItems order) := by
    rw [hlines]
    simpa using reads_append (reads_saved h) (.skip (l := []) .empty .nil)
  have hshort : ∀ l ∈ fileLines (saved order), l.length < finiBufferSize := by
    intro l hl
    rw [hlines, List.mem_append, List.mem_singleton] at hl
    rcases hl with hl | rfl
    · exact Nat.lt_succ_of_le (savedLines_lines h l hl).2
    · decide
  obtain ⟨ini, hfold, hrep⟩ := exists_applied_new (startsWithHeader_saved order)
  obtain ⟨fuel, hparse⟩ := parse_new_iff.mpr ⟨hshort, _, hreads, hfold⟩
  exact ⟨fuel, ini, hparse, hrep⟩

/-! ## Section 4: The values of a saved file -/

theorem lookup_eq_some_iff_mem {l : List (FiniStringT × FiniStringT)} {key value : FiniStringT}
    (h : (l.map Prod.fst).Nodup) : l.lookup key = some value ↔ (key, value) ∈ l := by
  induction l with
  | nil => simp
  | cons kv l ih =>
    obtain ⟨key', value'⟩ := kv
    obtain ⟨hnot, hnodup⟩ := List.nodup_cons.mp h
    by_cases hkey : key = key'
    · subst hkey
      have hmem : (key, value) ∉ l := fun hmem => hnot (List.mem_map.mpr ⟨_, hmem, rfl⟩)
      simp [hmem, eq_comm]
    · have hne : (key == key') = false := by simpa using hkey
      simp [List.lookup_cons, hne, hkey, ih hnodup]

theorem lastSection_entries (keys : List (FiniStringT × FiniStringT)) (items : List IniItem) :
    lastSection name ((keys.map fun (key, value) => .entry key value) ++ items) =
      lastSection name items := by
  induction keys with
  | nil => rfl
  | cons kv keys ih => exact ih

theorem leadingEntries_saved (keys : List (FiniStringT × FiniStringT)) (order : IniOrder) :
    leadingEntries ((keys.map fun (key, value) => .entry key value) ++ savedItems order) =
      keys := by
  induction keys with
  | nil =>
    -- What follows is a section, or nothing.
    cases hitems : savedItems order with
    | nil => rfl
    | cons item items =>
      obtain ⟨name, rfl⟩ := startsWithHeader_saved order item (by rw [hitems]; rfl)
      rfl
  | cons kv keys ih => exact congrArg (kv :: ·) ih

/-- Sections with different names are found as they were written. -/
theorem lastSection_saved (hnodup : (order.map Prod.fst).Nodup) :
    lastSection name (savedItems order) = some keys ↔ (name, keys) ∈ order ∧ keys ≠ [] := by
  induction order generalizing keys with
  | nil => simp [savedItems, lastSection]
  | cons e order ih =>
    obtain ⟨name', keys'⟩ := e
    obtain ⟨hnot, hrest⟩ := List.nodup_cons.mp hnodup
    by_cases hne : keys' = []
    · have hskip : savedItems ((name', keys') :: order) = savedItems order := by
        simp [savedItems, hne]
      rw [hskip, ih hrest, List.mem_cons]
      refine ⟨fun h => ⟨Or.inr h.1, h.2⟩, fun h => ⟨h.1.resolve_left fun heq => ?_, h.2⟩⟩
      exact h.2 ((Prod.mk.inj heq).2.trans hne)
    · rw [savedItems_cons hne, List.cons_append, lastSection, lastSection_entries,
        leadingEntries_saved]
      cases hlast : lastSection name (savedItems order) with
      | some entries =>
        -- A section further on has this name, so the first one has another.
        have hname : name' ≠ name := by
          rintro rfl
          exact hnot (List.mem_map.mpr ⟨_, ((ih hrest).mp hlast).1, rfl⟩)
        have hmem : (name, keys) ∈ (name', keys') :: order ↔ (name, keys) ∈ order := by
          simp [Ne.symm hname]
        rw [hmem, ← ih hrest, hlast]
      | none =>
        have hmem : ∀ keys, ¬ ((name, keys) ∈ order ∧ keys ≠ []) := fun keys h => by
          rw [← ih hrest, hlast] at h
          cases h
        by_cases hname : name' = name
        · subst hname
          simp only [if_true, Option.some.injEq, List.mem_cons, Prod.mk.injEq, true_and]
          constructor
          · rintro rfl
            exact ⟨Or.inl rfl, hne⟩
          · rintro ⟨heq | h, hkeys⟩
            · exact heq.symm
            · exact absurd ⟨h, hkeys⟩ (hmem keys)
        · simp only [hname, if_false, List.mem_cons, Prod.mk.injEq, Ne.symm hname, false_and,
            false_or, reduceCtorEq, false_iff]
          exact hmem keys

theorem Represents.find_eq (h : ini.Represents st) (name key : FiniStringT) :
    ini.find name key = st.find name key := by
  rcases h.lookup_cases name with ⟨hp, hcontent⟩ | ⟨p, map, hp, hmap, hcontent⟩
  · simp [Ini.find, Store.find, hp, hcontent]
  · simp [Ini.find, Store.find, hp, hmap, hcontent]

theorem visits_walk (h : ini.Represents st) : ini.Visits ini.walk := by
  refine ⟨?_, fun name keys hmem => ?_⟩
  · rw [walk, List.map_map]
    exact List.Perm.refl _
  · obtain ⟨e, he, heq⟩ := List.mem_map.mp hmem
    obtain ⟨rfl, rfl⟩ := Prod.mk.inj heq
    have hp : ini.sections.lookup e.1 = some e.2 := AList.mem_lookup_iff.mpr he
    obtain ⟨map, hmap, -⟩ := h.present e.1 e.2 hp
    exact ⟨e.2, map, hp, hmap, by rw [hmap]; exact List.Perm.refl _⟩

/-- An order has every key once. -/
theorem Visits.nodup_keys (h : ini.Visits order) (hmem : (name, keys) ∈ order) :
    (keys.map Prod.fst).Nodup := by
  obtain ⟨p, map, -, -, hperm⟩ := h.keys name keys hmem
  rw [(hperm.map Prod.fst).nodup_iff, List.map_map]
  exact map.nodupKeys

theorem Visits.nodup_sections (h : ini.Visits order) : (order.map Prod.fst).Nodup :=
  h.sections.nodup_iff.mpr ini.sections.nodupKeys

/-- What an object holds is what a walk over it comes across. -/
theorem Visits.find_eq_some_iff (h : ini.Visits order) {key value : FiniStringT} :
    ini.find name key = some value ↔ ∃ keys, (name, keys) ∈ order ∧ (key, value) ∈ keys := by
  -- The map of a section has the entries that the walk has for it.
  have hmap : ∀ p map keys, ini.sections.lookup name = some p → ini.heap[p]? = some (some map) →
      (name, keys) ∈ order → (map.lookup key = some value ↔ (key, value) ∈ keys) := by
    intro p map keys hp hheap hmem
    obtain ⟨p', map', hp', hheap', hperm⟩ := h.keys name keys hmem
    obtain rfl : p = p' := Option.some.inj (hp.symm.trans hp')
    obtain rfl : map = map' := Option.some.inj (Option.some.inj (hheap.symm.trans hheap'))
    rw [hperm.mem_iff, List.mem_map]
    constructor
    · intro hlookup
      exact ⟨⟨key, value⟩, AList.mem_lookup_iff.mp hlookup, rfl⟩
    · rintro ⟨e, he, heq⟩
      obtain ⟨rfl, rfl⟩ := Prod.mk.inj heq
      exact AList.mem_lookup_iff.mpr he
  constructor
  · intro hfind
    obtain ⟨p, hp, hfind⟩ := Option.bind_eq_some_iff.mp hfind
    obtain ⟨map, hjoin, hlookup⟩ := Option.bind_eq_some_iff.mp hfind
    have hname : name ∈ order.map Prod.fst :=
      h.sections.mem_iff.mpr (AList.mem_keys.mp (AList.lookup_isSome.mp (by rw [hp]; rfl)))
    obtain ⟨⟨_, keys⟩, hmem, rfl⟩ := List.mem_map.mp hname
    exact ⟨keys, hmem, (hmap p map keys hp (Option.join_eq_some_iff.mp hjoin) hmem).mp hlookup⟩
  · rintro ⟨keys, hmem, hkv⟩
    obtain ⟨p, map, hp, hheap, -⟩ := h.keys name keys hmem
    have hlookup := (hmap p map keys hp hheap hmem).mpr hkv
    simp [Ini.find, hp, hheap, hlookup]

theorem find_saved (h : ini.Visits order) {key value : FiniStringT} :
    ((savedItems order).foldl Store.read .new).find name key = some value ↔
      ini.find name key = some value := by
  rw [Store.find_foldl_read_new, lastValue, Option.bind_eq_some_iff, h.find_eq_some_iff]
  have hlookup : ∀ keys, (name, keys) ∈ order →
      (keys.reverse.lookup key = some value ↔ (key, value) ∈ keys) := by
    intro keys hmem
    rw [lookup_eq_some_iff_mem, List.mem_reverse]
    rw [List.map_reverse, List.nodup_reverse]
    exact h.nodup_keys hmem
  constructor
  · rintro ⟨keys, hlast, hvalue⟩
    have hmem := ((lastSection_saved h.nodup_sections).mp hlast).1
    exact ⟨keys, hmem, (hlookup keys hmem).mp hvalue⟩
  · rintro ⟨keys, hmem, hkv⟩
    exact ⟨keys, (lastSection_saved h.nodup_sections).mpr ⟨hmem, List.ne_nil_of_mem hkv⟩,
      (hlookup keys hmem).mpr hkv⟩

/-- **Round trip.**  An object that is saved, in whatever order its maps are
    walked, is read back with the same values, if every name, key and value
    is one that can be written.  Sections without keys are not saved. -/
theorem exists_reloaded (hvisits : ini.Visits order) (hw : WritableOrder order) :
    ∃ fuel ini', parse fuel (saved order) new = some (.ok ini') ∧
      ∀ name key, ini'.find name key = ini.find name key := by
  obtain ⟨fuel, ini', hparse, hrep⟩ := exists_parsed_saved hw
  refine ⟨fuel, ini', hparse, fun name key => ?_⟩
  rw [hrep.find_eq]
  exact Option.ext fun value => find_saved hvisits

/-! ## Section 5: Files that were parsed -/

/-- No line begins with an equals sign or white space. -/
def CleanText (text : List UInt8) : Prop :=
  ∀ l ∈ fileLines text, ∀ c ∈ l.head?, isEquals c = false ∧ isspace c = false

theorem printable_cstr {l : List UInt8} (h : Free isLineEnd l) : Printable (cstr l) :=
  ⟨zero_not_mem_cstr l, free_cstr h⟩

theorem writableName_of_line {l : List UInt8} (hfree : Free isLineEnd l) (hlen : l.length ≤ 255)
    (h : LineReads (cstr l) (some (.header name))) : WritableName name := by
  obtain ⟨c, blank, -, -, hline⟩ := h.of_header
  obtain ⟨hzero, hend⟩ := printable_cstr hfree
  have hle := (cstr_isPrefix l).length_le
  rw [hline] at hzero hend hle
  refine ⟨⟨fun h0 => hzero (by simp [h0]), fun c hc => hend c (by simp [hc])⟩, ?_⟩
  simp only [List.length_cons, List.length_append] at hle
  omega

theorem writableEntry_of_line {l : List UInt8} {key value : FiniStringT}
    (hfree : Free isLineEnd l) (hlen : l.length ≤ 255)
    (hclean : ∀ c ∈ l.head?, isEquals c = false ∧ isspace c = false)
    (h : LineReads (cstr l) (some (.entry key value))) : WritableEntry key value := by
  obtain ⟨hplain, hkey⟩ := h.of_entry
  have hprint := printable_cstr hfree
  have hle := (cstr_isPrefix l).length_le
  have hfirst : ∀ c ∈ (cstr l).head?, isEquals c = false ∧ isspace c = false := by
    intro c hc
    obtain ⟨rest, hrest⟩ := cstr_isPrefix l
    refine hclean c ?_
    rw [← hrest, List.head?_append]
    simp [Option.mem_def.mp hc]
  generalize cstr l = line at hplain hprint hle hfirst hkey
  cases hkey with
  | @entry lead blank key _ hlead hne hkfree hblank hkfirst hvalue =>
    obtain rfl : lead = [] := by
      cases lead with
      | nil => rfl
      | cons c lead =>
        have hc := (hfirst c rfl).1
        rw [hlead c List.mem_cons_self] at hc
        cases hc
    obtain rfl : blank = [] := by
      cases blank with
      | nil => rfl
      | cons b blank =>
        have hb := (hfirst b rfl).2
        rw [hblank b List.mem_cons_self] at hb
        cases hb
    have hstored : storedKey [] key = key := by simp [storedKey]
    rw [hstored]
    exact ⟨hprint, hle.trans hlen, hplain, hne, hkfree, hkfirst, hvalue⟩

/-- Everything that an order has for a parsed object was said by the file. -/
theorem Visits.writable {fuel : Nat} {text : List UInt8} (hvisits : ini.Visits order)
    (h : parse fuel text new = some (.ok ini)) (hclean : CleanText text) : WritableOrder order := by
  obtain ⟨hshort, items, hreads, hfold⟩ := parse_new_iff.mp ⟨fuel, h⟩
  obtain ⟨ini', hfold', hrep⟩ := exists_applied_new (startsWithHeader_of_applied hfold)
  obtain rfl : ini = ini' := Except.ok.inj (hfold.symm.trans hfold')
  have hsaid : ∀ name keys key value, (name, keys) ∈ order → (key, value) ∈ keys →
      .header name ∈ items ∧ .entry key value ∈ items := by
    intro name keys key value hmem hkv
    have hfind := hvisits.find_eq_some_iff.mpr ⟨keys, hmem, hkv⟩
    rw [hrep.find_eq, Store.find_foldl_read_new] at hfind
    exact mem_of_lastValue hfind
  have hlines : ∀ l ∈ fileLines text, l.length ≤ 255 := fun l hl => Nat.lt_succ_iff.mp (hshort l hl)
  intro name keys hmem hne
  refine ⟨?_, fun key value hkv => ?_⟩
  · obtain ⟨⟨key, value⟩, hkv⟩ := List.exists_mem_of_ne_nil keys hne
    obtain ⟨l, hl, hline⟩ := exists_line_of_reads hreads (hsaid name keys key value hmem hkv).1
    exact writableName_of_line (free_fileLines l hl) (hlines l hl) hline
  · obtain ⟨l, hl, hline⟩ := exists_line_of_reads hreads (hsaid name keys key value hmem hkv).2
    exact writableEntry_of_line (free_fileLines l hl) (hlines l hl) (hclean l hl) hline

/-- A file that was parsed, and in which no line begins with an equals sign
    or white space, can be saved in any order and parsed again: every key has
    the value that it had. -/
theorem reload_keeps {fuel : Nat} {text : List UInt8} (h : parse fuel text new = some (.ok ini))
    (hclean : CleanText text) (hvisits : ini.Visits order) {source : IniSource}
    {filename out : List UInt8} {opens : Bool}
    (hsave : save source filename opens order = some out) :
    ∃ fuel' ini', parse fuel' out new = some (.ok ini') ∧
      ∀ name key, ini'.find name key = ini.find name key := by
  obtain rfl : saved order = out := by
    unfold save at hsave
    split at hsave
    · cases hsave
    · split at hsave
      · cases hsave
      · exact Option.some.inj hsave
  exact exists_reloaded hvisits (hvisits.writable h hclean)

theorem reload_keeps_sample : ∃ ini out, parse 4 controlCanIni new = some (.ok ini) ∧
    save .file [] true ini.walk = some out ∧
    ∃ fuel' ini', parse fuel' out new = some (.ok ini') ∧
      ∀ name key, ini'.find name key = ini.find name key := by
  obtain ⟨ini, h⟩ := exists_parsed_controlCanIni
  obtain ⟨items, -, -, hrep⟩ := represents_of_parse h
  have hsave : save .file [] true ini.walk = some (saved ini.walk) := rfl
  refine ⟨ini, saved ini.walk, h, hsave, reload_keeps h ?_ (visits_walk hrep) hsave⟩
  unfold CleanText
  decide +kernel

end Ini

end LibControlCan
