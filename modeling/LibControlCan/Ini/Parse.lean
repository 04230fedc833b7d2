import LibControlCan.Framework.IStream
import LibControlCan.Framework.CStrings
import LibControlCan.Framework.Bytes
import LibControlCan.Ini.Store

/-! # Parsing an INI file

    `Ini::parse`, line by line: a line opens a section, assigns a value to a
    key of the section, or says nothing.

    * `readLine` is what one line says, and `parse` is the loop over the
      file.  The code relies on much that it does not check; each such
      place is a fault.
    * `LineReads` is the grammar of the lines that are read without a fault,
      and `readLine_eq_ok_iff` says that the code accepts just these.
    * `parse_outcome` says of a file whether `parse` returns without a fault,
      and whether it never does: a line of more than 255 characters is the
      end of all progress.
    * `parsed_value` says what a key is looked up as afterwards: the last
      section of a name counts, and in it the last line of a key. -/

namespace LibControlCan

open Lines IStream CStrings

/-! ## Section 1: The parser -/

def finiBufferSize : Nat := 256

def isLineEnd (c : UInt8) : Bool := c == 10

def isEquals (c : UInt8) : Bool := c == 61

/-- What a line says. -/
inductive IniItem where
  | header (name : FiniStringT)
  | entry (key value : FiniStringT)
  deriving DecidableEq, Repr

namespace Ini

/-- `converters::GetLine`, from a string stream that holds `s`. -/
def getLine (s : FiniStringT) : FiniStringT := s.takeWhile fun c => !isLineEnd c

/-- `//` or `#`. -/
def isComment (line : List UInt8) : Bool :=
  (decide (line.length ≥ 2) && (line.getD 0 0 == 47 && line.getD 1 0 == 47)) ||
    (decide (line.length ≥ 1) && line.getD 0 0 == 35)

/-- The loop that leaves out white space at the end of a section line, with
    `length + 1` as its index.  It ends at the bracket in front. -/
def sectionEnd (line : List UInt8) : Nat → Nat
  | 0 => 0
  | i + 1 => if isspace (line.getD (i + 1) 0) then sectionEnd line i else i + 1

/-- The name of a section.  With nothing behind the bracket `length` is
    2 ^ 64 - 1, and `strncpy` pads that many bytes. -/
def sectionName (line : List UInt8) : Except IniFault FiniStringT :=
  match sectionEnd line (line.length - 1) with
  | 0 => .error .sectionLength
  | length + 1 => .ok (getLine ((line.drop 1).take length))

/-- White space in front of a key: the rest of it is copied to the front,
    without a terminator. -/
def unindent (skey : List UInt8) : List UInt8 :=
  let index := (skey.takeWhile isspace).length
  if index ≠ 0 then strncpyFront skey index (skey.length - index) else skey

/-- The key and the value of a line, if it has both. -/
def keyValue (line : List UInt8) : Except IniFault (Option (FiniStringT × FiniStringT)) :=
  match strtok isEquals line with
  | none => .error .nullKey
  | some (skey, more) =>
    match strtok isLineEnd more with
    | none => .ok none
    | some (svalue, _) =>
      if getLine svalue ≠ [] then .ok (some (getLine (unindent skey), getLine svalue))
      else .ok none

/-- What a line says, if it says anything. -/
def readLine (line : List UInt8) : Except IniFault (Option IniItem) :=
  if line.length > 0 ∧ ¬ isComment line then
    if line.getD 0 0 = 91 then (sectionName line).map fun name => some (.header name)
    else (keyValue line).map (Option.map fun (key, value) => .entry key value)
  else .ok none

/-- What an item does to the object. -/
def apply (ini : Ini) : IniItem → Except IniFault Ini
  | .header name => .ok (ini.newSection name)
  | .entry key value => ini.assign key value

/-- The body of the loop. -/
def parseLine (ini : Ini) (line : List UInt8) : Except IniFault Ini :=
  match readLine (cstr line) with
  | .error e => .error e
  | .ok none => .ok ini
  | .ok (some item) => ini.apply item

/-- The test for a byte order mark, in the first line.  `char` is signed. -/
def startsWithMark (line : List UInt8) : Bool := (line.headD 0).toInt8.toInt == 0xEF

/-- `parse`, of a stream that holds `text`. -/
def parse (fuel : Nat) (text : List UInt8) (ini : Ini) : Option (Except IniFault Ini) :=
  if startsWithMark (getline isLineEnd finiBufferSize (.opened text)).1 then some (.ok ini)
  else readLoop isLineEnd finiBufferSize parseLine fuel (.opened text) ini

/-- The lines of a file. -/
def fileLines (text : List UInt8) : List (List UInt8) := pieces isLineEnd text

end Ini

/-! ## Section 2: The grammar of a line -/

/-- A line that is neither a section line nor a comment. -/
def PlainLine (line : List UInt8) : Prop :=
  line ≠ [] ∧ line.head? ≠ some 91 ∧ line.head? ≠ some 35 ∧ ¬ [47, 47] <+: line

/-- A key as it is stored: white space in front of it leaves a copy of as
    many characters at its end. -/
def storedKey (blank key : List UInt8) : FiniStringT :=
  key ++ (blank ++ key).drop key.length

/-- The key lines that are read without a fault.  Equals signs in front are
    skipped. -/
inductive KeyReads : List UInt8 → Option (FiniStringT × FiniStringT) → Prop where
  /-- A key without a value says nothing. -/
  | valueless {lead key tail : List UInt8} : (∀ c ∈ lead, isEquals c = true) → key ≠ [] →
      Free isEquals key → tail = [] ∨ tail = [61] → KeyReads (lead ++ (key ++ tail)) none
  /-- White space in front of the key is copied over; the value is all that
      follows. -/
  | entry {lead blank key value : List UInt8} : (∀ c ∈ lead, isEquals c = true) →
      blank ++ key ≠ [] → Free isEquals (blank ++ key) → (∀ b ∈ blank, isspace b = true) →
      (∀ c ∈ key.head?, isspace c = false) → value ≠ [] →
      KeyReads (lead ++ (blank ++ key ++ 61 :: value)) (some (storedKey blank key, value))

theorem KeyReads.value_ne {line : List UInt8} {key value : FiniStringT}
    (h : KeyReads line (some (key, value))) : value ≠ [] := by
  cases h with
  | entry _ _ _ _ _ hne => exact hne

/-- The lines that are read without a fault. -/
inductive LineReads : List UInt8 → Option IniItem → Prop where
  | empty : LineReads [] none
  | hash (line : List UInt8) : LineReads (35 :: line) none
  | slashes (line : List UInt8) : LineReads (47 :: 47 :: line) none
  /-- The last character before the white space is taken for the closing
      bracket, whatever it is. -/
  | header {name blank : List UInt8} {c : UInt8} : isspace c = false →
      (∀ b ∈ blank, isspace b = true) → LineReads (91 :: (name ++ c :: blank)) (some (.header name))
  | plain {line : List UInt8} {kv : Option (FiniStringT × FiniStringT)} : PlainLine line →
      KeyReads line kv → LineReads line (kv.map fun (key, value) => .entry key value)

/-- A line that opens a section. -/
theorem LineReads.of_header {line : List UInt8} {name : FiniStringT}
    (h : LineReads line (some (.header name))) :
    ∃ c blank, isspace c = false ∧ (∀ b ∈ blank, isspace b = true) ∧
      line = 91 :: (name ++ c :: blank) := by
  generalize hitem : some (IniItem.header name) = item at h
  cases h with
  | empty => cases hitem
  | hash => cases hitem
  | slashes => cases hitem
  | header hc hblank =>
    cases hitem
    exact ⟨_, _, hc, hblank, rfl⟩
  | @plain _ kv => cases kv <;> cases hitem

/-- A line that assigns a value. -/
theorem LineReads.of_entry {line : List UInt8} {key value : FiniStringT}
    (h : LineReads line (some (.entry key value))) :
    PlainLine line ∧ KeyReads line (some (key, value)) := by
  generalize hitem : some (IniItem.entry key value) = item at h
  cases h with
  | empty => cases hitem
  | hash => cases hitem
  | slashes => cases hitem
  | header => cases hitem
  | @plain _ kv hplain hkey =>
    cases kv with
    | none => cases hitem
    | some kv =>
      cases hitem
      exact ⟨hplain, hkey⟩

namespace Ini

variable {line more : List UInt8} {item : Option IniItem}

theorem getLine_of_free {s : FiniStringT} (h : Free isLineEnd s) : getLine s = s := by
  rw [getLine, List.takeWhile_eq_self_iff]
  intro c hc
  simp [h c hc]

theorem strtok_lineEnd (h : Free isLineEnd more) (hne : more ≠ []) :
    strtok isLineEnd more = some (more, []) := strtok_last hne h

/-- White space at the end is passed over. -/
theorem sectionEnd_add {i k : Nat}
    (h : ∀ j, i < j → j ≤ i + k → isspace (line.getD j 0) = true) :
    sectionEnd line (i + k) = sectionEnd line i := by
  induction k with
  | zero => rfl
  | succ k ih =>
    rw [← Nat.add_assoc, sectionEnd, if_pos (h _ (by omega) (by omega))]
    exact ih fun j hlt hle => h j hlt (by omega)

theorem sectionName_header {name blank : List UInt8} {c : UInt8} (hc : isspace c = false)
    (hblank : ∀ b ∈ blank, isspace b = true) (hname : Free isLineEnd name) :
    sectionName (91 :: (name ++ c :: blank)) = .ok name := by
  have hskip : sectionEnd (91 :: (name ++ c :: blank)) (name.length + 1 + blank.length) =
      name.length + 1 := by
    rw [sectionEnd_add, sectionEnd]
    · simp [List.getD, hc]
    · intro j hlt hle
      obtain ⟨k, rfl⟩ : ∃ k, j = name.length + 1 + (k + 1) := ⟨j - name.length - 2, by omega⟩
      have hk : k < blank.length := by omega
      have hget : (91 :: (name ++ c :: blank))[name.length + 1 + (k + 1)]? = some blank[k] := by
        rw [show name.length + 1 + (k + 1) = name.length + (k + 1) + 1 by omega,
          List.getElem?_cons_succ, List.getElem?_append_right (by omega)]
        simp [hk]
      rw [List.getD, hget]
      exact hblank _ (List.getElem_mem hk)
  have hlen : (91 :: (name ++ c :: blank)).length - 1 = name.length + 1 + blank.length := by
    simp
    omega
  rw [sectionName, hlen, hskip]
  simp [getLine_of_free hname]

/-- Nothing but white space behind the bracket. -/
theorem sectionName_blank {blank : List UInt8} (hblank : ∀ b ∈ blank, isspace b = true) :
    sectionName (91 :: blank) = .error .sectionLength := by
  have hskip : sectionEnd (91 :: blank) (0 + blank.length) = 0 := by
    rw [sectionEnd_add, sectionEnd]
    intro j hlt hle
    obtain ⟨k, rfl⟩ : ∃ k, j = k + 1 := ⟨j - 1, by omega⟩
    have hk : k < blank.length := by omega
    simpa [List.getD, hk] using hblank _ (List.getElem_mem hk)
  simp only [Nat.zero_add] at hskip
  simp [sectionName, hskip]

theorem blank_or_last (s : List UInt8) :
    (∀ b ∈ s, isspace b = true) ∨ ∃ name c blank, isspace c = false ∧
      (∀ b ∈ blank, isspace b = true) ∧ s = name ++ c :: blank := by
  induction s with
  | nil => exact Or.inl (by simp)
  | cons x s ih =>
    rcases ih with hall | ⟨name, c, blank, hc, hblank, rfl⟩
    · by_cases hx : isspace x = true
      · exact Or.inl (List.forall_mem_cons.mpr ⟨hx, hall⟩)
      · exact Or.inr ⟨[], x, s, by simpa using hx, hall, rfl⟩
    · exact Or.inr ⟨x :: name, c, blank, hc, hblank, rfl⟩

/-- Every key is white space and the rest of it. -/
theorem blank_append (s : List UInt8) :
    ∃ blank key, (∀ b ∈ blank, isspace b = true) ∧ (∀ c ∈ key.head?, isspace c = false) ∧
      s = blank ++ key := by
  refine ⟨s.takeWhile isspace, s.dropWhile isspace, fun b hb => List.mem_takeWhile_imp hb,
    fun c hc => ?_, List.takeWhile_append_dropWhile.symm⟩
  have hnot := List.head?_dropWhile_not isspace s
  rw [hc] at hnot
  exact hnot

theorem unindent_append {blank key : List UInt8} (hblank : ∀ b ∈ blank, isspace b = true)
    (hkey : ∀ c ∈ key.head?, isspace c = false) :
    unindent (blank ++ key) = storedKey blank key := by
  have hindex : ((blank ++ key).takeWhile isspace).length = blank.length := by
    rw [List.takeWhile_append_of_pos hblank]
    cases key with
    | nil => simp
    | cons c key => simp [hkey c rfl]
  have hrest : (blank ++ key).length - blank.length = key.length := by simp
  simp only [unindent, hindex, hrest]
  by_cases hnil : blank = []
  · subst hnil
    simp [storedKey]
  · have hpos : blank.length ≠ 0 := by simpa using hnil
    simp [hpos, strncpyFront, storedKey]

theorem keyValue_valueless {key : List UInt8} (htok : strtok isEquals line = some (key, [])) :
    keyValue line = .ok none := by
  have hnone : strtok isLineEnd [] = none := rfl
  simp only [keyValue, htok, hnone]

theorem keyValue_entry {blank key value : List UInt8} (h : Free isLineEnd line)
    (htok : strtok isEquals line = some (blank ++ key, value))
    (hblank : ∀ b ∈ blank, isspace b = true) (hkey : ∀ c ∈ key.head?, isspace c = false)
    (hvalue : value ≠ []) :
    keyValue line = .ok (some (storedKey blank key, value)) := by
  -- The two tokens come from the line, so they have no newline in them.
  obtain ⟨lead, -, -, -, hline⟩ := strtok_eq_some_iff.mp htok
  have hmem : ∀ c, c ∈ blank ++ key ∨ c ∈ value → c ∈ line := by
    intro c hc
    rcases hline with ⟨rfl, rfl⟩ | ⟨d, -, rfl⟩ <;> simp at hc ⊢ <;> tauto
  have hfree : Free isLineEnd value := fun c hc => h c (hmem c (Or.inr hc))
  have hstored : Free isLineEnd (storedKey blank key) := by
    intro c hc
    rcases List.mem_append.mp hc with hc | hc
    · exact h c (hmem c (Or.inl (List.mem_append_right _ hc)))
    · exact h c (hmem c (Or.inl (List.mem_of_mem_drop hc)))
  simp only [keyValue, htok, strtok_lineEnd hfree hvalue, unindent_append hblank hkey,
    getLine_of_free hfree, getLine_of_free hstored, ne_eq, hvalue, not_false_eq_true, if_true]

/-- **Key lines.** -/
theorem keyValue_eq_ok_iff (h : Free isLineEnd line) {kv : Option (FiniStringT × FiniStringT)} :
    keyValue line = .ok kv ↔ KeyReads line kv := by
  constructor
  · intro hread
    cases htok : strtok isEquals line with
    | none => simp [keyValue, htok] at hread
    | some tok =>
      obtain ⟨skey, more⟩ := tok
      obtain ⟨lead, hlead, hne, hfree, hline⟩ := strtok_eq_some_iff.mp htok
      by_cases hmore : more = []
      · subst hmore
        rw [keyValue_valueless htok] at hread
        cases hread
        rcases hline with ⟨rfl, -⟩ | ⟨d, hd, rfl⟩
        · have hreads : KeyReads (lead ++ (skey ++ [])) none :=
            .valueless hlead hne hfree (Or.inl rfl)
          simpa using hreads
        · obtain rfl : d = 61 := by simpa [isEquals] using hd
          exact .valueless hlead hne hfree (Or.inr rfl)
      · obtain ⟨blank, key, hblank, hkey, rfl⟩ := blank_append skey
        rw [keyValue_entry h htok hblank hkey hmore] at hread
        rcases hline with ⟨-, hnil⟩ | ⟨d, hd, rfl⟩
        · exact absurd hnil hmore
        · obtain rfl : d = 61 := by simpa [isEquals] using hd
          cases hread
          exact .entry hlead hne hfree hblank hkey hmore
  · intro hreads
    cases hreads with
    | valueless hlead hne hfree htail =>
      rcases htail with rfl | rfl
      · refine keyValue_valueless (strtok_eq_some_iff.mpr ⟨_, hlead, hne, hfree, Or.inl ⟨?_, rfl⟩⟩)
        rw [List.append_nil]
      · exact keyValue_valueless
          (strtok_eq_some_iff.mpr ⟨_, hlead, hne, hfree, Or.inr ⟨61, rfl, rfl⟩⟩)
    | entry hlead hne hfree hblank hkey hvalue =>
      exact keyValue_entry h
        (strtok_eq_some_iff.mpr ⟨_, hlead, hne, hfree, Or.inr ⟨61, rfl, rfl⟩⟩) hblank hkey hvalue

/-- What is no section line and no comment is taken for a key line. -/
theorem readLine_plain (h : PlainLine line) :
    readLine line = (keyValue line).map (Option.map fun (key, value) => .entry key value) := by
  obtain ⟨hne, hbracket, hhash, hslashes⟩ := h
  have hcomment : isComment line = false := by
    rcases line with _ | ⟨c, _ | ⟨d, rest⟩⟩
    · exact absurd rfl hne
    · simp at hhash
      simp [isComment, hhash]
    · simp at hhash hslashes
      have hnot : ¬ (c = 47 ∧ d = 47) := fun ⟨hc, hd⟩ => hslashes hc.symm hd.symm
      simp [isComment, hhash]
      tauto
  have hfirst : line.getD 0 0 ≠ 91 := by
    cases line with
    | nil => exact absurd rfl hne
    | cons c rest => simpa using hbracket
  have hpos : line.length > 0 := List.length_pos_iff.mpr hne
  rw [readLine, if_pos ⟨hpos, by simp [hcomment]⟩, if_neg hfirst]

theorem line_cases (line : List UInt8) :
    line = [] ∨ (∃ rest, line = 35 :: rest) ∨ (∃ rest, line = 47 :: 47 :: rest) ∨
      (∃ rest, line = 91 :: rest) ∨ PlainLine line := by
  by_cases hplain : PlainLine line
  · exact Or.inr (Or.inr (Or.inr (Or.inr hplain)))
  · simp only [PlainLine, not_and_or, not_not] at hplain
    rcases hplain with rfl | hbracket | hhash | ⟨rest, rfl⟩
    · exact Or.inl rfl
    · obtain ⟨rest, rfl⟩ := List.head?_eq_some_iff.mp hbracket
      exact Or.inr (Or.inr (Or.inr (Or.inl ⟨rest, rfl⟩)))
    · obtain ⟨rest, rfl⟩ := List.head?_eq_some_iff.mp hhash
      exact Or.inr (Or.inl ⟨rest, rfl⟩)
    · exact Or.inr (Or.inr (Or.inl ⟨rest, rfl⟩))

theorem readLine_header (rest : List UInt8) :
    readLine (91 :: rest) = (sectionName (91 :: rest)).map fun name => some (.header name) := by
  simp [readLine, isComment]

/-- **Grammar.**  A line is read without a fault, and as what, according to
    `LineReads`. -/
theorem readLine_eq_ok_iff (h : Free isLineEnd line) :
    readLine line = .ok item ↔ LineReads line item := by
  constructor
  · intro hread
    rcases line_cases line with rfl | ⟨rest, rfl⟩ | ⟨rest, rfl⟩ | ⟨rest, rfl⟩ | hplain
    · cases hread
      exact .empty
    · simp [readLine, isComment] at hread
      subst hread
      exact .hash rest
    · simp [readLine, isComment] at hread
      subst hread
      exact .slashes rest
    · rw [readLine_header] at hread
      rcases blank_or_last rest with hall | ⟨name, c, blank, hc, hblank, rfl⟩
      · rw [sectionName_blank hall] at hread
        cases hread
      · have hname : Free isLineEnd name := fun x hx => h x (by simp [hx])
        rw [sectionName_header hc hblank hname] at hread
        cases hread
        exact .header hc hblank
    · rw [readLine_plain hplain] at hread
      obtain ⟨kv, hkv, rfl⟩ : ∃ kv, keyValue line = .ok kv ∧
          item = kv.map fun (key, value) => .entry key value := by
        cases hkv : keyValue line with
        | error e => simp [hkv, Except.map] at hread
        | ok kv => exact ⟨kv, rfl, by simpa [hkv, Except.map] using hread.symm⟩
      exact .plain hplain ((keyValue_eq_ok_iff h).mp hkv)
  · intro hreads
    cases hreads with
    | empty => rfl
    | hash rest => simp [readLine, isComment]
    | slashes rest => simp [readLine, isComment]
    | header hc hblank =>
      rw [readLine_header, sectionName_header hc hblank fun x hx => h x (by simp [hx])]
      rfl
    | plain hplain hkey =>
      rw [readLine_plain hplain, (keyValue_eq_ok_iff h).mpr hkey]
      rfl

/-- An indented key is moved to the front without its end. -/
example : readLine (Bytes.ascii " ab=1") =
    .ok (some (.entry (Bytes.ascii "abb") (Bytes.ascii "1"))) := rfl

end Ini

/-! ## Section 3: The loop -/

/-- Lines, and what they say one after the other. -/
inductive Reads : List (List UInt8) → List IniItem → Prop where
  | nil : Reads [] []
  | skip {l : List UInt8} {ls : List (List UInt8)} {items : List IniItem} :
      LineReads (CStrings.cstr l) none → Reads ls items → Reads (l :: ls) items
  | item {l : List UInt8} {ls : List (List UInt8)} {item : IniItem} {items : List IniItem} :
      LineReads (CStrings.cstr l) (some item) → Reads ls items → Reads (l :: ls) (item :: items)

/-- No key comes before the first section. -/
def StartsWithHeader (items : List IniItem) : Prop :=
  ∀ item ∈ items.head?, ∃ name, item = .header name

/-- What an item does to the store. -/
def Store.read (st : Store) : IniItem → Store
  | .header name => st.openSection name
  | .entry key value =>
    match st.selected with
    | .named name => st.put name key value
    | _ => st

namespace Ini

variable {ini ini' : Ini} {st : Store} {text : List UInt8} {ls : List (List UInt8)}
  {items : List IniItem}

theorem startsWithMark_eq_false (line : List UInt8) : startsWithMark line = false := by
  have hlt := Int8.toInt_lt (line.headD 0).toInt8
  simp only [startsWithMark, beq_eq_false_iff_ne]
  omega

theorem parse_ends_iff {r : Except IniFault Ini} :
    (∃ fuel, parse fuel text ini = some r) ↔
      feed finiBufferSize parseLine (fileLines text) ini = some r := by
  simp only [parse, startsWithMark_eq_false, Bool.false_eq_true, if_false]
  exact readLoop_ends_iff (by decide) fun _ => rfl

theorem free_cstr {l : List UInt8} (h : Free isLineEnd l) : Free isLineEnd (cstr l) :=
  fun c hc => h c ((cstr_isPrefix l).subset hc)

/-- What the body does with a line that is read. -/
theorem parseLine_eq {l : List UInt8} {item : Option IniItem} (h : Free isLineEnd l)
    (hreads : LineReads (cstr l) item) :
    ini.parseLine l = match item with
      | none => .ok ini
      | some item => ini.apply item := by
  rw [parseLine, (readLine_eq_ok_iff (free_cstr h)).mpr hreads]
  cases item <;> rfl

/-- The rounds of the loop, on lines without a newline. -/
theorem foldlM_parseLine_iff (hfree : ∀ l ∈ ls, Free isLineEnd l) :
    ls.foldlM parseLine ini = .ok ini' ↔
      ∃ items, Reads ls items ∧ items.foldlM apply ini = .ok ini' := by
  constructor
  · intro h
    induction ls generalizing ini with
    | nil => exact ⟨[], .nil, h⟩
    | cons l ls ih =>
      obtain ⟨hl, hls⟩ := List.forall_mem_cons.mp hfree
      rw [List.foldlM_cons] at h
      cases hread : readLine (cstr l) with
      | error e => simp [parseLine, hread, bind, Except.bind] at h
      | ok item =>
        have hreads := (readLine_eq_ok_iff (free_cstr hl)).mp hread
        rw [parseLine_eq hl hreads] at h
        cases item with
        | none =>
          obtain ⟨items, hitems, hfold⟩ := ih hls h
          exact ⟨items, .skip hreads hitems, hfold⟩
        | some item =>
          cases happly : ini.apply item with
          | error e => simp [happly, bind, Except.bind] at h
          | ok ini₁ =>
            simp only [happly, bind, Except.bind] at h
            obtain ⟨items, hitems, hfold⟩ := ih hls h
            refine ⟨item :: items, .item hreads hitems, ?_⟩
            rw [List.foldlM_cons, happly]
            exact hfold
  · rintro ⟨items, hreads, hfold⟩
    induction hreads generalizing ini with
    | nil => exact hfold
    | skip hline _ ih =>
      obtain ⟨hl, hls⟩ := List.forall_mem_cons.mp hfree
      rw [List.foldlM_cons, parseLine_eq hl hline]
      exact ih hls hfold
    | @item l ls item items hline _ ih =>
      obtain ⟨hl, hls⟩ := List.forall_mem_cons.mp hfree
      rw [List.foldlM_cons] at hfold ⊢
      rw [parseLine_eq hl hline]
      cases happly : ini.apply item with
      | error e => simp [happly, bind, Except.bind] at hfold
      | ok ini₁ =>
        simp only [happly, bind, Except.bind] at hfold ⊢
        exact ih hls hfold

/-- Once a section is open, every item has its effect. -/
theorem exists_applied (h : ini.Represents st) (hopen : ∃ name, st.selected = .named name)
    (items : List IniItem) :
    ∃ ini', items.foldlM apply ini = .ok ini' ∧ ini'.Represents (items.foldl Store.read st) := by
  induction items generalizing ini st with
  | nil => exact ⟨ini, rfl, h⟩
  | cons item items ih =>
    cases item with
    | header name =>
      obtain ⟨ini', hfold, hrep⟩ := ih (h.newSection name) ⟨name, rfl⟩
      exact ⟨ini', hfold, hrep⟩
    | entry key value =>
      obtain ⟨name, hname⟩ := hopen
      rcases h.current_cases with ⟨-, hs⟩ | ⟨-, hs⟩ | ⟨name', p, keys, hc, hs, hp, hkeys, -⟩
      · rw [hname] at hs
        cases hs
      · rw [hname] at hs
        cases hs
      · obtain ⟨ini', hfold, hrep⟩ := ih (h.write hp hkeys key value) ⟨name', hs⟩
        refine ⟨ini', ?_, by simpa [Store.read, hs] using hrep⟩
        rw [List.foldlM_cons]
        simpa [apply, assign, hc, deref, hkeys, bind, Except.bind, pure, Except.pure] using hfold

/-- Items have their effect on a new object when no key comes first. -/
theorem exists_applied_new (h : StartsWithHeader items) :
    ∃ ini', items.foldlM apply new = .ok ini' ∧ ini'.Represents (items.foldl Store.read .new) := by
  cases items with
  | nil => exact ⟨new, rfl, represents_new⟩
  | cons item items =>
    obtain ⟨name, rfl⟩ := h item rfl
    exact exists_applied (represents_new.newSection name) ⟨name, rfl⟩ items

/-- A key that comes first goes to a section that is not there. -/
theorem startsWithHeader_of_applied (h : items.foldlM apply new = .ok ini') :
    StartsWithHeader items := by
  cases items with
  | nil => exact fun item hitem => by cases hitem
  | cons item items =>
    cases item with
    | header name =>
      rintro _ ⟨⟩
      exact ⟨name, rfl⟩
    | entry key value =>
      simp [apply, assign, deref, new, bind, Except.bind] at h

theorem free_fileLines : ∀ l ∈ fileLines text, Free isLineEnd l := fun _ => free_of_mem_pieces

/-- The lines up to one of them, and the front of that. -/
theorem free_front {pre post : List (List UInt8)} {l : List UInt8} {k : Nat}
    (h : fileLines text = pre ++ l :: post) : ∀ l' ∈ pre ++ [l.take k], Free isLineEnd l' := by
  intro l' hl'
  rcases List.mem_append.mp hl' with hpre | hlast
  · exact free_fileLines l' (by rw [h]; simp [hpre])
  · obtain rfl := List.mem_singleton.mp hlast
    exact fun c hc => free_fileLines l (by rw [h]; simp) c (List.mem_of_mem_take hc)

/-- **A parse that returns** has read every line, and applied what they
    say. -/
theorem parse_new_iff :
    (∃ fuel, parse fuel text new = some (.ok ini)) ↔
      (∀ l ∈ fileLines text, l.length < finiBufferSize) ∧
        ∃ items, Reads (fileLines text) items ∧ items.foldlM apply new = .ok ini := by
  rw [parse_ends_iff, ← foldlM_parseLine_iff free_fileLines]
  constructor
  · intro hfeed
    have hshort := short_of_feed hfeed
    rw [feed_of_short hshort] at hfeed
    exact ⟨hshort, Option.some.inj hfeed⟩
  · rintro ⟨hshort, hfold⟩
    rw [feed_of_short hshort, hfold]

/-- **What a parse leaves** in the object. -/
theorem represents_of_parse {fuel : Nat} (h : parse fuel text new = some (.ok ini)) :
    ∃ items, Reads (fileLines text) items ∧ StartsWithHeader items ∧
      ini.Represents (items.foldl Store.read .new) := by
  obtain ⟨-, items, hreads, hfold⟩ := parse_new_iff.mp ⟨fuel, h⟩
  have hfirst := startsWithHeader_of_applied hfold
  obtain ⟨ini', hfold', hrep⟩ := exists_applied_new hfirst
  obtain rfl : ini = ini' := Except.ok.inj (hfold.symm.trans hfold')
  exact ⟨items, hreads, hfirst, hrep⟩

/-- `parse` of a new object returns without a fault just when no line has
    more than 255 characters, every line is one that the code can read, and
    no key comes before the first section.  It never returns when, up to the
    first longer line and in the 255 characters that are read of that, there
    is no fault. -/
theorem parse_outcome (text : List UInt8) :
    ((∃ fuel ini, parse fuel text new = some (.ok ini)) ↔
      (∀ l ∈ fileLines text, l.length ≤ 255) ∧
        ∃ items, Reads (fileLines text) items ∧ StartsWithHeader items) ∧
    ((∀ fuel, parse fuel text new = none) ↔
      ∃ pre l post items, fileLines text = pre ++ l :: post ∧ (∀ k ∈ pre, k.length ≤ 255) ∧
        255 < l.length ∧ Reads (pre ++ [l.take 255]) items ∧ StartsWithHeader items) := by
  have happly : ∀ items, (∃ ini, items.foldlM apply new = .ok ini) ↔ StartsWithHeader items :=
    fun items => ⟨fun ⟨_, h⟩ => startsWithHeader_of_applied h, fun h =>
      (exists_applied_new h).imp fun _ => And.left⟩
  constructor
  · rw [exists_comm]
    simp only [parse_new_iff, finiBufferSize, Nat.lt_succ_iff]
    constructor
    · rintro ⟨ini, hshort, items, hreads, hfold⟩
      exact ⟨hshort, items, hreads, (happly items).mp ⟨ini, hfold⟩⟩
    · rintro ⟨hshort, items, hreads, hfirst⟩
      obtain ⟨ini, hfold⟩ := (happly items).mpr hfirst
      exact ⟨ini, hshort, items, hreads, hfold⟩
  · have hnone : (∀ fuel, parse fuel text new = none) ↔
        feed finiBufferSize parseLine (fileLines text) new = none := by
      rw [Option.eq_none_iff_forall_ne_some]
      simp only [ne_eq, ← parse_ends_iff, not_exists, Option.eq_none_iff_forall_ne_some]
      exact forall_comm
    rw [hnone, feed_eq_none_iff]
    constructor
    · rintro ⟨pre, l, post, ini, hlines, hpre, hlen, hfold⟩
      obtain ⟨items, hreads, hfold⟩ := (foldlM_parseLine_iff (free_front hlines)).mp hfold
      exact ⟨pre, l, post, items, hlines, fun k hk => Nat.lt_succ_iff.mp (hpre k hk),
        Nat.not_lt.mp hlen, hreads, (happly items).mp ⟨ini, hfold⟩⟩
    · rintro ⟨pre, l, post, items, hlines, hpre, hlen, hreads, hfirst⟩
      obtain ⟨ini, hfold⟩ := (happly items).mpr hfirst
      exact ⟨pre, l, post, ini, hlines, fun k hk => Nat.lt_succ_iff.mpr (hpre k hk),
        Nat.not_lt.mpr hlen, (foldlM_parseLine_iff (free_front hlines)).mpr ⟨items, hreads, hfold⟩⟩

end Ini

/-! ## Section 4: What is looked up -/

/-- The entries up to the next section. -/
def leadingEntries : List IniItem → List (FiniStringT × FiniStringT)
  | .entry key value :: items => (key, value) :: leadingEntries items
  | _ => []

/-- The entries of the last section with a name. -/
def lastSection (name : FiniStringT) : List IniItem → Option (List (FiniStringT × FiniStringT))
  | [] => none
  | .entry _ _ :: items => lastSection name items
  | .header name' :: items =>
    match lastSection name items with
    | some entries => some entries
    | none => if name' = name then some (leadingEntries items) else none

/-- The last value of a key, in the last section with a name. -/
def lastValue (name key : FiniStringT) (items : List IniItem) : Option FiniStringT :=
  (lastSection name items).bind fun entries => entries.reverse.lookup key

theorem mem_leadingEntries {items : List IniItem} {key value : FiniStringT}
    (h : (key, value) ∈ leadingEntries items) : .entry key value ∈ items := by
  induction items with
  | nil => cases h
  | cons item items ih =>
    cases item with
    | header name => cases h
    | entry key' value' =>
      rcases List.mem_cons.mp h with heq | h
      · obtain ⟨rfl, rfl⟩ := Prod.mk.inj heq
        exact List.mem_cons_self
      · exact List.mem_cons_of_mem _ (ih h)

theorem mem_of_lastSection {items : List IniItem} {name : FiniStringT}
    {keys : List (FiniStringT × FiniStringT)} (h : lastSection name items = some keys) :
    .header name ∈ items ∧ ∀ key value, (key, value) ∈ keys → .entry key value ∈ items := by
  induction items with
  | nil => cases h
  | cons item items ih =>
    cases item with
    | entry key' value' =>
      obtain ⟨hname, hkeys⟩ := ih h
      exact ⟨List.mem_cons_of_mem _ hname, fun key value hkv =>
        List.mem_cons_of_mem _ (hkeys key value hkv)⟩
    | header name' =>
      cases hlast : lastSection name items with
      | some entries =>
        simp only [lastSection, hlast, Option.some.injEq] at h
        subst h
        obtain ⟨hname, hkeys⟩ := ih hlast
        exact ⟨List.mem_cons_of_mem _ hname, fun key value hkv =>
          List.mem_cons_of_mem _ (hkeys key value hkv)⟩
      | none =>
        simp only [lastSection, hlast] at h
        obtain ⟨rfl, heq⟩ := Option.ite_none_right_eq_some.mp h
        cases heq
        exact ⟨List.mem_cons_self, fun key value hkv =>
          List.mem_cons_of_mem _ (mem_leadingEntries hkv)⟩

/-- **What is found** was said by a line. -/
theorem mem_of_lastValue {items : List IniItem} {name key value : FiniStringT}
    (h : lastValue name key items = some value) :
    .header name ∈ items ∧ .entry key value ∈ items := by
  obtain ⟨entries, hlast, hlookup⟩ := Option.bind_eq_some_iff.mp h
  obtain ⟨hname, hentries⟩ := mem_of_lastSection hlast
  obtain ⟨_, _, hsplit, -⟩ := List.lookup_eq_some_iff.mp hlookup
  exact ⟨hname, hentries key value (List.mem_reverse.mp (by rw [hsplit]; simp))⟩

theorem exists_line_of_reads {ls : List (List UInt8)} {items : List IniItem} (h : Reads ls items)
    {item : IniItem} (hmem : item ∈ items) : ∃ l ∈ ls, LineReads (cstr l) (some item) := by
  induction h with
  | nil => cases hmem
  | skip _ _ ih =>
    obtain ⟨l, hl, hline⟩ := ih hmem
    exact ⟨l, List.mem_cons_of_mem _ hl, hline⟩
  | item hline _ ih =>
    rcases List.mem_cons.mp hmem with rfl | hmem
    · exact ⟨_, List.mem_cons_self, hline⟩
    · obtain ⟨l, hl, hline⟩ := ih hmem
      exact ⟨l, List.mem_cons_of_mem _ hl, hline⟩

/-- A value that was read is not empty. -/
theorem ne_nil_of_lastValue {ls : List (List UInt8)} {items : List IniItem} (h : Reads ls items)
    {name key value : FiniStringT} (hvalue : lastValue name key items = some value) :
    value ≠ [] := by
  obtain ⟨l, -, hline⟩ := exists_line_of_reads h (mem_of_lastValue hvalue).2
  exact hline.of_entry.2.value_ne

namespace Store

theorem find_openSection (st : Store) (name name' key : FiniStringT) :
    (st.openSection name).find name' key = if name = name' then none else st.find name' key := by
  by_cases h : name = name'
  · subst h
    simp [find, openSection]
  · simp [find, openSection, h, Function.update_of_ne (Ne.symm h)]

theorem find_put (st : Store) (name key value name' key' : FiniStringT) :
    (st.put name key value).find name' key' =
      if name = name' ∧ key = key' then some value else st.find name' key' := by
  by_cases h : name = name'
  · subst h
    by_cases hk : key = key'
    · subst hk
      simp [find, put]
    · simp only [find, put, Function.update_self, Option.bind_some, hk, and_false, if_false,
        Function.update_of_ne (Ne.symm hk)]
      cases st.content name <;> simp
  · simp [find, put, h, Function.update_of_ne (Ne.symm h)]

/-- **What items leave**: what the last section with the name says, and where
    there is none what was there, with the entries that come before the first
    section in front of it if it was selected. -/
theorem find_foldl_read (items : List IniItem) (st : Store) (name key : FiniStringT) :
    (items.foldl read st).find name key =
      match lastSection name items with
      | some entries => entries.reverse.lookup key
      | none =>
        match st.selected with
        | .named name' =>
          if name' = name then ((leadingEntries items).reverse.lookup key).or (st.find name key)
          else st.find name key
        | _ => st.find name key := by
  induction items generalizing st with
  | nil =>
    cases st.selected <;> simp [lastSection, leadingEntries]
  | cons item items ih =>
    rw [List.foldl_cons, ih]
    cases item with
    | header name' =>
      cases hlast : lastSection name items with
      | some entries => simp [lastSection, hlast]
      | none =>
        -- The section is empty when its entries come, and is the selected one.
        by_cases hname : name' = name
        · simp [lastSection, hlast, hname, read, openSection, find]
        · simp only [lastSection, hlast, hname, if_false, read, find_openSection, leadingEntries,
            List.reverse_nil, List.lookup_nil, Option.none_or]
          cases st.selected <;> simp [openSection, hname]
    | entry key' value =>
      cases hlast : lastSection name items with
      | some entries => simp [lastSection, hlast]
      | none =>
        cases hsel : st.selected with
        | uninitialised => simp [lastSection, hlast, read, hsel]
        | null => simp [lastSection, hlast, read, hsel]
        | named name' =>
          have hput : (st.put name' key' value).selected = .named name' := hsel
          simp only [lastSection, hlast, read, hsel, hput, find_put, leadingEntries,
            List.reverse_cons, List.lookup_append, Option.or_assoc]
          by_cases hname : name' = name
          · by_cases hkey : key' = key
            · simp [hname, hkey]
            · have hne : (key == key') = false := by simpa using Ne.symm hkey
              simp [hname, hkey, List.lookup_cons, hne]
          · simp [hname]

theorem find_foldl_read_new (items : List IniItem) (name key : FiniStringT) :
    (items.foldl read .new).find name key = lastValue name key items := by
  rw [find_foldl_read, lastValue]
  cases lastSection name items <;> rfl

end Store

namespace Ini

variable {ini : Ini} {text : List UInt8}

/-- The lookups in an object are those in the store that it represents. -/
theorem Represents.exists_value {st : Store} (h : ini.Represents st) (name key : FiniStringT) :
    ∃ ini', ini.value name key = .ok (ini', (st.find name key).getD []) ∧
      ini'.Represents (st.put name key ((st.find name key).getD [])) := by
  have hvalue := h.value name key
  cases hv : ini.value name key with
  | error e =>
    simp only [hv, Store.step, Except.map] at hvalue
    cases hvalue
  | ok r =>
    obtain ⟨ini', v'⟩ := r
    simp only [hv, Store.step, Except.map] at hvalue
    generalize (st.find name key).getD [] = v at hvalue ⊢
    cases hvalue with
    | ok _ hrep => exact ⟨ini', rfl, hrep⟩

/-- After a parse, a key has the value of its last line in the last section
    with the name, and it is empty if there is no such line: sections of the
    same name are not merged. -/
theorem parsed_value {fuel : Nat} (h : parse fuel text new = some (.ok ini)) :
    ∃ items, Reads (fileLines text) items ∧ ∀ name key, ∃ ini',
      ini.value name key = .ok (ini', (lastValue name key items).getD []) := by
  obtain ⟨items, hreads, -, hrep⟩ := represents_of_parse h
  refine ⟨items, hreads, fun name key => ?_⟩
  obtain ⟨ini', hvalue, -⟩ := hrep.exists_value name key
  refine ⟨ini', ?_⟩
  rw [hvalue, Store.find_foldl_read_new]

/-- The file that comes with the sources. -/
def controlCanIni : List UInt8 := Bytes.ascii "[Server]\nIpAddr=127.0.0.1\nIpPort=9999"

theorem exists_parsed_controlCanIni : ∃ ini, parse 4 controlCanIni new = some (.ok ini) := by
  have hok : (parse 4 controlCanIni new).map (fun r => r.toOption.isSome) = some true := by
    decide +kernel
  obtain ⟨r, hr, hsome⟩ := Option.map_eq_some_iff.mp hok
  cases r with
  | error e => cases hsome
  | ok ini => exact ⟨ini, hr⟩

theorem parsed_value_sample : ∃ ini, parse 4 controlCanIni new = some (.ok ini) ∧
    ∃ items, Reads (fileLines controlCanIni) items ∧ ∀ name key, ∃ ini',
      ini.value name key = .ok (ini', (lastValue name key items).getD []) := by
  obtain ⟨ini, h⟩ := exists_parsed_controlCanIni
  exact ⟨ini, h, parsed_value h⟩

end Ini

end LibControlCan
