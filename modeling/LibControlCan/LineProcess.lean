import LibControlCan.HexDump
import LibControlCan.Framework.Regex

/-! # Decoding one line

    `CanImpCanNet::line_process` and its two patterns.  `payload? str` is
    the part of the line that the checks of `line_process` accept as hex
    payload; `payload?_eq_some_iff` gives the grammar of the accepted lines,
    and `lineProcess_eq` says that `line_process` stores the decoded payload at
    `dst` and changes nothing else.

    The payload may be longer than one `VCI_CAN_OBJ`, and then so is the
    store: `lineProcess_modifiesOnly` says exactly when it stays inside the
    object. -/

namespace LibControlCan

open ByteMemory Bytes Regex

/-! ## Section 1: The function -/

/-- `[0-9a-fA-F]`. -/
def hexClass : Pattern UInt8 := .sat isHexDigit

/-- The two heads a line may have. -/
def receiveHead : List UInt8 := ascii "VCI_Receive,"
def transmitHead : List UInt8 := ascii "VCI_Transmit,"

/-- `_receive_pattern2`: `^(VCI_Receive,|VCI_Transmit,)[0-9a-fA-F]{32}`. -/
def receivePattern2 : Pattern UInt8 :=
  .seq .bol (.seq (.alt (text receiveHead) (text transmitHead)) (.times 32 hexClass))

/-- `_hex_str_pattern2`: `^(?:[0-9a-fA-F][0-9a-fA-F])+$`. -/
def hexStrPattern2 : Pattern UInt8 :=
  .seq .bol (.seq (.plus (.seq hexClass hexClass)) .eol)

/-- `CanImpCanNet::line_process`: the returned value and the memory it leaves. -/
def lineProcess (str : List UInt8) (dst : Nat) (m : Memory) : Int × Memory :=
  match search receivePattern2 str with
  | none => (-1, m)
  | some it =>
    -- `(*it)[0].second == str.end()`: nothing follows the head.
    if it.after.isEmpty then (-1, m)
    else
      let pl := it.after
      match search hexStrPattern2 pl with
      | none => (-1, m)
      | some _ =>
        if pl.length < VciCanObj.size * 2 then (-1, m)
        -- The checks above leave only digits in pairs, on which the decoder
        -- reads nothing out of range (`hexStringToBinFastest_eq`).
        else (0, (hexStringToBinFastest pl pl.length dst m).getD m)

/-- The payload that the checks of `line_process` let through. -/
def payload? (str : List UInt8) : Option (List UInt8) :=
  match search receivePattern2 str with
  | none => none
  | some it =>
    if it.after.isEmpty then none
    else
      match search hexStrPattern2 it.after with
      | none => none
      | some _ => if it.after.length < VciCanObj.size * 2 then none else some it.after

/-- `line_process` returns 0 for `str`. -/
def accepts (str : List UInt8) : Bool := (payload? str).isSome

/-! ## Section 2: The grammar -/

/-- A head, 32 digits, and a payload of at least 48 digits in pairs. -/
def IsFrameLine (str pl : List UInt8) : Prop :=
  ∃ head hdr, (head = receiveHead ∨ head = transmitHead) ∧ str = head ++ (hdr ++ pl) ∧
    hdr.length = 32 ∧ (∀ c ∈ hdr, isHexDigit c = true) ∧
    (∀ c ∈ pl, isHexDigit c = true) ∧ pl.length % 2 = 0 ∧ 48 ≤ pl.length

/-- The two heads differ in their fifth character. -/
theorem heads_disjoint {xs ys : List UInt8} : receiveHead ++ xs ≠ transmitHead ++ ys := by
  intro h
  have h4 := congrArg (fun l => l[4]?) h
  simp only [receiveHead, transmitHead] at h4
  revert h4
  rw [List.getElem?_append_left (by decide), List.getElem?_append_left (by decide)]
  decide

/-- Where a match of the head pattern ends. -/
theorem mem_run_head {str : List UInt8} {c : Cursor UInt8} :
    c ∈ run (.seq (.alt (text receiveHead) (text transmitHead)) (.times 32 hexClass)) ⟨[], str⟩ ↔
      ∃ head hdr pl, (head = receiveHead ∨ head = transmitHead) ∧ str = head ++ (hdr ++ pl) ∧
        hdr.length = 32 ∧ (∀ c ∈ hdr, isHexDigit c = true) ∧ c = ⟨head ++ hdr, pl⟩ := by
  rw [mem_run_seq]
  constructor
  · rintro ⟨d, hd, hc⟩
    rw [mem_run_alt] at hd
    obtain ⟨head, ys, hhead, rfl, rfl⟩ : ∃ head ys, (head = receiveHead ∨ head = transmitHead) ∧
        str = head ++ ys ∧ d = ⟨head, ys⟩ := by
      rcases hd with hd | hd
      · obtain ⟨ys, rfl, rfl⟩ := mem_run_text.mp hd
        exact ⟨_, ys, Or.inl rfl, rfl, rfl⟩
      · obtain ⟨ys, rfl, rfl⟩ := mem_run_text.mp hd
        exact ⟨_, ys, Or.inr rfl, rfl, rfl⟩
    obtain ⟨hdr, pl, ⟨rfl, hlen, hall⟩, rfl⟩ := ((fixedWidth_sat isHexDigit).times 32 head ys c).mp hc
    exact ⟨head, hdr, pl, hhead, rfl, hlen, hall, rfl⟩
  · rintro ⟨head, hdr, pl, hhead, rfl, hlen, hall, rfl⟩
    refine ⟨⟨head, hdr ++ pl⟩, ?_, ?_⟩
    · rw [mem_run_alt]
      rcases hhead with rfl | rfl
      · exact Or.inl (mem_run_text.mpr ⟨_, rfl, rfl⟩)
      · exact Or.inr (mem_run_text.mpr ⟨_, rfl, rfl⟩)
    · exact ((fixedWidth_sat isHexDigit).times 32 _ _ _).mpr ⟨hdr, pl, ⟨rfl, hlen, hall⟩, rfl⟩

/-- The search for the head finds the one split of the line. -/
theorem search_receivePattern2 {str : List UInt8} {it : Cursor UInt8} :
    search receivePattern2 str = some it ↔
      ∃ head hdr pl, (head = receiveHead ∨ head = transmitHead) ∧ str = head ++ (hdr ++ pl) ∧
        hdr.length = 32 ∧ (∀ c ∈ hdr, isHexDigit c = true) ∧ it = ⟨head ++ hdr, pl⟩ := by
  rw [receivePattern2, search_bol, head?_eq_some_iff_of_unique, mem_run_head]
  -- The heads exclude each other and the digits have a fixed number: one split only.
  intro c hc d hd
  obtain ⟨head, hdr, pl, hhead, rfl, hlen, -, rfl⟩ := mem_run_head.mp hc
  obtain ⟨head', hdr', pl', hhead', hstr, hlen', -, rfl⟩ := mem_run_head.mp hd
  have hsame : head = head' := by
    rcases hhead with rfl | rfl <;> rcases hhead' with rfl | rfl
    · rfl
    · exact absurd hstr heads_disjoint
    · exact absurd hstr.symm heads_disjoint
    · rfl
  subst hsame
  obtain ⟨rfl, rfl⟩ := List.append_inj (List.append_cancel_left hstr) (by rw [hlen, hlen'])
  rfl

/-- The second pattern matches digits in pairs up to the end. -/
theorem search_hexStrPattern2_isSome {pl : List UInt8} :
    (search hexStrPattern2 pl).isSome = true ↔
      pl ≠ [] ∧ pl.length % 2 = 0 ∧ ∀ c ∈ pl, isHexDigit c = true := by
  have hpair : FixedWidth (run (.seq hexClass hexClass)) isHexDigit 2 :=
    (fixedWidth_sat isHexDigit).seq (fixedWidth_sat isHexDigit)
  rw [hexStrPattern2, search_bol, List.isSome_head?]
  constructor
  · intro hmatch
    obtain ⟨c, hc⟩ := List.exists_mem_of_ne_nil _ hmatch
    obtain ⟨d, hd, hd'⟩ := mem_run_seq.mp hc
    obtain ⟨n, seg, rest, ⟨rfl, hlen, hall⟩, rfl⟩ := (hpair.plus (by decide) [] pl d).mp hd
    -- The pairs must reach the end of the payload.
    obtain ⟨hrest, -⟩ := mem_run_eol.mp hd'
    have hrest' : rest = [] := hrest
    subst hrest'
    refine ⟨?_, ?_, by simpa using hall⟩
    · intro hnil
      rw [List.append_nil] at hnil
      subst hnil
      simp at hlen
    · simp [hlen]
  · rintro ⟨hne, heven, hall⟩
    have hpos : 0 < pl.length := List.length_pos_iff.mpr hne
    have hend : (⟨pl, []⟩ : Cursor UInt8) ∈ run .eol ⟨pl, []⟩ := mem_run_eol.mpr ⟨rfl, rfl⟩
    refine List.ne_nil_of_mem (mem_run_seq.mpr ⟨⟨pl, []⟩, ?_, hend⟩)
    exact (hpair.plus (by decide) [] pl _).mpr
      ⟨pl.length / 2 - 1, pl, [], ⟨by simp, by omega, hall⟩, by simp⟩

/-- **Grammar.** The accepted lines and their payloads. -/
theorem payload?_eq_some_iff {str pl : List UInt8} :
    payload? str = some pl ↔ IsFrameLine str pl := by
  unfold payload? IsFrameLine
  constructor
  · intro h
    cases hit : search receivePattern2 str with
    | none => rw [hit] at h; cases h
    | some it =>
      rw [hit] at h
      obtain ⟨head, hdr, pl', hhead, hstr, hlen, hall, rfl⟩ := search_receivePattern2.mp hit
      by_cases hempty : pl'.isEmpty = true
      · simp [hempty] at h
      · cases hhex : search hexStrPattern2 pl' with
        | none => simp [hempty, hhex] at h
        | some it2 =>
          by_cases hshort : pl'.length < VciCanObj.size * 2
          · simp [hempty, hhex, hshort] at h
          · simp [hempty, hhex, hshort] at h
            subst h
            have hok := search_hexStrPattern2_isSome.mp (by rw [hhex]; rfl)
            simp only [VciCanObj.size] at hshort
            exact ⟨head, hdr, hhead, hstr, hlen, hall, hok.2.2, hok.2.1, by omega⟩
  · rintro ⟨head, hdr, hhead, hstr, hlen, hall, hpl, heven, hlong⟩
    have hne : pl ≠ [] := by
      rintro rfl
      simp at hlong
    rw [search_receivePattern2.mpr ⟨head, hdr, pl, hhead, hstr, hlen, hall, rfl⟩]
    have hhex := search_hexStrPattern2_isSome.mpr ⟨hne, heven, hpl⟩
    obtain ⟨it2, hit2⟩ := Option.isSome_iff_exists.mp hhex
    have hsize : ¬ pl.length < VciCanObj.size * 2 := by
      simp only [VciCanObj.size]; omega
    simp [hne, hit2, hsize]

/-- A line with `n` payload digits, as it stands in the stream. -/
def sampleLine (n : Nat) : List UInt8 :=
  receiveHead ++ List.replicate 32 48 ++ List.replicate n 49 ++ [10]

example : payload? (sampleLine 48).dropLast = some (List.replicate 48 49) := by decide +kernel

example : payload? (sampleLine 47).dropLast = none := by decide +kernel

/-! ## Section 3: The effect -/

/-- The store that `line_process` performs. -/
def lineStores (str : List UInt8) (dst : Nat) : List (Nat × List UInt8) :=
  match payload? str with
  | some pl => [(dst, decodeHex pl)]
  | none => []

/-- `line_process` runs the decoder on the payload it lets through. -/
theorem lineProcess_payload? (str : List UInt8) (dst : Nat) (m : Memory) :
    lineProcess str dst m =
      match payload? str with
      | none => (-1, m)
      | some pl => (0, (hexStringToBinFastest pl pl.length dst m).getD m) := by
  unfold lineProcess payload?
  cases search receivePattern2 str with
  | none => rfl
  | some it =>
    by_cases hempty : it.after.isEmpty = true
    · simp [hempty]
    · cases hhex : search hexStrPattern2 it.after with
      | none => simp [hempty, hhex]
      | some it2 =>
        by_cases hshort : it.after.length < VciCanObj.size * 2 <;> simp [hempty, hhex, hshort]

/-- **Effect of `line_process`.** -/
theorem lineProcess_eq (str : List UInt8) (dst : Nat) (m : Memory) :
    lineProcess str dst m =
      (if accepts str then 0 else -1, writeAll (lineStores str dst) m) := by
  rw [lineProcess_payload?]
  cases h : payload? str with
  | none => simp [accepts, lineStores, h]
  | some pl =>
    obtain ⟨_, _, _, _, _, _, hpl, heven, _⟩ := payload?_eq_some_iff.mp h
    have hdec := hexStringToBinFastest_eq dst m hpl (k := pl.length / 2) (by omega)
    simp [accepts, lineStores, h, hdec]

/-- An accepted line decodes to at least one object. -/
theorem size_le_length_decodeHex {str pl : List UInt8} (h : payload? str = some pl) :
    VciCanObj.size ≤ (decodeHex pl).length := by
  obtain ⟨_, _, _, _, _, _, _, _, hlong⟩ := payload?_eq_some_iff.mp h
  simp only [VciCanObj.size, length_decodeHex]
  omega

theorem lineProcess_fst_eq_zero {str : List UInt8} {dst : Nat} {m : Memory} :
    (lineProcess str dst m).1 = 0 ↔ accepts str = true := by
  rw [lineProcess_eq]
  cases accepts str <;> simp

/-- The object that an accepted line leaves at `dst`. -/
theorem readBytes_lineProcess {str pl : List UInt8} (h : payload? str = some pl) (dst : Nat)
    (m : Memory) :
    readBytes (lineProcess str dst m).2 dst VciCanObj.size =
      (decodeHex pl).take VciCanObj.size := by
  rw [lineProcess_eq]
  simp only [lineStores, h, writeAll_singleton]
  exact readBytes_writeBytes_take (size_le_length_decodeHex h)

/-- **line_process accepts its grammar.** It returns 0 for exactly the
    lines of the grammar, and then the object at `dst` has the bytes that the
    first 48 digits behind the header spell.  For every other line it
    returns -1 and leaves the memory alone. -/
theorem lineProcess_accepts_grammar (str : List UInt8) (dst : Nat) (m : Memory) :
    ((lineProcess str dst m).1 = 0 ↔ ∃ pl, IsFrameLine str pl) ∧
    (∀ pl, IsFrameLine str pl →
      readBytes (lineProcess str dst m).2 dst VciCanObj.size = spelledBytes (pl.take 48)) ∧
    ((¬ ∃ pl, IsFrameLine str pl) → lineProcess str dst m = (-1, m)) := by
  have haccepts : accepts str = true ↔ ∃ pl, IsFrameLine str pl := by
    simp only [accepts, Option.isSome_iff_exists, payload?_eq_some_iff]
  refine ⟨lineProcess_fst_eq_zero.trans haccepts, ?_, ?_⟩
  · intro pl hpl
    have hpayload := payload?_eq_some_iff.mpr hpl
    obtain ⟨_, _, _, _, _, _, hdigits, _, _⟩ := hpl
    rw [readBytes_lineProcess hpayload, take_decodeHex]
    exact decodeHex_eq_spelledBytes fun c hc => hdigits c (List.mem_of_mem_take hc)
  · intro hnone
    have hpayload : payload? str = none := by
      cases h : payload? str with
      | none => rfl
      | some pl => exact absurd ⟨pl, payload?_eq_some_iff.mp h⟩ hnone
    rw [lineProcess_payload?, hpayload]

/-- What lies below `dst` is left alone. -/
theorem readBytes_lineProcess_below {str : List UInt8} {dst b n : Nat} {m : Memory}
    (h : b + n ≤ dst) : readBytes (lineProcess str dst m).2 b n = readBytes m b n := by
  rw [lineProcess_eq]
  unfold lineStores
  cases payload? str with
  | none => rfl
  | some pl => exact readBytes_writeBytes_below h

/-- The stores of one line stay below `hi` exactly when its payload does. -/
theorem lineStores_within {str : List UInt8} {dst lo hi : Nat} (hlo : lo ≤ dst) :
    (∀ w ∈ lineStores str dst, ∀ x, Covers w x → x ∈ Set.Ico lo hi) ↔
      ∀ pl, IsFrameLine str pl → dst + pl.length / 2 ≤ hi := by
  simp only [← payload?_eq_some_iff]
  cases h : payload? str with
  | none => simp [lineStores, h]
  | some pl =>
    have hsize := size_le_length_decodeHex h
    simp only [VciCanObj.size, length_decodeHex] at hsize
    simp only [lineStores, h, List.mem_singleton, forall_eq, Covers, Set.mem_Ico,
      Option.some.injEq, forall_eq', length_decodeHex]
    constructor
    · intro hcov
      -- The last byte of the store decides.
      have hlast := hcov (dst + (pl.length / 2 - 1)) (by omega)
      omega
    · intro hle x hx
      omega

/-- **Frame of `line_process`**: the store stays inside the object at `dst`
    exactly when no payload longer than one object is accepted. -/
theorem lineProcess_modifiesOnly (str : List UInt8) (dst : Nat) :
    ModifiesOnly (fun m => (lineProcess str dst m).2) (Set.Ico dst (dst + VciCanObj.size)) ↔
      ∀ pl, IsFrameLine str pl → pl.length ≤ 2 * VciCanObj.size := by
  have hfun : (fun m => (lineProcess str dst m).2) = writeAll (lineStores str dst) := by
    funext m
    rw [lineProcess_eq]
  rw [hfun, modifiesOnly_writeAll, lineStores_within (Nat.le_refl dst)]
  refine forall_congr' fun pl => imp_congr_right fun hpl => ?_
  obtain ⟨_, _, _, _, _, _, _, heven, _⟩ := hpl
  omega

end LibControlCan
