import Mathlib.Data.List.TakeWhile
import LibControlCan.Framework.Lines

/-! # Strings of the C library

    The functions of `<cstring>` and `<cctype>` that a line parser uses, on
    lists of characters.  A null pointer is `none`.

    * `strtok_eq_none_iff`, `strtok_eq_some_iff`: when there is a token, and
      what it is. -/

namespace CStrings

open Lines

universe u

variable {α : Type u}

/-- What a C function sees of a buffer: the characters before the first
    null. -/
def cstr (s : List UInt8) : List UInt8 := s.takeWhile (· ≠ 0)

/-- `isspace`, in the C locale; no byte above 127 is a space. -/
def isspace (c : UInt8) : Bool := (9 ≤ c && c ≤ 13) || c == 32

/-- `strtok`, with the characters in `p` as delimiters: the token, and where
    the next call goes on. -/
def strtok (p : α → Bool) (s : List α) : Option (List α × List α) :=
  match s.dropWhile p with
  | [] => none
  | t => some (t.takeWhile (!p ·), (t.dropWhile (!p ·)).drop 1)

/-- `strncpy(s, s + i, n)`, with `i + n` at most the length of `s`.  The two
    ranges may overlap, which the standard leaves undefined; the copy goes
    from front to back, so each character is read before it is written
    over. -/
def strncpyFront (s : List α) (i n : Nat) : List α := (s.drop i).take n ++ s.drop n

/-! ## Section 1: Null-terminated strings -/

theorem cstr_eq_self {s : List UInt8} (h : 0 ∉ s) : cstr s = s := by
  rw [cstr, List.takeWhile_eq_self_iff]
  intro c hc
  have hne : c ≠ 0 := fun h0 => h (h0 ▸ hc)
  simpa using hne

theorem zero_not_mem_cstr (s : List UInt8) : 0 ∉ cstr s := by
  intro h
  simpa using List.mem_takeWhile_imp h

theorem cstr_isPrefix (s : List UInt8) : cstr s <+: s := List.takeWhile_prefix _

/-! ## Section 2: Tokens -/

section strtok

variable {p : α → Bool} {s tok more : List α}

theorem strtok_eq_none_iff : strtok p s = none ↔ ∀ c ∈ s, p c = true := by
  rw [← List.dropWhile_eq_nil_iff, strtok]
  cases s.dropWhile p <;> simp

/-- Delimiters in front of a token are skipped. -/
theorem strtok_append {lead : List α} (h : ∀ c ∈ lead, p c = true) :
    strtok p (lead ++ s) = strtok p s := by
  rw [strtok, strtok, List.dropWhile_append_of_pos h]

theorem dropWhile_token (hne : tok ≠ []) (hfree : Free p tok) :
    (tok ++ more).dropWhile p = tok ++ more := by
  cases tok with
  | nil => exact absurd rfl hne
  | cons c tok => simp [(free_cons.mp hfree).1]

/-- A token that a delimiter ends. -/
theorem strtok_token {d : α} (hne : tok ≠ []) (hfree : Free p tok) (hd : p d = true) :
    strtok p (tok ++ d :: more) = some (tok, more) := by
  have hnot : ∀ c ∈ tok, (!p c) = true := fun c hc => by simp [hfree c hc]
  rw [strtok, dropWhile_token hne hfree]
  split
  case h_1 hnil => simp at hnil
  case h_2 =>
    rw [List.takeWhile_append_of_pos hnot, List.dropWhile_append_of_pos hnot]
    simp [hd]

/-- A token at the end of the string. -/
theorem strtok_last (hne : tok ≠ []) (hfree : Free p tok) : strtok p tok = some (tok, []) := by
  have hnot : ∀ c ∈ tok, (!p c) = true := fun c hc => by simp [hfree c hc]
  have hdrop : (tok ++ []).dropWhile p = tok ++ [] := dropWhile_token hne hfree
  rw [List.append_nil] at hdrop
  rw [strtok, hdrop]
  split
  case h_1 => exact absurd rfl hne
  case h_2 =>
    rw [List.takeWhile_eq_self_iff.mpr hnot, List.dropWhile_eq_nil_iff.mpr hnot]
    rfl

/-- A string with a character that is no delimiter has a token. -/
theorem exists_token (h : ¬ ∀ c ∈ s, p c = true) :
    ∃ lead tok, (∀ c ∈ lead, p c = true) ∧ tok ≠ [] ∧ Free p tok ∧
      (s = lead ++ tok ∨ ∃ d more, p d = true ∧ s = lead ++ (tok ++ d :: more)) := by
  induction s with
  | nil => simp at h
  | cons c s ih =>
    by_cases hc : p c = true
    · obtain ⟨lead, tok, hlead, hne, hfree, hs⟩ :=
        ih (fun hall => h (List.forall_mem_cons.mpr ⟨hc, hall⟩))
      refine ⟨c :: lead, tok, List.forall_mem_cons.mpr ⟨hc, hlead⟩, hne, hfree, ?_⟩
      simpa using hs
    · have hc : p c = false := by simpa using hc
      rcases free_or_line p s with hfree | ⟨tok, d, more, hfree, hd, rfl⟩
      · exact ⟨[], c :: s, by simp, by simp, free_cons.mpr ⟨hc, hfree⟩, Or.inl rfl⟩
      · exact ⟨[], c :: tok, by simp, by simp, free_cons.mpr ⟨hc, hfree⟩,
          Or.inr ⟨d, more, hd, by simp⟩⟩

/-- **Tokens.**  What `strtok` returns, and where it goes on. -/
theorem strtok_eq_some_iff :
    strtok p s = some (tok, more) ↔
      ∃ lead, (∀ c ∈ lead, p c = true) ∧ tok ≠ [] ∧ Free p tok ∧
        (s = lead ++ tok ∧ more = [] ∨ ∃ d, p d = true ∧ s = lead ++ (tok ++ d :: more)) := by
  constructor
  · intro h
    have hsome : ¬ ∀ c ∈ s, p c = true := fun hall => by
      rw [strtok_eq_none_iff.mpr hall] at h
      cases h
    obtain ⟨lead, tok', hlead, hne, hfree, rfl | ⟨d, more', hd, rfl⟩⟩ := exists_token hsome
    · rw [strtok_append hlead, strtok_last hne hfree] at h
      cases h
      exact ⟨lead, hlead, hne, hfree, Or.inl ⟨rfl, rfl⟩⟩
    · rw [strtok_append hlead, strtok_token hne hfree hd] at h
      cases h
      exact ⟨lead, hlead, hne, hfree, Or.inr ⟨d, hd, rfl⟩⟩
  · rintro ⟨lead, hlead, hne, hfree, ⟨rfl, rfl⟩ | ⟨d, hd, rfl⟩⟩
    · rw [strtok_append hlead, strtok_last hne hfree]
    · rw [strtok_append hlead, strtok_token hne hfree hd]

end strtok

end CStrings
