import Mathlib.Tactic

/-! # Backtracking regular expressions

    The part of the ECMAScript grammar that anchored, fixed-width and
    repeated character classes need, with the backtracking meaning the
    standard gives it.  A cursor is a point of the searched string: what
    lies before it and what lies after it.  `run r c` lists the cursors
    where a match of `r` from `c` can end, the preferred one first, so a
    match exists when the list is not empty and it ends at the head.

    * `bol` and `eol` hold only at the ends of the searched string.
    * `plus` is greedy: more repetitions are preferred.
    * `search` tries the starting points from left to right.

    The `mem_run_*` theorems say which ends a pattern has, and
    `search_bol` reduces the search for an anchored pattern to one start. -/

namespace Regex

universe u

variable {α : Type u}

/-- Patterns. -/
inductive Pattern (α : Type u) where
  | empty : Pattern α
  | bol : Pattern α
  | eol : Pattern α
  | sat : (α → Bool) → Pattern α
  | seq : Pattern α → Pattern α → Pattern α
  | alt : Pattern α → Pattern α → Pattern α
  | times : Nat → Pattern α → Pattern α
  | plus : Pattern α → Pattern α

/-- A point of the searched string. -/
structure Cursor (α : Type u) where
  before : List α
  after : List α

/-! ## Section 1: Matching -/

/-- Exactly `n` repetitions. -/
def repeatExactly (next : Cursor α → List (Cursor α)) : Nat → Cursor α → List (Cursor α)
  | 0, c => [c]
  | n + 1, c => (next c).flatMap (repeatExactly next n)

/-- One to `n` repetitions, more of them first. -/
def repeatGreedy (next : Cursor α → List (Cursor α)) : Nat → Cursor α → List (Cursor α)
  | 0, _ => []
  | n + 1, c => (next c).flatMap fun c' => repeatGreedy next n c' ++ [c']

/-- The ends of the matches of a pattern from a cursor, preferred first.
    A repetition that consumes nothing is not worth repeating, so the
    length of what is left bounds the useful repetitions of `plus`. -/
def run : Pattern α → Cursor α → List (Cursor α)
  | .empty, c => [c]
  | .bol, c => if c.before.isEmpty then [c] else []
  | .eol, c => if c.after.isEmpty then [c] else []
  | .sat _, ⟨_, []⟩ => []
  | .sat f, ⟨pre, x :: xs⟩ => if f x then [⟨pre ++ [x], xs⟩] else []
  | .seq r s, c => (run r c).flatMap (run s)
  | .alt r s, c => run r c ++ run s c
  | .times n r, c => repeatExactly (run r) n c
  | .plus r, c => repeatGreedy (run r) (c.after.length + 1) c

/-- The first match that starts in `xs`, when `pre` lies before it. -/
def searchFrom (r : Pattern α) (pre : List α) : List α → Option (Cursor α)
  | [] => (run r ⟨pre, []⟩).head?
  | x :: xs =>
    match (run r ⟨pre, x :: xs⟩).head? with
    | some c => some c
    | none => searchFrom r (pre ++ [x]) xs

/-- The end of the first match in `xs`, if there is one. -/
def search (r : Pattern α) (xs : List α) : Option (Cursor α) := searchFrom r [] xs

/-- The pattern of a fixed text. -/
def text [BEq α] : List α → Pattern α
  | [] => .empty
  | x :: xs => .seq (.sat (· == x)) (text xs)

/-! ## Section 2: Where the patterns end -/

theorem mem_run_seq {r s : Pattern α} {c c' : Cursor α} :
    c' ∈ run (.seq r s) c ↔ ∃ d, d ∈ run r c ∧ c' ∈ run s d := by
  simp [run]

theorem mem_run_alt {r s : Pattern α} {c c' : Cursor α} :
    c' ∈ run (.alt r s) c ↔ c' ∈ run r c ∨ c' ∈ run s c := by
  simp [run]

theorem mem_run_eol {c c' : Cursor α} : c' ∈ run .eol c ↔ c.after = [] ∧ c' = c := by
  by_cases h : c.after = [] <;> simp [run, h]

/-! ### Patterns of a fixed width -/

/-- A segment of `n` elements of the class `f` lies at the front of `xs`. -/
def Segment (f : α → Bool) (n : Nat) (xs seg rest : List α) : Prop :=
  xs = seg ++ rest ∧ seg.length = n ∧ ∀ x ∈ seg, f x = true

theorem Segment.append {f : α → Bool} {n m : Nat} {xs seg₁ mid seg₂ rest : List α}
    (h₁ : Segment f n xs seg₁ mid) (h₂ : Segment f m mid seg₂ rest) :
    Segment f (n + m) xs (seg₁ ++ seg₂) rest := by
  obtain ⟨rfl, hn, hall₁⟩ := h₁
  obtain ⟨rfl, hm, hall₂⟩ := h₂
  refine ⟨by simp, by simp [hn, hm], ?_⟩
  intro x hx
  rcases List.mem_append.mp hx with hx | hx
  · exact hall₁ x hx
  · exact hall₂ x hx

theorem Segment.split {f : α → Bool} {n m : Nat} {xs seg rest : List α}
    (h : Segment f (n + m) xs seg rest) :
    ∃ seg₁ seg₂, seg = seg₁ ++ seg₂ ∧ Segment f n xs seg₁ (seg₂ ++ rest) ∧
      Segment f m (seg₂ ++ rest) seg₂ rest := by
  obtain ⟨rfl, hlen, hall⟩ := h
  refine ⟨seg.take n, seg.drop n, (List.take_append_drop n seg).symm, ⟨?_, ?_, ?_⟩, rfl, ?_, ?_⟩
  · rw [← List.append_assoc, List.take_append_drop]
  · simp [hlen]
  · exact fun x hx => hall x (List.mem_of_mem_take hx)
  · simp [hlen]
  · exact fun x hx => hall x (List.mem_of_mem_drop hx)

/-- Every match from a cursor consumes `n` elements of the class `f`, and
    every such segment is a match. -/
def FixedWidth (next : Cursor α → List (Cursor α)) (f : α → Bool) (n : Nat) : Prop :=
  ∀ pre xs c, c ∈ next ⟨pre, xs⟩ ↔
    ∃ seg rest, Segment f n xs seg rest ∧ c = ⟨pre ++ seg, rest⟩

theorem fixedWidth_sat (f : α → Bool) : FixedWidth (run (.sat f)) f 1 := by
  intro pre xs c
  cases xs with
  | nil => simp [run, Segment]
  | cons x xs =>
    constructor
    · intro hc
      by_cases hx : f x = true
      · simp only [run, hx, if_true, List.mem_singleton] at hc
        exact ⟨[x], xs, ⟨rfl, rfl, by simpa using hx⟩, hc⟩
      · simp [run, hx] at hc
    · rintro ⟨seg, rest, ⟨hxs, hlen, hall⟩, rfl⟩
      obtain ⟨y, rfl⟩ := List.length_eq_one_iff.mp hlen
      cases hxs
      have hx : f x = true := hall x List.mem_cons_self
      simp [run, hx]

/-- One match after another. -/
theorem FixedWidth.bind {next next' : Cursor α → List (Cursor α)} {f : α → Bool} {n m : Nat}
    (h : FixedWidth next f n) (h' : FixedWidth next' f m) :
    FixedWidth (fun c => (next c).flatMap next') f (n + m) := by
  intro pre xs c
  simp only [List.mem_flatMap]
  constructor
  · rintro ⟨d, hd, hc⟩
    obtain ⟨seg₁, mid, hseg₁, rfl⟩ := (h pre xs d).mp hd
    obtain ⟨seg₂, rest, hseg₂, rfl⟩ := (h' _ mid c).mp hc
    exact ⟨seg₁ ++ seg₂, rest, hseg₁.append hseg₂, by simp⟩
  · rintro ⟨seg, rest, hseg, rfl⟩
    obtain ⟨seg₁, seg₂, rfl, hseg₁, hseg₂⟩ := hseg.split
    refine ⟨⟨pre ++ seg₁, seg₂ ++ rest⟩, (h pre xs _).mpr ⟨seg₁, _, hseg₁, rfl⟩, ?_⟩
    exact (h' _ _ _).mpr ⟨seg₂, rest, hseg₂, by simp⟩

theorem FixedWidth.seq {r s : Pattern α} {f : α → Bool} {n m : Nat}
    (h : FixedWidth (run r) f n) (h' : FixedWidth (run s) f m) :
    FixedWidth (run (.seq r s)) f (n + m) := by
  intro pre xs c
  simpa only [run] using h.bind h' pre xs c

theorem FixedWidth.times {r : Pattern α} {f : α → Bool} {w : Nat}
    (h : FixedWidth (run r) f w) (n : Nat) : FixedWidth (run (.times n r)) f (n * w) := by
  show FixedWidth (repeatExactly (run r) n) f (n * w)
  induction n with
  | zero =>
    intro pre xs c
    simp only [repeatExactly, List.mem_singleton, Nat.zero_mul]
    constructor
    · rintro rfl
      exact ⟨[], xs, ⟨rfl, rfl, by simp⟩, by simp⟩
    · rintro ⟨seg, rest, ⟨rfl, hlen, _⟩, rfl⟩
      rw [List.length_eq_zero_iff] at hlen
      simp [hlen]
  | succ n ih =>
    rw [Nat.succ_mul, Nat.add_comm (n * w)]
    exact h.bind ih

/-- The ends of a greedy repetition: after any number of repetitions up to the bound. -/
theorem FixedWidth.repeatGreedy {next : Cursor α → List (Cursor α)} {f : α → Bool} {w : Nat}
    (h : FixedWidth next f w) (k : Nat) (pre xs : List α) (c : Cursor α) :
    c ∈ repeatGreedy next k ⟨pre, xs⟩ ↔
      ∃ n < k, ∃ seg rest, Segment f ((n + 1) * w) xs seg rest ∧ c = ⟨pre ++ seg, rest⟩ := by
  induction k generalizing pre xs with
  | zero => simp [Regex.repeatGreedy]
  | succ k ih =>
    simp only [Regex.repeatGreedy, List.mem_flatMap, List.mem_append, List.mem_singleton]
    constructor
    · rintro ⟨d, hd, hc⟩
      obtain ⟨seg₁, mid, hseg₁, rfl⟩ := (h pre xs d).mp hd
      rcases hc with hc | rfl
      · obtain ⟨n, hn, seg₂, rest, hseg₂, rfl⟩ := (ih _ mid).mp hc
        refine ⟨n + 1, by omega, seg₁ ++ seg₂, rest, ?_, by simp⟩
        rw [Nat.succ_mul (n + 1), Nat.add_comm]
        exact hseg₁.append hseg₂
      · exact ⟨0, by omega, seg₁, mid, by simpa using hseg₁, rfl⟩
    · rintro ⟨n, hn, seg, rest, hseg, rfl⟩
      rw [Nat.succ_mul, Nat.add_comm] at hseg
      obtain ⟨seg₁, seg₂, rfl, hseg₁, hseg₂⟩ := hseg.split
      refine ⟨⟨pre ++ seg₁, seg₂ ++ rest⟩, (h pre xs _).mpr ⟨seg₁, _, hseg₁, rfl⟩, ?_⟩
      cases n with
      | zero =>
        -- The last repetition: nothing of the segment is left.
        obtain ⟨-, hlen, -⟩ := hseg₂
        rw [Nat.zero_mul, List.length_eq_zero_iff] at hlen
        subst hlen
        exact Or.inr (by simp)
      | succ n =>
        exact Or.inl ((ih _ _).mpr ⟨n, by omega, seg₂, rest, hseg₂, by simp⟩)

/-- The ends of `plus`: after any positive number of repetitions. -/
theorem FixedWidth.plus {r : Pattern α} {f : α → Bool} {w : Nat}
    (h : FixedWidth (run r) f w) (hw : 0 < w) (pre xs : List α) (c : Cursor α) :
    c ∈ run (.plus r) ⟨pre, xs⟩ ↔
      ∃ n seg rest, Segment f ((n + 1) * w) xs seg rest ∧ c = ⟨pre ++ seg, rest⟩ := by
  show c ∈ Regex.repeatGreedy (run r) (xs.length + 1) ⟨pre, xs⟩ ↔ _
  rw [h.repeatGreedy]
  constructor
  · rintro ⟨n, _, seg, rest, hseg, rfl⟩
    exact ⟨n, seg, rest, hseg, rfl⟩
  · rintro ⟨n, seg, rest, hseg, rfl⟩
    refine ⟨n, ?_, seg, rest, hseg, rfl⟩
    -- Each repetition consumes something, so the string bounds their number.
    obtain ⟨rfl, hlen, _⟩ := hseg
    have hle : n + 1 ≤ (n + 1) * w := Nat.le_mul_of_pos_right _ hw
    simp only [List.length_append]
    omega

/-- A fixed text ends after itself. -/
theorem mem_run_text [BEq α] [LawfulBEq α] {ws pre xs : List α} {c : Cursor α} :
    c ∈ run (text ws) ⟨pre, xs⟩ ↔ ∃ ys, xs = ws ++ ys ∧ c = ⟨pre ++ ws, ys⟩ := by
  induction ws generalizing pre xs with
  | nil => simp [text, run]
  | cons w ws ih =>
    rw [text, mem_run_seq]
    constructor
    · rintro ⟨d, hd, hc⟩
      obtain ⟨seg, rest, ⟨rfl, hlen, hall⟩, rfl⟩ := (fixedWidth_sat _ pre xs d).mp hd
      obtain ⟨x, rfl⟩ := List.length_eq_one_iff.mp hlen
      obtain ⟨zs, rfl, rfl⟩ := ih.mp hc
      have hxw : x = w := by simpa using hall x List.mem_cons_self
      exact ⟨zs, by simp [hxw], by simp [hxw]⟩
    · rintro ⟨ys, rfl, rfl⟩
      refine ⟨⟨pre ++ [w], ws ++ ys⟩, ?_, ih.mpr ⟨ys, rfl, by simp⟩⟩
      exact (fixedWidth_sat _ pre _ _).mpr ⟨[w], ws ++ ys, ⟨rfl, rfl, by simp⟩, rfl⟩

/-! ## Section 3: Searching -/

theorem run_bol_of_ne {r : Pattern α} {pre xs : List α} (h : pre ≠ []) :
    run (.seq .bol r) ⟨pre, xs⟩ = [] := by
  simp [run, h]

theorem searchFrom_bol_of_ne {r : Pattern α} {pre xs : List α} (h : pre ≠ []) :
    searchFrom (.seq .bol r) pre xs = none := by
  induction xs generalizing pre with
  | nil => simp [searchFrom, run_bol_of_ne h]
  | cons x xs ih => simp [searchFrom, run_bol_of_ne h, ih]

/-- A pattern that begins with `bol` is only matched at the front. -/
theorem search_bol (r : Pattern α) (xs : List α) :
    search (.seq .bol r) xs = (run r ⟨[], xs⟩).head? := by
  have hfront : run (.seq .bol r) ⟨[], xs⟩ = run r ⟨[], xs⟩ := by simp [run]
  cases xs with
  | nil => simp only [search, searchFrom, hfront]
  | cons x xs =>
    simp only [search, searchFrom, hfront]
    cases (run r ⟨[], x :: xs⟩).head? with
    | some c => rfl
    | none => exact searchFrom_bol_of_ne (by simp)

/-- When all matches end at one cursor, the search finds that cursor. -/
theorem head?_eq_some_iff_of_unique {l : List (Cursor α)}
    (huniq : ∀ c ∈ l, ∀ d ∈ l, c = d) {c : Cursor α} : l.head? = some c ↔ c ∈ l := by
  cases l with
  | nil => simp
  | cons d l =>
    simp only [List.head?_cons, Option.some.injEq]
    constructor
    · rintro rfl; exact List.mem_cons_self
    · intro hc; exact huniq d List.mem_cons_self c hc

end Regex
