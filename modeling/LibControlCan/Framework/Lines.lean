import Mathlib.Tactic

/-! # Delimited lines of a stream

    A stream is a list over an arbitrary type, and `p` recognises the
    delimiter.  `cut p xs` splits `xs` into its complete lines (without
    their delimiters) and the rest that no delimiter ends yet.

    * `cut_append`: cutting is incremental, so a reader may cut at any
      point of the stream and go on from the rest it kept.
    * `cut_line`: a delimiter-free segment and its delimiter are one line.
    * `joinLines` is the inverse for a fixed delimiter, and
      `filterMap_lines_joinLines` decodes a stream of messages.
    * `lines_isPrefix`: lines read off the front of a stream are its first
      lines.
-/

namespace Lines

universe u

variable {α : Type u} (p : α → Bool)

/-! ## Section 1: Cutting a stream -/

/-- The complete lines of a stream and what follows the last delimiter. -/
def cut : List α → List (List α) × List α
  | [] => ([], [])
  | x :: xs =>
    if p x then ([] :: (cut xs).1, (cut xs).2)
    else
      match (cut xs).1 with
      | [] => ([], x :: (cut xs).2)
      | l :: ls => ((x :: l) :: ls, (cut xs).2)

/-- The complete lines of a stream. -/
def lines (xs : List α) : List (List α) := (cut p xs).1

/-- What follows the last delimiter. -/
def rest (xs : List α) : List α := (cut p xs).2

/-- No element of the segment is a delimiter. -/
def Free (xs : List α) : Prop := ∀ x ∈ xs, p x = false

variable {p}

@[simp] theorem free_nil : Free p ([] : List α) := by
  intro x hx; cases hx

theorem free_cons {x : α} {xs : List α} : Free p (x :: xs) ↔ p x = false ∧ Free p xs := by
  simp [Free]

@[simp] theorem cut_nil : cut p ([] : List α) = ([], []) := rfl

/-- A segment without a delimiter has no complete line. -/
theorem cut_of_free {xs : List α} (h : Free p xs) : cut p xs = ([], xs) := by
  induction xs with
  | nil => rfl
  | cons x xs ih =>
    obtain ⟨hx, hxs⟩ := free_cons.mp h
    simp [cut, hx, ih hxs]

/-- The first line of a stream. -/
theorem cut_line {l xs : List α} {d : α} (hl : Free p l) (hd : p d = true) :
    cut p (l ++ d :: xs) = (l :: (cut p xs).1, (cut p xs).2) := by
  induction l with
  | nil => simp [cut, hd]
  | cons x l ih =>
    obtain ⟨hx, hl'⟩ := free_cons.mp hl
    simp [cut, hx, ih hl']

/-- What a line holds comes from the stream. -/
theorem mem_of_mem_lines {xs l : List α} {x : α} (h : l ∈ (cut p xs).1) (hx : x ∈ l) : x ∈ xs := by
  -- The line varies: an element in front lengthens the first line of what follows.
  induction xs generalizing l with
  | nil => simp at h
  | cons y xs ih =>
    by_cases hy : p y = true
    · simp only [cut, hy, if_true, List.mem_cons] at h
      rcases h with rfl | h
      · cases hx
      · exact List.mem_cons_of_mem _ (ih h hx)
    · have hy' : p y = false := by simpa using hy
      cases hc : (cut p xs).1 with
      | nil => simp [cut, hy', hc] at h
      | cons k ks =>
        simp only [cut, hy', hc, Bool.false_eq_true, if_false, List.mem_cons] at h
        rcases h with rfl | h
        · rcases List.mem_cons.mp hx with rfl | hx
          · exact List.mem_cons_self
          · exact List.mem_cons_of_mem _ (ih (by rw [hc]; exact List.mem_cons_self) hx)
        · exact List.mem_cons_of_mem _ (ih (by rw [hc]; exact List.mem_cons_of_mem _ h) hx)

/-- **Incremental cutting**: the lines of `xs ++ ys` are those of `xs`
    and then those of the rest of `xs` followed by `ys`. -/
theorem cut_append (xs ys : List α) :
    cut p (xs ++ ys) =
      ((cut p xs).1 ++ (cut p ((cut p xs).2 ++ ys)).1, (cut p ((cut p xs).2 ++ ys)).2) := by
  induction xs with
  | nil => simp
  | cons x xs ih =>
    by_cases hx : p x = true
    · simp [cut, hx, ih]
    · -- `x` belongs to the first line of `xs`, or to its rest when it has none.
      have hx' : p x = false := by simpa using hx
      cases hc : (cut p xs).1 with
      | nil =>
        rw [hc] at ih
        simp [cut, hx', hc, ih]
      | cons l ls =>
        rw [hc] at ih
        simp [cut, hx', hc, ih]

theorem lines_append (xs ys : List α) :
    lines p (xs ++ ys) = lines p xs ++ lines p (rest p xs ++ ys) := by
  simp [lines, rest, cut_append xs ys]

/-- A line read off the front of the rest extends the lines read so far. -/
theorem cut_append_line {xs l : List α} {d : α} (hxs : (cut p xs).2 = [])
    (hl : Free p l) (hd : p d = true) :
    cut p (xs ++ (l ++ [d])) = ((cut p xs).1 ++ [l], []) := by
  rw [cut_append, hxs, List.nil_append, cut_line hl hd]
  simp

/-- Lines taken from the front are the first lines of the whole stream. -/
theorem lines_of_consumed {xs ys : List α} (hxs : (cut p xs).2 = []) :
    lines p (xs ++ ys) = lines p xs ++ lines p ys := by
  rw [lines_append]
  simp [rest, hxs]

theorem lines_isPrefix {xs ys : List α} (hxs : (cut p xs).2 = []) (h : xs <+: ys) :
    lines p xs <+: lines p ys := by
  obtain ⟨zs, rfl⟩ := h
  rw [lines_of_consumed hxs]
  exact List.prefix_append _ _

/-- Cutting an image is cutting by the preimage of the delimiter. -/
theorem cut_map {β : Type u} (f : β → α) (xs : List β) :
    cut p (xs.map f) =
      ((cut (p ∘ f) xs).1.map (List.map f), (cut (p ∘ f) xs).2.map f) := by
  induction xs with
  | nil => rfl
  | cons x xs ih =>
    by_cases hx : p (f x) = true
    · simp [cut, hx, ih]
    · cases hc : (cut (p ∘ f) xs).1 <;> simp [cut, hx, ih, hc]

/-! ## Section 2: The first delimiter -/

/-- Searching for the first delimiter splits a stream that has one. -/
theorem split_at_findIdx {xs : List α} (h : xs.findIdx p ≠ xs.length) :
    ∃ d, p d = true ∧ Free p (xs.take (xs.findIdx p)) ∧
      xs = xs.take (xs.findIdx p) ++ d :: xs.drop (xs.findIdx p + 1) := by
  have hle : xs.findIdx p ≤ xs.length := List.findIdx_le_length
  have hlt : xs.findIdx p < xs.length := by omega
  refine ⟨xs[xs.findIdx p], List.findIdx_getElem, ?_, ?_⟩
  · intro x hx
    obtain ⟨i, hi, rfl⟩ := List.mem_iff_getElem.mp hx
    have hi' : i < xs.findIdx p := by
      simp only [List.length_take] at hi
      omega
    rw [List.getElem_take]
    exact List.not_of_lt_findIdx hi'
  · rw [List.getElem_cons_drop, List.take_append_drop]

/-- A stream without a delimiter is searched to its end. -/
theorem findIdx_eq_length_iff {xs : List α} : xs.findIdx p = xs.length ↔ Free p xs := by
  rw [List.findIdx_eq_length]
  rfl

/-- A stream is its first line, the delimiter and the rest, or one line. -/
theorem free_or_line (p : α → Bool) (xs : List α) :
    Free p xs ∨ ∃ l d ys, Free p l ∧ p d = true ∧ xs = l ++ d :: ys := by
  by_cases h : xs.findIdx p = xs.length
  · exact Or.inl (findIdx_eq_length_iff.mp h)
  · obtain ⟨d, hd, hfree, heq⟩ := split_at_findIdx h
    exact Or.inr ⟨_, d, _, hfree, hd, heq⟩

/-! ## Section 3: Joined lines -/

/-- Each line followed by the delimiter `d`. -/
def joinLines (d : α) (ls : List (List α)) : List α := ls.flatMap fun l => l ++ [d]

@[simp] theorem joinLines_nil (d : α) : joinLines d ([] : List (List α)) = [] := rfl

@[simp] theorem joinLines_cons (d : α) (l : List α) (ls : List (List α)) :
    joinLines d (l :: ls) = l ++ d :: joinLines d ls := by
  simp [joinLines]

theorem cut_joinLines {d : α} (hd : p d = true) {ls : List (List α)}
    (h : ∀ l ∈ ls, Free p l) : cut p (joinLines d ls) = (ls, []) := by
  induction ls with
  | nil => rfl
  | cons l ls ih =>
    rw [joinLines_cons, cut_line (h l List.mem_cons_self) hd,
      ih (fun k hk => h k (List.mem_cons_of_mem _ hk))]

/-- **Decoding a stream of lines**: when every message is a line without
    the delimiter and `read` reads a line back, it reads every stream back. -/
theorem filterMap_lines_joinLines {β : Type u} {d : α} {text : β → List α}
    {read : List α → Option β} (hd : p d = true) (hfree : ∀ b, Free p (text b))
    (hread : ∀ b, read (text b) = some b) (bs : List β) :
    (lines p (joinLines d (bs.map text))).filterMap read = bs := by
  have hlines : ∀ l ∈ bs.map text, Free p l := by
    intro l hl
    obtain ⟨b, -, rfl⟩ := List.mem_map.mp hl
    exact hfree b
  rw [lines, cut_joinLines hd hlines, List.filterMap_map]
  have hsome : read ∘ text = some := funext hread
  rw [hsome, List.filterMap_some]

end Lines
