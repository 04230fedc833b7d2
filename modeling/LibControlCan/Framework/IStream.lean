import LibControlCan.Framework.Lines

/-! # Reading a stream line by line

    The part of `std::istream` behind a loop

        while (!in.eof()) { in.getline(line, n); body; }

    `getline` stores at most `n - 1` characters, and it sets `failbit`
    when the line is longer.  A stream with `failbit` gives nothing more,
    and never sets `eofbit`.

    * `pieces` are the lines of a stream, with what follows the last
      delimiter as one more.
    * `feed` is what the loop means on them: its body runs on each, and a
      piece that does not fit is the last, after which the loop is stuck.
    * `readLoop_eq_feed` and `readLoop_ends_iff`: the loop does just that. -/

namespace IStream

open Lines

universe u v w

variable {α : Type u} {σ : Type v} {ε : Type w}

/-! ## Section 1: The stream -/

/-- A stream: what has not been read, `eofbit` and `failbit`. -/
structure Input (α : Type u) where
  unread : List α
  eofbit : Bool
  failbit : Bool

/-- A stream that has just been opened. -/
def Input.opened (xs : List α) : Input α := ⟨xs, false, false⟩

/-- What ended an extraction. -/
inductive Stop where
  | endOfFile
  | delimiter
  | full

variable (p : α → Bool)

/-- Characters are extracted until the stream ends, a delimiter is next
    (it is extracted too), or `room` of them are stored; the three are
    tested in this order. -/
def extract : Nat → List α → List α × List α × Stop
  | _, [] => ([], [], .endOfFile)
  | 0, x :: xs => if p x then ([], xs, .delimiter) else ([], x :: xs, .full)
  | room + 1, x :: xs =>
    if p x then ([], xs, .delimiter)
    else
      let (line, unread, stop) := extract room xs
      (x :: line, unread, stop)

/-- `getline(line, n)`, with what it stores.  A stream that is not good is
    not read. -/
def getline (n : Nat) (s : Input α) : List α × Input α :=
  if s.eofbit || s.failbit then ([], { s with failbit := true })
  else
    match extract p (n - 1) s.unread with
    | (line, unread, .endOfFile) => (line, ⟨unread, true, line.isEmpty⟩)
    | (line, unread, .delimiter) => (line, ⟨unread, false, false⟩)
    | (line, unread, .full) => (line, ⟨unread, false, true⟩)

/-- The loop.  The result is `none` when the fuel does not suffice; a body
    that fails ends it. -/
def readLoop (n : Nat) (body : σ → List α → Except ε σ) : Nat → Input α → σ → Option (Except ε σ)
  | 0, _, _ => none
  | fuel + 1, s, st =>
    if s.eofbit then some (.ok st)
    else
      match body st (getline p n s).1 with
      | .error e => some (.error e)
      | .ok st' => readLoop n body fuel (getline p n s).2 st'

/-- The lines of a stream, with what follows the last delimiter. -/
def pieces (xs : List α) : List (List α) := lines p xs ++ [rest p xs]

variable {p}

/-! ## Section 2: One call of `getline` -/

theorem extract_free {room : Nat} {l : List α} (h : Free p l) (hlen : l.length ≤ room) :
    extract p room l = (l, [], .endOfFile) := by
  induction l generalizing room with
  | nil => cases room <;> rfl
  | cons x l ih =>
    obtain ⟨hx, hl⟩ := free_cons.mp h
    obtain ⟨room, rfl⟩ : ∃ k, room = k + 1 := ⟨room - 1, by simp at hlen; omega⟩
    simp [extract, hx, ih hl (by simpa using hlen)]

theorem extract_line {room : Nat} {l xs : List α} {d : α} (h : Free p l) (hd : p d = true)
    (hlen : l.length ≤ room) : extract p room (l ++ d :: xs) = (l, xs, .delimiter) := by
  induction l generalizing room with
  | nil => cases room <;> simp [extract, hd]
  | cons x l ih =>
    obtain ⟨hx, hl⟩ := free_cons.mp h
    obtain ⟨room, rfl⟩ : ∃ k, room = k + 1 := ⟨room - 1, by simp at hlen; omega⟩
    simp [extract, hx, ih hl (by simpa using hlen)]

theorem extract_long {room : Nat} {l xs : List α} (h : Free p l) (hlen : room < l.length) :
    extract p room (l ++ xs) = (l.take room, l.drop room ++ xs, .full) := by
  induction l generalizing room with
  | nil => simp at hlen
  | cons x l ih =>
    obtain ⟨hx, hl⟩ := free_cons.mp h
    cases room with
    | zero => simp [extract, hx]
    | succ room => simp [extract, hx, ih hl (by simpa using hlen)]

variable {n : Nat} {l xs : List α}

theorem getline_last (h : Free p l) (hlen : l.length < n) :
    getline p n (.opened l) = (l, ⟨[], true, l.isEmpty⟩) := by
  simp [getline, Input.opened, extract_free h (show l.length ≤ n - 1 by omega)]

theorem getline_line {d : α} (h : Free p l) (hd : p d = true) (hlen : l.length < n) :
    getline p n (.opened (l ++ d :: xs)) = (l, .opened xs) := by
  simp [getline, Input.opened, extract_line h hd (show l.length ≤ n - 1 by omega)]

theorem getline_long (h : Free p l) (hn : 0 < n) (hlen : n ≤ l.length) :
    getline p n (.opened (l ++ xs)) = (l.take (n - 1), ⟨l.drop (n - 1) ++ xs, false, true⟩) := by
  simp [getline, Input.opened, extract_long h (show n - 1 < l.length by omega)]

/-! ## Section 3: The pieces of a stream -/

theorem pieces_of_free (h : Free p l) : pieces p l = [l] := by
  simp [pieces, lines, rest, cut_of_free h]

theorem pieces_line {d : α} (h : Free p l) (hd : p d = true) :
    pieces p (l ++ d :: xs) = l :: pieces p xs := by
  simp [pieces, lines, rest, cut_line h hd]

theorem pieces_joinLines {d : α} (hd : p d = true) {ls : List (List α)}
    (h : ∀ l ∈ ls, Free p l) : pieces p (joinLines d ls) = ls ++ [[]] := by
  simp [pieces, lines, rest, cut_joinLines hd h]

/-- **Induction on the lines** of a stream. -/
theorem lines_induction {motive : List α → Prop} (last : ∀ l, Free p l → motive l)
    (line : ∀ l d xs, Free p l → p d = true → motive xs → motive (l ++ d :: xs)) (xs : List α) :
    motive xs := by
  induction hlen : xs.length using Nat.strong_induction_on generalizing xs with
  | _ k ih =>
    rcases free_or_line p xs with hfree | ⟨l, d, ys, hl, hd, rfl⟩
    · exact last xs hfree
    · refine line l d ys hl hd (ih ys.length ?_ ys rfl)
      simp only [List.length_append, List.length_cons] at hlen
      omega

theorem free_of_mem_pieces (h : l ∈ pieces p xs) : Free p l := by
  induction xs using lines_induction (p := p) with
  | last k hk =>
    rw [pieces_of_free hk, List.mem_singleton] at h
    exact h ▸ hk
  | line k d ys hk hd ih =>
    rw [pieces_line hk hd, List.mem_cons] at h
    rcases h with rfl | h
    · exact hk
    · exact ih h

/-! ## Section 4: The loop -/

section loop

variable {body : σ → List α → Except ε σ}

/-- The meaning of the loop, on the pieces of its stream: the body runs on
    one after the other.  After the front of a piece that does not fit the
    loop goes on for ever. -/
def feed (n : Nat) (body : σ → List α → Except ε σ) : List (List α) → σ → Option (Except ε σ)
  | [], st => some (.ok st)
  | l :: ls, st =>
    if l.length < n then
      match body st l with
      | .error e => some (.error e)
      | .ok st' => feed n body ls st'
    else
      match body st (l.take (n - 1)) with
      | .error e => some (.error e)
      | .ok _ => none

/-- Pieces that all fit. -/
theorem feed_of_short {ls : List (List α)} (h : ∀ l ∈ ls, l.length < n) (st : σ) :
    feed n body ls st = some (ls.foldlM body st) := by
  induction ls generalizing st with
  | nil => rfl
  | cons l ls ih =>
    rw [feed, if_pos (h l List.mem_cons_self), List.foldlM_cons]
    cases body st l with
    | error e => rfl
    | ok st' => exact ih (fun k hk => h k (List.mem_cons_of_mem _ hk)) st'

theorem short_of_feed {ls : List (List α)} {st st' : σ} (h : feed n body ls st = some (.ok st')) :
    ∀ l ∈ ls, l.length < n := by
  induction ls generalizing st with
  | nil => simp
  | cons l ls ih =>
    rw [feed] at h
    by_cases hlen : l.length < n
    · rw [if_pos hlen] at h
      cases hbody : body st l with
      | error e => simp [hbody] at h
      | ok st'' =>
        rw [hbody] at h
        exact List.forall_mem_cons.mpr ⟨hlen, ih h⟩
    · rw [if_neg hlen] at h
      cases hbody : body st (l.take (n - 1)) <;> simp [hbody] at h

/-- Where the loop goes on for ever. -/
theorem feed_eq_none_iff {ls : List (List α)} {st : σ} :
    feed n body ls st = none ↔
      ∃ pre l post st', ls = pre ++ l :: post ∧ (∀ k ∈ pre, k.length < n) ∧ ¬ l.length < n ∧
        (pre ++ [l.take (n - 1)]).foldlM body st = .ok st' := by
  constructor
  · intro h
    induction ls generalizing st with
    | nil => cases h
    | cons l ls ih =>
      rw [feed] at h
      by_cases hlen : l.length < n
      · rw [if_pos hlen] at h
        cases hbody : body st l with
        | error e => simp [hbody] at h
        | ok st' =>
          rw [hbody] at h
          obtain ⟨pre, k, post, st'', rfl, hpre, hk, hfold⟩ := ih h
          refine ⟨l :: pre, k, post, st'', rfl, List.forall_mem_cons.mpr ⟨hlen, hpre⟩, hk, ?_⟩
          simpa [hbody, bind, Except.bind] using hfold
      · rw [if_neg hlen] at h
        cases hbody : body st (l.take (n - 1)) with
        | error e => simp [hbody] at h
        | ok st' =>
          refine ⟨[], l, ls, st', rfl, by simp, hlen, ?_⟩
          simp [hbody, bind, Except.bind, pure, Except.pure]
  · rintro ⟨pre, l, post, st', rfl, hpre, hlen, hfold⟩
    induction pre generalizing st with
    | nil =>
      cases hbody : body st (l.take (n - 1)) with
      | error e => simp [hbody, bind, Except.bind] at hfold
      | ok st'' => simp [feed, hlen, hbody]
    | cons k pre ih =>
      obtain ⟨hk, hpre⟩ := List.forall_mem_cons.mp hpre
      cases hbody : body st k with
      | error e => simp [hbody, bind, Except.bind] at hfold
      | ok st'' =>
        rw [List.cons_append, List.foldlM_cons, hbody] at hfold
        simpa [feed, hk, hbody] using ih hpre hfold

/-- A stream with `failbit` keeps the loop busy for ever, when the body has
    no objection to empty lines. -/
theorem readLoop_of_failbit (hempty : ∀ st, body st [] = .ok st) {s : Input α}
    (heof : s.eofbit = false) (hfail : s.failbit = true) (fuel : Nat) (st : σ) :
    readLoop p n body fuel s st = none := by
  induction fuel generalizing s with
  | zero => rfl
  | succ fuel ih => simp [readLoop, heof, getline, hfail, hempty, ih]

/-- At a piece that does not fit. -/
theorem readLoop_of_long (hn : 0 < n) (hempty : ∀ st, body st [] = .ok st) (h : Free p l)
    (hlen : ¬ l.length < n) (ls : List (List α)) (st : σ) (fuel : Nat) :
    readLoop p n body (fuel + 1) (.opened (l ++ xs)) st = feed n body (l :: ls) st := by
  rw [readLoop, getline_long h hn (by omega), feed, if_neg hlen]
  cases hbody : body st (l.take (n - 1)) with
  | error e => simp [Input.opened]
  | ok st' => simp [Input.opened, readLoop_of_failbit hempty]

/-- **The loop reads the pieces**, given a round for each of them and one to
    see the end. -/
theorem readLoop_eq_feed (hn : 0 < n) (hempty : ∀ st, body st [] = .ok st) (xs : List α) (st : σ)
    {fuel : Nat} (hfuel : (pieces p xs).length < fuel) :
    readLoop p n body fuel (.opened xs) st = feed n body (pieces p xs) st := by
  induction xs using lines_induction (p := p) generalizing st fuel with
  | last l hl =>
    rw [pieces_of_free hl] at hfuel ⊢
    obtain ⟨fuel, rfl⟩ : ∃ k, fuel = k + 2 := ⟨fuel - 2, by simp at hfuel; omega⟩
    by_cases hlen : l.length < n
    · rw [readLoop, getline_last hl hlen, feed, if_pos hlen]
      cases body st l <;> simp [Input.opened, readLoop, feed]
    · have hlong : readLoop p n body (fuel + 2) (.opened (l ++ [])) st = feed n body [l] st :=
        readLoop_of_long hn hempty hl hlen [] st (fuel + 1)
      rwa [List.append_nil] at hlong
  | line l d xs hl hd ih =>
    rw [pieces_line hl hd] at hfuel ⊢
    obtain ⟨fuel, rfl⟩ : ∃ k, fuel = k + 1 := ⟨fuel - 1, by simp at hfuel; omega⟩
    by_cases hlen : l.length < n
    · rw [readLoop, getline_line hl hd hlen, feed, if_pos hlen]
      cases body st l with
      | error e => simp [Input.opened]
      | ok st' => exact ih st' (by simpa using hfuel)
    · exact readLoop_of_long hn hempty hl hlen (pieces p xs) st fuel

/-- More fuel does not change a result. -/
theorem readLoop_mono {s : Input α} {st : σ} {fuel fuel' : Nat} {r : Except ε σ}
    (h : readLoop p n body fuel s st = some r) (hle : fuel ≤ fuel') :
    readLoop p n body fuel' s st = some r := by
  induction fuel generalizing fuel' s st with
  | zero => cases h
  | succ fuel ih =>
    obtain ⟨fuel', rfl⟩ : ∃ k, fuel' = k + 1 := ⟨fuel' - 1, by omega⟩
    rw [readLoop] at h ⊢
    by_cases heof : s.eofbit = true
    · simpa [heof] using h
    · cases hbody : body st (getline p n s).1 with
      | error e => simpa [heof, hbody] using h
      | ok st' =>
        simp only [heof, hbody, Bool.false_eq_true, if_false] at h ⊢
        exact ih h (by omega)

/-- **When the loop ends**, and how. -/
theorem readLoop_ends_iff (hn : 0 < n) (hempty : ∀ st, body st [] = .ok st) {st : σ}
    {r : Except ε σ} :
    (∃ fuel, readLoop p n body fuel (.opened xs) st = some r) ↔
      feed n body (pieces p xs) st = some r := by
  constructor
  · rintro ⟨fuel, hloop⟩
    have hmore := readLoop_mono hloop (Nat.le_add_right fuel ((pieces p xs).length + 1))
    rwa [readLoop_eq_feed hn hempty xs st (by omega)] at hmore
  · intro hfeed
    exact ⟨(pieces p xs).length + 1, (readLoop_eq_feed hn hempty xs st (by omega)).trans hfeed⟩

end loop

end IStream
