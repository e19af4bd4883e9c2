import Mathlib.Data.List.Basic
import Mathlib.Data.List.Forall2

/-!
# Regular expressions as Python's `re` matches them

The patterns that are built of character classes, of assertions about the characters
around a place, and of greedy repetitions of a class. A pattern is tried at a place of a
text, which is the character before it and the rest of the text, and its matches end at
places (`ends`), in the order in which a backtracking matcher finds them: `re` takes the
first.
-/

namespace Persona.Lib

/-- A pattern over the characters `α`. -/
inductive Regex (α : Type*) where
  /-- A character of a class. -/
  | one (p : α → Bool)
  /-- As many characters of a class as possible: `[...]*`. -/
  | many (p : α → Bool)
  /-- An assertion about the characters before and after the place. -/
  | look (p : Option α → Option α → Bool)
  | seq (r t : Regex α)
  | alt (r t : Regex α)

namespace Regex

variable {α : Type*}

/-- `[...]+`. -/
def plus (p : α → Bool) : Regex α := .seq (.one p) (.many p)

/-- Where a greedy repetition of a class may end. -/
def manyEnds (p : α → Bool) (before : Option α) : List α → List (Option α × List α)
  | [] => [(before, [])]
  | c :: cs => if p c then manyEnds p (some c) cs ++ [(before, c :: cs)] else [(before, c :: cs)]

/-- Where the matches of a pattern at a place end. -/
def ends : Regex α → Option α × List α → List (Option α × List α)
  | .one p, (_, c :: cs) => if p c then [(some c, cs)] else []
  | .one _, (_, []) => []
  | .many p, (before, cs) => manyEnds p before cs
  | .look p, (before, cs) => if p before cs.head? then [(before, cs)] else []
  | .seq r t, x => (ends r x).flatMap (ends t)
  | .alt r t, x => ends r x ++ ends t x

/-- The pattern matches at the place. -/
def matchesAt (r : Regex α) (x : Option α × List α) : Bool := !(ends r x).isEmpty

/-- The pattern matches at the place or at a later one. -/
def searchFrom (r : Regex α) (before : Option α) : List α → Bool
  | [] => matchesAt r (before, [])
  | c :: cs => matchesAt r (before, c :: cs) || searchFrom r (some c) cs

/-- `re.search(r, s)` finds a match. -/
def search (r : Regex α) (s : List α) : Bool := searchFrom r none s

/-- The texts of the matches from a place on, after `skip` characters that belong to one
already. -/
def findFrom (r : Regex α) : ℕ → Option α → List α → List (List α)
  | _, _, [] => []
  | skip + 1, _, c :: cs => findFrom r skip (some c) cs
  | 0, before, c :: cs =>
    match (ends r (before, c :: cs)).head? with
    | some (_, rest) =>
      if rest.length ≤ cs.length then
        (c :: cs).take (cs.length + 1 - rest.length) :: findFrom r (cs.length - rest.length) (some c) cs
      else findFrom r 0 (some c) cs
    | none => findFrom r 0 (some c) cs

/-- `re.findall(r, s)` of a pattern without groups that does not match an empty text. -/
def findall (r : Regex α) (s : List α) : List (List α) := findFrom r 0 none s

/-! ### What the matcher does -/

variable {p : α → Bool} {r t : Regex α} {before : Option α} {c : α} {cs s : List α} {x y : Option α × List α}

theorem manyEnds_nil : manyEnds p before [] = [(before, [])] := rfl

theorem manyEnds_cons : manyEnds p before (c :: cs) =
    if p c then manyEnds p (some c) cs ++ [(before, c :: cs)] else [(before, c :: cs)] := rfl

theorem ends_one_nil : ends (.one p) (before, []) = [] := rfl

theorem ends_one_cons : ends (.one p) (before, c :: cs) = if p c then [(some c, cs)] else [] := rfl

theorem ends_many : ends (.many p) x = manyEnds p x.1 x.2 := rfl

theorem ends_look {q : Option α → Option α → Bool} : ends (.look q) x = if q x.1 x.2.head? then [x] else [] := rfl

theorem ends_seq : ends (.seq r t) x = (ends r x).flatMap (ends t) := rfl

theorem ends_alt : ends (.alt r t) x = ends r x ++ ends t x := rfl

theorem suffix_of_mem_manyEnds (h : y ∈ manyEnds p before s) : y.2 <:+ s := by
  induction s generalizing before with
  | nil =>
    obtain rfl := List.mem_singleton.mp h
    exact List.suffix_rfl
  | cons c cs ih =>
    rw [manyEnds_cons] at h
    split_ifs at h
    · rcases List.mem_append.mp h with h | h
      · exact (ih h).trans (List.suffix_cons c cs)
      · obtain rfl := List.mem_singleton.mp h
        exact List.suffix_rfl
    · obtain rfl := List.mem_singleton.mp h
      exact List.suffix_rfl

/-- A match ends at the place where it began or later. -/
theorem suffix_of_mem_ends (h : y ∈ ends r x) : y.2 <:+ x.2 := by
  induction r generalizing x y with
  | one p =>
    obtain ⟨before, _ | ⟨c, cs⟩⟩ := x
    · cases h
    · rw [ends_one_cons] at h
      split_ifs at h
      · obtain rfl := List.mem_singleton.mp h
        exact List.suffix_cons c cs
      · cases h
  | many p => exact suffix_of_mem_manyEnds h
  | look p =>
    rw [ends_look] at h
    split_ifs at h
    · obtain rfl := List.mem_singleton.mp h
      exact List.suffix_rfl
    · cases h
  | seq r t ihr iht =>
    obtain ⟨z, hz, hy⟩ := List.mem_flatMap.mp h
    exact (iht hy).trans (ihr hz)
  | alt r t ihr iht =>
    rcases List.mem_append.mp h with h | h
    · exact ihr h
    · exact iht h

theorem manyEnds_ne_nil : manyEnds p before s ≠ [] := by
  cases s with
  | nil => exact List.cons_ne_nil _ _
  | cons c cs =>
    rw [manyEnds_cons]
    split_ifs
    · simp
    · exact List.cons_ne_nil _ _

/-- A match of a class and what follows it ends after the next character. -/
theorem length_of_mem_ends_one (h : y ∈ ends (.seq (.one p) t) (before, c :: cs)) : p c = true ∧ y.2.length ≤ cs.length := by
  obtain ⟨z, hz, hy⟩ := List.mem_flatMap.mp h
  rw [ends_one_cons] at hz
  split_ifs at hz with hc
  · obtain rfl := List.mem_singleton.mp hz
    exact ⟨hc, (suffix_of_mem_ends hy).length_le⟩
  · cases hz

theorem ends_plus_ne_nil (h : p c = true) : ends (plus p) (before, c :: cs) ≠ [] := by
  simp only [plus, ends_seq, ends_one_cons, ends_many, if_pos h, List.flatMap_cons, List.flatMap_nil, List.append_nil]
  exact manyEnds_ne_nil

/-- What follows a pattern that repeats a class always matches, if the pattern does. -/
theorem ends_seq_many_ne_nil {q : α → Bool} (h : ends r x ≠ []) : ends (.seq r (.many q)) x ≠ [] := by
  obtain ⟨y, ys, hy⟩ := List.exists_cons_of_ne_nil h
  rw [ends_seq, hy, List.flatMap_cons]
  exact List.append_ne_nil_of_left_ne_nil manyEnds_ne_nil _

/-- **Nothing is lost**: the matches of a pattern that matches some text wherever there is one
are the whole text. -/
theorem findall_flatten (h : ∀ before c cs, ∃ y, (ends r (before, c :: cs)).head? = some y ∧ y.2.length ≤ cs.length) :
    (findall r s).flatten = s := by
  suffices ∀ skip before, (findFrom r skip before s).flatten = s.drop skip from this 0 none
  induction s with
  | nil => simp [findFrom]
  | cons c cs ih =>
    intro skip before
    cases skip with
    | succ skip => exact ih skip (some c)
    | zero =>
      obtain ⟨⟨b, rest⟩, hhead, hlen⟩ := h before c cs
      have hlen : rest.length ≤ cs.length := hlen
      simp only [findFrom, hhead, if_pos hlen, List.flatten_cons, ih]
      rw [show cs.length + 1 - rest.length = cs.length - rest.length + 1 by omega, List.take_succ_cons, List.cons_append,
        List.take_append_drop, List.drop_zero]

/-! ### What the matcher finds -/

/-- The characters, one after the other. -/
def literal [DecidableEq α] (w : List α) : Regex α := w.foldr (fun c r => .seq (.one (· = c)) r) (.look fun _ _ => true)

/-- A repetition matches any number of characters of its class. -/
theorem mem_ends_many : y ∈ ends (.many p) x ↔ ∃ w, (∀ c ∈ w, p c = true) ∧ x.2 = w ++ y.2 ∧ y.1 = w.getLast?.or x.1 := by
  obtain ⟨before, s⟩ := x
  rw [ends_many]
  dsimp only
  induction s generalizing before with
  | nil =>
    rw [manyEnds_nil, List.mem_singleton]
    constructor
    · rintro rfl
      exact ⟨[], by simp, rfl, rfl⟩
    · rintro ⟨w, -, hw, hy⟩
      obtain ⟨rfl, hnil⟩ := List.append_eq_nil_iff.mp hw.symm
      exact Prod.ext hy hnil
  | cons c cs ih =>
    have hend : y = (before, c :: cs) ↔ ([] : List α) ++ y.2 = c :: cs ∧ y.1 = before := by
      rw [Prod.ext_iff]
      exact and_comm
    rw [manyEnds_cons]
    split_ifs with hc
    · rw [List.mem_append, List.mem_singleton, ih, hend]
      constructor
      · rintro (⟨w, hw, hcs, hy⟩ | ⟨hcs, hy⟩)
        · refine ⟨c :: w, List.forall_mem_cons.mpr ⟨hc, hw⟩, congrArg (c :: ·) hcs, ?_⟩
          rw [hy, List.getLast?_cons]
          cases w.getLast? <;> rfl
        · exact ⟨[], by simp, hcs.symm, hy⟩
      · rintro ⟨w, hw, hcs, hy⟩
        cases w with
        | nil => exact .inr ⟨hcs.symm, hy⟩
        | cons d w =>
          obtain ⟨rfl, hrest⟩ := List.cons.inj hcs
          refine .inl ⟨w, (List.forall_mem_cons.mp hw).2, hrest, ?_⟩
          rw [hy, List.getLast?_cons]
          cases w.getLast? <;> rfl
    · rw [List.mem_singleton, hend]
      constructor
      · rintro ⟨hcs, hy⟩
        exact ⟨[], by simp, hcs.symm, hy⟩
      · rintro ⟨w, hw, hcs, hy⟩
        cases w with
        | nil => exact ⟨hcs.symm, hy⟩
        | cons d w =>
          obtain ⟨rfl, -⟩ := List.cons.inj hcs
          exact absurd (hw c List.mem_cons_self) hc

theorem mem_ends_seq : y ∈ ends (.seq r t) x ↔ ∃ z ∈ ends r x, y ∈ ends t z := List.mem_flatMap

theorem mem_ends_look {q : Option α → Option α → Bool} : y ∈ ends (.look q) x ↔ q x.1 x.2.head? = true ∧ y = x := by
  rw [ends_look]
  split_ifs with h
  · rw [List.mem_singleton]
    exact ⟨fun heq => ⟨h, heq⟩, fun heq => heq.2⟩
  · simp [h]

theorem mem_ends_literal [DecidableEq α] {w : List α} :
    y ∈ ends (literal w) x ↔ x.2 = w ++ y.2 ∧ y.1 = w.getLast?.or x.1 := by
  induction w generalizing x with
  | nil =>
    rw [literal, List.foldr_nil, mem_ends_look, Prod.ext_iff]
    exact ⟨fun h => ⟨h.2.2.symm, h.2.1⟩, fun h => ⟨rfl, h.2, h.1.symm⟩⟩
  | cons c w ih =>
    have hlast : ∀ z : Option α, ((c :: w).getLast?).or z = w.getLast?.or (some c) := by
      intro z
      rw [List.getLast?_cons]
      cases w.getLast? <;> rfl
    have hcons : literal (c :: w) = .seq (.one (· = c)) (literal w) := rfl
    obtain ⟨before, _ | ⟨d, cs⟩⟩ := x
    · rw [hcons, mem_ends_seq]
      simp [ends_one_nil]
    · rw [hcons, mem_ends_seq, hlast]
      by_cases hd : d = c
      · subst hd
        simp only [ends_one_cons, decide_true, if_true, List.mem_singleton, exists_eq_left, ih, List.cons_append, List.cons.injEq,
          true_and]
      · simp [ends_one_cons, hd]

theorem exists_ends_seq {P : Option α × List α → Prop} :
    (∃ y ∈ ends (.seq r t) x, P y) ↔ ∃ z ∈ ends r x, ∃ y ∈ ends t z, P y := by
  simp only [mem_ends_seq]
  exact ⟨fun ⟨y, ⟨z, hz, hy⟩, hP⟩ => ⟨z, hz, y, hy, hP⟩, fun ⟨z, hz, y, hy, hP⟩ => ⟨y, ⟨z, hz, hy⟩, hP⟩⟩

theorem exists_ends_alt {P : Option α × List α → Prop} :
    (∃ y ∈ ends (.alt r t) x, P y) ↔ (∃ y ∈ ends r x, P y) ∨ ∃ y ∈ ends t x, P y := by
  rw [ends_alt]
  simp only [List.mem_append, or_and_right, exists_or]

theorem exists_ends_one {P : Option α × List α → Prop} :
    (∃ y ∈ ends (.one p) x, P y) ↔ ∃ c rest, x.2 = c :: rest ∧ p c = true ∧ P (some c, rest) := by
  obtain ⟨before, _ | ⟨c, cs⟩⟩ := x
  · simp [ends_one_nil]
  · by_cases hc : p c = true
    · simp [ends_one_cons, hc]
    · simp [ends_one_cons, hc]

theorem exists_ends_look {q : Option α → Option α → Bool} {P : Option α × List α → Prop} :
    (∃ y ∈ ends (.look q) x, P y) ↔ q x.1 x.2.head? = true ∧ P x := by
  simp only [mem_ends_look]
  exact ⟨fun ⟨_, ⟨hq, hy⟩, hP⟩ => ⟨hq, hy ▸ hP⟩, fun ⟨hq, hP⟩ => ⟨x, ⟨hq, rfl⟩, hP⟩⟩

theorem exists_ends_many {P : Option α × List α → Prop} :
    (∃ y ∈ ends (.many p) x, P y) ↔
      ∃ w rest, x.2 = w ++ rest ∧ (∀ c ∈ w, p c = true) ∧ P (w.getLast?.or x.1, rest) := by
  simp only [mem_ends_many]
  constructor
  · rintro ⟨⟨_, rest⟩, ⟨w, hw, hx, rfl⟩, hP⟩
    exact ⟨w, rest, hx, hw, hP⟩
  · rintro ⟨w, rest, hx, hw, hP⟩
    exact ⟨(_, rest), ⟨w, hw, hx, rfl⟩, hP⟩

theorem exists_ends_literal [DecidableEq α] {w : List α} {P : Option α × List α → Prop} :
    (∃ y ∈ ends (literal w) x, P y) ↔ ∃ rest, x.2 = w ++ rest ∧ P (w.getLast?.or x.1, rest) := by
  simp only [mem_ends_literal]
  constructor
  · rintro ⟨⟨_, rest⟩, ⟨hx, rfl⟩, hP⟩
    exact ⟨rest, hx, hP⟩
  · rintro ⟨rest, hx, hP⟩
    exact ⟨(_, rest), ⟨hx, rfl⟩, hP⟩

/-- A search goes over all places. -/
theorem search_iff : search r s = true ↔ ∃ pre rest, s = pre ++ rest ∧ ∃ y ∈ ends r (pre.getLast?, rest), True := by
  have hmatches : ∀ x : Option α × List α, matchesAt r x = true ↔ ∃ y ∈ ends r x, True := by
    intro x
    simp only [matchesAt, Bool.not_eq_true', List.isEmpty_eq_false_iff_exists_mem, and_true]
  suffices ∀ before, searchFrom r before s = true ↔
      ∃ pre rest, s = pre ++ rest ∧ ∃ y ∈ ends r (pre.getLast?.or before, rest), True by
    rw [search, this]
    simp
  induction s with
  | nil =>
    intro before
    rw [searchFrom, hmatches]
    constructor
    · exact fun h => ⟨[], [], rfl, h⟩
    · rintro ⟨pre, rest, hs, h⟩
      obtain ⟨rfl, rfl⟩ := List.append_eq_nil_iff.mp hs.symm
      exact h
  | cons c cs ih =>
    intro before
    have hlast : ∀ (pre : List α), ((c :: pre).getLast?).or before = pre.getLast?.or (some c) := by
      intro pre
      rw [List.getLast?_cons]
      cases pre.getLast? <;> rfl
    rw [searchFrom, Bool.or_eq_true, hmatches, ih]
    constructor
    · rintro (h | ⟨pre, rest, hs, h⟩)
      · exact ⟨[], c :: cs, rfl, h⟩
      · exact ⟨c :: pre, rest, congrArg (c :: ·) hs, by rw [hlast]; exact h⟩
    · rintro ⟨pre, rest, hs, h⟩
      cases pre with
      | nil =>
        obtain rfl : c :: cs = rest := hs
        exact .inl h
      | cons d pre =>
        obtain ⟨rfl, hcs⟩ := List.cons.inj hs
        rw [hlast] at h
        exact .inr ⟨pre, rest, hcs, h⟩

/-! ### What is found, and what comes first -/

/-- A text of one character for each of a pattern, as `re.IGNORECASE` compares them. -/
def word {κ : Type*} (same : κ → α → Bool) (pat : List κ) : Regex α :=
  pat.foldr (fun k r => .seq (.one (same k)) r) (.look fun _ _ => true)

/-- `[...]?`. -/
def optional (p : α → Bool) : Regex α := .alt (.one p) (.look fun _ _ => true)

/-- The texts that a pattern without assertions matches are those of `L`, wherever it is tried. -/
def Reads (r : Regex α) (L : List α → Prop) : Prop := ∀ x rest, (∃ b, (b, rest) ∈ ends r x) ↔ ∃ w, L w ∧ x.2 = w ++ rest

section

variable {L M : List α → Prop}

theorem Reads.of_iff (h : Reads r L) (hLM : ∀ w, M w ↔ L w) : Reads r M := by
  intro x rest
  simp only [hLM]
  exact h x rest

theorem Reads.exists_of_mem (h : Reads r L) (hy : y ∈ ends r x) : ∃ w, L w ∧ x.2 = w ++ y.2 := (h x y.2).mp ⟨y.1, hy⟩

theorem reads_empty : Reads (.look fun _ _ => true : Regex α) (· = []) := by
  intro x rest
  simp only [mem_ends_look, true_and, Prod.ext_iff, exists_eq_left, List.nil_append]
  exact eq_comm

theorem reads_one : Reads (.one p) fun w => ∃ c, p c = true ∧ w = [c] := by
  rintro ⟨before, _ | ⟨c, cs⟩⟩ rest
  · simp [ends_one_nil]
  · rw [ends_one_cons]
    constructor
    · rintro ⟨b, h⟩
      split_ifs at h with hc
      · obtain ⟨-, rfl⟩ := Prod.mk.inj (List.mem_singleton.mp h)
        exact ⟨[c], ⟨c, hc, rfl⟩, rfl⟩
      · cases h
    · rintro ⟨_, ⟨d, hd, rfl⟩, hcs⟩
      obtain ⟨rfl, rfl⟩ := List.cons.inj hcs
      exact ⟨some c, by rw [if_pos hd]; exact List.mem_singleton_self _⟩

theorem reads_many : Reads (.many p) fun w => ∀ c ∈ w, p c = true := by
  intro x rest
  simp only [mem_ends_many]
  exact ⟨fun ⟨_, w, hw, hx, _⟩ => ⟨w, hw, hx⟩, fun ⟨w, hw, hx⟩ => ⟨_, w, hw, hx, rfl⟩⟩

theorem reads_seq (hr : Reads r L) (ht : Reads t M) : Reads (.seq r t) fun w => ∃ u v, L u ∧ M v ∧ w = u ++ v := by
  intro x rest
  simp only [mem_ends_seq]
  constructor
  · rintro ⟨b, ⟨b', s⟩, hz, hy⟩
    obtain ⟨u, hu, hx⟩ := hr.exists_of_mem hz
    obtain ⟨v, hv, rfl⟩ := (ht (b', s) rest).mp ⟨b, hy⟩
    exact ⟨u ++ v, ⟨u, v, hu, hv, rfl⟩, by rw [hx, List.append_assoc]⟩
  · rintro ⟨_, ⟨u, v, hu, hv, rfl⟩, hx⟩
    obtain ⟨b', hz⟩ := (hr x (v ++ rest)).mpr ⟨u, hu, by rw [hx, List.append_assoc]⟩
    obtain ⟨b, hy⟩ := (ht (b', v ++ rest) rest).mpr ⟨v, hv, rfl⟩
    exact ⟨b, _, hz, hy⟩

theorem reads_alt (hr : Reads r L) (ht : Reads t M) : Reads (.alt r t) fun w => L w ∨ M w := by
  intro x rest
  simp only [ends_alt, List.mem_append, exists_or, hr x rest, ht x rest, or_and_right]

theorem reads_optional : Reads (optional p) fun w => (∃ c, p c = true ∧ w = [c]) ∨ w = [] := reads_alt reads_one reads_empty

theorem reads_plus : Reads (plus p) fun w => ∃ c cs, p c = true ∧ (∀ d ∈ cs, p d = true) ∧ w = c :: cs := by
  refine (reads_seq reads_one reads_many).of_iff fun w => ?_
  constructor
  · rintro ⟨c, cs, hc, hcs, rfl⟩
    exact ⟨[c], cs, ⟨c, hc, rfl⟩, hcs, rfl⟩
  · rintro ⟨_, cs, ⟨c, hc, rfl⟩, hcs, rfl⟩
    exact ⟨c, cs, hc, hcs, rfl⟩

theorem reads_word {κ : Type*} {same : κ → α → Bool} {pat : List κ} :
    Reads (word same pat) (List.Forall₂ (fun k c => same k c = true) pat) := by
  induction pat with
  | nil => exact reads_empty.of_iff fun w => List.forall₂_nil_left_iff
  | cons k pat ih =>
    refine (reads_seq reads_one ih).of_iff fun w => ?_
    constructor
    · rintro (_ | ⟨hc, hw⟩)
      exact ⟨[_], _, ⟨_, hc, rfl⟩, hw, rfl⟩
    · rintro ⟨_, w, ⟨c, hc, rfl⟩, hw, rfl⟩
      exact .cons hc hw

end

/-- A repetition takes nothing where the next character is not of its class. -/
theorem dropWhile_of_head? (h : ∀ c ∈ s.head?, p c = false) : s.dropWhile p = s := by
  cases s with
  | nil => rfl
  | cons c cs => exact List.dropWhile_cons_of_neg (by simp [h c rfl])

/-- A greedy repetition first takes all that it can. -/
theorem head?_manyEnds (p : α → Bool) (before : Option α) (s : List α) :
    ∃ b, (manyEnds p before s).head? = some (b, s.dropWhile p) := by
  induction s generalizing before with
  | nil => exact ⟨before, rfl⟩
  | cons c cs ih =>
    rw [manyEnds_cons]
    split_ifs with hc
    · obtain ⟨b, hb⟩ := ih (some c)
      exact ⟨b, by rw [List.head?_append, hb, List.dropWhile_cons_of_pos hc]; rfl⟩
    · exact ⟨before, by rw [List.dropWhile_cons_of_neg hc]; rfl⟩

/-- The first match of a pattern that ends in a repetition goes as far as the class does. -/
theorem eq_of_head?_ends_seq_plus (h : (ends (.seq r (plus p)) x).head? = some y) :
    ∃ z ∈ ends r x, ∃ c cs, z.2 = c :: cs ∧ p c = true ∧ y.2 = cs.dropWhile p := by
  rw [ends_seq, List.head?_flatMap] at h
  obtain ⟨z, hz, hy⟩ := List.exists_of_findSome?_eq_some h
  obtain ⟨b, _ | ⟨c, cs⟩⟩ := z
  · simp [plus, ends_seq, ends_one_nil] at hy
  · rw [plus, ends_seq, ends_one_cons] at hy
    split_ifs at hy with hc
    · obtain ⟨b', hb'⟩ := head?_manyEnds p (some c) cs
      rw [List.flatMap_cons, List.flatMap_nil, List.append_nil, ends_many, hb'] at hy
      exact ⟨_, hz, c, cs, rfl, hc, by rw [← Option.some.inj hy]⟩
    · simp at hy

/-- What is found stands in the text, and is the first match at its place. -/
theorem exists_of_mem_findall {m : List α} (h : m ∈ findall r s) :
    ∃ pre rest b, s = pre ++ (m ++ rest) ∧ (ends r (pre.getLast?, m ++ rest)).head? = some (b, rest) := by
  suffices ∀ skip before, m ∈ findFrom r skip before s → ∃ pre rest b, s = pre ++ (m ++ rest) ∧
      (ends r (pre.getLast?.or before, m ++ rest)).head? = some (b, rest) by
    obtain ⟨pre, rest, b, hs, hhead⟩ := this 0 none h
    exact ⟨pre, rest, b, hs, by rwa [Option.or_none] at hhead⟩
  clear h
  induction s with
  | nil =>
    intro skip before h
    simp [findFrom] at h
  | cons c cs ih =>
    intro skip before h
    -- what is found from the next place on
    have hlater : ∀ skip, m ∈ findFrom r skip (some c) cs → ∃ pre rest b, c :: cs = pre ++ (m ++ rest) ∧
        (ends r (pre.getLast?.or before, m ++ rest)).head? = some (b, rest) := by
      intro skip h
      obtain ⟨pre, rest, b, rfl, hhead⟩ := ih skip (some c) h
      refine ⟨c :: pre, rest, b, rfl, ?_⟩
      rw [List.getLast?_cons]
      cases hlast : pre.getLast? <;> rw [hlast] at hhead <;> exact hhead
    cases skip with
    | succ skip => exact hlater skip h
    | zero =>
      cases hhead : (ends r (before, c :: cs)).head? with
      | none =>
        rw [findFrom, hhead] at h
        exact hlater 0 h
      | some y =>
        obtain ⟨b, rest⟩ := y
        rw [findFrom, hhead] at h
        dsimp only at h
        split_ifs at h with hlen
        · rcases List.mem_cons.mp h with rfl | h
          · obtain ⟨w, hw⟩ : rest <:+ c :: cs := suffix_of_mem_ends (List.mem_of_head? hhead)
            have hlength : cs.length + 1 - rest.length = w.length := by
              have hadd := congrArg List.length hw
              rw [List.length_append, List.length_cons] at hadd
              omega
            rw [hlength, ← hw, List.take_left]
            exact ⟨[], rest, b, rfl, by rw [hw]; exact hhead⟩
          · exact hlater _ h
        · exact hlater 0 h

/-- **What is found**: the first match at a place is found, if no match from an earlier place runs into it. -/
theorem mem_findall {pre m rest : List α} (hm : m ≠ []) {b : Option α}
    (hhead : (ends r (pre.getLast?, m ++ rest)).head? = some (b, rest))
    (hclear : ∀ pre₁ pre₂, pre = pre₁ ++ pre₂ → pre₂ ≠ [] → ∀ y ∈ ends r (pre₁.getLast?, pre₂ ++ (m ++ rest)),
      (m ++ rest).length ≤ y.2.length) : m ∈ findall r (pre ++ (m ++ rest)) := by
  suffices ∀ skip before, skip ≤ pre.length →
      (ends r (pre.getLast?.or before, m ++ rest)).head? = some (b, rest) →
      (∀ pre₁ pre₂, pre = pre₁ ++ pre₂ → pre₂ ≠ [] → ∀ y ∈ ends r (pre₁.getLast?.or before, pre₂ ++ (m ++ rest)),
        (m ++ rest).length ≤ y.2.length) → m ∈ findFrom r skip before (pre ++ (m ++ rest)) from
    this 0 none (Nat.zero_le _) (by rwa [Option.or_none]) (by simpa only [Option.or_none] using hclear)
  clear hhead hclear
  induction pre with
  | nil =>
    intro skip before hskip hhead _
    obtain rfl := Nat.le_zero.mp hskip
    obtain ⟨c, w, rfl⟩ := List.exists_cons_of_ne_nil hm
    rw [List.nil_append, List.cons_append] at *
    have hlen : rest.length ≤ (w ++ rest).length := by simp
    rw [findFrom, show (ends r (before, c :: (w ++ rest))).head? = some (b, rest) from hhead]
    dsimp only
    rw [if_pos hlen, show (w ++ rest).length + 1 - rest.length = (c :: w).length by simp; omega, ← List.cons_append,
      List.take_left]
    exact List.mem_cons_self
  | cons c pre ih =>
    intro skip before hskip hhead hclear
    have hlast : ∀ pre₁ : List α, ((c :: pre₁).getLast?).or before = pre₁.getLast?.or (some c) := by
      intro pre₁
      rw [List.getLast?_cons]
      cases pre₁.getLast? <;> rfl
    have hnext : ∀ skip ≤ pre.length, m ∈ findFrom r skip (some c) (pre ++ (m ++ rest)) := by
      intro skip hskip
      refine ih skip (some c) hskip (by rwa [hlast] at hhead) fun pre₁ pre₂ hpre hne => ?_
      rw [← hlast]
      exact hclear (c :: pre₁) pre₂ (congrArg (c :: ·) hpre) hne
    cases skip with
    | succ skip => exact hnext skip (Nat.le_of_succ_le_succ hskip)
    | zero =>
      rw [List.cons_append, findFrom]
      cases hfirst : (ends r (before, c :: (pre ++ (m ++ rest)))).head? with
      | none => exact hnext 0 (Nat.zero_le _)
      | some y =>
        have hroom := hclear [] (c :: pre) rfl (List.cons_ne_nil _ _) y (List.mem_of_head? hfirst)
        dsimp only
        split_ifs
        · refine List.mem_cons_of_mem _ (hnext _ ?_)
          rw [List.length_append]
          omega
        · exact hnext 0 (Nat.zero_le _)

end Regex

end Persona.Lib
