import Mathlib.Data.List.Infix
import Mathlib.Data.List.Basic

/-!
# Any regular expressions

What a program may rely on when it is given a pattern and a replacement to run: a pattern may not compile, a
search finds the first match or none, and a template, once it is read, makes a text of the groups of a match.
An `Engine` is anything of this kind; `sub` puts what the template makes in the place of the first match.
-/

namespace Persona.Lib

/-- The flags of a pattern. -/
structure RegexFlags where
  multiline : Bool
  dotall : Bool
  deriving DecidableEq

universe u

/-- A match: where it is, and the texts of its groups, from the whole match on. -/
structure Found (α : Type u) where
  start : ℕ
  stop : ℕ
  groups : List (Option (List α))

/-- An implementation of regular expressions over the characters `α`. -/
structure Engine (α : Type u) where
  /-- Patterns that were compiled. -/
  Rx : Type u
  /-- `re.compile(pattern, flags)`; `none` when it raises. -/
  compile : List α → RegexFlags → Option Rx
  /-- `rx.search(s)`. -/
  search : Rx → List α → Option (Found α)
  /-- What a replacement makes of the groups of a match; `none` when its template is bad. -/
  template : Rx → List α → Option (List (Option (List α)) → List α)
  /-- A match is in the text. -/
  bounds : ∀ {rx s m}, search rx s = some m → m.start ≤ m.stop ∧ m.stop ≤ s.length

namespace Engine

variable {α : Type u} (E : Engine α)

/-- `rx.search(s)` finds a match. -/
def finds (rx : E.Rx) (s : List α) : Bool := (E.search rx s).isSome

/-- The text with what `expand` makes of the first match in its place. -/
def replaceFirst (rx : E.Rx) (expand : List (Option (List α)) → List α) (s : List α) : List α :=
  match E.search rx s with
  | none => s
  | some m => s.take m.start ++ (expand m.groups ++ s.drop m.stop)

/-- `rx.sub(repl, s, count=1)`; `none` when it raises. -/
def sub (rx : E.Rx) (repl s : List α) : Option (List α) := (E.template rx repl).map fun expand => E.replaceFirst rx expand s

variable {E} {rx : E.Rx} {expand : List (Option (List α)) → List α} {repl s : List α} {m : Found α}

theorem replaceFirst_of_found (h : E.search rx s = some m) :
    E.replaceFirst rx expand s = s.take m.start ++ (expand m.groups ++ s.drop m.stop) := by rw [replaceFirst, h]

/-- A text is what is before a part of it, the part and what is after it. -/
theorem take_between_drop {i j : ℕ} (h : i ≤ j) (s : List α) : s.take i ++ ((s.take j).drop i ++ s.drop j) = s := by
  have htake : s.take i = (s.take j).take i := by rw [List.take_take, min_eq_left h]
  rw [htake, ← List.append_assoc, List.take_append_drop, List.take_append_drop]

/-! ### Patterns without special characters -/

/-- Where a text occurs first in another. -/
def occurrence [DecidableEq α] (w s : List α) : Option ℕ := s.tails.findIdx? fun t => w.isPrefixOf t

theorem occurrence_bounds [DecidableEq α] {w : List α} {i : ℕ} (h : occurrence w s = some i) : i + w.length ≤ s.length := by
  rw [occurrence, List.findIdx?_eq_some_iff_getElem] at h
  obtain ⟨hi, hprefix, -⟩ := h
  rw [List.getElem_tails] at hprefix
  have hlen := (List.isPrefixOf_iff_prefix.mp hprefix).length_le
  rw [List.length_drop] at hlen
  rw [List.length_tails] at hi
  omega

/-- Patterns that stand for themselves, and replacements that do, but for the patterns that are not compiled. -/
def literal [DecidableEq α] (bad : List α → Bool) : Engine α where
  Rx := List α
  compile pattern _ := if bad pattern then none else some pattern
  search w s := (occurrence w s).map fun i => ⟨i, i + w.length, [some w]⟩
  template _ repl := some fun _ => repl
  bounds h := by
    obtain ⟨i, hi, rfl⟩ := Option.map_eq_some_iff.mp h
    exact ⟨Nat.le_add_right _ _, occurrence_bounds hi⟩

end Engine

end Persona.Lib
