import Persona.Lib.Lines

/-!
# Headings of Markdown

Which lines of a Markdown document are ATX headings, as far as paragraphs, lists and fenced blocks decide it.
A line is read with what is open before it (`State`): the list items that it may belong to, and the
paragraph or the fenced block that it may go on with. The first line that is not indented as much as an item
asks ends the item, and the block in it, unless it goes on with a paragraph.

Block quotes, HTML blocks and headings that are underlined are not read: they are text.
-/

namespace Persona.Lib.Markdown

/-! ### Lines -/

/-- The lines that come to their end in a text; `line` is the line so far, last character first. -/
def endedLines (ends : Char → Bool) (line : List Char) : List Char → List (List Char)
  | [] => []
  | '\r' :: '\n' :: cs => line.reverse :: endedLines ends [] cs
  | c :: cs => if ends c then line.reverse :: endedLines ends [] cs else endedLines ends (c :: line) cs

section

variable {ends ends' : Char → Bool} {acc xs : List Char} {c : Char}

theorem endedLines_crlf (acc xs : List Char) :
    endedLines ends acc ('\r' :: '\n' :: xs) = acc.reverse :: endedLines ends [] xs := rfl

theorem endedLines_end (hc : ends c = true) (hcrlf : ¬ (c = '\r' ∧ xs.head? = some '\n')) :
    endedLines ends acc (c :: xs) = acc.reverse :: endedLines ends [] xs := by
  rw [endedLines]
  · rw [if_pos hc]
  · rintro ys rfl rfl
    exact hcrlf ⟨rfl, rfl⟩

theorem endedLines_cons (hc : ends c = false) (hreturn : ends '\r' = true) :
    endedLines ends acc (c :: xs) = endedLines ends (c :: acc) xs := by
  rw [endedLines]
  · rw [hc, if_neg (by simp)]
  · rintro ys rfl rfl
    rw [hreturn] at hc
    cases hc

/-- Only the characters of the text count. -/
theorem endedLines_congr (h : ∀ c ∈ xs, ends c = ends' c) (acc : List Char) : endedLines ends acc xs = endedLines ends' acc xs := by
  induction acc, xs using endedLines.induct ends with
  | case1 acc => rfl
  | case2 acc xs ih =>
    rw [endedLines_crlf, endedLines_crlf, ih fun c hc => h c (List.mem_cons_of_mem _ (List.mem_cons_of_mem _ hc))]
  | case3 acc c xs hcrlf hc ih =>
    have hc' : ends' c = true := by rw [← h c List.mem_cons_self, hc]
    have hnot : ¬ (c = '\r' ∧ xs.head? = some '\n') := by
      rintro ⟨rfl, hhead⟩
      exact hcrlf xs.tail rfl (List.eq_cons_of_mem_head? hhead)
    rw [endedLines_end hc hnot, endedLines_end hc' hnot, ih fun d hd => h d (List.mem_cons_of_mem _ hd)]
  | case4 acc c xs hcrlf hc ih =>
    have hc' : ¬ ends' c = true := by rwa [← h c List.mem_cons_self]
    rw [endedLines, endedLines, if_neg hc, if_neg hc', ih fun d hd => h d (List.mem_cons_of_mem _ hd)]
    · exact hcrlf
    · exact hcrlf

/-- A line that is begun goes on. -/
theorem exists_splitlinesL (hacc : acc ≠ []) (xs : List Char) :
    ∃ l rest, PyText.splitlinesL acc xs = (acc.reverse ++ l) :: rest := by
  induction acc, xs using PyText.splitlinesL_induction with
  | nil acc => exact ⟨[], [], by rw [PyText.splitlinesL_nil hacc, List.append_nil]⟩
  | crlf acc xs ih => exact ⟨[], _, by rw [PyText.splitlinesL_crlf, List.append_nil]⟩
  | ending acc c xs hc hcrlf ih => exact ⟨[], _, by rw [PyText.splitlinesL_cons_break hc hcrlf, List.append_nil]⟩
  | cons acc c xs hc ih =>
    obtain ⟨l, rest, hrest⟩ := ih (List.cons_ne_nil _ _)
    exact ⟨c :: l, rest, by rw [PyText.splitlinesL_cons hc, hrest]; simp⟩

/-- **The line that a character stands in** comes after those that have come to their end before it. -/
theorem splitlinesL_append_cons (hc : PyText.isLineBreak c = false) (acc front back : List Char) :
    ∃ l l' rest, PyText.splitlinesL acc (front ++ c :: back) =
      endedLines PyText.isLineBreak acc front ++ (l ++ c :: l') :: rest := by
  induction acc, front using PyText.splitlinesL_induction with
  | nil acc =>
    obtain ⟨l', rest, hrest⟩ := exists_splitlinesL (List.cons_ne_nil c acc) back
    exact ⟨acc.reverse, l', rest, by rw [List.nil_append, PyText.splitlinesL_cons hc, hrest]; simp [endedLines]⟩
  | crlf acc xs ih =>
    obtain ⟨l, l', rest, hrest⟩ := ih
    exact ⟨l, l', rest, by rw [List.cons_append, List.cons_append, PyText.splitlinesL_crlf, hrest, endedLines_crlf]; rfl⟩
  | ending acc d xs hd hcrlf ih =>
    obtain ⟨l, l', rest, hrest⟩ := ih
    have hnot : ¬ (d = '\r' ∧ (xs ++ c :: back).head? = some '\n') := by
      rintro ⟨rfl, hhead⟩
      cases xs with
      | nil =>
        obtain rfl : c = '\n' := by simpa using hhead
        cases hc
      | cons e xs => exact hcrlf ⟨rfl, hhead⟩
    exact ⟨l, l', rest, by rw [List.cons_append, PyText.splitlinesL_cons_break hd hnot, hrest, endedLines_end hd hcrlf]; rfl⟩
  | cons acc d xs hd ih =>
    obtain ⟨l, l', rest, hrest⟩ := ih
    exact ⟨l, l', rest, by rw [List.cons_append, PyText.splitlinesL_cons hd, hrest, endedLines_cons hd rfl]⟩

end

/-- A character that ends a line of Markdown. -/
def isLineEnd (c : Char) : Bool := c = '\n' || c = '\r'

/-- A blank of a line. -/
def isBlank (c : Char) : Bool := c = ' ' || c = '\t'

/-- A line with its indentation written out: a tab goes to the next column that four divides. -/
def detab (col : ℕ) : List Char → List Char
  | ' ' :: cs => ' ' :: detab (col + 1) cs
  | '\t' :: cs => List.replicate (4 - col % 4) ' ' ++ detab (col + (4 - col % 4)) cs
  | cs => cs

/-- The indentation. -/
def indent (cs : List Char) : ℕ := (cs.takeWhile (· = ' ')).length

/-- A text without the blanks at its ends. -/
def trim (cs : List Char) : List Char := ((cs.dropWhile isBlank).reverse.dropWhile isBlank).reverse

/-! ### What a line begins -/

/-- The title, of what follows the signs of a heading: signs that stand apart at its end are none of it. -/
def titleOf (cs : List Char) : List Char :=
  let body := ((trim cs).reverse.dropWhile (· = '#')).reverse
  if body.getLast?.all isBlank then trim body else trim cs

/-- An ATX heading: one to six signs, and nothing or a blank after them. -/
def headingOf (cs : List Char) : Option (ℕ × List Char) :=
  let level := (cs.takeWhile (· = '#')).length
  let rest := cs.dropWhile (· = '#')
  if 1 ≤ level ∧ level ≤ 6 ∧ rest.head?.all isBlank then some (level, titleOf rest) else none

/-- The character of a fence, and its length. There is no backtick after a fence of backticks. -/
def fenceOf : List Char → Option (Char × ℕ)
  | [] => none
  | c :: cs =>
    let length := ((c :: cs).takeWhile (· = c)).length
    if 3 ≤ length ∧ (c = '~' ∨ c = '\x60' ∧ '\x60' ∉ (c :: cs).dropWhile (· = c)) then some (c, length) else none

/-- The line closes a fenced block: a fence that is as long at least, and nothing after it. -/
def closes (c : Char) (length : ℕ) (cs : List Char) : Bool :=
  indent cs ≤ 3 && length ≤ ((cs.drop (indent cs)).takeWhile (· = c)).length &&
    ((cs.drop (indent cs)).dropWhile (· = c)).all isBlank

/-- A line that parts what is before it from what is after: three signs of a kind. -/
def isRule : List Char → Bool
  | [] => false
  | c :: cs => (c = '*' || c = '-' || c = '_') && (c :: cs).all (fun d => d = c || isBlank d) && 3 ≤ (c :: cs).count c

/-- The width of the marker of a list item, a sign or a number. An item that would come in the middle of a
paragraph has text on the line, and the number one. -/
def markerOf (inParagraph : Bool) (cs : List Char) : Option ℕ :=
  let digits := cs.takeWhile Char.isDigit
  let rest := cs.dropWhile Char.isDigit
  match digits, rest with
  | [], c :: after =>
    if (c = '-' ∨ c = '+' ∨ c = '*') ∧ after.head?.all isBlank ∧ (inParagraph → after.any fun d => !isBlank d) then some 1 else none
  | digits, c :: after =>
    if (c = '.' ∨ c = ')') ∧ digits.length ≤ 9 ∧ after.head?.all isBlank ∧
        (inParagraph → (after.any fun d => !isBlank d) ∧ digits.dropWhile (· = '0') = ['1']) then some (digits.length + 1)
    else none
  | _, [] => none

/-- What the rest of a line is. -/
inductive Block where
  | heading (level : ℕ) (title : List Char)
  | fence (c : Char) (length : ℕ)
  | rule
  | nothing
  /-- Indented by four columns at least. -/
  | indented
  | text
  deriving DecidableEq

/-- The list items that begin on a line, with the columns that their text is indented by, and what follows;
`fuel` of them at most. -/
def startsFrom (inParagraph : Bool) : ℕ → ℕ → List Char → List ℕ × Block
  | 0, _, _ => ([], .text)
  | fuel + 1, col, cs =>
    let rest := cs.drop (indent cs)
    if rest = [] then ([], .nothing)
    else if 4 ≤ indent cs then ([], .indented)
    else
      match headingOf rest, fenceOf rest, isRule rest, markerOf inParagraph rest with
      | some (level, title), _, _, _ => ([], .heading level title)
      | none, some (c, length), _, _ => ([], .fence c length)
      | none, none, true, _ => ([], .rule)
      | none, none, false, some width =>
        let after := detab (col + indent cs + width) (rest.drop width)
        let gap := if after.drop (indent after) = [] ∨ 5 ≤ indent after then 1 else indent after
        let (items, block) := startsFrom false fuel (col + indent cs + width + gap) (after.drop gap)
        ((indent cs + width + gap) :: items, block)
      | none, none, false, none => ([], .text)

/-! ### What is open -/

/-- What a line may go on with. -/
inductive Leaf where
  | none
  | paragraph
  | fence (c : Char) (length : ℕ)
  deriving DecidableEq

/-- What is open after a line. -/
structure State where
  /-- The list items, outermost first, with the columns that their text is indented by. -/
  items : List ℕ
  leaf : Leaf
  /-- There is nothing in the innermost item so far. -/
  fresh : Bool
  deriving DecidableEq

/-- Before the first line. -/
def State.start : State := ⟨[], .none, false⟩

/-- How many of the items a line belongs to, the column that its text begins at, and the text. -/
def enter : List ℕ → ℕ → List Char → ℕ × ℕ × List Char
  | [], col, cs => (0, col, cs)
  | width :: items, col, cs =>
    if width ≤ indent cs then
      let (entered, col, cs) := enter items (col + width) (cs.drop width)
      (entered + 1, col, cs)
    else (0, col, cs)

/-- What is open after a block. -/
def Block.leaf : Block → Leaf
  | .text => .paragraph
  | .fence c length => .fence c length
  | _ => .none

/-- The heading. -/
def Block.heading? : Block → Option (ℕ × String)
  | .heading level title => some (level, String.ofList title)
  | _ => none

/-- A line goes on with what is open, or begins something: what is open after it, and its heading. -/
def step (s : State) (line : List Char) : State × Option (ℕ × String) :=
  let cs := detab 0 line
  if cs.all (· = ' ') then
    match s.leaf with
    | .fence _ _ => (s, none)
    | _ => (⟨if s.fresh then s.items.dropLast else s.items, .none, false⟩, none)
  else
    let (entered, col, rest) := enter s.items 0 cs
    match s.leaf, decide (entered = s.items.length) with
    | .fence c length, true => (if closes c length rest then { s with leaf := .none } else s, none)
    | leaf, inside =>
      let (items, block) := startsFrom (leaf = .paragraph && inside) (line.length + 1) col rest
      if leaf = .paragraph ∧ items = [] ∧ (block = .text ∨ block = .indented) then (s, none)
      else (⟨s.items.take entered ++ items, block.leaf, items ≠ [] && block = .nothing⟩, block.heading?)

/-- What is open after the lines. -/
def State.after (s : State) (lines : List (List Char)) : State := lines.foldl (fun s line => (step s line).1) s

/-- The headings of the lines. -/
def headingsFrom (s : State) : List (List Char) → List (ℕ × String)
  | [] => []
  | line :: lines => (step s line).2.toList ++ headingsFrom (step s line).1 lines

/-- Lines that each have the heading `f` finds have the headings that `f` finds. -/
theorem headingsFrom_eq_filterMap {f : List Char → Option (ℕ × String)} {s : State} {lines : List (List Char)}
    (h : ∀ pre line post, lines = pre ++ line :: post → (step (s.after pre) line).2 = f line) :
    headingsFrom s lines = lines.filterMap f := by
  induction lines generalizing s with
  | nil => rfl
  | cons line lines ih =>
    have hfirst : (step s line).2 = f line := h [] line lines rfl
    have hrest := ih (s := (step s line).1) fun pre l post hlines => h (line :: pre) l post (by rw [hlines]; rfl)
    rw [headingsFrom, hfirst, hrest]
    cases hf : f line with
    | none => rw [List.filterMap_cons_none hf]; rfl
    | some heading => rw [List.filterMap_cons_some hf]; rfl

/-- The headings of the lines that come to their end in a text. -/
def headings (text : List Char) : List (ℕ × String) := headingsFrom .start (endedLines isLineEnd [] text)

end Persona.Lib.Markdown
