import Mathlib.Data.List.Basic

/-!
# Tagged blocks in a text

What `re.sub` and `re.findall` do with the patterns `<tag>.*?</tag>` and `<tag>.*$` under
`re.DOTALL` and `re.IGNORECASE`: from left to right, each opening tag with a closing tag
after it makes a block, which ends at the first such tag; the scan goes on after it. The
characters of the text are of any type, with a relation to those of the pattern.
-/

namespace Persona.Lib.Markup

/-- Whether `re.IGNORECASE` matches a character with one of a pattern in lower case:
beside the ASCII capitals there are four characters that fold to an ASCII letter. -/
def sameLetter (p c : Char) : Bool :=
  c = p || c.toLower = p || (p = 'i' && (c.toNat = 0x130 || c.toNat = 0x131)) || (p = 'k' && c.toNat = 0x212A) ||
    (p = 's' && c.toNat = 0x17F)

/-- A character that matches is the one of the pattern, its capital, or one of the four. -/
theorem sameLetter_cases {p c : Char} (h : sameLetter p c = true) : c = p ∨
    (65 ≤ c.toNat ∧ c.toNat ≤ 90 ∧ p.toNat = c.toNat + 32) ∨
      p ∈ ['i', 'k', 's'] ∧ c.toNat ∈ [0x130, 0x131, 0x212A, 0x17F] := by
  simp only [sameLetter, Bool.or_eq_true, Bool.and_eq_true, decide_eq_true_eq] at h
  rcases h with (((rfl | rfl) | ⟨rfl, h⟩) | ⟨rfl, h⟩) | ⟨rfl, h⟩
  · exact .inl rfl
  · by_cases hupper : 'A'.val ≤ c.val ∧ c.val ≤ 'Z'.val
    · have hlower : c.toLower.toNat = (c.val + 32).toNat := congrArg Char.toNat (dif_pos hupper)
      have hA : 65 ≤ c.toNat := UInt32.le_iff_toNat_le.mp hupper.1
      have hZ : c.toNat ≤ 90 := UInt32.le_iff_toNat_le.mp hupper.2
      rw [UInt32.toNat_add] at hlower
      exact .inr (.inl ⟨hA, hZ, hlower.trans (Nat.mod_eq_of_lt (show c.toNat + 32 < 2 ^ 32 by omega))⟩)
    · have hlower : c.toLower = c := dif_neg hupper
      exact .inl hlower.symm
  · rcases h with h | h <;> simp [h]
  · simp [h]
  · simp [h]

section

variable {α : Type*} (same : Char → α → Bool)

/-- The text begins with the pattern. -/
def litAt : List Char → List α → Bool
  | [], _ => true
  | _ :: _, [] => false
  | p :: ps, c :: cs => same p c && litAt ps cs

/-- Where the pattern first occurs. -/
def indexOf (pat : List Char) : List α → Option ℕ
  | [] => if pat.isEmpty then some 0 else none
  | c :: cs => if litAt same pat (c :: cs) then some 0 else (indexOf pat cs).map (· + 1)

/-- A part of a text: a character outside the blocks, or a block with what is between its tags. -/
inductive Part (α : Type*) where
  | char (c : α)
  | block (body : List α)

/-- The body of the block that the text begins with. -/
def blockAt (opening closing : List Char) (cs : List α) : Option (List α) :=
  if litAt same opening cs then
    (indexOf same closing (cs.drop opening.length)).map fun n => (cs.drop opening.length).take n
  else none

/-- The parts of a text, after `skip` characters that belong to a block already. -/
def parts (opening closing : List Char) : ℕ → List α → List (Part α)
  | _, [] => []
  | skip + 1, _ :: cs => parts opening closing skip cs
  | 0, c :: cs =>
    match blockAt same opening closing (c :: cs) with
    | some body => .block body :: parts opening closing (opening.length + body.length + closing.length - 1) cs
    | none => .char c :: parts opening closing 0 cs

/-- `re.findall("<tag>(.*?)</tag>", s)`. -/
def bodies (opening closing : String) (s : List α) : List (List α) :=
  (parts same opening.toList closing.toList 0 s).filterMap fun
    | .block body => some body
    | .char _ => none

/-- `re.sub("<tag>.*?</tag>", "", s)`. -/
def withoutBlocks (opening closing : String) (s : List α) : List α :=
  (parts same opening.toList closing.toList 0 s).filterMap fun
    | .char c => some c
    | .block _ => none

/-- `re.sub("<tag>.*$", "", s)`. -/
def upTo (opening : String) (s : List α) : List α :=
  match indexOf same opening.toList s with
  | some n => s.take n
  | none => s

/-- What stands outside the blocks, and the block that has no closing tag, from its opening tag on to the
end of the text; after `skip` characters that belong to a block already. -/
def spans (opening closing : List Char) : ℕ → List α → List α × List α
  | _, [] => ([], [])
  | skip + 1, _ :: cs => spans opening closing skip cs
  | 0, c :: cs =>
    if litAt same opening (c :: cs) then
      match indexOf same closing ((c :: cs).drop opening.length) with
      | some n => spans opening closing (opening.length + n + closing.length - 1) cs
      | none => ([], c :: cs)
    else (c :: (spans opening closing 0 cs).1, (spans opening closing 0 cs).2)

/-- The text outside the blocks. -/
def outside (opening closing : String) (s : List α) : List α := (spans same opening.toList closing.toList 0 s).1

/-- The block without a closing tag; empty where there is none. -/
def unclosed (opening closing : String) (s : List α) : List α := (spans same opening.toList closing.toList 0 s).2

/-! ### Where the tags are -/

variable {same} {pat opening closing : List Char} {c : α} {xs ys : List α}

theorem length_le_of_litAt (h : litAt same pat xs = true) : pat.length ≤ xs.length := by
  induction pat generalizing xs with
  | nil => exact Nat.zero_le _
  | cons p pat ih =>
    cases xs with
    | nil => cases h
    | cons x xs =>
      rw [litAt, Bool.and_eq_true] at h
      exact Nat.succ_le_succ (ih h.2)

/-- A pattern that is found before a character that is none of its own is found before it. -/
theorem litAt_of_append (hc : ∀ p ∈ pat, same p c = false) (h : litAt same pat (xs ++ c :: ys) = true) :
    litAt same pat xs = true := by
  induction pat generalizing xs with
  | nil => rfl
  | cons p ps ih =>
    cases xs with
    | nil => simp [litAt, hc p List.mem_cons_self] at h
    | cons x xs =>
      simp only [List.cons_append, litAt, Bool.and_eq_true] at h ⊢
      exact ⟨h.1, ih (fun q hq => hc q (List.mem_cons_of_mem p hq)) h.2⟩

theorem indexOf_cons_none {x : α} :
    indexOf same pat (x :: xs) = none ↔ litAt same pat (x :: xs) = false ∧ indexOf same pat xs = none := by
  rw [indexOf]
  cases litAt same pat (x :: xs) <;> simp

/-- No tag is made by a character that is none of its own. -/
theorem indexOf_append_none (hc : ∀ p ∈ pat, same p c = false) (hxs : indexOf same pat xs = none)
    (hys : indexOf same pat (c :: ys) = none) : indexOf same pat (xs ++ c :: ys) = none := by
  induction xs with
  | nil => exact hys
  | cons x xs ih =>
    obtain ⟨hlit, hnone⟩ := indexOf_cons_none.mp hxs
    refine indexOf_cons_none.mpr ⟨?_, ih hnone⟩
    by_contra h
    rw [Bool.not_eq_false] at h
    have hbefore : litAt same pat (x :: xs) = true := litAt_of_append hc h
    rw [hbefore] at hlit
    cases hlit

theorem indexOf_append_of_head (hc : ∀ c ∈ ys.head?, ∀ p ∈ pat, same p c = false) (hxs : indexOf same pat xs = none)
    (hys : indexOf same pat ys = none) : indexOf same pat (xs ++ ys) = none := by
  cases ys with
  | nil => rwa [List.append_nil]
  | cons c ys => exact indexOf_append_none (hc c rfl) hxs hys

theorem litAt_append (h : litAt same pat xs = true) : litAt same pat (xs ++ ys) = true := by
  induction pat generalizing xs with
  | nil => rfl
  | cons p ps ih =>
    cases xs with
    | nil => cases h
    | cons x xs =>
      simp only [List.cons_append, litAt, Bool.and_eq_true] at h ⊢
      exact ⟨h.1, ih h.2⟩

/-- Where there is no tag, there is none in a part. -/
theorem indexOf_none_of_append (h : indexOf same pat (xs ++ ys) = none) :
    indexOf same pat xs = none ∧ indexOf same pat ys = none := by
  induction xs with
  | nil =>
    refine ⟨?_, h⟩
    cases pat with
    | nil => cases ys <;> simp [indexOf, litAt] at h
    | cons p ps => rfl
  | cons x xs ih =>
    obtain ⟨hlit, hnone⟩ := indexOf_cons_none.mp h
    refine ⟨indexOf_cons_none.mpr ⟨?_, (ih hnone).1⟩, (ih hnone).2⟩
    by_contra hx
    rw [Bool.not_eq_false] at hx
    have hlit : litAt same pat (x :: xs ++ ys) = false := hlit
    rw [litAt_append hx] at hlit
    cases hlit

theorem indexOf_append_of_last (hc : ∀ c ∈ xs.getLast?, ∀ p ∈ pat, same p c = false) (hxs : indexOf same pat xs = none)
    (hys : indexOf same pat ys = none) : indexOf same pat (xs ++ ys) = none := by
  obtain rfl | ⟨zs, c, rfl⟩ := List.eq_nil_or_concat xs
  · exact hys
  · have hforeign := hc c (by simp)
    rw [List.concat_eq_append] at hxs ⊢
    rw [List.append_assoc]
    refine indexOf_append_none hforeign (indexOf_none_of_append hxs).1 (indexOf_cons_none.mpr ⟨?_, hys⟩)
    cases pat with
    | nil => cases ys <;> simp [indexOf, litAt] at hys
    | cons p ps => simp [litAt, hforeign p List.mem_cons_self]

/-- There is no tag in characters that are none of its own. -/
theorem indexOf_of_foreign (hne : pat ≠ []) (h : ∀ c ∈ xs, ∀ p ∈ pat, same p c = false) : indexOf same pat xs = none := by
  obtain ⟨p, ps, rfl⟩ := List.exists_cons_of_ne_nil hne
  induction xs with
  | nil => rfl
  | cons x xs ih =>
    refine indexOf_cons_none.mpr ⟨?_, ih fun c hc => h c (List.mem_cons_of_mem x hc)⟩
    simp [litAt, h x List.mem_cons_self p List.mem_cons_self]

/-- A tag is found where it first stands, if no later character of it begins it. -/
theorem indexOf_append {p : Char} (hc : ∀ q ∈ pat, same q c = false) (hxs : indexOf same (p :: pat) xs = none)
    (hlit : litAt same (p :: pat) (c :: ys) = true) : indexOf same (p :: pat) (xs ++ c :: ys) = some xs.length := by
  induction xs with
  | nil => rw [List.nil_append, indexOf, if_pos hlit, List.length_nil]
  | cons x xs ih =>
    obtain ⟨hx, hnone⟩ := indexOf_cons_none.mp hxs
    have hnot : litAt same (p :: pat) (x :: (xs ++ c :: ys)) = false := by
      by_contra h
      rw [Bool.not_eq_false] at h
      simp only [litAt, Bool.and_eq_true, Bool.and_eq_false_imp] at h hx
      rw [litAt_of_append hc h.2] at hx
      exact absurd (hx h.1) (by decide)
    rw [List.cons_append, indexOf, if_neg (by simp [hnot]), ih hnone]
    rfl

/-- A text without an opening tag has no blocks. -/
theorem parts_of_none (h : indexOf same opening xs = none) : parts same opening closing 0 xs = xs.map .char := by
  induction xs with
  | nil => rfl
  | cons x xs ih =>
    obtain ⟨hlit, hnone⟩ := indexOf_cons_none.mp h
    have hblock : blockAt same opening closing (x :: xs) = none := if_neg (by simp [hlit])
    rw [parts, hblock, ih hnone]
    rfl

theorem parts_skip (n : ℕ) (hn : n ≤ xs.length) : parts same opening closing n xs = parts same opening closing 0 (xs.drop n) := by
  induction xs generalizing n with
  | nil =>
    obtain rfl : n = 0 := by simpa using hn
    rfl
  | cons x xs ih =>
    cases n with
    | zero => rfl
    | succ n => exact ih n (by simpa using hn)

end

theorem litAt_self {same : Char → Char → Bool} {pat : List Char} (h : ∀ p ∈ pat, same p p = true) (s : List Char) :
    litAt same pat (pat ++ s) = true := by
  induction pat with
  | nil => rfl
  | cons p ps ih =>
    rw [List.cons_append, litAt, h p List.mem_cons_self, ih fun q hq => h q (List.mem_cons_of_mem p hq)]
    rfl

/-- A block in front of a text is removed, if the closing tag does not stand in its body. -/
theorem withoutBlocks_block {same : Char → Char → Bool} {opening closing : String} {o c : Char} {os cs body : List Char}
    (hopening : opening.toList = o :: os) (hclosing : closing.toList = c :: cs) (ho : ∀ p ∈ o :: os, same p p = true)
    (hc : ∀ p ∈ c :: cs, same p p = true) (hcs : ∀ p ∈ cs, same p c = false) (hbody : indexOf same (c :: cs) body = none)
    (s : List Char) :
    withoutBlocks same opening closing (o :: os ++ (body ++ (c :: cs ++ s))) = withoutBlocks same opening closing s := by
  have hindex : indexOf same (c :: cs) (body ++ (c :: cs ++ s)) = some body.length :=
    indexOf_append hcs hbody (litAt_self hc s)
  have hblock : blockAt same (o :: os) (c :: cs) (o :: os ++ (body ++ (c :: cs ++ s))) = some body := by
    rw [blockAt, if_pos (litAt_self ho _), List.drop_left, hindex]
    simp
  have hlen : (o :: os).length + body.length + (c :: cs).length - 1 = (os ++ (body ++ (c :: cs))).length := by
    simp only [List.length_cons, List.length_append]
    omega
  have hrest : os ++ (body ++ (c :: cs ++ s)) = os ++ (body ++ (c :: cs)) ++ s := by simp
  rw [withoutBlocks, withoutBlocks, hopening, hclosing, List.cons_append, parts, ← List.cons_append, hblock]
  simp only [List.filterMap_cons]
  rw [hlen, hrest, parts_skip _ (by simp), List.drop_left]

/-- A text without an opening tag is left alone. -/
theorem withoutBlocks_of_none {α : Type*} {same : Char → α → Bool} {opening : String} (closing : String) {s : List α}
    (h : indexOf same opening.toList s = none) : withoutBlocks same opening closing s = s := by
  rw [withoutBlocks, parts_of_none h]
  simp [List.filterMap_map]

theorem upTo_of_none {α : Type*} {same : Char → α → Bool} {opening : String} {s : List α}
    (h : indexOf same opening.toList s = none) : upTo same opening s = s := by
  rw [upTo, h]

/-! ### Blocks that are not closed -/

section

variable {α : Type*} {same : Char → α → Bool} {opening closing : List Char} {xs : List α} {n : ℕ}

theorem le_length_of_indexOf {pat : List Char} (h : indexOf same pat xs = some n) : n ≤ xs.length := by
  induction xs generalizing n with
  | nil =>
    rw [indexOf] at h
    split_ifs at h
    obtain rfl := Option.some.inj h
    exact Nat.le_refl 0
  | cons x xs ih =>
    rw [indexOf] at h
    split_ifs at h
    · obtain rfl := Option.some.inj h
      exact Nat.zero_le _
    · obtain ⟨m, hm, rfl⟩ := Option.map_eq_some_iff.mp h
      exact Nat.succ_le_succ (ih hm)

/-- Without a closing tag after the first characters there are no blocks. -/
theorem parts_of_noClosing (h : indexOf same closing (xs.drop opening.length) = none) :
    parts same opening closing 0 xs = xs.map .char := by
  induction xs with
  | nil => rfl
  | cons x xs ih =>
    have hblock : blockAt same opening closing (x :: xs) = none := by
      rw [blockAt, h]
      split_ifs <;> rfl
    have htail : indexOf same closing (xs.drop opening.length) = none := by
      have hsuffix := List.drop_suffix 1 ((x :: xs).drop opening.length)
      rw [List.drop_drop, List.drop_succ_cons] at hsuffix
      obtain ⟨pre, hpre⟩ := hsuffix
      rw [← hpre] at h
      exact (indexOf_none_of_append h).2
    rw [parts, hblock, ih htail]
    rfl

/-- A text that has no block is all there. -/
theorem parts_of_noBlock (h : ∀ body, .block body ∉ parts same opening closing 0 xs) :
    parts same opening closing 0 xs = xs.map .char := by
  induction xs with
  | nil => rfl
  | cons x xs ih =>
    rw [parts] at h ⊢
    cases hblock : blockAt same opening closing (x :: xs) with
    | some body =>
      rw [hblock] at h
      exact absurd List.mem_cons_self (h body)
    | none =>
      rw [hblock] at h
      exact congrArg (Part.char x :: ·) (ih fun body hmem => h body (List.mem_cons_of_mem _ hmem))

/-- The characters that are not in closed blocks: those outside of all, and the block that is not closed. -/
theorem chars_parts (skip : ℕ) : ((parts same opening closing skip xs).filterMap fun
      | .char c => some c
      | .block _ => none) = (spans same opening closing skip xs).1 ++ (spans same opening closing skip xs).2 := by
  induction xs generalizing skip with
  | nil => rfl
  | cons x xs ih =>
    cases skip with
    | succ skip => exact ih skip
    | zero =>
      rw [spans]
      by_cases hlit : litAt same opening (x :: xs) = true
      · rw [if_pos hlit]
        cases hindex : indexOf same closing ((x :: xs).drop opening.length) with
        | none =>
          rw [parts_of_noClosing hindex]
          simp [List.filterMap_map]
        | some n =>
          have hlen : (((x :: xs).drop opening.length).take n).length = n := by
            rw [List.length_take, Nat.min_eq_left (le_length_of_indexOf hindex)]
          have hblock : blockAt same opening closing (x :: xs) = some (((x :: xs).drop opening.length).take n) := by
            rw [blockAt, if_pos hlit, hindex]
            rfl
          rw [parts, hblock]
          dsimp only
          rw [hlen]
          exact ih _
      · have hblock : blockAt same opening closing (x :: xs) = none := if_neg hlit
        rw [if_neg hlit, parts, hblock]
        exact congrArg (x :: ·) (ih 0)

/-- Where there is no closed block, a block that is not closed is one that is opened. -/
theorem spans_snd_eq_nil_iff (hne : opening ≠ []) (h : ∀ body, .block body ∉ parts same opening closing 0 xs) :
    (spans same opening closing 0 xs).2 = [] ↔ indexOf same opening xs = none := by
  induction xs with
  | nil => simp [spans, indexOf, hne]
  | cons x xs ih =>
    rw [spans, indexOf]
    by_cases hlit : litAt same opening (x :: xs) = true
    · rw [if_pos hlit, if_pos hlit]
      cases hindex : indexOf same closing ((x :: xs).drop opening.length) with
      | none => simp
      | some n =>
        have hblock : blockAt same opening closing (x :: xs) = some (((x :: xs).drop opening.length).take n) := by
          rw [blockAt, if_pos hlit, hindex]
          rfl
        rw [parts, hblock] at h
        exact absurd List.mem_cons_self (h _)
    · have hblock : blockAt same opening closing (x :: xs) = none := if_neg hlit
      rw [parts, hblock] at h
      rw [if_neg hlit, if_neg hlit, Option.map_eq_none_iff]
      exact ih fun body hmem => h body (List.mem_cons_of_mem _ hmem)

/-- A block that is not closed begins with its tag. -/
theorem litAt_spans_snd {skip : ℕ} (h : (spans same opening closing skip xs).2 ≠ []) :
    litAt same opening (spans same opening closing skip xs).2 = true := by
  induction xs generalizing skip with
  | nil => exact absurd rfl h
  | cons x xs ih =>
    cases skip with
    | succ skip => exact ih h
    | zero =>
      rw [spans] at h ⊢
      split_ifs at h ⊢ with hlit
      · split at h
        · exact ih h
        · exact hlit
      · exact ih h

end

example : bodies sameLetter "<b>" "</b>" "x<B>1</b></b><b>2</b><b>".toList = [['1'], ['2']] := by decide

example : upTo sameLetter "<b>" (withoutBlocks sameLetter "<b>" "</b>" "x<b>1</b>y<b>2".toList) = ['x', 'y'] := by decide

end Persona.Lib.Markup
