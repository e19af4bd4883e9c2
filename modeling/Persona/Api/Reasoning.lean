import Persona.Api.ThreadKey

/-!
# Reasoning and answer

`split_reasoning` of `services/api/server.py` takes the think blocks of a model's output for its reasoning
and the rest for its answer. A block runs from an opening tag to the next closing one, and one that was
truncated to the end of the text (`outside` is the text outside of all).

The function looks for closed blocks, and for an opening tag only when there is none; then, as it says, the
answer is empty. `answer_outside` is about the texts without a truncated block: their answer is what stands
outside the blocks. `unleaked_iff` says which texts keep their reasoning to themselves and nothing else: a
truncated block after a closed one is taken for answer, and so is a tag that stands alone or that the removal
of a block puts together.
-/

namespace Persona.Api

open Persona.Lib.PyText Persona.Lib

variable (t : PyStr)

/-- `_THINK_RE.findall(t)`. -/
def thinkBlocks : List PyStr := Markup.bodies same "<think>" "</think>" t

/-- `split_reasoning`: the reasoning and the answer. -/
def splitReasoning : PyStr × PyStr :=
  if thinkBlocks t ≠ [] then
    (PyStr.strip (joinBlank ((thinkBlocks t).map PyStr.strip)), PyStr.strip (Markup.withoutBlocks same "<think>" "</think>" t))
  else
    match Markup.indexOf same "<think>".toList t with
    | some n => (PyStr.strip (t.drop (n + "<think>".toList.length)), [])
    | none => ([], PyStr.strip t)

/-- The text outside the think blocks, the truncated one included. -/
def outside : PyStr := Markup.outside same "<think>" "</think>" t

/-- The truncated block, from its tag on. -/
def truncated : PyStr := Markup.unclosed same "<think>" "</think>" t

/-- No tag is in the text, in any letter case. -/
def NoTags : Prop := ∀ tag ∈ ["<think>", "</think>"], Markup.indexOf same tag.toList t = none

/-- The answer has no tag, and is the text outside the blocks, without the blanks around it. -/
structure Unleaked : Prop where
  tags : NoTags (splitReasoning t).2
  kept : (splitReasoning t).2 = PyStr.strip (outside t)

variable {t}

theorem mem_thinkBlocks {body : PyStr} :
    body ∈ thinkBlocks t ↔ .block body ∈ Markup.parts same "<think>".toList "</think>".toList 0 t := by
  rw [thinkBlocks, Markup.bodies, List.mem_filterMap]
  constructor
  · rintro ⟨_ | _, hmem, heq⟩
    · cases heq
    · obtain rfl := Option.some.inj heq
      exact hmem
  · exact fun hmem => ⟨_, hmem, rfl⟩

theorem noBlock_of_thinkBlocks (h : thinkBlocks t = []) (body : PyStr) :
    .block body ∉ Markup.parts same "<think>".toList "</think>".toList 0 t := by
  rw [← mem_thinkBlocks, h]
  exact List.not_mem_nil

/-- What is left when the closed blocks are removed. -/
theorem withoutBlocks_eq (t : PyStr) : Markup.withoutBlocks same "<think>" "</think>" t = outside t ++ truncated t :=
  Markup.chars_parts 0

/-- Without a closed block nothing is removed. -/
theorem outside_append_truncated (h : thinkBlocks t = []) : outside t ++ truncated t = t := by
  rw [← withoutBlocks_eq, Markup.withoutBlocks, Markup.parts_of_noBlock (noBlock_of_thinkBlocks h)]
  simp [List.filterMap_map]

theorem truncated_eq_nil_iff (h : thinkBlocks t = []) : truncated t = [] ↔ Markup.indexOf same "<think>".toList t = none :=
  Markup.spans_snd_eq_nil_iff (by decide) (noBlock_of_thinkBlocks h)

/-! ### The answer -/

/-- With a closed block, a truncated one stays. -/
theorem answer_closed (h : thinkBlocks t ≠ []) : (splitReasoning t).2 = PyStr.strip (outside t ++ truncated t) := by
  rw [splitReasoning, if_pos h, withoutBlocks_eq]

/-- Without, the answer is empty if a block was truncated. -/
theorem answer_open (h : thinkBlocks t = []) (htrunc : truncated t ≠ []) : (splitReasoning t).2 = [] := by
  obtain ⟨n, hn⟩ := Option.ne_none_iff_exists'.mp (mt (truncated_eq_nil_iff h).mpr htrunc)
  rw [splitReasoning, if_neg (not_not.mpr h), hn]

theorem answer_whole (htrunc : truncated t = []) : (splitReasoning t).2 = PyStr.strip (outside t) := by
  by_cases h : thinkBlocks t = []
  · have hwhole := outside_append_truncated h
    rw [htrunc, List.append_nil] at hwhole
    rw [splitReasoning, if_neg (not_not.mpr h), (truncated_eq_nil_iff h).mp htrunc, hwhole]
  · rw [answer_closed h, htrunc, List.append_nil]

/-! ### Tags -/

/-- A blank is none of the characters of a tag. -/
theorem sameLetter_of_isSpace {c : Char} (h : isSpace c = true) : ∀ p ∈ "</think>".toList, Markup.sameLetter p c = false := by
  have hrange := h
  simp only [isSpace, Bool.or_eq_true, Bool.and_eq_true, decide_eq_true_eq, beq_iff_eq] at hrange
  have hlower : c.toLower = c := by
    refine dif_neg ?_
    rintro ⟨hA, hZ⟩
    have hA : 65 ≤ c.toNat := UInt32.le_iff_toNat_le.mp hA
    have hZ : c.toNat ≤ 90 := UInt32.le_iff_toNat_le.mp hZ
    omega
  intro p hp
  have hne : c ≠ p := by
    rintro rfl
    have hnone : ∀ q ∈ "</think>".toList, isSpace q = false := by decide
    rw [hnone c hp] at h
    cases h
  have hfold : c.toNat ≠ 0x130 ∧ c.toNat ≠ 0x131 ∧ c.toNat ≠ 0x212A ∧ c.toNat ≠ 0x17F := by omega
  simp [Markup.sameLetter, hlower, hne, hfold]

theorem same_of_isSpace {c : PyChar} (h : PyStr.isSpace c = true) : ∀ p ∈ "</think>".toList, same p c = false := by
  cases c with
  | scalar c => exact sameLetter_of_isSpace h
  | surrogate n => exact fun _ _ => rfl

theorem strip_spec (t : PyStr) : ∃ pre post, t = pre ++ (PyStr.strip t ++ post) ∧ (∀ c ∈ pre, PyStr.isSpace c = true) ∧
    ∀ c ∈ post, PyStr.isSpace c = true := by
  refine ⟨t.takeWhile PyStr.isSpace, ((t.dropWhile PyStr.isSpace).reverse.takeWhile PyStr.isSpace).reverse, ?_,
    fun c hc => List.mem_takeWhile_imp hc, fun c hc => List.mem_takeWhile_imp (List.mem_reverse.mp hc)⟩
  rw [PyStr.strip, PyStr.rstrip, ← List.reverse_append, List.takeWhile_append_dropWhile, List.reverse_reverse,
    List.takeWhile_append_dropWhile]

/-- Blanks around a text are no tag, and part of none. -/
theorem noTags_strip_iff : NoTags (PyStr.strip t) ↔ NoTags t := by
  obtain ⟨pre, post, hparts, hpre, hpost⟩ := strip_spec t
  have hsub : ∀ tag ∈ ["<think>", "</think>"], tag.toList ≠ [] ∧ ∀ p ∈ tag.toList, p ∈ "</think>".toList := by decide
  constructor
  · intro h tag htag
    obtain ⟨hne, hchars⟩ := hsub tag htag
    have hforeign : ∀ c, PyStr.isSpace c = true → ∀ p ∈ tag.toList, same p c = false :=
      fun c hc p hp => same_of_isSpace hc p (hchars p hp)
    rw [hparts]
    refine Markup.indexOf_append_of_last (fun c hc => hforeign c (hpre c (List.mem_of_mem_getLast? hc)))
      (Markup.indexOf_of_foreign hne fun c hc => hforeign c (hpre c hc)) ?_
    exact Markup.indexOf_append_of_head (fun c hc => hforeign c (hpost c (List.mem_of_mem_head? hc))) (h tag htag)
      (Markup.indexOf_of_foreign hne fun c hc => hforeign c (hpost c hc))
  · intro h tag htag
    have hnone := h tag htag
    rw [hparts] at hnone
    exact (Markup.indexOf_none_of_append (Markup.indexOf_none_of_append hnone).2).1

/-- A truncated block has its tag. -/
theorem not_noTags_truncated (h : truncated t ≠ []) : ¬ NoTags (outside t ++ truncated t) := by
  intro hnone
  obtain ⟨-, htrunc⟩ := Markup.indexOf_none_of_append (hnone "<think>" (by simp))
  have hlit : Markup.litAt same "<think>".toList (truncated t) = true := Markup.litAt_spans_snd h
  obtain ⟨c, cs, hcons⟩ := List.exists_cons_of_ne_nil h
  rw [hcons] at hlit htrunc
  rw [(Markup.indexOf_cons_none.mp htrunc).1] at hlit
  cases hlit

/-- **Which texts keep their reasoning to themselves**, and nothing else: those without a truncated block whose
parts outside the blocks make no tag, and those that are a truncated block alone. -/
theorem unleaked_iff : Unleaked t ↔ (truncated t = [] ∧ NoTags (outside t)) ∨
    (truncated t ≠ [] ∧ thinkBlocks t = [] ∧ PyStr.strip (outside t) = []) := by
  by_cases htrunc : truncated t = []
  · have hanswer := answer_whole htrunc
    constructor
    · intro h
      refine .inl ⟨htrunc, noTags_strip_iff.mp ?_⟩
      rw [← hanswer]
      exact h.tags
    · rintro (⟨-, hnone⟩ | ⟨hne, -⟩)
      · refine ⟨?_, hanswer⟩
        rw [hanswer]
        exact noTags_strip_iff.mpr hnone
      · exact absurd htrunc hne
  · by_cases hblocks : thinkBlocks t = []
    · have hanswer := answer_open hblocks htrunc
      constructor
      · intro h
        refine .inr ⟨htrunc, hblocks, ?_⟩
        rw [← h.kept, hanswer]
      · rintro (⟨hnil, -⟩ | ⟨-, -, hblank⟩)
        · exact absurd hnil htrunc
        · refine ⟨?_, by rw [hanswer, hblank]⟩
          rw [hanswer]
          exact fun tag htag => Markup.indexOf_of_foreign (by revert tag; decide) (by simp)
    · refine iff_of_false (fun h => ?_) ?_
      · have htags := h.tags
        rw [answer_closed hblocks, noTags_strip_iff] at htags
        exact not_noTags_truncated htrunc htags
      · rintro (⟨hnil, -⟩ | ⟨-, hnil, -⟩)
        · exact htrunc hnil
        · exact hblocks hnil

/-- **What the answer is**: where no block is truncated, the text outside the blocks, and without a tag if that
text has none; where the only block is truncated, nothing. -/
theorem answer_outside (t : PyStr) :
    (truncated t = [] → (splitReasoning t).2 = PyStr.strip (outside t) ∧ (NoTags (outside t) → NoTags (splitReasoning t).2)) ∧
      (truncated t ≠ [] → thinkBlocks t = [] → (splitReasoning t).2 = []) := by
  refine ⟨fun htrunc => ?_, fun htrunc hblocks => answer_open hblocks htrunc⟩
  have hanswer := answer_whole htrunc
  refine ⟨hanswer, fun hnone => ?_⟩
  rw [hanswer]
  exact noTags_strip_iff.mpr hnone

/-- The text before a truncated block is dropped. -/
theorem not_unleaked : ¬ Unleaked (PyStr.ofString "hello <think>x") := by
  intro h
  have hkept : (splitReasoning (PyStr.ofString "hello <think>x")).2 = PyStr.strip (outside (PyStr.ofString "hello <think>x")) :=
    h.kept
  revert hkept
  decide

end Persona.Api
