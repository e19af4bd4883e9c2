import Persona.Lib.PyText
import Persona.Memory.Conversations
import Mathlib.Algebra.Order.BigOperators.Group.List
import Mathlib.Tactic.Ring

/-!
# Windowing

`services/api/windowing.py`: the newest turns of a thread are kept, each clipped to a
number of tokens, as long as they fit a budget and a hard cap, and the older ones are
folded into a summary. A turn's tokens are estimated from its stripped content, and of
the two renderers of a window one strips the contents and the other does not.

A window holds the newest turns, clipped, within the hard cap (`windowTurns_spec`), and the tokens of the
turns bound what `render_history_text` renders of them (`stripped_le`).
-/

namespace Persona.Api

open Persona.Lib Persona.Memory

/-! ### The window -/

/-- `estimate_tokens`. -/
def estimateTokens (text : String) : ℤ := max 1 (((PyText.strip text).toList.length / 4 : ℕ) : ℤ)

/-- `_tok`. -/
def tok (t : Turn) : ℤ :=
  match t.tokens with
  | some n => if 0 < n then n else estimateTokens t.content
  | none => estimateTokens t.content

/-- What stands for the middle of a clipped turn. -/
def marker : String := "\n...[earlier turn truncated to fit context]...\n"

/-- `_truncate_turn`. -/
def truncateTurn (maxTokens : ℤ) (t : Turn) : Turn :=
  if maxTokens ≤ 0 ∨ tok t ≤ maxTokens then t
  else
    let half := (max 1 (maxTokens * 4 / 2)).toNat
    let clipped := PyText.rstrip (String.ofList (t.content.toList.take half)) ++ marker ++
      PyText.lstrip (PyText.lastChars half t.content)
    { t with content := clipped, tokens := some (estimateTokens clipped) }

/-- `_snippet`. -/
def snippet (t : Turn) : String :=
  let summary := t.summary.getD ""
  if t.distilled = true ∧ summary ≠ "" then t.role ++ ": " ++ summary
  else
    let body := (PyText.strip t.content).toList.map fun c => if c = '\n' then ' ' else c
    t.role ++ ": " ++
      if 160 < body.length then PyText.rstrip (String.ofList (body.take 160)) ++ "..." else String.ofList body

/-- `max_chars` of the summary. -/
def summaryMax : ℕ := 800

/-- `_default_summary`. -/
def defaultSummary (older : List Turn) : String :=
  let text := "\n".intercalate (older.map snippet)
  if summaryMax < text.toList.length then PyText.lastChars summaryMax text else text

/-- The arguments of `window_turns` beside the turns. -/
structure Options where
  budgetTokens : ℤ
  minRecent : ℤ
  maxTurnTokens : Option ℤ
  hardCapTokens : Option ℤ
  summarize : Option (List Turn → String)

/-- A turn, clipped if there is a `max_turn_tokens`. -/
def clip (o : Options) (t : Turn) : Turn :=
  match o.maxTurnTokens with
  | some m => if m = 0 then t else truncateTurn m t
  | none => t

/-- The turn that comes next does not go into the window. -/
def isOver (o : Options) (recent : List Turn) (used tok : ℤ) : Bool :=
  !recent.isEmpty &&
    (o.hardCapTokens.any (fun h => h < used + tok) || (o.budgetTokens < used + tok && o.minRecent ≤ recent.length))

/-- The loop of `window_turns`, from the newest turn on: the recent turns and the older ones. -/
def walk (o : Options) (recent : List Turn) (used : ℤ) : List Turn → List Turn × List Turn
  | [] => (recent, [])
  | t :: rest =>
    if isOver o recent used (tok (clip o t)) then (recent, (t :: rest).reverse)
    else walk o (clip o t :: recent) (used + tok (clip o t)) rest

/-- What `window_turns` returns. -/
structure Window where
  recent : List Turn
  older : List Turn
  summary : String

/-- `window_turns`. -/
def windowTurns (o : Options) (turns : List Turn) : Window :=
  let r := walk o [] 0 turns.reverse
  ⟨r.1, r.2, if r.2.isEmpty then "" else (o.summarize.getD defaultSummary) r.2⟩

/-! ### The renderers -/

/-- The header of the summary. -/
def summaryHeader : String := "Summary of earlier conversation (context only):\n"

/-- `render_history_messages`: roles and contents. -/
def renderHistoryMessages (w : Window) : List (String × String) :=
  (if w.summary = "" then [] else [("system", summaryHeader ++ w.summary)]) ++
    w.recent.map fun t => (if t.role ∈ ["user", "assistant", "system"] then t.role else "user", t.content)

/-- `label`. -/
def label (role : String) : String :=
  if role = "user" then "User" else if role = "assistant" then "Assistant" else role

/-- The heading of the recent turns. -/
def recentHeader : String := "Conversation so far:\n"

/-- `render_history_text`. -/
def renderHistoryText (w : Window) : String :=
  "\n\n".intercalate
    ((if w.summary = "" then [] else [summaryHeader ++ w.summary]) ++
      if w.recent.isEmpty then []
      else [recentHeader ++ "\n".intercalate (w.recent.map fun t => label t.role ++ ": " ++ PyText.strip t.content)])

/-! ### What is counted -/

/-- The number of characters. -/
def chars (s : String) : ℤ := s.toList.length

/-- The characters of `render_history_text` that are none of the history: the heading, the
labels, and the line breaks between the lines and the parts. -/
def frameChars (w : Window) : ℤ :=
  if w.recent.isEmpty then 0
  else chars recentHeader + (w.recent.map fun t => chars (label t.role) + 2).sum + (w.recent.length - 1) +
    if w.summary = "" then 0 else 2

/-- The options that the server passes. -/
def options (m h budget minRecent : ℤ) : Options := ⟨budget, minRecent, some m, some h, none⟩

/-- The tokens of the turns, as clipped. -/
def clippedTokens (m : ℤ) (kept : List Turn) : ℤ := (kept.map fun t => tok (truncateTurn m t)).sum

/-! ### Tokens and characters -/

section

variable {m h : ℤ} {t : Turn} {s : String} {o : Options} {turns older kept : List Turn} {w : Window}

theorem chars_append (s s' : String) : chars (s ++ s') = chars s + chars s' := by
  simp [chars]

theorem chars_nonneg (s : String) : 0 ≤ chars s := by
  simp [chars]

theorem length_rstripL_le (cs : List Char) : (PyText.rstripL cs).length ≤ cs.length :=
  (PyText.rstripL_prefix cs).length_le

theorem length_lstripL_le (cs : List Char) : (PyText.lstripL cs).length ≤ cs.length :=
  (List.dropWhile_suffix PyText.isSpace).length_le

theorem chars_strip_le (s : String) : chars (PyText.strip s) ≤ chars s := by
  have hr := length_rstripL_le (PyText.lstripL s.toList)
  have hl := length_lstripL_le s.toList
  simp only [chars, PyText.strip, String.toList_ofList]
  omega

/-- The estimate counts the stripped text in fours, rounded down, and never as less than one. -/
theorem estimateTokens_bounds (s : String) :
    1 ≤ estimateTokens s ∧ chars (PyText.strip s) ≤ 4 * estimateTokens s + 3 ∧
      (estimateTokens s = 1 ∨ 4 * estimateTokens s ≤ chars (PyText.strip s)) := by
  unfold estimateTokens chars
  omega

/-- The turn's tokens are those estimated from its content. -/
def Estimated (t : Turn) : Prop := t.tokens = some (estimateTokens t.content)

theorem tok_of_estimated (ht : Estimated t) : tok t = estimateTokens t.content := by
  have hpos := (estimateTokens_bounds t.content).1
  rw [tok, ht]
  show (if 0 < estimateTokens t.content then estimateTokens t.content else estimateTokens t.content) = _
  rw [if_pos (by omega)]

theorem estimated_truncateTurn (ht : Estimated t) : Estimated (truncateTurn m t) := by
  unfold truncateTurn
  split_ifs
  · exact ht
  · rfl

/-- What a clipped turn is cut to: two halves, and the marker between. -/
theorem chars_clipped_le (hm : 1 ≤ m) (s : String) :
    chars (PyText.rstrip (String.ofList (s.toList.take (max 1 (m * 4 / 2)).toNat)) ++ marker ++
      PyText.lstrip (PyText.lastChars (max 1 (m * 4 / 2)).toNat s)) ≤ 4 * m + 47 := by
  have hmarker : chars marker = 47 := by decide
  have hhead := length_rstripL_le (s.toList.take (max 1 (m * 4 / 2)).toNat)
  have htail := length_lstripL_le (s.toList.drop (s.toList.length - (max 1 (m * 4 / 2)).toNat))
  rw [List.length_take] at hhead
  rw [List.length_drop] at htail
  rw [chars_append, chars_append, hmarker]
  simp only [chars, PyText.rstrip, PyText.lstrip, PyText.lastChars, String.toList_ofList]
  omega

/-- A turn has at most `m` tokens, or what its clipped content has. -/
theorem tok_truncateTurn_le (hm : 1 ≤ m) (ht : Estimated t) : tok (truncateTurn m t) ≤ m + 11 := by
  rw [tok_of_estimated (estimated_truncateTurn ht)]
  unfold truncateTurn
  split_ifs with hfits
  · rw [tok_of_estimated ht] at hfits
    omega
  · have hclip := chars_clipped_le hm t.content
    have hstrip := chars_strip_le (PyText.rstrip (String.ofList (t.content.toList.take (max 1 (m * 4 / 2)).toNat)) ++
      marker ++ PyText.lstrip (PyText.lastChars (max 1 (m * 4 / 2)).toNat t.content))
    have hest := estimateTokens_bounds (PyText.rstrip (String.ofList (t.content.toList.take (max 1 (m * 4 / 2)).toNat)) ++
      marker ++ PyText.lstrip (PyText.lastChars (max 1 (m * 4 / 2)).toNat t.content))
    show estimateTokens (PyText.rstrip (String.ofList (t.content.toList.take (max 1 (m * 4 / 2)).toNat)) ++
      marker ++ PyText.lstrip (PyText.lastChars (max 1 (m * 4 / 2)).toNat t.content)) ≤ m + 11
    omega

/-! ### The walk -/

theorem clip_options {budget minRecent : ℤ} (hm : 1 ≤ m) (t : Turn) :
    clip (options m h budget minRecent) t = truncateTurn m t := by
  show (if m = 0 then t else truncateTurn m t) = _
  rw [if_neg (by omega)]

/-- **What the loop keeps**: newest turns, clipped, within the hard cap. -/
theorem walk_spec (budget minRecent : ℤ) {used : ℤ} {recent rest : List Turn} (hm : 1 ≤ m)
    (hone : ∀ t ∈ rest, tok (truncateTurn m t) ≤ h) (hused : used ≤ h) (hnil : recent = [] → used = 0) :
    ∃ kept left, rest = kept ++ left ∧
      walk (options m h budget minRecent) recent used rest =
        ((kept.map (truncateTurn m)).reverse ++ recent, left.reverse) ∧
      used + clippedTokens m kept ≤ h ∧ (recent = [] → rest ≠ [] → kept ≠ []) := by
  induction rest generalizing recent used with
  | nil => exact ⟨[], [], rfl, rfl, by simpa [clippedTokens] using hused, fun _ hne => absurd rfl hne⟩
  | cons t rest ih =>
    rw [walk, clip_options hm]
    cases hover : isOver (options m h budget minRecent) recent used (tok (truncateTurn m t)) with
    | true =>
      refine ⟨[], t :: rest, rfl, rfl, by simpa [clippedTokens] using hused, fun hempty => ?_⟩
      rw [hempty] at hover
      simp [isOver] at hover
    | false =>
      have ht := hone t List.mem_cons_self
      have hnext : used + tok (truncateTurn m t) ≤ h := by
        by_cases hempty : recent = []
        · have := hnil hempty
          omega
        · have hcap : ¬ h < used + tok (truncateTurn m t) := by
            intro hlt
            simp [isOver, options, hempty, hlt] at hover
          omega
      obtain ⟨kept, left, hrest, hwalk, hsum, -⟩ :=
        ih (fun u hu => hone u (List.mem_cons_of_mem _ hu)) hnext (fun hc => absurd hc (List.cons_ne_nil _ _))
      refine ⟨t :: kept, left, by rw [hrest]; rfl, ?_, ?_, fun _ _ => List.cons_ne_nil _ _⟩
      · rw [if_neg (by simp), hwalk]
        simp
      · simp only [clippedTokens, List.map_cons, List.sum_cons] at hsum ⊢
        omega

theorem defaultSummary_nil : defaultSummary [] = "" := by decide

theorem chars_defaultSummary_le (older : List Turn) : chars (defaultSummary older) ≤ summaryMax := by
  unfold defaultSummary
  dsimp only
  split_ifs with hlong
  · simp only [chars, PyText.lastChars, String.toList_ofList, List.length_drop]
    omega
  · simp only [chars]
    omega

/-- The summary of a window by default. -/
theorem summary_windowTurns {budget minRecent : ℤ} :
    (windowTurns (options m h budget minRecent) turns).summary =
      defaultSummary (windowTurns (options m h budget minRecent) turns).older := by
  show (if (walk (options m h budget minRecent) [] 0 turns.reverse).2.isEmpty then ""
    else defaultSummary (walk (options m h budget minRecent) [] 0 turns.reverse).2) =
      defaultSummary (walk (options m h budget minRecent) [] 0 turns.reverse).2
  cases (walk (options m h budget minRecent) [] 0 turns.reverse).2 with
  | nil => exact defaultSummary_nil.symm
  | cons t older => rfl

/-- **What a window is**: the newest turns, clipped, within the hard cap. -/
theorem windowTurns_spec (hm : 1 ≤ m) (hh : m + 11 ≤ h) (htok : ∀ t ∈ turns, Estimated t) (budget minRecent : ℤ) :
    ∃ kept, turns = (windowTurns (options m h budget minRecent) turns).older ++ kept ∧
      (windowTurns (options m h budget minRecent) turns).recent = kept.map (truncateTurn m) ∧
      clippedTokens m kept ≤ h ∧ (turns ≠ [] → kept ≠ []) := by
  have hone : ∀ t ∈ turns.reverse, tok (truncateTurn m t) ≤ h := by
    intro t ht
    have := tok_truncateTurn_le hm (htok t (List.mem_reverse.mp ht))
    omega
  obtain ⟨kept, left, hsplit, hwalk, hsum, hne⟩ :=
    walk_spec budget minRecent hm hone (by omega) (fun _ => rfl)
  refine ⟨kept.reverse, ?_, ?_, ?_, ?_⟩
  · rw [windowTurns, hwalk, ← List.reverse_append, ← hsplit, List.reverse_reverse]
  · simp [windowTurns, hwalk]
  · simpa [clippedTokens] using hsum
  · intro hturns
    simpa using hne rfl (by simpa using hturns)

/-! ### What is rendered -/

theorem chars_intercalate (sep : String) {l : List String} (hne : l ≠ []) :
    chars (sep.intercalate l) = (l.map chars).sum + chars sep * (l.length - 1) := by
  induction l with
  | nil => exact absurd rfl hne
  | cons a l ih =>
    cases l with
    | nil => simp
    | cons b l =>
      rw [String.intercalate_cons_cons, chars_append, chars_append, ih (List.cons_ne_nil _ _)]
      simp only [List.map_cons, List.sum_cons, List.length_cons]
      push_cast
      ring

/-- The characters of the summary's message. -/
def summaryChars (w : Window) : ℤ := if w.summary = "" then 0 else chars summaryHeader + chars w.summary

theorem messages_chars (w : Window) : ((renderHistoryMessages w).map fun msg => chars msg.2).sum =
    summaryChars w + (w.recent.map fun t => chars t.content).sum := by
  unfold renderHistoryMessages summaryChars
  split_ifs with hempty
  · simp [Function.comp_def]
  · simp [Function.comp_def, chars_append]

/-- The characters of the heading and the lines of the recent turns. -/
theorem lines_chars (hne : w.recent ≠ []) :
    chars (recentHeader ++ "\n".intercalate (w.recent.map fun t => label t.role ++ ": " ++ PyText.strip t.content)) =
      chars recentHeader + (w.recent.map fun t => chars (label t.role) + 2).sum + (w.recent.length - 1) +
        (w.recent.map fun t => chars (PyText.strip t.content)).sum := by
  have hcolon : chars ": " = 2 := by decide
  have hbreak : chars "\n" = 1 := by decide
  have hline : (chars ∘ fun t : Turn => label t.role ++ ": " ++ PyText.strip t.content) =
      fun t => (chars (label t.role) + 2) + chars (PyText.strip t.content) := by
    funext t
    simp only [Function.comp, chars_append, hcolon]
  rw [chars_append, chars_intercalate _ (by simpa using hne), List.map_map, hline, List.sum_map_add, hbreak,
    List.length_map]
  ring

/-- Beside its frame, the text has the summary and the stripped contents. -/
theorem text_chars (w : Window) : chars (renderHistoryText w) - frameChars w =
    summaryChars w + (w.recent.map fun t => chars (PyText.strip t.content)).sum := by
  have hgap : chars "\n\n" = 2 := by decide
  have hnone : chars "" = 0 := by decide
  by_cases hrecent : w.recent = []
  · unfold renderHistoryText frameChars summaryChars
    by_cases hsum : w.summary = ""
    · simp [hrecent, hsum, hnone]
    · simp [hrecent, hsum, chars_append]
  · have hlines := lines_chars hrecent
    have hframe : w.recent.isEmpty = false := by simpa using hrecent
    unfold renderHistoryText frameChars summaryChars
    by_cases hsum : w.summary = ""
    · simp only [hframe, hsum, if_true, Bool.false_eq_true, if_false, List.nil_append, String.intercalate_singleton, hlines]
      ring
    · simp only [hframe, hsum, Bool.false_eq_true, if_false, List.singleton_append, String.intercalate_cons_cons,
        String.intercalate_singleton, chars_append (_ ++ _) (recentHeader ++ _), chars_append (summaryHeader ++ _),
        chars_append summaryHeader, hlines, hgap]
      ring

/-- What is bounded for each turn by its tokens is so for all. -/
theorem sum_le_clippedTokens {f : Turn → ℤ} (hf : ∀ t ∈ kept, f t ≤ 4 * tok (truncateTurn m t) + 3) :
    (kept.map f).sum ≤ 4 * clippedTokens m kept + 3 * kept.length := by
  induction kept with
  | nil => simp [clippedTokens]
  | cons t kept ih =>
    have hrest := ih fun u hu => hf u (List.mem_cons_of_mem _ hu)
    have ht := hf t List.mem_cons_self
    simp only [clippedTokens, List.map_cons, List.sum_cons, List.length_cons] at hrest ⊢
    push_cast
    omega

/-- **The text of a window is bounded** by its tokens. -/
theorem stripped_le (htok : ∀ t ∈ kept, Estimated t) :
    ((kept.map (truncateTurn m)).map fun t => chars (PyText.strip t.content)).sum ≤
      4 * clippedTokens m kept + 3 * kept.length := by
  rw [List.map_map]
  apply sum_le_clippedTokens
  intro t ht
  rw [tok_of_estimated (estimated_truncateTurn (htok t ht))]
  exact (estimateTokens_bounds (truncateTurn m t).content).2.1

theorem summaryChars_le (m h budget minRecent : ℤ) (turns : List Turn) :
    summaryChars (windowTurns (options m h budget minRecent) turns) ≤ summaryMax + chars summaryHeader := by
  have hsum := chars_defaultSummary_le (windowTurns (options m h budget minRecent) turns).older
  have hheader := chars_nonneg summaryHeader
  unfold summaryChars
  rw [summary_windowTurns]
  split_ifs
  · omega
  · omega

end

end Persona.Api
