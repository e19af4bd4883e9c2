import Persona.Api.WindowExtent

/-!
# The characters of a window

How many characters of history a window renders, read off the contents of its turns. A content is
counted without the blanks at its ends, in the estimate of its tokens, in the clipping and so in the
hard cap, but `render_history_messages` renders it with them. So the bound that the hard cap sets holds
of the rendered text, and of the messages exactly when those blanks fit in what the rest leaves free:
`fits_iff`.
-/

namespace Persona.Api

open Persona.Lib Persona.Memory

/-! ### Blanks -/

/-- The blanks at a text's beginning. -/
def lead (cs : List Char) : ℕ := (cs.takeWhile PyText.isSpace).length

/-- The blanks at its end. -/
def trail (cs : List Char) : ℕ := lead cs.reverse

/-- The characters between them. -/
def core (cs : List Char) : ℕ := cs.length - lead cs - trail cs

section

variable {cs xs ys : List Char} {k : ℕ}

theorem length_lstripL_add_lead (cs : List Char) : (PyText.lstripL cs).length + lead cs = cs.length := by
  rw [lead, PyText.lstripL, Nat.add_comm, ← List.length_append, List.takeWhile_append_dropWhile]

theorem length_rstripL_add_trail (cs : List Char) : (PyText.rstripL cs).length + trail cs = cs.length := by
  rw [trail, PyText.rstripL, List.length_reverse]
  exact (length_lstripL_add_lead cs.reverse).trans List.length_reverse

theorem lead_le (cs : List Char) : lead cs ≤ cs.length := (List.takeWhile_prefix _).length_le

/-- The blanks reach as far as the text only if it has nothing else. -/
theorem lead_eq_length_iff : lead cs = cs.length ↔ ∀ c ∈ cs, PyText.isSpace c = true := by
  have hlength := length_lstripL_add_lead cs
  rw [← PyText.lstripL_eq_nil_iff, ← List.length_eq_zero_iff]
  omega

theorem lead_append (hlt : lead xs < xs.length) : lead (xs ++ ys) = lead xs := by
  rw [lead, List.takeWhile_append, if_neg (by unfold lead at hlt; omega), lead]

theorem lead_take (k : ℕ) (cs : List Char) : lead (cs.take k) = min k (lead cs) := by
  induction cs generalizing k with
  | nil => simp [lead]
  | cons c cs ih =>
    cases k with
    | zero => simp [lead]
    | succ k =>
      have hrest := ih k
      unfold lead at hrest ⊢
      rw [List.take_succ_cons, List.takeWhile_cons, List.takeWhile_cons]
      split_ifs
      · simp only [List.length_cons, hrest]
        omega
      · simp

/-- What stands before the blanks at the end has as many at the beginning. -/
theorem lead_rstripL (hlt : lead cs < cs.length) :
    lead (PyText.rstripL cs) = lead cs ∧ lead (PyText.rstripL cs) < (PyText.rstripL cs).length := by
  obtain ⟨tail, htail⟩ := PyText.rstripL_prefix cs
  have hne : ¬ ∀ c ∈ PyText.rstripL cs, PyText.isSpace c = true := by
    intro hall
    have hnil : PyText.rstripL cs = [] := by
      by_contra hne
      obtain ⟨init, c, hinit⟩ := List.eq_nil_or_concat (PyText.rstripL cs) |>.resolve_left hne
      have hlast : PyText.isSpace c = false := PyText.getLast?_rstripL c (by rw [hinit]; simp)
      rw [hall c (by rw [hinit]; simp)] at hlast
      cases hlast
    rw [PyText.rstripL_eq_nil_iff] at hnil
    exact absurd (lead_eq_length_iff.mpr hnil) (by omega)
  have hlead : lead (PyText.rstripL cs) < (PyText.rstripL cs).length :=
    lt_of_le_of_ne (lead_le _) fun heq => hne (lead_eq_length_iff.mp heq)
  have happend : lead (PyText.rstripL cs ++ tail) = lead (PyText.rstripL cs) := lead_append hlead
  rw [htail] at happend
  exact ⟨happend.symm, hlead⟩

/-- The blanks at the end are the same without those at the beginning. -/
theorem trail_lstripL (hlt : lead cs < cs.length) : trail (PyText.lstripL cs) = trail cs := by
  have hne : PyText.lstripL cs ≠ [] := by
    intro hnil
    have hleft := length_lstripL_add_lead cs
    rw [hnil, List.length_nil] at hleft
    omega
  obtain ⟨c, rest, hrest⟩ := List.exists_cons_of_ne_nil hne
  have hc : PyText.isSpace c = false := PyText.head?_lstripL c (by rw [hrest]; rfl)
  have hnotall : lead (PyText.lstripL cs).reverse < (PyText.lstripL cs).reverse.length := by
    refine lt_of_le_of_ne (lead_le _) fun heq => ?_
    have hblank := lead_eq_length_iff.mp heq c (by rw [hrest]; simp)
    rw [hc] at hblank
    cases hblank
  have hsplit : cs.reverse = (PyText.lstripL cs).reverse ++ (cs.takeWhile PyText.isSpace).reverse := by
    rw [← List.reverse_append, PyText.lstripL, List.takeWhile_append_dropWhile]
  rw [trail, trail, hsplit, lead_append hnotall]

/-- The blanks at both ends are apart, when there is something between. -/
theorem lead_add_trail_le (hlt : lead cs < cs.length) : lead cs + trail cs ≤ cs.length := by
  have hleft := length_lstripL_add_lead cs
  have hright := length_rstripL_add_trail (PyText.lstripL cs)
  have htrail := trail_lstripL hlt
  omega

/-- `strip` leaves the characters between the blanks. -/
theorem length_strip (cs : List Char) : (PyText.rstripL (PyText.lstripL cs)).length = core cs := by
  have hleft := length_lstripL_add_lead cs
  have hright := length_rstripL_add_trail (PyText.lstripL cs)
  unfold core
  by_cases hlt : lead cs < cs.length
  · have htrail := trail_lstripL hlt
    omega
  · have := lead_le cs
    omega

theorem length_toList_strip (s : String) : (PyText.strip s).toList.length = core s.toList := by
  rw [PyText.strip, String.toList_ofList, length_strip]

/-- The blanks at the beginning of a text that is cut after `k` characters and goes on with a line break
and a dot. -/
theorem lead_cut {rest : List Char} (hk : k ≤ cs.length) :
    lead (PyText.rstripL (cs.take k) ++ '\n' :: '.' :: rest) = if lead cs < k then lead cs else 1 := by
  have htake := lead_take k cs
  have hlength : (cs.take k).length = k := List.length_take_of_le hk
  split_ifs with hlt
  · obtain ⟨hlead, hless⟩ : lead (PyText.rstripL (cs.take k)) = lead (cs.take k) ∧
        lead (PyText.rstripL (cs.take k)) < (PyText.rstripL (cs.take k)).length := lead_rstripL (by omega)
    rw [lead_append hless, hlead]
    omega
  · have hall : ∀ c ∈ cs.take k, PyText.isSpace c = true := lead_eq_length_iff.mp (by omega)
    rw [PyText.rstripL_eq_nil_iff.mpr hall]
    rfl

end

/-! ### Contents -/

/-- A content that has more than `m` tokens, and is cut to a beginning and an end of `2 * m` characters. -/
def IsLong (m : ℕ) (cs : List Char) : Prop := 4 * (m + 1) ≤ core cs

instance (m : ℕ) (cs : List Char) : Decidable (IsLong m cs) := inferInstanceAs (Decidable (_ ≤ _))

/-- The blanks at one end of a cut content: those that it had, or, when the piece has nothing else and is
dropped, the line break of the marker. -/
def cutBlanks (m blanks : ℕ) : ℕ := if blanks < 2 * m then blanks else 1

/-- The blanks at the ends of what is kept of a content. -/
def padding (m : ℕ) (cs : List Char) : ℕ :=
  if IsLong m cs then cutBlanks m (lead cs) + cutBlanks m (trail cs) else cs.length - core cs

/-- The characters between, which are counted: of a cut content those of both pieces, without the blanks at
the cuts, and the 47 of the marker. -/
def counted (m : ℕ) (cs : List Char) : ℕ :=
  if IsLong m cs then
    (2 * m - trail (cs.take (2 * m))) + 47 + (2 * m - lead (cs.drop (cs.length - 2 * m))) - padding m cs
  else core cs

/-- What so many characters are worth, in tokens. -/
def worth (n : ℕ) : ℕ := max 1 (n / 4)

/-- What they leave free, of four characters a token and three more. -/
def spare (n : ℕ) : ℕ := if n < 4 then 7 - n else 3 - n % 4

theorem four_mul_worth (n : ℕ) : 4 * worth n + 3 = n + spare n := by
  unfold worth spare
  split_ifs <;> omega

/-- The tokens of the turns. -/
def weight (m : ℕ) (kept : List Turn) : ℕ := (kept.map fun t => worth (counted m t.content.toList)).sum

/-- The blanks at the ends of the turns. -/
def paddings (m : ℕ) (kept : List Turn) : ℕ := (kept.map fun t => padding m t.content.toList).sum

/-- The characters of a turn in the summary. -/
def lineChars (t : Turn) : ℕ :=
  t.role.toList.length + 2 +
    if t.distilled = true ∧ t.summary.getD "" ≠ "" then (t.summary.getD "").toList.length
    else if core t.content.toList ≤ 160 then core t.content.toList
    else 163 - trail ((PyText.strip t.content).toList.take 160)

/-- The characters of the summary's message: the header, and at most 800 of the lines of the older turns. -/
def noteChars (older : List Turn) : ℕ := if older = [] then 0 else 48 + min 800 ((older.map fun t => lineChars t + 1).sum - 1)

/-- What is left free: by the tokens below the hard cap, by the rounding of each estimate, and by the summary. -/
def room (m : ℕ) (h : ℤ) (older kept : List Turn) : ℤ :=
  4 * (h - weight m kept) + (kept.map fun t => spare (counted m t.content.toList)).sum + (848 - noteChars older)

/-! ### Clipping a content -/

section

variable {m : ℕ} {t : Turn} {cs : List Char}

/-- A content as `_truncate_turn` cuts it. -/
def cutContent (m : ℕ) (cs : List Char) : List Char :=
  PyText.rstripL (cs.take (2 * m)) ++ (marker.toList ++ PyText.lstripL (cs.drop (cs.length - 2 * m)))

theorem lead_cutContent (hlength : 2 * m ≤ cs.length) : lead (cutContent m cs) = cutBlanks m (lead cs) := lead_cut hlength

theorem trail_cutContent (hlength : 2 * m ≤ cs.length) : trail (cutContent m cs) = cutBlanks m (trail cs) := by
  have hpiece : (PyText.lstripL (cs.drop (cs.length - 2 * m))).reverse = PyText.rstripL (cs.reverse.take (2 * m)) := by
    rw [PyText.rstripL, List.reverse_take, List.length_reverse, List.reverse_reverse, PyText.lstripL]
  have hreverse : (cutContent m cs).reverse =
      PyText.rstripL (cs.reverse.take (2 * m)) ++ (marker.toList.reverse ++ (PyText.rstripL (cs.take (2 * m))).reverse) := by
    simp only [cutContent, List.reverse_append, hpiece, List.append_assoc]
  rw [trail, hreverse]
  exact lead_cut (by rwa [List.length_reverse])

theorem length_cutContent (hlength : 2 * m ≤ cs.length) : (cutContent m cs).length =
    (2 * m - trail (cs.take (2 * m))) + 47 + (2 * m - lead (cs.drop (cs.length - 2 * m))) := by
  have hmarker : marker.toList.length = 47 := by decide
  have hhead := length_rstripL_add_trail (cs.take (2 * m))
  have htail := length_lstripL_add_lead (cs.drop (cs.length - 2 * m))
  rw [List.length_take_of_le hlength] at hhead
  rw [List.length_drop] at htail
  rw [cutContent, List.length_append, List.length_append, hmarker]
  omega

/-- The marker is no blank. -/
theorem lead_cutContent_lt (m : ℕ) (cs : List Char) : lead (cutContent m cs) < (cutContent m cs).length := by
  refine lt_of_le_of_ne (lead_le _) fun heq => ?_
  have hdot : '.' ∈ cutContent m cs := List.mem_append_right _ (List.mem_append_left _ (by decide))
  have hblank := lead_eq_length_iff.mp heq '.' hdot
  revert hblank
  decide

theorem core_le (cs : List Char) : core cs ≤ cs.length := by
  unfold core
  omega

/-- A turn that is estimated is cut when its content is long. -/
theorem toList_truncateTurn (hm : 1 ≤ m) (ht : Estimated t) :
    (truncateTurn m t).content.toList = if IsLong m t.content.toList then cutContent m t.content.toList else t.content.toList := by
  have hest : tok t = max 1 ((core t.content.toList / 4 : ℕ) : ℤ) := by
    rw [tok_of_estimated ht, estimateTokens, length_toList_strip]
  have hhalf : (max 1 ((m : ℤ) * 4 / 2)).toNat = 2 * m := by omega
  unfold truncateTurn
  split_ifs with hfits hlong hlong
  · unfold IsLong at hlong
    omega
  · rfl
  · simp only [cutContent, hhalf, String.toList_append, PyText.rstrip, PyText.lstrip, PyText.lastChars,
      String.toList_ofList, List.append_assoc]
  · unfold IsLong at hlong
    omega

/-- **What is kept of a content**: the characters that are counted, and the blanks at its ends. -/
theorem core_truncateTurn (hm : 1 ≤ m) (ht : Estimated t) :
    core (truncateTurn m t).content.toList = counted m t.content.toList ∧
      (truncateTurn m t).content.toList.length = counted m t.content.toList + padding m t.content.toList := by
  have hcore := core_le t.content.toList
  rw [toList_truncateTurn hm ht]
  by_cases hlong : IsLong m t.content.toList
  · have hlength : 2 * m ≤ t.content.toList.length := by
      unfold IsLong at hlong
      omega
    have hpad : padding m t.content.toList =
        lead (cutContent m t.content.toList) + trail (cutContent m t.content.toList) := by
      rw [padding, if_pos hlong, lead_cutContent hlength, trail_cutContent hlength]
    have hcount : counted m t.content.toList = (cutContent m t.content.toList).length - padding m t.content.toList := by
      rw [counted, if_pos hlong, length_cutContent hlength]
    have hwithin : padding m t.content.toList ≤ (cutContent m t.content.toList).length := by
      rw [hpad]
      exact lead_add_trail_le (lead_cutContent_lt _ _)
    rw [if_pos hlong]
    constructor
    · rw [hcount, hpad, core]
      omega
    · omega
  · rw [if_neg hlong, counted, padding, if_neg hlong, if_neg hlong]
    omega

theorem tok_truncateTurn (hm : 1 ≤ m) (ht : Estimated t) : tok (truncateTurn m t) = worth (counted m t.content.toList) := by
  rw [tok_of_estimated (estimated_truncateTurn ht), estimateTokens, ← (core_truncateTurn hm ht).1, ← length_strip, worth,
    PyText.strip, String.toList_ofList]
  omega

end

/-! ### The summary -/

section

variable {t : Turn} {older : List Turn}

theorem lead_map {f : Char → Char} (hf : ∀ c, PyText.isSpace (f c) = PyText.isSpace c) (cs : List Char) :
    lead (cs.map f) = lead cs := by
  rw [lead, lead, List.takeWhile_map, List.length_map]
  congr 2
  funext c
  exact hf c

/-- The body of a line, when it is too long. -/
theorem length_cut_body {body : List Char} (hlong : 160 < body.length) :
    (PyText.rstripL ((body.map fun c => if c = '\n' then ' ' else c).take 160)).length + trail (body.take 160) = 160 := by
  have hspace : ∀ c : Char, PyText.isSpace (if c = '\n' then ' ' else c) = PyText.isSpace c := by
    intro c
    split_ifs with hc
    · rw [hc]
      decide
    · rfl
  have htrail : trail ((body.map fun c => if c = '\n' then ' ' else c).take 160) = trail (body.take 160) := by
    rw [trail, trail, ← List.map_take, ← List.map_reverse, lead_map hspace]
  have hcut := length_rstripL_add_trail ((body.map fun c => if c = '\n' then ' ' else c).take 160)
  rwa [htrail, List.length_take_of_le (by rw [List.length_map]; omega)] at hcut

theorem chars_snippet (t : Turn) : chars (snippet t) = lineChars t := by
  have hstart : ∀ s : String, chars (t.role ++ ": " ++ s) = t.role.toList.length + 2 + s.toList.length := by
    intro s
    have hcolon : chars ": " = 2 := by decide
    rw [chars_append, chars_append, hcolon, chars, chars]
  unfold snippet lineChars
  dsimp only
  by_cases hsummary : t.distilled = true ∧ t.summary.getD "" ≠ ""
  · rw [if_pos hsummary, if_pos hsummary, hstart]
    push_cast
    rfl
  · rw [if_neg hsummary, if_neg hsummary, hstart, List.length_map, length_toList_strip]
    by_cases hshort : core t.content.toList ≤ 160
    · rw [if_neg (by omega), if_pos hshort, String.toList_ofList, List.length_map, length_toList_strip]
      push_cast
      rfl
    · have hdots : "...".toList.length = 3 := by decide
      have hbody := length_toList_strip t.content
      have hcut := @length_cut_body (PyText.strip t.content).toList (by omega)
      rw [if_pos (by omega), if_neg hshort, String.toList_append, List.length_append, hdots, PyText.rstrip,
        String.toList_ofList, String.toList_ofList]
      omega

/-- The lines of the summary, before they are cut. -/
theorem chars_lines {older : List Turn} (hne : older ≠ []) :
    chars ("\n".intercalate (older.map snippet)) = ((older.map fun t => lineChars t + 1).sum - 1 : ℕ) := by
  have hbreak : chars "\n" = 1 := by decide
  have hsum : (older.map (chars ∘ snippet)).sum + older.length = ((older.map fun t => lineChars t + 1).sum : ℕ) := by
    clear hne
    induction older with
    | nil => rfl
    | cons t older ih =>
      simp only [List.map_cons, List.sum_cons, Function.comp, chars_snippet, List.length_cons] at ih ⊢
      omega
  have hpos : 1 ≤ (older.map fun t => lineChars t + 1).sum := by
    obtain ⟨t, rest, rfl⟩ := List.exists_cons_of_ne_nil hne
    rw [List.map_cons, List.sum_cons]
    omega
  rw [chars_intercalate _ (by simpa using hne), List.map_map, hbreak, List.length_map]
  omega

theorem chars_defaultSummary {older : List Turn} (hne : older ≠ []) :
    chars (defaultSummary older) = (min 800 ((older.map fun t => lineChars t + 1).sum - 1) : ℕ) := by
  have hlines := chars_lines hne
  unfold chars at hlines
  unfold chars defaultSummary
  have hmax : summaryMax = 800 := rfl
  dsimp only
  split_ifs with hlong
  · rw [PyText.lastChars, String.toList_ofList, List.length_drop]
    omega
  · omega

/-- **The summary's message** is the header and the end of the older turns' lines. -/
theorem summaryChars_windowTurns (m h budget minRecent : ℤ) (turns : List Turn) :
    summaryChars (windowTurns (options m h budget minRecent) turns) =
      noteChars (windowTurns (options m h budget minRecent) turns).older := by
  have hheader : chars summaryHeader = 48 := by decide
  rw [summaryChars, summary_windowTurns]
  by_cases hnil : (windowTurns (options m h budget minRecent) turns).older = []
  · rw [hnil, if_pos defaultSummary_nil]
    rfl
  · have hchars := chars_defaultSummary hnil
    have hline : 3 ≤ (((windowTurns (options m h budget minRecent) turns).older.map fun t => lineChars t + 1).sum) := by
      obtain ⟨t, rest, hrest⟩ := List.exists_cons_of_ne_nil hnil
      rw [hrest, List.map_cons, List.sum_cons]
      unfold lineChars
      omega
    have hne : defaultSummary (windowTurns (options m h budget minRecent) turns).older ≠ "" := by
      intro hempty
      rw [hempty] at hchars
      have hzero : chars "" = 0 := rfl
      omega
    rw [if_neg hne, noteChars, if_neg hnil, hchars, hheader]
    push_cast
    rfl

end

/-! ### Where the window is cut -/

/-- A turn does not go in beside the newer ones, which are in: the hard cap forbids it, or the budget, and
there are enough. -/
def Over (m : ℕ) (h budget minRecent : ℤ) (t : Turn) (newer : List Turn) : Prop :=
  newer ≠ [] ∧ (h < weight m (t :: newer) ∨ (budget < weight m (t :: newer) ∧ minRecent ≤ newer.length))

/-- The turns that go in are the newest ones up to the first that does not. -/
structure Cut (m : ℕ) (h budget minRecent : ℤ) (turns older kept : List Turn) : Prop where
  split : turns = older ++ kept
  goes : ∀ before t newer, kept = before ++ t :: newer → ¬ Over m h budget minRecent t newer
  stops : ∀ before t, older = before ++ [t] → Over m h budget minRecent t kept

section

variable {m : ℕ} {h budget minRecent : ℤ} {turns older kept newer : List Turn} {t : Turn}

theorem cost_options (hm : 1 ≤ m) (htok : ∀ t ∈ kept, Estimated t) : cost (options m h budget minRecent) kept = weight m kept := by
  induction kept with
  | nil => rfl
  | cons t kept ih =>
    have hrest := ih fun u hu => htok u (List.mem_cons_of_mem _ hu)
    have ht := tok_truncateTurn hm (htok t List.mem_cons_self)
    have hclip : clip (options m h budget minRecent) t = truncateTurn m t := clip_options (by omega) t
    simp only [cost, weight, List.map_cons, List.sum_cons, hclip, ht] at hrest ⊢
    omega

theorem cost_reverse (o : Options) (l : List Turn) : cost o l.reverse = cost o l := by
  rw [cost, cost, List.map_reverse, List.sum_reverse]

/-- The loop stops before a turn that does not go in. -/
theorem stopsAt_iff_over {rest : List Turn} (hm : 1 ≤ m) (htok : ∀ u ∈ t :: newer, Estimated u) :
    stopsAt (options m h budget minRecent) (newer.reverse ++ t :: rest) newer.length = true ↔ Over m h budget minRecent t newer := by
  have hdrop : (newer.reverse ++ t :: rest).drop newer.length = t :: rest := List.drop_left' List.length_reverse
  have htake : (newer.reverse ++ t :: rest).take newer.length = newer.reverse := List.take_left' List.length_reverse
  have hnewer : cost (options m h budget minRecent) newer = weight m newer := cost_options hm
    fun u hu => htok u (List.mem_cons_of_mem _ hu)
  have ht := tok_truncateTurn hm (htok t List.mem_cons_self)
  have hclip : clip (options m h budget minRecent) t = truncateTurn m t := clip_options (by omega) t
  have hweight : weight m (t :: newer) = worth (counted m t.content.toList) + weight m newer := by
    simp [weight]
  rw [stopsAt_of_drop hdrop, htake, isOver_iff, cost_reverse, hnewer, hclip, ht, Over, hweight, List.length_reverse]
  simp only [options, ne_eq, List.reverse_eq_nil_iff, Option.some.injEq, exists_eq_left']
  rw [Nat.cast_add, add_comm (weight m newer : ℤ)]

/-- **The loop cuts there**, and nowhere else. -/
theorem cut_iff_firstStop (hm : 1 ≤ m) (htok : ∀ t ∈ turns, Estimated t) (hsplit : turns = older ++ kept) :
    Cut m h budget minRecent turns older kept ↔ FirstStop (options m h budget minRecent) turns.reverse kept.length := by
  have hreverse : turns.reverse = kept.reverse ++ older.reverse := by rw [hsplit, List.reverse_append]
  have hgoes : ∀ before u newer, kept = before ++ u :: newer →
      (stopsAt (options m h budget minRecent) turns.reverse newer.length = true ↔ Over m h budget minRecent u newer) := by
    rintro before u newer rfl
    have hrest : turns.reverse = newer.reverse ++ u :: (before.reverse ++ older.reverse) := by
      rw [hreverse]
      simp
    rw [hrest]
    exact stopsAt_iff_over hm fun v hv => htok v (by rw [hsplit]; simp at hv ⊢; tauto)
  have hstops : ∀ before u, older = before ++ [u] →
      (stopsAt (options m h budget minRecent) turns.reverse kept.length = true ↔ Over m h budget minRecent u kept) := by
    rintro before u rfl
    have hrest : turns.reverse = kept.reverse ++ u :: before.reverse := by
      rw [hreverse]
      simp
    rw [hrest]
    exact stopsAt_iff_over hm fun v hv => htok v (by rw [hsplit]; simp at hv ⊢; tauto)
  constructor
  · intro hcut
    refine ⟨?_, fun k hk => ?_⟩
    · rcases List.eq_nil_or_concat older with hnil | ⟨before, u, hold⟩
      · rw [stopsAt, List.drop_eq_nil_of_le (by rw [hreverse, hnil]; simp)]
      · rw [List.concat_eq_append] at hold
        exact (hstops before u hold).mpr (hcut.stops before u hold)
    · obtain ⟨before, u, newer, hkept, hlength⟩ : ∃ before u newer, kept = before ++ u :: newer ∧ newer.length = k := by
        refine ⟨kept.take (kept.length - k - 1), kept[kept.length - k - 1], kept.drop (kept.length - k - 1 + 1), ?_, ?_⟩
        · rw [List.getElem_cons_drop, List.take_append_drop]
        · rw [List.length_drop]
          omega
      rw [← hlength, Bool.eq_false_iff]
      exact fun hstop => hcut.goes before u newer hkept ((hgoes before u newer hkept).mp hstop)
  · intro hfirst
    refine ⟨hsplit, fun before u newer hkept hover => ?_, fun before u hold => (hstops before u hold).mp hfirst.stops⟩
    have hlt : newer.length < kept.length := by
      rw [hkept, List.length_append, List.length_cons]
      omega
    have hstop := (hgoes before u newer hkept).mpr hover
    rw [hfirst.goes _ hlt] at hstop
    cases hstop

/-- **What a window is**, of turns that are cut there. -/
theorem windowTurns_of_cut (hm : 1 ≤ m) (htok : ∀ t ∈ turns, Estimated t) (hcut : Cut m h budget minRecent turns older kept) :
    (windowTurns (options m h budget minRecent) turns).recent = kept.map (truncateTurn m) ∧
      (windowTurns (options m h budget minRecent) turns).older = older := by
  obtain ⟨n, hfirst, hrecent, holder⟩ := windowTurns_firstStop (options m h budget minRecent) turns
  have hthere := (cut_iff_firstStop hm htok hcut.split).mp hcut
  obtain rfl : n = kept.length := Nat.le_antisymm (hfirst.le hthere id) (hthere.le hfirst id)
  have hreverse : turns.reverse = kept.reverse ++ older.reverse := by rw [hcut.split, List.reverse_append]
  have hclip : clip (options m h budget minRecent) = truncateTurn m := by
    funext t
    exact clip_options (by omega) t
  rw [hrecent, holder, hreverse, List.take_left' List.length_reverse, List.drop_left' List.length_reverse, hclip]
  simp

/-- There is a cut. -/
theorem exists_cut (hm : 1 ≤ m) (htok : ∀ t ∈ turns, Estimated t) : ∃ older kept, Cut m h budget minRecent turns older kept := by
  obtain ⟨n, hfirst, -, -⟩ := windowTurns_firstStop (options m h budget minRecent) turns
  have hlength : (turns.reverse.take n).reverse.length = n := by
    have := hfirst.le_length
    simpa using this
  have hsplit : turns = (turns.reverse.drop n).reverse ++ (turns.reverse.take n).reverse := by
    rw [← List.reverse_append, List.take_append_drop, List.reverse_reverse]
  refine ⟨_, _, (cut_iff_firstStop hm htok hsplit).mpr ?_⟩
  rwa [hlength]

end

/-! ### The bound -/

/-- The bound on a window with the hard cap `h`. -/
def bound (h : ℤ) (w : Window) : ℤ := 4 * h + 3 * w.recent.length + (summaryMax + chars summaryHeader)

/-- Both renderings of a window are within the bound. -/
structure Fits (h : ℤ) (w : Window) : Prop where
  messages : ((renderHistoryMessages w).map fun msg => chars msg.2).sum ≤ bound h w
  text : chars (renderHistoryText w) - frameChars w ≤ bound h w

section

variable {m : ℕ} {h : ℤ} {turns older kept : List Turn}

/-- The characters of the clipped turns. -/
theorem sum_chars_truncateTurn (hm : 1 ≤ m) (htok : ∀ t ∈ kept, Estimated t) :
    (kept.map fun t => chars (truncateTurn m t).content).sum + (kept.map fun t => spare (counted m t.content.toList)).sum =
      4 * weight m kept + 3 * kept.length + paddings m kept := by
  induction kept with
  | nil => rfl
  | cons t kept ih =>
    have hrest := ih fun u hu => htok u (List.mem_cons_of_mem _ hu)
    have ht := (core_truncateTurn hm (htok t List.mem_cons_self)).2
    have hworth := four_mul_worth (counted m t.content.toList)
    simp only [weight, paddings, chars, List.map_cons, List.sum_cons, List.length_cons, ht] at hrest ⊢
    omega

/-- **Prior history cannot blow the context** exactly when the blanks at the ends of the turns that go in
fit in what the hard cap, the estimates and the summary leave free. -/
theorem fits_iff (hm : 1 ≤ m) (hh : m + 11 ≤ h) (htok : ∀ t ∈ turns, Estimated t) (budget minRecent : ℤ) :
    Fits h (windowTurns (options m h budget minRecent) turns) ↔
      ∀ older kept, Cut m h budget minRecent turns older kept → paddings m kept ≤ room m h older kept := by
  obtain ⟨older, kept, hcut⟩ : ∃ older kept, Cut m h budget minRecent turns older kept := exists_cut hm htok
  have hkept : ∀ t ∈ kept, Estimated t := fun t ht => htok t (hcut.split ▸ List.mem_append_right _ ht)
  have hsum := sum_chars_truncateTurn hm hkept
  have hheader : chars summaryHeader = 48 := by decide
  have hmax : (summaryMax : ℤ) = 800 := rfl
  obtain ⟨hrecent, holder⟩ := windowTurns_of_cut hm htok hcut
  have hnote := summaryChars_windowTurns m h budget minRecent turns
  rw [holder] at hnote
  constructor
  · intro hfits older' kept' hcut'
    obtain ⟨hrecent', holder'⟩ := windowTurns_of_cut hm htok hcut'
    obtain rfl : older' = older := holder'.symm.trans holder
    obtain rfl : kept' = kept := List.append_cancel_left (hcut'.split.symm.trans hcut.split)
    have hmessages := hfits.messages
    rw [messages_chars, hnote, hrecent, List.map_map, bound, hrecent, List.length_map, hheader, hmax] at hmessages
    unfold room
    simp only [Function.comp_def] at hmessages
    omega
  · intro hroom
    have hfree := hroom older kept hcut
    unfold room at hfree
    constructor
    · rw [messages_chars, hnote, hrecent, List.map_map, bound, hrecent, List.length_map, hheader, hmax]
      simp only [Function.comp_def]
      omega
    · obtain ⟨kept', hturns, hrecent', hcap, -⟩ :=
        windowTurns_spec (m := m) (by omega) hh htok budget minRecent
      rw [holder] at hturns
      obtain rfl : kept' = kept := List.append_cancel_left (hturns.symm.trans hcut.split)
      have hstripped := stripped_le (m := m) hkept
      have hwithin := summaryChars_le m h budget minRecent turns
      rw [text_chars, bound, hrecent, List.length_map]
      omega

end

/-- A user's turn with this content. -/
def userTurn (content : String) : Turn := ⟨1, "c", none, "user", content, none, some (estimateTokens content), false, none, 0⟩

theorem fits_hi : Fits 12 (windowTurns (options (1 : ℕ) 12 100 2) [userTurn "hi"]) := by
  refine (fits_iff le_rfl (by decide) ?_ 100 2).mpr ?_
  · intro t ht
    rw [List.mem_singleton.mp ht]
    rfl
  · intro older kept hcut
    rcases List.singleton_eq_append_iff.mp hcut.split with ⟨rfl, rfl⟩ | ⟨rfl, rfl⟩
    · decide
    · decide

/-- A text with blanks in front. -/
def padded (n : ℕ) : String := String.ofList (List.replicate n ' ' ++ ['h', 'i'])

theorem strip_padded (n : ℕ) : PyText.strip (padded n) = "hi" := by
  have hdrop : PyText.lstripL (List.replicate n ' ' ++ ['h', 'i']) = ['h', 'i'] := by
    unfold PyText.lstripL
    rw [List.dropWhile_append_of_pos]
    · decide
    · intro c hc
      rw [List.eq_of_mem_replicate hc]
      decide
  rw [PyText.strip, padded, String.toList_ofList, hdrop]
  decide

/-- The window of one turn whose blanks are not counted, with the turn as it is. -/
theorem windowTurns_padded (n : ℕ) :
    (windowTurns (options 1 12 (-1) 1) [userTurn (padded n)]).recent = [userTurn (padded n)] := by
  have htok : tok (userTurn (padded n)) = 1 := by
    have hest : estimateTokens (padded n) = 1 := by
      rw [estimateTokens, strip_padded]
      decide
    rw [tok_of_estimated (t := userTurn (padded n)) rfl]
    exact hest
  have hclip : clip (options 1 12 (-1) 1) (userTurn (padded n)) = userTurn (padded n) :=
    if_pos (.inr htok.le)
  have hfirst : isOver (options 1 12 (-1) 1) [] 0 (tok (userTurn (padded n))) = false := rfl
  rw [windowTurns, List.reverse_singleton, walk, hclip, hfirst]
  rfl

/-- The blanks are rendered, and counted by nothing. -/
theorem not_fits : Estimated (userTurn (padded 1000)) ∧
    ¬ Fits 12 (windowTurns (options 1 12 (-1) 1) [userTurn (padded 1000)]) := by
  refine ⟨rfl, fun hfits => ?_⟩
  have hheader : chars summaryHeader = 48 := by decide
  have hmax : (summaryMax : ℤ) = 800 := rfl
  have hcontent : chars (userTurn (padded 1000)).content = 1002 := by
    have hlength : (padded 1000).toList.length = 1002 := by
      rw [padded, String.toList_ofList, List.length_append, List.length_replicate]
      rfl
    exact congrArg Nat.cast hlength
  have hsummary : 0 ≤ summaryChars (windowTurns (options 1 12 (-1) 1) [userTurn (padded 1000)]) := by
    have hnote := chars_nonneg (windowTurns (options 1 12 (-1) 1) [userTurn (padded 1000)]).summary
    unfold summaryChars
    split_ifs
    · omega
    · omega
  have hmessages := hfits.messages
  rw [messages_chars, bound, windowTurns_padded, hheader, hmax, List.map_singleton, List.sum_singleton, hcontent,
    List.length_singleton] at hmessages
  omega

end Persona.Api
