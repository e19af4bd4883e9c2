import Persona.Api.Windowing

/-!
# How far a window extends

The loop of `window_turns` stops before the first turn, from the newest on, that goes over one of the
limits (`FirstStop`), and it never stops before the newest one. What a window holds, that no turn more
would have gone in, and that larger limits do not make it shorter all follow from where it stops
(`windowTurns_isWindow`). That the newest turn always goes in is why the hard cap is not absolute:
`sum_tok_le_hardCap_iff`.
-/

namespace Persona.Api

open Persona.Memory

variable {o o' : Options} {l turns : List Turn} {n n' : ℕ}

/-- The tokens of the turns, as clipped. -/
def cost (o : Options) (l : List Turn) : ℤ := (l.map fun t => tok (clip o t)).sum

/-- The loop over `l` stops when it has kept `n` turns. -/
def stopsAt (o : Options) (l : List Turn) (n : ℕ) : Bool :=
  match l.drop n with
  | [] => true
  | t :: _ => isOver o (l.take n) (cost o (l.take n)) (tok (clip o t))

/-- It stops there and not before. -/
structure FirstStop (o : Options) (l : List Turn) (n : ℕ) : Prop where
  stops : stopsAt o l n = true
  goes : ∀ k < n, stopsAt o l k = false

theorem FirstStop.le (h : FirstStop o l n) (h' : FirstStop o' l n') (himp : stopsAt o' l n' = true → stopsAt o l n' = true) :
    n ≤ n' := by
  by_contra hlt
  have hgoes := h.goes n' (by omega)
  rw [himp h'.stops] at hgoes
  cases hgoes

theorem FirstStop.le_length (h : FirstStop o l n) : n ≤ l.length := by
  by_contra hlt
  have hgoes := h.goes l.length (by omega)
  rw [stopsAt, List.drop_length] at hgoes
  cases hgoes

/-- Only how many turns are kept matters. -/
theorem isOver_congr {xs ys : List Turn} (h : xs.length = ys.length) (used n : ℤ) : isOver o xs used n = isOver o ys used n := by
  have hempty : xs.isEmpty = ys.isEmpty := by
    rw [Bool.eq_iff_iff, List.isEmpty_iff_length_eq_zero, List.isEmpty_iff_length_eq_zero, h]
  rw [isOver, isOver, hempty, h]

/-- **Where the loop stops**, after it has kept the turns `pre`. -/
theorem walk_stop (pre rest : List Turn) : ∃ n, pre.length ≤ n ∧ stopsAt o (pre ++ rest) n = true ∧
    (∀ k, pre.length ≤ k → k < n → stopsAt o (pre ++ rest) k = false) ∧
    walk o (pre.map (clip o)).reverse (cost o pre) rest =
      ((((pre ++ rest).take n).map (clip o)).reverse, ((pre ++ rest).drop n).reverse) := by
  induction rest generalizing pre with
  | nil =>
    refine ⟨pre.length, le_rfl, ?_, fun k hk hlt => by omega, ?_⟩
    · rw [stopsAt, List.append_nil, List.drop_length]
    · simp [walk]
  | cons t rest ih =>
    have hstops : stopsAt o (pre ++ t :: rest) pre.length =
        isOver o (pre.map (clip o)).reverse (cost o pre) (tok (clip o t)) := by
      rw [stopsAt, List.drop_left, List.take_left]
      exact isOver_congr (by simp) _ _
    rw [walk]
    cases hover : isOver o (pre.map (clip o)).reverse (cost o pre) (tok (clip o t)) with
    | true =>
      refine ⟨pre.length, le_rfl, hstops.trans hover, fun k hk hlt => by omega, ?_⟩
      rw [if_pos rfl, List.take_left, List.drop_left]
    | false =>
      obtain ⟨n, hle, hstop, hgoes, hwalk⟩ := ih (pre ++ [t])
      have hpre : pre ++ [t] ++ rest = pre ++ t :: rest := by simp
      have hcost : cost o (pre ++ [t]) = cost o pre + tok (clip o t) := by simp [cost]
      rw [hpre] at hstop hgoes hwalk
      rw [hcost, List.map_append, List.map_singleton, List.reverse_append] at hwalk
      rw [List.length_append, List.length_singleton] at hle hgoes
      refine ⟨n, by omega, hstop, fun k hk hlt => ?_, hwalk⟩
      rcases Nat.eq_or_lt_of_le hk with rfl | hk
      · exact hstops.trans hover
      · exact hgoes k hk hlt

/-- A window is cut where the loop first stops. -/
theorem windowTurns_firstStop (o : Options) (turns : List Turn) : ∃ n, FirstStop o turns.reverse n ∧
    (windowTurns o turns).recent = ((turns.reverse.take n).map (clip o)).reverse ∧
    (windowTurns o turns).older = (turns.reverse.drop n).reverse := by
  obtain ⟨n, -, hstop, hgoes, hwalk⟩ := walk_stop (o := o) [] turns.reverse
  refine ⟨n, ⟨hstop, fun k hk => hgoes k (Nat.zero_le k) hk⟩, congrArg Prod.fst hwalk, congrArg Prod.snd hwalk⟩

/-- What stands before a turn that stops the loop. -/
theorem isOver_iff {recent : List Turn} {used n : ℤ} : isOver o recent used n = true ↔ recent ≠ [] ∧
    ((∃ h, o.hardCapTokens = some h ∧ h < used + n) ∨ (o.budgetTokens < used + n ∧ o.minRecent ≤ recent.length)) := by
  simp [isOver, Option.any_eq_true]

theorem stopsAt_of_drop {t : Turn} {rest : List Turn} (h : l.drop n = t :: rest) :
    stopsAt o l n = isOver o (l.take n) (cost o (l.take n)) (tok (clip o t)) := by
  rw [stopsAt, h]

/-! ### What a window holds -/

/-- The turns are split, and no turn is lost: the older ones stay as they are and the recent ones are
clipped. As many are recent as the limits allow. -/
structure IsWindow (o : Options) (turns recent older : List Turn) : Prop where
  split : ∃ kept, turns = older ++ kept ∧ recent = kept.map (clip o)
  nonempty : turns ≠ [] → recent ≠ []
  enough : o.hardCapTokens = none → min o.minRecent turns.length ≤ recent.length
  maximal : ∀ init t, older = init ++ [t] →
    (∃ h, o.hardCapTokens = some h ∧ h < (recent.map tok).sum + tok (clip o t)) ∨
      (o.budgetTokens < (recent.map tok).sum + tok (clip o t) ∧ o.minRecent ≤ recent.length)

/-- The limits of `o'` are as large, and turns are clipped alike. -/
structure Options.Le (o o' : Options) : Prop where
  budget : o.budgetTokens ≤ o'.budgetTokens
  minRecent : o.minRecent ≤ o'.minRecent
  maxTurn : o.maxTurnTokens = o'.maxTurnTokens
  hardCap : ∀ h', o'.hardCapTokens = some h' → ∃ h, o.hardCapTokens = some h ∧ h ≤ h'

theorem Options.Le.clip_eq (h : o.Le o') : clip o = clip o' := by
  funext t
  rw [clip, clip, h.maxTurn]

/-- What stops the loop under larger limits stops it under the smaller ones. -/
theorem Options.Le.stopsAt (h : o.Le o') (hstop : stopsAt o' l n = true) : Persona.Api.stopsAt o l n = true := by
  cases hdrop : l.drop n with
  | nil => rw [Persona.Api.stopsAt, hdrop]
  | cons t rest =>
    rw [stopsAt_of_drop hdrop, isOver_iff] at hstop ⊢
    rw [cost, h.clip_eq, ← cost]
    obtain ⟨hne, ⟨h', hcap', hlt⟩ | ⟨hbudget, hmin⟩⟩ := hstop
    · obtain ⟨c, hcap, hle⟩ := h.hardCap h' hcap'
      exact ⟨hne, .inl ⟨c, hcap, by omega⟩⟩
    · have := h.budget
      have := h.minRecent
      exact ⟨hne, .inr ⟨by omega, by omega⟩⟩

theorem sum_tok_recent (l : List Turn) : (((l.map (clip o)).reverse).map tok).sum = cost o l := by
  rw [List.map_reverse, List.sum_reverse, List.map_map]
  rfl

theorem isWindow_of_firstStop (h : FirstStop o turns.reverse n) :
    IsWindow o turns ((turns.reverse.take n).map (clip o)).reverse (turns.reverse.drop n).reverse := by
  have hlength : ((turns.reverse.take n).map (clip o)).reverse.length = n := by
    have := h.le_length
    simpa using this
  refine ⟨⟨(turns.reverse.take n).reverse, ?_, by rw [List.map_reverse]⟩, ?_, ?_, ?_⟩
  · rw [← List.reverse_append, List.take_append_drop, List.reverse_reverse]
  · intro hturns hempty
    rw [hempty, List.length_nil] at hlength
    have hstop := h.stops
    cases hdrop : turns.reverse.drop n with
    | nil =>
      have hle := List.drop_eq_nil_iff.mp hdrop
      rw [← hlength, Nat.le_zero, List.length_reverse] at hle
      exact hturns (List.length_eq_zero_iff.mp hle)
    | cons t rest =>
      rw [stopsAt_of_drop hdrop, isOver_iff, ← hlength] at hstop
      exact hstop.1 rfl
  · intro hcap
    rw [hlength]
    have hstop := h.stops
    cases hdrop : turns.reverse.drop n with
    | nil =>
      have hle := List.drop_eq_nil_iff.mp hdrop
      rw [List.length_reverse] at hle
      omega
    | cons t rest =>
      rw [stopsAt_of_drop hdrop, isOver_iff] at hstop
      obtain ⟨-, ⟨c, hcap', -⟩ | ⟨-, hmin⟩⟩ := hstop
      · rw [hcap] at hcap'
        cases hcap'
      · rw [List.length_take] at hmin
        omega
  · intro init t holder
    have hdrop : turns.reverse.drop n = t :: init.reverse := by
      rw [← List.reverse_reverse (turns.reverse.drop n), holder]
      simp
    have hstop := h.stops
    rw [stopsAt_of_drop hdrop, isOver_iff, ← sum_tok_recent] at hstop
    rw [List.length_take, Nat.min_eq_left h.le_length] at hstop
    rw [hlength]
    exact hstop.2

/-- **A window loses nothing** and holds as much as it may, and larger limits do not make it shorter. -/
theorem windowTurns_isWindow (o : Options) (turns : List Turn) :
    IsWindow o turns (windowTurns o turns).recent (windowTurns o turns).older ∧
      ∀ o', o.Le o' → (windowTurns o turns).recent.length ≤ (windowTurns o' turns).recent.length := by
  obtain ⟨n, hfirst, hrecent, holder⟩ := windowTurns_firstStop o turns
  constructor
  · rw [hrecent, holder]
    exact isWindow_of_firstStop hfirst
  · intro o' hle
    obtain ⟨n', hfirst', hrecent', -⟩ := windowTurns_firstStop o' turns
    have hn : n ≤ n' := hfirst.le hfirst' hle.stopsAt
    have := hfirst'.le_length
    rw [hrecent, hrecent']
    simp only [List.length_reverse, List.length_map, List.length_take] at this ⊢
    omega

/-! ### The hard cap -/

theorem one_le_tok (t : Turn) : 1 ≤ tok t := by
  have hest := (estimateTokens_bounds t.content).1
  unfold tok
  split
  · split_ifs
    · omega
    · exact hest
  · exact hest

theorem cost_nonneg (o : Options) (l : List Turn) : 0 ≤ cost o l := by
  refine List.sum_nonneg fun n hn => ?_
  obtain ⟨t, -, rfl⟩ := List.mem_map.mp hn
  exact zero_le_one.trans (one_le_tok _)

/-- The turns before the one that stops the loop are within the hard cap, if they are more than one. -/
theorem FirstStop.cost_le {c : ℤ} (h : FirstStop o l n) (hcap : o.hardCapTokens = some c) (hn : 2 ≤ n) :
    cost o (l.take n) ≤ c := by
  obtain ⟨k, rfl⟩ : ∃ k, n = k + 1 := ⟨n - 1, by omega⟩
  have hgoes := h.goes k (by omega)
  cases hdrop : l.drop k with
  | nil =>
    rw [stopsAt, hdrop] at hgoes
    cases hgoes
  | cons t rest =>
    have htake : l.take (k + 1) = l.take k ++ [t] := by
      conv_lhs => rw [← List.take_append_drop k l, hdrop, List.take_append]
      have hle := h.le_length
      have hlen : (l.take k).length = k := by
        rw [List.length_take]
        omega
      simp [hlen]
    have hne : l.take k ≠ [] := by
      intro hnil
      rw [hnil] at htake
      have hle := h.le_length
      have hone := congrArg List.length htake
      rw [List.length_take] at hone
      simp at hone
      omega
    have hcost : cost o (l.take (k + 1)) = cost o (l.take k) + tok (clip o t) := by
      rw [htake]
      simp [cost]
    rw [stopsAt_of_drop hdrop] at hgoes
    by_contra hover
    have hlt : c < cost o (l.take k) + tok (clip o t) := by omega
    rw [isOver_iff.mpr ⟨hne, .inl ⟨c, hcap, hlt⟩⟩] at hgoes
    cases hgoes

/-- **The hard cap holds** exactly when the newest turn, clipped, is within it. -/
theorem sum_tok_le_hardCap_iff (o : Options) {c : ℤ} (hc : 1 ≤ c) (hcap : o.hardCapTokens = some c) (turns : List Turn) :
    ((windowTurns o turns).recent.map tok).sum ≤ c ↔ ∀ t ∈ turns.getLast?, tok (clip o t) ≤ c := by
  obtain ⟨n, hfirst, hrecent, -⟩ := windowTurns_firstStop o turns
  rw [hrecent, sum_tok_recent, ← List.head?_reverse]
  cases hl : turns.reverse with
  | nil =>
    simp [cost]
    omega
  | cons t rest =>
    rw [hl] at hfirst
    have hpos : 1 ≤ n := by
      by_contra hzero
      obtain rfl : n = 0 := by omega
      have hstop := hfirst.stops
      rw [stopsAt_of_drop rfl, isOver_iff] at hstop
      exact hstop.1 rfl
    have hcost : cost o ((t :: rest).take n) = tok (clip o t) + cost o (rest.take (n - 1)) := by
      obtain ⟨k, rfl⟩ : ∃ k, n = k + 1 := ⟨n - 1, by omega⟩
      simp [cost]
    have hnonneg := cost_nonneg o (rest.take (n - 1))
    have hhead : (∀ u ∈ (t :: rest).head?, tok (clip o u) ≤ c) ↔ tok (clip o t) ≤ c := by simp
    rw [hhead]
    constructor
    · intro hsum
      omega
    · intro hnewest
      rcases Nat.eq_or_lt_of_le hpos with rfl | hmore
      · simpa [cost] using hnewest
      · exact hfirst.cost_le hcap hmore

/-- A turn whose tokens are recorded. -/
def heavyTurn (tokens : ℤ) : Turn := ⟨1, "c", none, "user", "page", none, some tokens, false, none, 0⟩

theorem sum_tok_le_hardCap_heavyTurn :
    ((windowTurns ⟨2048, 4, none, some 8192, none⟩ [heavyTurn 5000, heavyTurn 5000]).recent.map tok).sum ≤ 8192 :=
  (sum_tok_le_hardCap_iff ⟨2048, 4, none, some 8192, none⟩ (by decide) rfl _).mpr (by decide)

/-- One turn over the cap. -/
theorem not_sum_tok_le_hardCap_heavyTurn :
    ¬ ((windowTurns ⟨2048, 4, none, some 8192, none⟩ [heavyTurn 60000]).recent.map tok).sum ≤ 8192 := by
  decide

end Persona.Api
