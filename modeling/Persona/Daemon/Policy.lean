import Persona.Daemon.Child
import Mathlib.Algebra.Ring.Int.Defs
import Mathlib.Data.List.Induction

/-!
# The restart policy

What the `_supervise` loop makes of a sequence of lifetimes, when no stop is requested.
The strike counter is reset and then incremented in the same step, so it counts the last
stable lifetime and the short ones after it (`strikesOf`), and exceeds `max_strikes` when
at least that many short lifetimes come last (`lt_strikesOf_iff`).

The main results are `left_down_iff`, which exits leave the child down for good, and what
follows of the number of starts.
-/

namespace Persona.Daemon

variable {τ : Type*} [LinearOrder τ] [Sub τ]

/-- A lifetime of a child: when it began, the process and its exit code unless the launch
failed, and when it ended. -/
structure Lifetime (τ : Type*) where
  begun : τ
  process : Option (ℕ × ℤ)
  ended : τ

/-- The `uptime` the code computes. -/
def Lifetime.uptime (r : Lifetime τ) : τ := r.ended - r.begun

/-- One round of the loop. -/
def Child.live (p : Policy τ) (c : Child τ) (r : Lifetime τ) : Child τ :=
  match r.process with
  | none => ((c.starting r.begun).launchFailed).exited p false (-1) r.ended
  | some (pid, rc) => ((c.starting r.begun).launched pid).exited p false rc r.ended

/-- `_supervise`, as far as the lifetimes `l` go. Those after the loop's end do not happen. -/
def supervise (p : Policy τ) : Child τ → List (Lifetime τ) → Child τ
  | c, [] => c
  | c, r :: l => if (c.live p r).state = .restarting then supervise p (c.live p r) l else c.live p r

/-! ### One lifetime -/

section Live

variable (p : Policy τ) (c : Child τ) (r : Lifetime τ)

theorem starts_live : (c.live p r).starts = c.starts + 1 := by
  rw [Child.live]
  cases r.process with
  | none => exact Child.starts_exited ..
  | some q => exact Child.starts_exited ..

/-- The round fails at one of the two limits, or the strikes are counted on. -/
theorem live_cases :
    (p.maxTotalStarts ≤ c.starts + 1 ∧ (c.live p r).state = .failed) ∨
    (c.starts + 1 < p.maxTotalStarts ∧ (c.live p r).strikes = Child.nextStrikes p r.uptime c.strikes ∧
      (c.live p r).state =
        if Child.nextStrikes p r.uptime c.strikes ≤ p.maxStrikes then .restarting else .failed) := by
  rw [Child.live]
  cases r.process with
  | none => exact Child.exited_cases p (-1) r.ended ((c.starting r.begun).launchFailed)
  | some q => exact Child.exited_cases p q.2 r.ended ((c.starting r.begun).launched q.1)

end Live

/-! ### Strikes -/

/-- The strike counter after the lifetimes `l`, as long as the first limit is not met. -/
def strikesOf (p : Policy τ) (l : List (Lifetime τ)) : ℕ :=
  l.foldl (fun n r => Child.nextStrikes p r.uptime n) 0

variable {p : Policy τ} {l l' : List (Lifetime τ)} {r : Lifetime τ}

theorem strikesOf_concat : strikesOf p (l ++ [r]) = Child.nextStrikes p r.uptime (strikesOf p l) := by
  rw [strikesOf, List.foldl_append]
  rfl

/-- **The counter exceeds `m`** when there are more than `m` lifetimes, the last `m` of
them short. -/
theorem lt_strikesOf_iff (m : ℕ) :
    m < strikesOf p l ↔ m < l.length ∧ ∀ q ∈ l.drop (l.length - m), q.uptime < p.stableReset := by
  induction l using List.reverseRecOn generalizing m with
  | nil => simp [strikesOf]
  | append_singleton l r ih =>
    rw [strikesOf_concat, Child.nextStrikes, List.length_append, List.length_singleton]
    cases m with
    | zero => simp
    | succ m =>
      have hdrop : (l ++ [r]).drop (l.length + 1 - (m + 1)) = l.drop (l.length - m) ++ [r] := by
        rw [Nat.add_sub_add_right, List.drop_append_of_le_length (Nat.sub_le ..)]
      rw [hdrop, List.forall_mem_append, List.forall_mem_singleton]
      split_ifs with h
      · -- a stable lifetime comes last
        constructor
        · intro hm
          omega
        · rintro ⟨-, -, hshort⟩
          exact absurd h (not_le.mpr hshort)
      · rw [Nat.add_lt_add_iff_right, Nat.add_lt_add_iff_right, ih m]
        exact and_congr_right fun _ => (and_iff_left (not_le.mp h)).symm

/-! ### The loop -/

/-- One more lifetime is lived only if the loop goes on. -/
theorem supervise_concat (c : Child τ) : supervise p c (l ++ [r]) =
    if l = [] ∨ (supervise p c l).state = .restarting then (supervise p c l).live p r else supervise p c l := by
  induction l generalizing c with
  | nil =>
    rw [if_pos (.inl rfl)]
    simp only [List.nil_append, supervise, ite_self]
  | cons q l ih =>
    rw [List.cons_append, supervise, supervise]
    by_cases hq : (c.live p q).state = .restarting
    · rw [if_pos hq, if_pos hq, ih]
      by_cases hl : l = []
      · subst hl
        rw [if_pos (.inl rfl), if_pos (.inr hq)]
      · simp only [hl, List.cons_ne_nil, false_or]
    · rw [if_neg hq, if_neg hq, if_neg]
      rintro (h | h)
      · cases h
      · exact hq h

variable [Zero τ]

/-- After the lifetimes `l` the child has been left down for good. -/
def Down (p : Policy τ) (l : List (Lifetime τ)) : Prop := (supervise p Child.new l).state = .failed

theorem not_down_nil : ¬ Down p [] := fun h => by cases h

/-- As long as the child is not left down, every lifetime is lived and the strikes are
those of `strikesOf`. -/
theorem supervise_up (h : ¬ Down p l) :
    (supervise p .new l).starts = l.length ∧ (supervise p .new l).strikes = strikesOf p l ∧
      (l = [] ∨ (supervise p .new l).state = .restarting) := by
  induction l using List.reverseRecOn with
  | nil => exact ⟨rfl, rfl, .inl rfl⟩
  | append_singleton l r ih =>
    unfold Down at h ih
    rw [supervise_concat] at h ⊢
    have hl : ¬ (supervise p .new l).state = .failed := by
      intro hl
      refine h ?_
      split_ifs with hgo
      · rcases hgo with rfl | hgo
        · exact absurd hl not_down_nil
        · exact absurd (hl.symm.trans hgo) (by decide)
      · exact hl
    obtain ⟨hstarts, hstrikes, hgo⟩ := ih hl
    rw [if_pos hgo] at h ⊢
    rw [starts_live, hstarts, List.length_append, List.length_singleton, strikesOf_concat, ← hstrikes]
    rcases live_cases p (supervise p .new l) r with ⟨-, hf⟩ | ⟨-, hs, hf⟩
    · exact absurd hf h
    · refine ⟨rfl, hs, .inr ?_⟩
      rw [hf] at h ⊢
      split_ifs at h ⊢ with hM
      · rfl
      · exact absurd rfl h

/-- A child left down is never launched again. -/
theorem supervise_down (h : Down p l) (l' : List (Lifetime τ)) : supervise p .new (l ++ l') = supervise p .new l := by
  induction l' using List.reverseRecOn with
  | nil => rw [List.append_nil]
  | append_singleton l' r ih =>
    rw [← List.append_assoc, supervise_concat, ih, if_neg]
    rintro (hnil | hgo)
    · rw [(List.append_eq_nil_iff.mp hnil).1] at h
      exact not_down_nil h
    · exact absurd (h.symm.trans hgo) (by decide)

theorem Down.append (h : Down p l) (l' : List (Lifetime τ)) : Down p (l ++ l') := by
  rw [Down, supervise_down h]
  exact h

/-- The exit of one more lifetime leaves a child down that was not. -/
theorem down_concat_iff (h : ¬ Down p l) :
    Down p (l ++ [r]) ↔ p.maxTotalStarts ≤ l.length + 1 ∨ p.maxStrikes < strikesOf p (l ++ [r]) := by
  obtain ⟨hstarts, hstrikes, hgo⟩ := supervise_up h
  rw [Down, supervise_concat, if_pos hgo, strikesOf_concat, ← hstrikes, ← hstarts]
  rcases live_cases p (supervise p .new l) r with ⟨hT, hf⟩ | ⟨hT, -, hf⟩
  · exact iff_of_true hf (.inl hT)
  · rw [hf]
    split_ifs with hM
    · refine iff_of_false (by decide) ?_
      rintro (h' | h')
      · omega
      · omega
    · exact iff_of_true rfl (.inr (not_le.mp hM))

/-- A child whose lifetimes are all short is left down by the exit that meets one of the
limits, and not before. -/
theorem down_iff_of_short (hT : 1 ≤ p.maxTotalStarts) (hshort : ∀ r ∈ l, r.uptime < p.stableReset) :
    Down p l ↔ min p.maxTotalStarts (p.maxStrikes + 1) ≤ l.length := by
  induction l using List.reverseRecOn with
  | nil =>
    refine iff_of_false not_down_nil ?_
    rw [List.length_nil]
    omega
  | append_singleton l r ih =>
    rw [List.forall_mem_append] at hshort
    have ih := ih hshort.1
    by_cases hl : Down p l
    · refine iff_of_true (hl.append [r]) ?_
      rw [List.length_append]
      have := ih.mp hl
      omega
    · have hdrop : ∀ q ∈ (l ++ [r]).drop ((l ++ [r]).length - p.maxStrikes), q.uptime < p.stableReset :=
        fun q hq => (List.mem_append.mp (List.mem_of_mem_drop hq)).elim (hshort.1 q) (hshort.2 q)
      rw [down_concat_iff hl, lt_strikesOf_iff, and_iff_left hdrop, List.length_append, List.length_singleton]
      omega

/-- Short lifetimes are lived until one of the limits is met. -/
theorem starts_of_short (hT : 1 ≤ p.maxTotalStarts) (hshort : ∀ r ∈ l, r.uptime < p.stableReset) :
    (supervise p .new l).starts = min l.length (min p.maxTotalStarts (p.maxStrikes + 1)) := by
  induction l using List.reverseRecOn with
  | nil => rw [List.length_nil, Nat.zero_min]; rfl
  | append_singleton l r ih =>
    have hl := (List.forall_mem_append.mp hshort).1
    have hdown := down_iff_of_short hT hl
    rw [List.length_append, List.length_singleton]
    by_cases h : Down p l
    · have := hdown.mp h
      rw [supervise_down h, ih hl]
      omega
    · have := mt hdown.mpr h
      obtain ⟨hstarts, -, hgo⟩ := supervise_up h
      rw [supervise_concat, if_pos hgo, starts_live, hstarts]
      omega

/-! ### The policy -/

theorem left_down_iff :
    (Down p (l ++ [r]) ∧ ¬ Down p l) ↔ ¬ Down p l ∧ (p.maxTotalStarts ≤ l.length + 1 ∨
      p.maxStrikes + 1 ≤ l.length + 1 ∧
        ∀ q ∈ (l ++ [r]).drop (l.length + 1 - p.maxStrikes), q.uptime < p.stableReset) := by
  rw [and_comm]
  refine and_congr_right fun h => ?_
  rw [down_concat_iff h, lt_strikesOf_iff, List.length_append, List.length_singleton]
  rfl

/-- The total starts are an upper bound. -/
theorem starts_le (hT : 1 ≤ p.maxTotalStarts) (l : List (Lifetime τ)) :
    (supervise p .new l).starts ≤ p.maxTotalStarts := by
  induction l using List.reverseRecOn with
  | nil => exact Nat.zero_le _
  | append_singleton l r ih =>
    by_cases hl : Down p l
    · rw [supervise_down hl]
      exact ih
    · -- the lifetimes before were all lived, and none of them was the last one allowed
      obtain ⟨hstarts, -, hgo⟩ := supervise_up hl
      rw [supervise_concat, if_pos hgo, starts_live, hstarts]
      rcases List.eq_nil_or_concat l with rfl | ⟨l', q, rfl⟩
      · exact hT
      · have hl' : ¬ Down p l' := fun h => hl (by simpa using h.append [q])
        have := mt (down_concat_iff hl').mpr (by simpa using hl)
        simp only [List.concat_eq_append, List.length_append, List.length_singleton]
        omega

/-- **The restart policy.** The exit of the last of the lifetimes `l ++ [r]` leaves the
child down for good exactly when it had not been left down before and either the total
starts are used up, or there are more than `max_strikes` lifetimes of which the last
`max_strikes` are short. A child left down is never launched again; one that is not is.
There are at most `max_total_starts` starts, and a child that always dies quickly has
exactly the smaller of that and `max_strikes + 1`. -/
theorem restart_policy (p : Policy τ) (hT : 1 ≤ p.maxTotalStarts) :
    (∀ l r, (Down p (l ++ [r]) ∧ ¬ Down p l) ↔ ¬ Down p l ∧ (p.maxTotalStarts ≤ l.length + 1 ∨
      p.maxStrikes + 1 ≤ l.length + 1 ∧
        ∀ q ∈ (l ++ [r]).drop (l.length + 1 - p.maxStrikes), q.uptime < p.stableReset)) ∧
    (∀ l l', Down p l → supervise p .new (l ++ l') = supervise p .new l) ∧
    (∀ l r, ¬ Down p l → (supervise p .new (l ++ [r])).starts = l.length + 1) ∧
    (∀ l, (supervise p .new l).starts ≤ p.maxTotalStarts) ∧
    ∀ l, (∀ r ∈ l, r.uptime < p.stableReset) →
      (supervise p .new l).starts = min l.length (min p.maxTotalStarts (p.maxStrikes + 1)) := by
  refine ⟨fun l r => left_down_iff, fun l l' h => supervise_down h l', fun l r h => ?_, starts_le hT,
    fun l hshort => starts_of_short hT hshort⟩
  obtain ⟨hstarts, -, hgo⟩ := supervise_up h
  rw [supervise_concat, if_pos hgo, starts_live, hstarts]

/-- A child whose launches fail at once, three strikes, twenty starts. -/
theorem restart_policy_failing :
    (supervise (⟨3, 60, 20⟩ : Policy ℤ) .new (List.replicate 7 ⟨0, none, 0⟩)).starts = min 7 (min 20 4) :=
  (restart_policy (⟨3, 60, 20⟩ : Policy ℤ) (by decide)).2.2.2.2 _ (by decide)

end Persona.Daemon
