import Mathlib.Data.List.Basic

/-!
# Runs of a labelled step relation

A step relation `step : σ → ε → σ → Prop` says what a system in one state may do
under a label. A *run* is a finite sequence of steps with the list of its labels.
An invariant is proved of one step (`Run.inv`) and then holds at the end of every
run; when only the steps that meet a side condition preserve it, the condition is
put into the step relation (`Guarded`), and the invariant holds at the end of every
run all of whose steps meet it.
-/

namespace Persona.Lib

variable {σ ε : Type*}

/-- A run: the states go from `s` to `t` by steps labelled `es`. -/
inductive Run (step : σ → ε → σ → Prop) : σ → List ε → σ → Prop
  /-- No step. -/
  | nil {s : σ} : Run step s [] s
  /-- A first step, and a run after it. -/
  | cons {s t u : σ} {e : ε} {es : List ε} : step s e t → Run step t es u → Run step s (e :: es) u

/-- The steps taken where the condition `ok` holds of the state before and the label. -/
def Guarded (ok : σ → ε → Prop) (step : σ → ε → σ → Prop) : σ → ε → σ → Prop :=
  fun s e t => ok s e ∧ step s e t

namespace Run

variable {step step' : σ → ε → σ → Prop} {s t u : σ} {e : ε} {es es' : List ε}

theorem one (h : step s e t) : Run step s [e] t := .cons h .nil

theorem append (h : Run step s es t) (h' : Run step t es' u) : Run step s (es ++ es') u := by
  induction h with
  | nil => exact h'
  | cons hs _ ih => exact .cons hs (ih h')

/-- A last step. -/
theorem snoc (h : Run step s es t) (hs : step t e u) : Run step s (es ++ [e]) u :=
  h.append (one hs)

/-- A run of a smaller relation is a run of a larger one. -/
theorem mono (hsub : ∀ s e t, step s e t → step' s e t) (h : Run step s es t) : Run step' s es t := by
  induction h with
  | nil => exact .nil
  | cons hs _ ih => exact .cons (hsub _ _ _ hs) ih

/-- **The invariant rule**: what every step preserves, every run preserves. -/
theorem inv {I : σ → Prop} (hstep : ∀ s e t, I s → step s e t → I t) (h : Run step s es t) (hs : I s) :
    I t := by
  induction h with
  | nil => exact hs
  | cons h₁ _ ih => exact ih (hstep _ _ _ hs h₁)

/-- A run splits where its labels split. -/
theorem split (h : Run step s (es ++ es') u) : ∃ t, Run step s es t ∧ Run step t es' u := by
  induction es generalizing s with
  | nil => exact ⟨s, .nil, h⟩
  | cons e es ih =>
    cases h with
    | cons hs hr =>
      obtain ⟨t, h₁, h₂⟩ := ih hr
      exact ⟨t, .cons hs h₁, h₂⟩

/-- A guarded run is a run. -/
theorem of_guarded {ok : σ → ε → Prop} (h : Run (Guarded ok step) s es t) : Run step s es t :=
  h.mono fun _ _ _ hs => hs.2

end Run

/-! ### Conditions on the steps of a run -/

/-- At each step that a run labelled `es` takes from `s`, the condition `p` holds of the
state before it and its label. -/
def AtEach (step : σ → ε → σ → Prop) (p : σ → ε → Prop) (s : σ) (es : List ε) : Prop :=
  ∀ before e after t, es = before ++ e :: after → Run step s before t → p t e

section AtEach

variable {step : σ → ε → σ → Prop} {p ok : σ → ε → Prop} {s t : σ} {e : ε} {es : List ε}

theorem atEach_nil : AtEach step p s [] := by
  intro before e after t h
  simp at h

theorem atEach_cons : AtEach step p s (e :: es) ↔ p s e ∧ ∀ t, step s e t → AtEach step p t es := by
  constructor
  · intro h
    refine ⟨h [] e es s rfl .nil, fun t ht before e' after u hes hrun => ?_⟩
    exact h (e :: before) e' after u (by rw [hes, List.cons_append]) (.cons ht hrun)
  · rintro ⟨hp, h⟩ before e' after u hes hrun
    cases hrun with
    | nil =>
      rw [List.nil_append, List.cons.injEq] at hes
      exact hes.1 ▸ hp
    | cons hs hr =>
      rw [List.cons_append, List.cons.injEq] at hes
      obtain ⟨rfl, rfl⟩ := hes
      exact h _ hs _ e' after u rfl hr

/-- A condition that the labels meet in any state. -/
theorem AtEach.of_forall (h : ∀ e ∈ es, ∀ t, p t e) : AtEach step p s es := by
  intro before e after t hes _
  exact h e (by simp [hes]) t

theorem AtEach.and {q : σ → ε → Prop} (hp : AtEach step p s es) (hq : AtEach step q s es) :
    AtEach step (fun t e => p t e ∧ q t e) s es := by
  intro before e after t hes hrun
  exact ⟨hp before e after t hes hrun, hq before e after t hes hrun⟩

/-- A run whose steps all meet a condition is one of the guarded relation. -/
theorem AtEach.guarded {before after : List ε} (h : AtEach step ok s (before ++ after)) (hrun : Run step s before t) :
    Run (Guarded ok step) s before t := by
  induction hrun with
  | nil => exact .nil
  | cons hs _ ih =>
    obtain ⟨hok, hrest⟩ := atEach_cons.mp h
    exact .cons ⟨hok, hs⟩ (ih (hrest _ hs))

/-- **The rule for conditions on steps**: what an invariant and a condition give of one
step, they give of every step of a run that meets the condition throughout. -/
theorem AtEach.of_inv {I : σ → Prop} (hstep : ∀ s e t, I s → ok s e → step s e t → I t)
    (hp : ∀ s e, I s → ok s e → p s e) (hs : I s) (h : AtEach step ok s es) : AtEach step p s es := by
  intro before e after t hes hrun
  have hg : Run (Guarded ok step) s before t := by
    rw [hes] at h
    exact h.guarded hrun
  have hI : I t := hg.inv (fun s e t hI hg => hstep s e t hI hg.1 hg.2) hs
  exact hp t e hI (h before e after t hes hrun)

end AtEach

end Persona.Lib
