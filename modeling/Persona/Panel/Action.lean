import Persona.Json
import Persona.Lib.Run
import Mathlib.Logic.Function.Basic

/-!
# Actions of the control panel

`cmd_panel` of `manage.py`: each `POST /api/action` is handled by a thread of its own,
which tests `busy` under a lock, and starts another thread for `run_action` when it is
not set. That thread sets `busy` before it runs the commands of the action, and clears it
after them, without the lock.

The lock is released between the test and the setting, so that a second request may pass
its test before the first action has begun (`not_exclusive`). `exclusive_of_apart` says
that nothing else goes wrong: when no request is tested in between, commands are run by
one action at a time, `busy` is set as long as one runs, and requests are refused.
-/

namespace Persona.Panel

open Persona.Lib

/-- The commands of an action. -/
inductive Command where
  | up | down | toggle
  | test (which : Json)

/-- What `run_action` runs. -/
def commands (action which : Json) : List Command :=
  match action with
  | .str "up" => [.up]
  | .str "down" => [.down]
  | .str "toggle" => [.toggle]
  | .str "restart" => [.down, .up]
  | .str "test" => [.test which]
  | _ => []

/-- The commands that the body of a request asks for; `none` when `req.get` raises. A body
that is no JSON counts as an empty object. -/
def requested : Option Json → Option (List Command)
  | none => some (commands .null (.str "quick"))
  | some (.obj kvs) => some (commands (Json.get kvs "action") ((kvs.lookup "which").getD (.str "quick")))
  | some _ => none

/-- Where `do_POST` is. -/
inductive Post where
  | idle
  /-- It has the lock, and `busy` was set. -/
  | refusing
  /-- It has the lock, and `busy` was not set. -/
  | passed (body : Option Json)
  /-- It has released the lock. -/
  | released (body : Option Json)
  /-- It has started the thread of its action. -/
  | started
  | answered (code : ℕ)
  | raised

/-- Where `run_action` is. -/
inductive Action where
  | none
  /-- The thread has been started. -/
  | ready (cmds : List Command)
  /-- It has set `busy`; the first of these commands is under way. -/
  | running (cmds : List Command)
  /-- The commands are over. -/
  | finishing
  | ended

/-- The panel, with the requests numbered. -/
structure Sys where
  busy : Bool
  locked : Bool
  post : ℕ → Post
  action : ℕ → Action

namespace Sys

/-- Before the first request. -/
def start : Sys := ⟨false, false, fun _ => .idle, fun _ => .none⟩

variable (s : Sys)

def setPost (i : ℕ) (p : Post) : Sys := { s with post := Function.update s.post i p }

def setAction (i : ℕ) (a : Action) : Sys := { s with action := Function.update s.action i a }

end Sys

/-- What a thread does. -/
inductive Event where
  /-- A request takes the lock and tests `busy`. -/
  | test (i : ℕ) (body : Option Json)
  /-- `409`, and the lock is released. -/
  | refuse (i : ℕ)
  /-- The lock is released. -/
  | release (i : ℕ)
  /-- The thread of the action is started, if the request has the form for it. -/
  | start (i : ℕ)
  /-- `202`. -/
  | accept (i : ℕ)
  /-- `busy` is set. -/
  | set (i : ℕ)
  /-- A command returns. -/
  | command (i : ℕ)
  /-- A command raises. -/
  | raised (i : ℕ)
  /-- There is no command left. -/
  | finish (i : ℕ)
  /-- `busy` is cleared. -/
  | clear (i : ℕ)

/-- The steps of the threads. -/
inductive Step (s : Sys) : Event → Sys → Prop
  | refused {i : ℕ} {body : Option Json} (hi : s.post i = .idle) (hl : s.locked = false) (hb : s.busy = true) :
      Step s (.test i body) { s.setPost i .refusing with locked := true }
  | passed {i : ℕ} {body : Option Json} (hi : s.post i = .idle) (hl : s.locked = false) (hb : s.busy = false) :
      Step s (.test i body) { s.setPost i (.passed body) with locked := true }
  | refuse {i : ℕ} (hi : s.post i = .refusing) : Step s (.refuse i) { s.setPost i (.answered 409) with locked := false }
  | release {i : ℕ} {body : Option Json} (hi : s.post i = .passed body) :
      Step s (.release i) { s.setPost i (.released body) with locked := false }
  | start {i : ℕ} {body : Option Json} {cmds : List Command} (hi : s.post i = .released body)
      (hc : requested body = some cmds) : Step s (.start i) ((s.setPost i .started).setAction i (.ready cmds))
  | malformed {i : ℕ} {body : Option Json} (hi : s.post i = .released body) (hc : requested body = none) :
      Step s (.start i) (s.setPost i .raised)
  | accept {i : ℕ} (hi : s.post i = .started) : Step s (.accept i) (s.setPost i (.answered 202))
  | set {i : ℕ} {cmds : List Command} (hi : s.action i = .ready cmds) :
      Step s (.set i) { s.setAction i (.running cmds) with busy := true }
  | command {i : ℕ} {c : Command} {cmds : List Command} (hi : s.action i = .running (c :: cmds)) :
      Step s (.command i) (s.setAction i (.running cmds))
  | raised {i : ℕ} {c : Command} {cmds : List Command} (hi : s.action i = .running (c :: cmds)) :
      Step s (.raised i) (s.setAction i .finishing)
  | finish {i : ℕ} (hi : s.action i = .running []) : Step s (.finish i) (s.setAction i .finishing)
  | clear {i : ℕ} (hi : s.action i = .finishing) : Step s (.clear i) { s.setAction i .ended with busy := false }

/-! ### Exclusion -/

variable {s s' t : Sys} {e : Event} {es : List Event} {i j : ℕ}

/-- An action runs a command. -/
def Executing (s : Sys) (i : ℕ) : Prop := ∃ c cmds, s.action i = .running (c :: cmds)

/-- One action at a time runs commands, and `busy` is set meanwhile. -/
structure Good (s : Sys) : Prop where
  alone : ∀ i j, Executing s i → Executing s j → i = j
  busy : ∀ i, Executing s i → s.busy = true

/-- The request is refused. -/
def Refused (s : Sys) (i : ℕ) : Prop := s.post i = .refusing ∨ s.post i = .answered 409

/-- Actions exclude each other in the runs with these labels, and a request that is tested
while one runs a command is refused. -/
structure Exclusive (es : List Event) : Prop where
  good : ∀ before after s, es = before ++ after → Run Step .start before s → Good s
  refused : ∀ before i body after s t, es = before ++ .test i body :: after → Run Step .start before s →
    (∃ j, Executing s j) → Run Step s (.test i body :: after) t → Refused t i

/-- Where an accepted request is. -/
inductive Stage where
  /-- It is not accepted, or its action is over. -/
  | out
  /-- It has passed its test, and its action has not set `busy`. -/
  | pending
  /-- Its action has set `busy`, and has not cleared it. -/
  | begun
  deriving DecidableEq

/-- The stage of a request. -/
def Sys.stage (s : Sys) (i : ℕ) : Stage :=
  match s.action i with
  | .none =>
    match s.post i with
    | .passed _ | .released _ => .pending
    | _ => .out
  | .ready _ => .pending
  | .running _ | .finishing => .begun
  | .ended => .out

/-- No request passes its test while another one that has passed it is pending. -/
def Apart (s : Sys) : Event → Prop
  | .test _ _ => s.busy = false → ∀ j, s.stage j ≠ .pending
  | _ => True

/-! ### What a step does -/

@[simp] theorem post_setPost (p : Post) : (s.setPost i p).post = Function.update s.post i p := rfl

@[simp] theorem action_setPost (p : Post) : (s.setPost i p).action = s.action := rfl

@[simp] theorem busy_setPost (p : Post) : (s.setPost i p).busy = s.busy := rfl

@[simp] theorem post_setAction (a : Action) : (s.setAction i a).post = s.post := rfl

@[simp] theorem action_setAction (a : Action) : (s.setAction i a).action = Function.update s.action i a := rfl

@[simp] theorem busy_setAction (a : Action) : (s.setAction i a).busy = s.busy := rfl

theorem Executing.begun (h : Executing s i) : s.stage i = .begun := by
  obtain ⟨c, cmds, h⟩ := h
  rw [Sys.stage, h]

/-- An action has a thread only when its request has started it. -/
def Posted (s : Sys) : Prop := ∀ i, s.action i ≠ .none → s.post i = .started ∨ s.post i = .answered 202

theorem Posted.action_eq (h : Posted s) (hs : s.post i ≠ .started) (ha : s.post i ≠ .answered 202) :
    s.action i = .none := by
  by_contra hne
  exact (h i hne).elim hs ha

theorem posted_step (h : Posted s) (hs : Step s e t) : Posted t := by
  intro j
  cases hs with
  | @refused i body hi hl hb | @passed i body hi hl hb | @refuse i hi | @release i body hi | @malformed i body hi hc =>
    by_cases hj : j = i
    · subst hj
      have hnone := h.action_eq (i := j) (by simp [hi]) (by simp [hi])
      simp [hnone]
    · simpa [hj] using h j
  | @start i body cmds hi hc =>
    by_cases hj : j = i
    · simp [hj]
    · simpa [hj] using h j
  | @accept i hi =>
    by_cases hj : j = i
    · simp [hj]
    · simpa [hj] using h j
  | @set i cmds hi | @command i c cmds hi | @raised i c cmds hi | @finish i hi | @clear i hi =>
    by_cases hj : j = i
    · subst hj
      intro _
      exact h j (by simp [hi])
    · simpa [hj] using h j

/-- How a step moves the request `i`. -/
inductive Moved (s t : Sys) (e : Event) (i : ℕ) : Prop
  | kept (hi : t.stage i = s.stage i) (hb : t.busy = s.busy)
  | passed (body : Option Json) (he : e = .test i body) (hs : s.busy = false) (hi : t.stage i = .pending)
      (hb : t.busy = s.busy)
  | dropped (hs : s.stage i = .pending) (hi : t.stage i = .out) (hb : t.busy = s.busy)
  | begun (hs : s.stage i = .pending) (hi : t.stage i = .begun) (hb : t.busy = true)
  | cleared (hs : s.stage i = .begun) (hi : t.stage i = .out) (hb : t.busy = false)

theorem stage_congr (hp : t.post i = s.post i) (ha : t.action i = s.action i) : t.stage i = s.stage i := by
  rw [Sys.stage, Sys.stage, hp, ha]

/-- A step moves one request. -/
theorem moved_step (h : Posted s) (hs : Step s e t) : ∃ i, (∀ j, j ≠ i → t.stage j = s.stage j) ∧ Moved s t e i := by
  cases hs with
  | @refused i body hi hl hb =>
    have hnone := h.action_eq (i := i) (by simp [hi]) (by simp [hi])
    refine ⟨i, fun j hj => stage_congr (by simp [hj]) rfl, .kept ?_ rfl⟩
    simp [Sys.stage, hnone, hi]
  | @passed i body hi hl hb =>
    have hnone := h.action_eq (i := i) (by simp [hi]) (by simp [hi])
    refine ⟨i, fun j hj => stage_congr (by simp [hj]) rfl, .passed body rfl hb ?_ rfl⟩
    simp [Sys.stage, hnone]
  | @refuse i hi =>
    have hnone := h.action_eq (i := i) (by simp [hi]) (by simp [hi])
    refine ⟨i, fun j hj => stage_congr (by simp [hj]) rfl, .kept ?_ rfl⟩
    simp [Sys.stage, hnone, hi]
  | @release i body hi =>
    have hnone := h.action_eq (i := i) (by simp [hi]) (by simp [hi])
    refine ⟨i, fun j hj => stage_congr (by simp [hj]) rfl, .kept ?_ rfl⟩
    simp [Sys.stage, hnone, hi]
  | @start i body cmds hi hc =>
    have hnone := h.action_eq (i := i) (by simp [hi]) (by simp [hi])
    refine ⟨i, fun j hj => stage_congr (by simp [hj]) (by simp [hj]), .kept ?_ rfl⟩
    simp [Sys.stage, hnone, hi]
  | @malformed i body hi hc =>
    have hnone := h.action_eq (i := i) (by simp [hi]) (by simp [hi])
    refine ⟨i, fun j hj => stage_congr (by simp [hj]) rfl, .dropped ?_ ?_ rfl⟩
    · simp [Sys.stage, hnone, hi]
    · simp [Sys.stage, hnone]
  | @accept i hi =>
    refine ⟨i, fun j hj => stage_congr (by simp [hj]) rfl, .kept ?_ rfl⟩
    cases ha : s.action i <;> simp [Sys.stage, ha, hi]
  | @set i cmds hi =>
    refine ⟨i, fun j hj => stage_congr rfl (by simp [hj]), .begun ?_ ?_ rfl⟩
    · simp [Sys.stage, hi]
    · simp [Sys.stage]
  | @command i c cmds hi | @raised i c cmds hi | @finish i hi =>
    refine ⟨i, fun j hj => stage_congr rfl (by simp [hj]), .kept ?_ rfl⟩
    simp [Sys.stage, hi]
  | @clear i hi =>
    refine ⟨i, fun j hj => stage_congr rfl (by simp [hj]), .cleared ?_ ?_ rfl⟩
    · simp [Sys.stage, hi]
    · simp [Sys.stage]

/-- A refused request stays so. -/
theorem refused_step (h : Refused s i) (hs : Step s e t) : Refused t i := by
  have hother : ∀ j p, s.post j ≠ .refusing → s.post j ≠ .answered 409 → Refused (s.setPost j p) i := by
    intro j p hj hj'
    have hne : i ≠ j := by
      rintro rfl
      exact h.elim hj hj'
    simpa [Refused, hne] using h
  cases hs with
  | @refused j body hj | @passed j body hj => exact hother j _ (by simp [hj]) (by simp [hj])
  | @refuse j hj =>
    by_cases hij : i = j
    · right
      simp [hij]
    · simpa [Refused, hij] using h
  | @release j body hj | @malformed j body hj | @start j body cmds hj | @accept j hj =>
    exact hother j _ (by simp [hj]) (by simp [hj])
  | set | command | raised | finish | clear => exact h

/-! ### The invariant -/

/-- At most one request is accepted and not over, and `busy` is set when its action has
begun. -/
structure Inv (s : Sys) : Prop where
  posted : Posted s
  alone : ∀ i j, s.stage i ≠ .out → s.stage j ≠ .out → i = j
  busy : s.busy = true ↔ ∃ i, s.stage i = .begun

theorem inv_start : Inv .start where
  posted := fun _ h => absurd rfl h
  alone := fun _ _ h => absurd rfl h
  busy := by simp [Sys.start, Sys.stage]

theorem Inv.good (h : Inv s) : Good s where
  alone i j hi hj := h.alone i j (by simp [hi.begun]) (by simp [hj.begun])
  busy i hi := h.busy.mpr ⟨i, hi.begun⟩

/-- When every request that is not out after a step was not out before it, they stay alone. -/
theorem Inv.alone_of (h : Inv s) (hsub : ∀ j, t.stage j ≠ .out → s.stage j ≠ .out) :
    ∀ j k, t.stage j ≠ .out → t.stage k ≠ .out → j = k :=
  fun j k hj hk => h.alone j k (hsub j hj) (hsub k hk)

/-- What a frame says of the stages after a step. -/
theorem begun_iff_of_frame (hframe : ∀ j, j ≠ i → t.stage j = s.stage j) (hi : t.stage i = .begun ↔ s.stage i = .begun) :
    (∃ j, t.stage j = .begun) ↔ ∃ j, s.stage j = .begun := by
  apply exists_congr
  intro j
  by_cases hj : j = i
  · rw [hj, hi]
  · rw [hframe j hj]

/-- **The step lemma**: a step keeps the invariant, if it lets no request pass its test while
another one is pending. -/
theorem inv_step (h : Inv s) (hok : Apart s e) (hs : Step s e t) : Inv t := by
  obtain ⟨i, hframe, hmoved⟩ := moved_step h.posted hs
  have hsub : s.stage i ≠ .out → ∀ j, t.stage j ≠ .out → s.stage j ≠ .out := by
    intro hi j hj
    by_cases hji : j = i
    · rwa [hji]
    · rwa [← hframe j hji]
  cases hmoved with
  | kept hi hb =>
    refine ⟨posted_step h.posted hs, h.alone_of fun j hj => ?_, ?_⟩
    · by_cases hji : j = i
      · rwa [hji, ← hi, ← hji]
      · rwa [← hframe j hji]
    · rw [hb, h.busy, begun_iff_of_frame hframe (by rw [hi])]
  | passed body he hidle hi hb =>
    subst he
    -- nothing is pending, and nothing has begun: the request is the only one
    have hout : ∀ j, s.stage j = .out := by
      intro j
      cases hj : s.stage j with
      | out => rfl
      | pending => exact absurd hj (hok hidle j)
      | begun => exact absurd (h.busy.mpr ⟨j, hj⟩) (by simp [hidle])
    have honly : ∀ j, t.stage j ≠ .out → j = i := by
      intro j hj
      by_contra hji
      exact hj ((hframe j hji).trans (hout j))
    refine ⟨posted_step h.posted hs, fun j k hj hk => (honly j hj).trans (honly k hk).symm, ?_⟩
    rw [hb, h.busy, begun_iff_of_frame hframe (by simp [hi, hout i])]
  | dropped hpend hi hb =>
    refine ⟨posted_step h.posted hs, h.alone_of (hsub (by simp [hpend])), ?_⟩
    rw [hb, h.busy, begun_iff_of_frame hframe (by simp [hi, hpend])]
  | begun hpend hi hb =>
    refine ⟨posted_step h.posted hs, h.alone_of (hsub (by simp [hpend])), ?_⟩
    exact iff_of_true hb ⟨i, hi⟩
  | cleared hbegun hi hb =>
    refine ⟨posted_step h.posted hs, h.alone_of (hsub (by simp [hbegun])), ?_⟩
    refine iff_of_false (by simp [hb]) ?_
    rintro ⟨j, hj⟩
    by_cases hji : j = i
    · rw [hji, hi] at hj
      cases hj
    · have hj' : s.stage j = .begun := (hframe j hji).symm.trans hj
      exact hji (h.alone j i (by simp [hj']) (by simp [hbegun]))

/-- **Actions exclude each other** in a run in which no request passes its test while another
one that has passed it is pending. -/
theorem exclusive_of_apart (h : AtEach Step Apart .start es) : Exclusive es where
  good := by
    intro before after s hes hrun
    rw [hes] at h
    have hI : Inv s := (h.guarded hrun).inv (fun _ _ _ hI hg => inv_step hI hg.1 hg.2) inv_start
    exact hI.good
  refused := by
    intro before i body after s t hes hrun hex hrest
    rw [hes] at h
    have hI : Inv s := (h.guarded hrun).inv (fun _ _ _ hI hg => inv_step hI hg.1 hg.2) inv_start
    obtain ⟨j, hj⟩ := hex
    have hbusy := hI.good.busy j hj
    cases hrest with
    | @cons _ u _ _ _ hs hrest =>
      have href : Refused u i := by
        cases hs with
        | refused hi hl hb =>
          left
          simp
        | passed hi hl hb => simp [hbusy] at hb
      exact hrest.inv (I := fun v => Refused v i) (fun _ _ _ => refused_step) href

/-! ### Two actions at once -/

/-- A pending request that the lock does not hold up, and that asks for a command. -/
def Wants (s : Sys) (i : ℕ) : Prop :=
  (∃ body c cmds, s.post i = .released body ∧ requested body = some (c :: cmds)) ∨
    ∃ c cmds, s.action i = .ready (c :: cmds)

/-- Such a request may begin while nothing else happens. -/
theorem begins (h : Wants s i) : ∃ es t, Run Step s es t ∧ Executing t i ∧
    ∀ j, j ≠ i → t.post j = s.post j ∧ t.action j = s.action j := by
  rcases h with ⟨body, c, cmds, hi, hc⟩ | ⟨c, cmds, hi⟩
  · have hstart := Step.start hi hc
    have hready : ((s.setPost i .started).setAction i (.ready (c :: cmds))).action i = .ready (c :: cmds) := by simp
    exact ⟨_, _, .cons hstart (.one (.set hready)), ⟨c, cmds, by simp⟩, fun j hj => ⟨by simp [hj], by simp [hj]⟩⟩
  · exact ⟨_, _, .one (.set hi), ⟨c, cmds, by simp⟩, fun j hj => ⟨rfl, by simp [hj]⟩⟩

/-- When a request passes its test while another one is pending, both may run their
commands at once. -/
theorem overlap {body : Option Json} {c : Command} {cmds : List Command} (hi : s.post i = .idle)
    (hl : s.locked = false) (hb : s.busy = false) (hc : requested body = some (c :: cmds)) (hji : j ≠ i)
    (hj : Wants s j) : ∃ es t, Run Step s (.test i body :: es) t ∧ ¬ Good t := by
  -- the request passes its test and releases the lock
  let s₁ : Sys := { s.setPost i (.passed body) with locked := true }
  let s₂ : Sys := { s₁.setPost i (.released body) with locked := false }
  have htest : Step s (.test i body) s₁ := .passed hi hl hb
  have hrelease : Step s₁ (.release i) s₂ := .release (by simp [s₁])
  have hj₂ : Wants s₂ j := by simpa [Wants, s₁, s₂, hji] using hj
  -- the pending action begins, and then its own
  obtain ⟨es, t, hrun, hexj, hframe⟩ := begins hj₂
  have hi₂ : Wants t i := by
    left
    exact ⟨body, c, cmds, by simp [(hframe i hji.symm).1, s₂], hc⟩
  obtain ⟨es', u, hrun', hexi, hframe'⟩ := begins hi₂
  refine ⟨.release i :: (es ++ es'), u, .cons htest (.cons hrelease (hrun.append hrun')), fun hgood => hji ?_⟩
  apply hgood.alone j i _ hexi
  obtain ⟨d, ds, hd⟩ := hexj
  exact ⟨d, ds, (hframe' j hji).2.trans hd⟩

/-- A request whose action runs, and one that is refused. -/
def oneByOne : List Event :=
  [.test 0 (some (.obj [("action", .str "down")])), .release 0, .start 0, .set 0,
    .test 1 (some (.obj [("action", .str "up")])), .refuse 1]

theorem exclusive_oneByOne : (∃ s, Run Step .start oneByOne s) ∧ Exclusive oneByOne := by
  constructor
  · refine ⟨_, .cons (.passed rfl rfl rfl) (.cons (.release rfl) (.cons (.start rfl rfl) (.cons (.set rfl)
      (.cons (.refused rfl rfl rfl) (.one (.refuse rfl))))))⟩
  · apply exclusive_of_apart
    have hidle : ∀ j, Sys.start.stage j ≠ .pending := by simp [Sys.start, Sys.stage]
    refine atEach_cons.mpr ⟨fun _ => hidle, fun s₁ h₁ => ?_⟩
    refine atEach_cons.mpr ⟨trivial, fun s₂ h₂ => atEach_cons.mpr ⟨trivial, fun s₃ h₃ => ?_⟩⟩
    refine atEach_cons.mpr ⟨trivial, fun s₄ h₄ => atEach_cons.mpr ⟨?_, fun s₅ h₅ => ?_⟩⟩
    · cases h₄ with
      | set hi =>
        intro hidle
        cases hidle
    · exact .of_forall (by simp [Apart])

/-- Two requests that pass the test before either action begins run their commands at once. -/
theorem not_exclusive : ¬ ∀ es, Exclusive es := by
  intro h
  let down : Option Json := some (.obj [("action", .str "down")])
  let s₁ : Sys := { Sys.start.setPost 0 (.passed down) with locked := true }
  let s₂ : Sys := { s₁.setPost 0 (.released down) with locked := false }
  have hfirst : Run Step .start [.test 0 down, .release 0] s₂ := .cons (.passed rfl rfl rfl) (.one (.release rfl))
  have hpending : Wants s₂ 0 := .inl ⟨down, .down, [], rfl, rfl⟩
  have hsecond : s₂.post 1 = .idle := by simp [s₂, s₁, Sys.start]
  obtain ⟨es, t, hrun, hbad⟩ := overlap hsecond rfl rfl (rfl : requested down = some [.down]) (by decide) hpending
  exact hbad ((h _).good _ [] t (List.append_nil _).symm (hfirst.append hrun))

end Persona.Panel
