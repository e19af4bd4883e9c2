import Persona.Memory.Retirement
import Mathlib.Algebra.Order.Group.Defs
import Mathlib.Algebra.Order.Group.Int

/-!
# When the sleep cycle runs

`_sleep_cycle_loop` and `_track_activity` against a clock: the loop sleeps, looks whether there was a request
within `SLEEP_CYCLE_IDLE_S`, and if not begins a pass, which looks again before each conversation. What a
pass does is `Memory.Step`; here it is told the time.

`quiet_before_pass` says that neither a pass begins nor a conversation is entered within `SLEEP_CYCLE_IDLE_S`
after the beginning of a tracked request, in every run. A request that takes longer than that is not waited for.
`pass_begins` bounds the other direction: without tracked requests a pass begins within `SLEEP_CYCLE_CHECK_S` of
the time at which it may, however often `/health` is polled.

The event and the hygiene pass that follow a pass are left out.
-/

namespace Persona.Memory

open Persona.Lib

variable {V τ : Type*} [AddCommGroup τ] [LinearOrder τ]

/-- The settings of the loop. -/
structure LoopConfig (τ : Type*) where
  /-- `SLEEP_CYCLE_IDLE_S`. -/
  idle : τ
  /-- `SLEEP_CYCLE_CHECK_S`. -/
  check : τ
  /-- `SLEEP_CYCLE_ENABLED and _rag_ok and _embedder is not None and _convo_ok`. -/
  ready : Bool
  settings : Settings

/-- The server, as far as the loop sees it. -/
structure Loop (V τ : Type*) where
  now : τ
  /-- `_last_activity`. -/
  lastActivity : τ
  world : World V
  /-- Until when the loop sleeps; `none` in a pass. -/
  asleep : Option τ

/-- `_track_activity` leaves these paths out. -/
def tracked (path : String) : Bool := path ∉ ["/health", "/favicon.ico", "/"]

/-- What happens. -/
inductive LoopEv (V τ : Type*) where
  /-- Time passes. -/
  | wait (dt : τ)
  /-- A request begins. -/
  | request (path : String)
  /-- A request writes to the conversations. -/
  | write (e : Ev V)
  /-- The loop wakes; `raises` if the conversations cannot be read. -/
  | wake (raises : Bool)
  /-- A pass turns to its next row. -/
  | row
  /-- The distiller of a pass ends. -/
  | answer (R : Reply V)

/-- A write of a request. -/
def Ev.isWrite : Ev V → Bool
  | .addTurn .. | .newConversation .. | .deleteConversation .. => true
  | _ => false

namespace Loop

variable (C : LoopConfig τ) (s : Loop V τ)

/-- `(time.monotonic() - _last_activity) >= SLEEP_CYCLE_IDLE_S`. -/
def quiet : Bool := C.idle ≤ s.now - s.lastActivity

/-- A pass has made a step: the loop sleeps when it is over. -/
def after (w : World V) : Loop V τ :=
  { s with
    world := w
    asleep := match w.pc with
      | .idle => some (s.now + C.check)
      | _ => none }

/-- The steps. -/
inductive Step : Loop V τ → LoopEv V τ → Loop V τ → Prop
  | wait {s dt} (h : 0 ≤ dt) : Step s (.wait dt) { s with now := s.now + dt }
  | request {s path} : Step s (.request path) { s with lastActivity := if tracked path then s.now else s.lastActivity }
  | write {s e w} (he : e.isWrite = true) (h : Memory.Step s.world e w) : Step s (.write e) { s with world := w }
  | busy {s u raises} (hu : s.asleep = some u) (hle : u ≤ s.now) (h : (C.ready && s.quiet C) = false) :
      Step s (.wake raises) { s with asleep := some (s.now + C.check) }
  | raised {s u} (hu : s.asleep = some u) (hle : u ≤ s.now) (h : (C.ready && s.quiet C) = true) :
      Step s (.wake true) { s with asleep := some (s.now + C.check) }
  | begins {s u w} (hu : s.asleep = some u) (hle : u ≤ s.now) (h : (C.ready && s.quiet C) = true)
      (hw : Memory.Step s.world (.start C.settings) w) : Step s (.wake false) { s with world := w, asleep := none }
  | row {s w} (hpass : s.asleep = none) (h : Memory.Step s.world (.row (s.quiet C)) w) : Step s .row (s.after C w)
  | answer {s R w} (hpass : s.asleep = none) (h : Memory.Step s.world (.answer R) w) : Step s (.answer R) (s.after C w)

end Loop

/-- A step begins a pass or enters a conversation. -/
def Works (s t : Loop V τ) : Prop :=
  (s.asleep.isSome = true ∧ t.asleep = none) ∨ ∃ S c rest, t.world.pc = .distilling S c rest ∧ s.world.pc ≠ .distilling S c rest

/-! ### No work right after a request -/

section Quiet

variable {C : LoopConfig τ} {s s' t t' : Loop V τ} {e : LoopEv V τ} {es : List (LoopEv V τ)} {a : τ}

/-- The clock does not go back, nor does the time of the last activity. -/
structure Since (a : τ) (s : Loop V τ) : Prop where
  now : a ≤ s.now
  lastActivity : a ≤ s.lastActivity

theorem Since.step [IsOrderedAddMonoid τ] (h : Since a s) (hstep : s.Step C e t) : Since a t := by
  cases hstep with
  | wait hdt => exact ⟨h.now.trans (le_add_of_nonneg_right hdt), h.lastActivity⟩
  | request =>
    refine ⟨h.now, ?_⟩
    dsimp only
    split_ifs
    · exact h.now
    · exact h.lastActivity
  | write => exact ⟨h.now, h.lastActivity⟩
  | busy => exact ⟨h.now, h.lastActivity⟩
  | raised => exact ⟨h.now, h.lastActivity⟩
  | begins => exact ⟨h.now, h.lastActivity⟩
  | row => exact ⟨h.now, h.lastActivity⟩
  | answer => exact ⟨h.now, h.lastActivity⟩

/-- A write leaves the pass where it is. -/
theorem pc_of_isWrite {w w' : World V} {e : Ev V} (he : e.isWrite = true) (h : Memory.Step w e w') : w'.pc = w.pc := by
  cases h with
  | addTurn => rfl
  | newConversation => rfl
  | deleteConversation => rfl
  | start => cases he
  | done => cases he
  | stop => cases he
  | skip => cases he
  | call => cases he
  | answer => cases he

/-- A row that is entered was entered in quiet. -/
theorem quiet_of_row {w w' : World V} {go : Bool} (h : Memory.Step w (.row go) w') {S : Settings} {c : Call}
    {rest : List Db.Pending} (hpc : w'.pc = .distilling S c rest) : go = true := by
  cases h with
  | done h => cases hpc
  | stop h he => cases hpc
  | skip h he => cases hpc
  | call h he =>
    cases go with
    | true => rfl
    | false =>
      rw [enterRow] at he
      simp at he

/-- **What a pass does anew it does in quiet.** -/
theorem quiet_of_works (hstep : s.Step C e t) (hworks : Works s t) : s.quiet C = true := by
  have hquiet : ∀ {p : Bool}, (C.ready && p) = true → p = true := fun h => (Bool.and_eq_true_iff.mp h).2
  cases hstep with
  | wait hdt =>
    rcases hworks with ⟨hsome, hnone⟩ | ⟨S, c, rest, hpc, hne⟩
    · rw [hnone] at hsome
      cases hsome
    · exact absurd hpc hne
  | request =>
    rcases hworks with ⟨hsome, hnone⟩ | ⟨S, c, rest, hpc, hne⟩
    · rw [hnone] at hsome
      cases hsome
    · exact absurd hpc hne
  | write he h =>
    rcases hworks with ⟨hsome, hnone⟩ | ⟨S, c, rest, hpc, hne⟩
    · rw [hnone] at hsome
      cases hsome
    · exact absurd ((pc_of_isWrite he h).symm.trans hpc) hne
  | busy =>
    rcases hworks with ⟨-, hnone⟩ | ⟨S, c, rest, hpc, hne⟩
    · cases hnone
    · exact absurd hpc hne
  | raised hu hle h => exact hquiet h
  | begins hu hle h hw => exact hquiet h
  | row hpass h =>
    rcases hworks with ⟨hsome, -⟩ | ⟨S, c, rest, hpc, -⟩
    · rw [hpass] at hsome
      cases hsome
    · exact quiet_of_row h hpc
  | answer hpass h =>
    rcases hworks with ⟨hsome, -⟩ | ⟨S, c, rest, hpc, -⟩
    · rw [hpass] at hsome
      cases hsome
    · cases h with
      | answer hd =>
        dsimp only [Loop.after] at hpc
        split_ifs at hpc

/-- **Requests come first.** In every run, neither does a pass begin nor is a conversation entered within
`SLEEP_CYCLE_IDLE_S` after a tracked request has begun. -/
theorem quiet_before_pass [IsOrderedAddMonoid τ] {path : String} (hpath : tracked path = true) (hrequest : s.Step C (.request path) s')
    (hrun : Run (Loop.Step C) s' es t) (hstep : t.Step C e t') (hworks : Works t t') : s.now + C.idle ≤ t.now := by
  have hsince : Since s.now s' := by
    cases hrequest with
    | request => exact ⟨le_rfl, by rw [if_pos hpath]⟩
  have hend := hrun.inv (I := Since s.now) (fun _ _ _ h hs => h.step hs) hsince
  have hquiet := of_decide_eq_true (quiet_of_works hstep hworks)
  calc s.now + C.idle ≤ t.lastActivity + C.idle := add_le_add_left hend.lastActivity C.idle
    _ ≤ t.lastActivity + (t.now - t.lastActivity) := add_le_add_right hquiet t.lastActivity
    _ = t.now := add_sub_cancel t.lastActivity t.now

end Quiet

/-! ### Work after the requests -/

section Progress

variable {C : LoopConfig τ} {s₀ s t : Loop V τ} {e : LoopEv V τ} {es es₀ : List (LoopEv V τ)} {bound : τ}

/-- The loop sleeps no longer than it says, the conversations can be read, and no request is tracked. -/
def Undisturbed (s : Loop V τ) : LoopEv V τ → Prop
  | .wait dt => ∀ u, s.asleep = some u → s.now + dt ≤ u
  | .request path => tracked path = false
  | .wake raises => raises = false
  | _ => True

/-- A pass begins in the run. -/
def PassBegins (C : LoopConfig τ) (s : Loop V τ) (es : List (LoopEv V τ)) : Prop :=
  ∃ before after m m', es = before ++ .wake false :: after ∧ Run (Loop.Step C) s before m ∧ m.Step C (.wake false) m' ∧
    m'.asleep = none

theorem PassBegins.cons (hstep : s.Step C e t) (h : PassBegins C t es) : PassBegins C s (e :: es) := by
  obtain ⟨before, after, m, m', hes, hrun, hwake, hnone⟩ := h
  exact ⟨e :: before, after, m, m', by rw [hes, List.cons_append], .cons hstep hrun, hwake, hnone⟩

/-- The loop sleeps for `SLEEP_CYCLE_CHECK_S` at most. -/
theorem asleep_le_step [IsOrderedAddMonoid τ] (h : ∀ u, s.asleep = some u → u ≤ s.now + C.check) (hstep : s.Step C e t) :
    ∀ u, t.asleep = some u → u ≤ t.now + C.check := by
  intro u hu
  have hnew : ∀ {now : τ}, some (now + C.check) = some u → u ≤ now + C.check := fun h => (Option.some.inj h).ge
  cases hstep with
  | wait hdt => exact (h u hu).trans (add_le_add_left (le_add_of_nonneg_right hdt) C.check)
  | request => exact h u hu
  | write => exact h u hu
  | busy => exact hnew hu
  | raised => exact hnew hu
  | begins => cases hu
  | row =>
    dsimp only [Loop.after] at hu
    split at hu
    · exact hnew hu
    · cases hu
  | answer =>
    dsimp only [Loop.after] at hu
    split at hu
    · exact hnew hu
    · cases hu

/-- What holds until a pass begins: the loop is to wake before the bound. -/
structure Sleeping (C : LoopConfig τ) (bound : τ) (s : Loop V τ) : Prop where
  now : s.now ≤ bound
  wakes : ∃ u, s.asleep = some u ∧ u ≤ bound
  last : s.lastActivity + C.idle + C.check ≤ bound

/-- A step of an undisturbed loop begins a pass, or the loop is still to wake before the bound. -/
theorem Sleeping.step [IsOrderedAddMonoid τ] (hready : C.ready = true) (h : Sleeping C bound s) (hstep : s.Step C e t)
    (hundisturbed : Undisturbed s e) : (e = .wake false ∧ t.asleep = none) ∨ Sleeping C bound t := by
  obtain ⟨u, hu, hbound⟩ := h.wakes
  cases hstep with
  | wait hdt => exact .inr ⟨(hundisturbed u hu).trans hbound, ⟨u, hu, hbound⟩, h.last⟩
  | request =>
    refine .inr ⟨h.now, ⟨u, hu, hbound⟩, ?_⟩
    have hnot : ¬ tracked _ = true := Bool.eq_false_iff.mp hundisturbed
    dsimp only
    rw [if_neg hnot]
    exact h.last
  | write => exact .inr ⟨h.now, ⟨u, hu, hbound⟩, h.last⟩
  | busy hu' hle hbusy =>
    -- There was a request within the idle time, so that the next time to look is early enough.
    rw [hready, Bool.true_and, Loop.quiet, decide_eq_false_iff_not, not_le] at hbusy
    have hlt : s.now < s.lastActivity + C.idle := sub_lt_iff_lt_add'.mp hbusy
    exact .inr ⟨h.now, ⟨_, rfl, (add_le_add_left hlt.le C.check).trans h.last⟩, h.last⟩
  | raised => cases hundisturbed
  | begins => exact .inl ⟨rfl, rfl⟩
  | row hpass =>
    rw [hpass] at hu
    cases hu
  | answer hpass =>
    rw [hpass] at hu
    cases hu

/-- **Consolidation is not put off.** When the loop sleeps and no tracked request comes, a pass begins at most
`SLEEP_CYCLE_CHECK_S` after the time at which it may, which is at once or `SLEEP_CYCLE_IDLE_S` after the last tracked
request. Requests that are not tracked change nothing. -/
theorem pass_begins [IsOrderedAddMonoid τ] (hready : C.ready = true) (hstart : ∀ u, s₀.asleep = some u → u ≤ s₀.now + C.check)
    (hreach : Run (Loop.Step C) s₀ es₀ s) (hasleep : s.asleep ≠ none) (hrun : Run (Loop.Step C) s es t)
    (hundisturbed : AtEach (Loop.Step C) Undisturbed s es) (hpositive : 0 ≤ C.check)
    (hlate : max (s.lastActivity + C.idle) s.now + C.check < t.now) : PassBegins C s es := by
  have hsleeping : Sleeping C (max (s.lastActivity + C.idle) s.now + C.check) s := by
    obtain ⟨u, hu⟩ := Option.ne_none_iff_exists'.mp hasleep
    have hle := hreach.inv (I := fun s => ∀ u, s.asleep = some u → u ≤ s.now + C.check) (fun _ _ _ h hs => asleep_le_step h hs)
      hstart u hu
    have hmax : s.now + C.check ≤ max (s.lastActivity + C.idle) s.now + C.check := add_le_add_left (le_max_right _ _) C.check
    exact ⟨(le_add_of_nonneg_right hpositive).trans hmax, ⟨u, hu, hle.trans hmax⟩, add_le_add_left (le_max_left _ _) C.check⟩
  generalize max (s.lastActivity + C.idle) s.now + C.check = bound at hsleeping hlate
  clear hreach hasleep hstart
  induction hrun with
  | nil => exact absurd hlate hsleeping.now.not_gt
  | @cons s m t e es hstep hrest ih =>
    obtain ⟨hfirst, hafter⟩ := atEach_cons.mp hundisturbed
    rcases hsleeping.step hready hstep hfirst with ⟨rfl, hnone⟩ | hsleeping
    · exact ⟨[], es, s, m, rfl, .nil, hstep, hnone⟩
    · exact (ih (hafter m hstep) hsleeping hlate).cons hstep

end Progress

/-! ### A quiet night -/

/-- Five minutes of quiet, looked for every minute. -/
def defaultLoop : LoopConfig ℤ := ⟨300, 60, true, oneConvo⟩

/-- The last request was five minutes ago, and the loop is to wake. -/
def evening : Loop ℤ ℤ := ⟨0, -300, ⟨⟨.empty, [], [], [], []⟩, .idle, []⟩, some 0⟩

/-- A pass has begun. -/
def passing : Loop ℤ ℤ := { evening with world := { evening.world with pc := .rows oneConvo [] }, asleep := none }

theorem step_passing : evening.Step defaultLoop (.wake false) passing := .begins rfl le_rfl rfl (.start rfl)

theorem quiet_before_pass_evening : ({ evening with now := -300 } : Loop ℤ ℤ).now + defaultLoop.idle ≤ evening.now := by
  have hrequest : Loop.Step defaultLoop { evening with now := -300 } (.request "/chat") { evening with now := -300 } := .request
  have hwait : Loop.Step defaultLoop { evening with now := -300 } (.wait 300) evening := .wait (by omega)
  exact quiet_before_pass rfl hrequest (.one hwait) step_passing (.inl ⟨rfl, rfl⟩)

theorem pass_begins_evening : PassBegins defaultLoop evening [.wake false, .wait 61] := by
  have hwait : passing.Step defaultLoop (.wait 61) { passing with now := 61 } := .wait (by omega)
  have hundisturbed : AtEach (Loop.Step defaultLoop) Undisturbed evening [.wake false, .wait 61] := by
    refine atEach_cons.mpr ⟨rfl, fun t ht => atEach_cons.mpr ⟨?_, fun _ _ => atEach_nil⟩⟩
    cases ht with
    | busy hu hle h => cases h
    | begins hu hle h hw =>
      intro u hu
      cases hu
  exact pass_begins rfl (fun u hu => by cases hu; decide) .nil nofun (.cons step_passing (.one hwait)) hundisturbed (by decide)
    (by decide)

end Persona.Memory
