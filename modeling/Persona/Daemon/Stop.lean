import Persona.Daemon.Policy
import Persona.Lib.Run
import Mathlib.Data.Fintype.Basic

/-!
# Stopping the supervisor

`Supervisor.stop` and the `_supervise` tasks are coroutines of one event loop: each runs
alone from one `await` to the next. `Step` is one such turn of a task or of `stop`, or
the exit of a process; the turns of one child that is left alone are the loop of
`Persona.Daemon.Policy` (`supervise_run`).

A launch starts its process at once and then awaits its pipes (`launching`); only after
that does the task record the process in its child. `stop` signals the processes that
are recorded when it begins, and so misses those of the launches that are under way:
such a task goes on to record its process during the grace period, and is then
cancelled while it waits for it, and nobody ever signals that process
(`stop_not_clean`). When no launch is under way, `stop_clean` says that all is well.
-/

namespace Persona.Daemon

open Persona.Lib

/-- A process that was launched, as the event loop knows it. -/
structure Process where
  returncode : Option ℤ
  /-- It was sent terminate or kill. -/
  signalled : Bool

/-- It has exited or was told to. -/
def Process.Ended (q : Process) : Prop := q.returncode.isSome = true ∨ q.signalled = true

def Process.signal (q : Process) : Process := { q with signalled := true }

/-- Where a `_supervise` task is. -/
inductive Pc where
  /-- Not run yet. -/
  | new
  /-- In `_launch`: `create_subprocess_exec` has started the process and awaits its pipes. -/
  | launching (pid : ℕ)
  /-- In `c.proc.wait()`. -/
  | waiting (pid : ℕ)
  /-- In the backoff. -/
  | sleeping
  | ended
  deriving DecidableEq

/-- Where `stop` is. -/
inductive StopPc (ι : Type*) where
  | idle
  /-- It awaits the processes of the live children, for the grace period at most. -/
  | grace (live : ι → Option ℕ)
  /-- It awaits the event bus. -/
  | bus
  | returned

/-- The supervisor, with the children `ι`. -/
structure Sys (ι τ : Type*) where
  stopping : Bool
  child : ι → Child τ
  task : ι → Pc
  /-- The tasks have been cancelled. -/
  cancelled : Bool
  /-- The processes launched, by their pids. -/
  procs : ℕ → Option Process
  stop : StopPc ι

variable {ι τ : Type*}

namespace Sys

/-- After `start()`. -/
def init [Zero τ] : Sys ι τ := ⟨false, fun _ => .new, fun _ => .new, false, fun _ => none, .idle⟩

/-- The task is about to test `self._stopping`. -/
def AtHead (s : Sys ι τ) (i : ι) : Prop := s.task i = .new ∨ s.task i = .sleeping

/-- `c.proc`, if its `returncode` is `None`. -/
def live (s : Sys ι τ) (i : ι) : Option ℕ :=
  (s.child i).proc.filter fun pid => (s.procs pid).any fun q => q.returncode.isNone

/-- The end of `stop`: the tasks are cancelled, and the bus is awaited, if there is one. -/
def finish (hasBus : Bool) (s : Sys ι τ) : Sys ι τ :=
  { s with cancelled := true, stop := if hasBus then .bus else .returned }

variable [Fintype ι]

/-- The given processes are signalled. -/
def signal (pids : ι → Option ℕ) (s : Sys ι τ) : Sys ι τ :=
  { s with procs := fun pid => if ∃ i, pids i = some pid then (s.procs pid).map .signal else s.procs pid }

variable [DecidableEq ι]

def setTask (i : ι) (pc : Pc) (s : Sys ι τ) : Sys ι τ := { s with task := Function.update s.task i pc }

def setChild (i : ι) (c : Child τ) (s : Sys ι τ) : Sys ι τ := { s with child := Function.update s.child i c }

def setProc (pid : ℕ) (q : Process) (s : Sys ι τ) : Sys ι τ :=
  { s with procs := Function.update s.procs pid (some q) }

end Sys

/-- Where the task goes after an exit. -/
def Child.next (c : Child τ) : Pc := if c.state = .restarting then .sleeping else .ended

/-- What happens. -/
inductive Ev (ι τ : Type*) where
  /-- A task at the head of its loop finds the supervisor stopping. -/
  | leave (i : ι)
  /-- A task launches its child: the process starts, -/
  | spawn (i : ι) (now : τ) (pid : ℕ)
  /-- or it does not. -/
  | spawnFailed (i : ι) (now now' : τ)
  /-- The launch is complete, -/
  | launched (i : ι)
  /-- or it fails once the process has started, which kills it. -/
  | connectFailed (i : ι) (rc : ℤ) (now : τ)
  /-- The wait for the process is over. -/
  | reaped (i : ι) (now : τ)
  /-- A cancelled task ends; one that is launching kills its process. -/
  | cancel (i : ι)
  /-- A process exits. -/
  | exit (pid : ℕ) (rc : ℤ)
  /-- `stop()` is called. -/
  | stop
  /-- The live processes have exited, or the grace period is over. -/
  | graceOver (timeout : Bool)
  | busStopped

section Step

variable [Fintype ι] [DecidableEq ι] [LinearOrder τ] [Sub τ]

/-- The steps. A task that is cancelled takes no other step than `cancel`. -/
inductive Step (p : Policy τ) (hasBus : Bool) (s : Sys ι τ) : Ev ι τ → Sys ι τ → Prop
  | leave {i} (hc : s.cancelled = false) (hi : s.AtHead i) (hs : s.stopping = true) :
      Step p hasBus s (.leave i) (s.setTask i .ended)
  | spawn {i now pid} (hc : s.cancelled = false) (hi : s.AtHead i) (hs : s.stopping = false)
      (hpid : s.procs pid = none) :
      Step p hasBus s (.spawn i now pid)
        (((s.setChild i ((s.child i).starting now)).setTask i (.launching pid)).setProc pid ⟨none, false⟩)
  | spawnFailed {i now now' c} (hc : s.cancelled = false) (hi : s.AtHead i) (hs : s.stopping = false)
      (hchild : c = (((s.child i).starting now).launchFailed).exited p s.stopping (-1) now') :
      Step p hasBus s (.spawnFailed i now now') ((s.setChild i c).setTask i c.next)
  | launched {i pid} (hc : s.cancelled = false) (hi : s.task i = .launching pid) :
      Step p hasBus s (.launched i) ((s.setChild i ((s.child i).launched pid)).setTask i (.waiting pid))
  | connectFailed {i pid q rc now c} (hc : s.cancelled = false) (hi : s.task i = .launching pid)
      (hq : s.procs pid = some q) (hchild : c = ((s.child i).launchFailed).exited p s.stopping (-1) now) :
      Step p hasBus s (.connectFailed i rc now)
        (((s.setChild i c).setTask i c.next).setProc pid ⟨some rc, true⟩)
  | reaped {i pid q rc now c} (hc : s.cancelled = false) (hi : s.task i = .waiting pid)
      (hq : s.procs pid = some q) (hrc : q.returncode = some rc)
      (hchild : c = (s.child i).exited p s.stopping rc now) :
      Step p hasBus s (.reaped i now) ((s.setChild i c).setTask i c.next)
  | cancelLaunch {i pid q} (hc : s.cancelled = true) (hi : s.task i = .launching pid) (hq : s.procs pid = some q) :
      Step p hasBus s (.cancel i) ((s.setTask i .ended).setProc pid q.signal)
  | cancel {i} (hc : s.cancelled = true) (hi : ∀ pid, s.task i ≠ .launching pid) :
      Step p hasBus s (.cancel i) (s.setTask i .ended)
  | exit {pid q rc} (hq : s.procs pid = some q) (hrc : q.returncode = none) :
      Step p hasBus s (.exit pid rc) (s.setProc pid { q with returncode := some rc })
  | stop (h : s.stop = .idle) (hlive : ∃ i, (s.live i).isSome) :
      Step p hasBus s .stop { s.signal s.live with stopping := true, stop := .grace s.live }
  | stopQuiet (h : s.stop = .idle) (hlive : ∀ i, s.live i = none) :
      Step p hasBus s .stop ({ s with stopping := true }.finish hasBus)
  | graceOver {live} (h : s.stop = .grace live)
      (hall : ∀ i pid, live i = some pid → ∃ q, s.procs pid = some q ∧ q.returncode.isSome) :
      Step p hasBus s (.graceOver false) (s.finish hasBus)
  | graceTimeout {live} (h : s.stop = .grace live) :
      Step p hasBus s (.graceOver true) ((s.signal fun i => (live i).bind fun _ => s.live i).finish hasBus)
  | busStopped (h : s.stop = .bus) : Step p hasBus s .busStopped { s with stop := .returned }

end Step

/-! ### One child, left alone -/

section Alone

variable [Fintype ι] [DecidableEq ι] [LinearOrder τ] [Sub τ] {p : Policy τ} {s : Sys ι τ} {i : ι}

/-- No stop is requested. -/
structure Up (s : Sys ι τ) : Prop where
  stopping : s.stopping = false
  cancelled : s.cancelled = false

/-- One lifetime of a child is its steps. -/
theorem live_run (hasBus : Bool) (hup : Up s) (hi : s.AtHead i) {r : Lifetime τ} (hpid : ∀ q ∈ r.process, s.procs q.1 = none) :
    ∃ es s', Run (Step p hasBus) s es s' ∧ Up s' ∧ s'.child i = (s.child i).live p r ∧
      s'.task i = (s'.child i).next ∧ ∀ pid, (∀ q ∈ r.process, q.1 ≠ pid) → s'.procs pid = s.procs pid := by
  obtain ⟨hs, hc⟩ := hup
  cases hr : r.process with
  | none =>
    refine ⟨[.spawnFailed i r.begun r.ended], _, .one (.spawnFailed hc hi hs rfl), ⟨hs, hc⟩, ?_, ?_, fun _ _ => rfl⟩
    · simp [Sys.setTask, Sys.setChild, Child.live, hr, hs]
    · simp [Sys.setTask, Sys.setChild]
  | some q =>
    obtain ⟨pid, rc⟩ := q
    have hnone : s.procs pid = none := hpid (pid, rc) hr
    refine ⟨[.spawn i r.begun pid, .launched i, .exit pid rc, .reaped i r.ended], _,
      .cons (.spawn hc hi hs hnone) (.cons (.launched hc (Function.update_self ..))
        (.cons (.exit (Function.update_self ..) rfl) (.one (.reaped hc (Function.update_self ..)
          (Function.update_self ..) rfl rfl)))), ⟨hs, hc⟩, ?_, ?_, fun pid' hne => ?_⟩
    · simp [Sys.setTask, Sys.setChild, Sys.setProc, Child.live, hr, hs]
    · simp [Sys.setTask, Sys.setChild, Sys.setProc]
    · have hpid' : pid' ≠ pid := fun heq => hne (pid, rc) rfl heq.symm
      simp [Sys.setTask, Sys.setChild, Sys.setProc, hpid']

/-- **`_supervise`**, as long as no stop is requested, is its steps. -/
theorem supervise_run (hasBus : Bool) {l : List (Lifetime τ)} (hup : Up s) (hi : s.AtHead i)
    (hnd : ((l.filterMap Lifetime.process).map Prod.fst).Nodup)
    (hfresh : ∀ q ∈ l.filterMap Lifetime.process, s.procs q.1 = none) :
    ∃ es s', Run (Step p hasBus) s es s' ∧ s'.child i = supervise p (s.child i) l := by
  induction l generalizing s with
  | nil => exact ⟨[], s, .nil, rfl⟩
  | cons r l ih =>
    have hpid : ∀ q ∈ r.process, s.procs q.1 = none := fun q hq =>
      hfresh q (List.mem_filterMap.mpr ⟨r, List.mem_cons_self, hq⟩)
    obtain ⟨es₁, s₁, hrun₁, hup₁, hchild, htask, hprocs⟩ := live_run (p := p) hasBus hup hi hpid
    rw [supervise]
    split_ifs with hgo
    · have hi₁ : s₁.AtHead i := by
        right
        rw [htask, hchild, Child.next, if_pos hgo]
      -- the pids of the lifetimes to come are still free
      have hother : ∀ q ∈ l.filterMap Lifetime.process, ∀ q' ∈ r.process, q'.1 ≠ q.1 := by
        intro q hq q' hq' heq
        rw [List.filterMap_cons_some hq', List.map_cons, List.nodup_cons] at hnd
        exact hnd.1 (heq ▸ List.mem_map_of_mem hq)
      have hsub := (List.sublist_cons_self r l).filterMap Lifetime.process
      obtain ⟨es₂, s₂, hrun₂, hchild₂⟩ := ih hup₁ hi₁ (hnd.sublist (hsub.map _)) fun q hq => by
        rw [hprocs q.1 (hother q hq)]
        exact hfresh q (hsub.subset hq)
      rw [hchild] at hchild₂
      exact ⟨es₁ ++ es₂, s₂, hrun₁.append hrun₂, hchild₂⟩
    · exact ⟨es₁, s₁, hrun₁, hchild⟩

end Alone

/-! ### One step -/

section Lemmas

variable {s s' : Sys ι τ} {pid : ℕ} {i : ι}

theorem setProc_procs {q : Process} (pid' : ℕ) (hend : q.Ended) (hsome : (s.procs pid').isSome = true) :
    (s.setProc pid' q).procs pid = s.procs pid ∨
      ∃ q', (s.setProc pid' q).procs pid = some q' ∧ q'.Ended ∧ (s.procs pid).isSome = true := by
  by_cases h : pid = pid'
  · subst h
    exact .inr ⟨q, Function.update_self .., hend, hsome⟩
  · exact .inl (Function.update_of_ne h ..)

variable [Fintype ι]

theorem signal_procs (pids : ι → Option ℕ) (pid : ℕ) : (s.signal pids).procs pid = s.procs pid ∨
    ∃ q, (s.signal pids).procs pid = some q ∧ q.Ended ∧ (s.procs pid).isSome = true := by
  simp only [Sys.signal]
  split_ifs with hmem
  · cases hq : s.procs pid with
    | none => exact .inl rfl
    | some q => exact .inr ⟨q.signal, rfl, .inr rfl, rfl⟩
  · exact .inl rfl

/-- A live process is signalled. -/
theorem ended_of_signal {pids : ι → Option ℕ} {q : Process} (hpid : pids i = some pid)
    (hq : (s.signal pids).procs pid = some q) : q.Ended := by
  unfold Sys.signal at hq
  dsimp only at hq
  rw [if_pos ⟨i, hpid⟩, Option.map_eq_some_iff] at hq
  obtain ⟨q₀, -, rfl⟩ := hq
  exact .inr rfl

variable [DecidableEq ι] [LinearOrder τ] [Sub τ] {p : Policy τ} {hasBus : Bool} {e : Ev ι τ}

/-- What a step makes of a process: it leaves it, or ends it, or launches it. -/
theorem step_procs (h : Step p hasBus s e s') (pid : ℕ) :
    s'.procs pid = s.procs pid ∨ (∃ q, s'.procs pid = some q ∧ q.Ended ∧ (s.procs pid).isSome = true) ∨
      (s.stopping = false ∧ s.procs pid = none ∧ ∃ i, s'.task i = .launching pid) := by
  cases h with
  | leave | launched | spawnFailed | reaped | cancel | stopQuiet | graceOver | busStopped => exact .inl rfl
  | @spawn i now pid' hc hi hs hpid =>
    by_cases heq : pid = pid'
    · subst heq
      exact .inr (.inr ⟨hs, hpid, i, Function.update_self ..⟩)
    · exact .inl (Function.update_of_ne heq ..)
  | connectFailed hc hi hq =>
    exact (setProc_procs _ (.inl rfl) (by rw [Sys.setTask, Sys.setChild, hq]; rfl)).imp_right .inl
  | cancelLaunch hc hi hq =>
    exact (setProc_procs _ (.inr rfl) (by rw [Sys.setTask, hq]; rfl)).imp_right .inl
  | exit hq hrc => exact (setProc_procs _ (.inl rfl) (by rw [hq]; rfl)).imp_right .inl
  | stop => exact (signal_procs _ pid).imp_right .inl
  | graceTimeout => exact (signal_procs _ pid).imp_right .inl

/-- No task begins to launch while the supervisor is stopping. -/
theorem step_launching (h : Step p hasBus s e s') (hs : s.stopping = true) (hi : s'.task i = .launching pid) :
    s.task i = .launching pid := by
  have hset : ∀ j pc, (∀ pid, pc ≠ Pc.launching pid) → Function.update s.task j pc i = .launching pid →
      s.task i = .launching pid := by
    intro j pc hpc heq
    by_cases hij : i = j
    · subst hij
      rw [Function.update_self] at heq
      exact absurd heq (hpc pid)
    · rwa [Function.update_of_ne hij] at heq
  have hnext : ∀ (c : Child τ) pid, c.next ≠ .launching pid := by
    intro c pid
    rw [Child.next]
    split_ifs <;> simp
  cases h with
  | spawn _ _ hs' => rw [hs] at hs'; cases hs'
  | spawnFailed _ _ hs' => rw [hs] at hs'; cases hs'
  | leave => exact hset _ _ (by simp) hi
  | launched => exact hset _ _ (by simp) hi
  | connectFailed => exact hset _ _ (hnext _) hi
  | reaped => exact hset _ _ (hnext _) hi
  | cancelLaunch => exact hset _ _ (by simp) hi
  | cancel => exact hset _ _ (by simp) hi
  | exit | stop | stopQuiet | graceOver | graceTimeout | busStopped => exact hi

end Lemmas

/-! ### The invariant -/

/-- A task that is in charge of a process. -/
def Holds (s : Sys ι τ) (i : ι) (pid : ℕ) : Prop :=
  s.task i = .launching pid ∨ (s.task i = .waiting pid ∧ (s.child i).proc = some pid)

/-- Before `stop`, every process has ended or has a task in charge; after it has begun,
every process has ended and none is being launched. -/
structure Inv (s : Sys ι τ) : Prop where
  idle : s.stopping = false → s.stop = .idle ∧ s.cancelled = false
  held : s.stopping = false → ∀ pid q, s.procs pid = some q → q.Ended ∨ ∃ i, Holds s i pid
  ended : s.stopping = true → (∀ i pid, s.task i ≠ .launching pid) ∧ ∀ pid q, s.procs pid = some q → q.Ended

/-- The side condition: `stop` is not called while a launch is under way. -/
def NoLaunch (s : Sys ι τ) (e : Ev ι τ) : Prop := e = .stop → ∀ i pid, s.task i ≠ .launching pid

section Inv

variable {s s' : Sys ι τ}

theorem Holds.congr {i : ι} {pid : ℕ} (h : Holds s i pid) (ht : s'.task i = s.task i) (hc : s'.child i = s.child i) :
    Holds s' i pid := by
  rw [Holds, ht, hc]
  exact h

/-- When `stop` begins and no launch is under way, a process that a task is in charge of
has exited or is live. -/
theorem live_of_holds {i : ι} {pid : ℕ} {q : Process} (hno : ∀ i pid, s.task i ≠ .launching pid) (hi : Holds s i pid)
    (hq : s.procs pid = some q) : q.Ended ∨ s.live i = some pid := by
  rcases hi with hi | ⟨-, hproc⟩
  · exact absurd hi (hno i pid)
  · cases hrc : q.returncode with
    | some rc => exact .inl (.inl (by rw [hrc]; rfl))
    | none =>
      right
      rw [Sys.live, hproc]
      simp [Option.filter, hq, hrc]

theorem inv_init [Zero τ] : Inv (Sys.init : Sys ι τ) where
  idle _ := ⟨rfl, rfl⟩
  held _ _ _ hq := nomatch hq
  ended hs := nomatch hs

variable [Fintype ι] [DecidableEq ι] [LinearOrder τ] [Sub τ] {p : Policy τ} {hasBus : Bool} {e : Ev ι τ}

/-- While the supervisor is stopping, the processes that have ended stay so, and no other
appears. -/
theorem step_ended (h : Step p hasBus s e s') (hs : s.stopping = true)
    (hend : ∀ pid q, s.procs pid = some q → q.Ended) {pid : ℕ} :
    (∀ q, s'.procs pid = some q → q.Ended) ∧ (s.procs pid = none → s'.procs pid = none) := by
  rcases step_procs h pid with heq | ⟨q, hq, hqe, hsome⟩ | ⟨hs', -, -⟩
  · rw [heq]
    exact ⟨hend pid, id⟩
  · refine ⟨fun q' hq' => ?_, fun hnone => ?_⟩
    · rw [hq] at hq'
      cases hq'
      exact hqe
    · rw [hnone] at hsome
      cases hsome
  · rw [hs] at hs'
    cases hs'

theorem step_stopping (h : Step p hasBus s e s') (hs : s.stopping = true) : s'.stopping = true := by
  cases h <;> first | exact hs | rfl

/-- The tasks in charge stay in charge, or their process has ended. -/
theorem step_holds (h : Step p hasBus s e s') (hc : s.cancelled = false) (hs : s'.stopping = false) {i : ι} {pid : ℕ}
    {q : Process} (hi : Holds s i pid) (hq : s'.procs pid = some q) : q.Ended ∨ Holds s' i pid := by
  -- a task at the head of its loop is in charge of nothing
  have hhead : ¬ s.AtHead i := by
    rintro (hh | hh) <;> rcases hi with hi | ⟨hi, -⟩ <;> rw [hh] at hi <;> cases hi
  cases h with
  | @leave j _ hj =>
    have hij : i ≠ j := fun hij => hhead (hij ▸ hj)
    exact .inr (hi.congr (Function.update_of_ne hij ..) rfl)
  | @spawn j now pid' _ hj =>
    have hij : i ≠ j := fun hij => hhead (hij ▸ hj)
    exact .inr (hi.congr (Function.update_of_ne hij ..) (Function.update_of_ne hij ..))
  | @spawnFailed j now now' c _ hj =>
    have hij : i ≠ j := fun hij => hhead (hij ▸ hj)
    exact .inr (hi.congr (Function.update_of_ne hij ..) (Function.update_of_ne hij ..))
  | @launched j pid' _ hj =>
    right
    by_cases hij : i = j
    · -- the task waits for the process it has launched
      subst hij
      rcases hi with hi | ⟨hi, -⟩
      · rw [hj] at hi
        cases hi
        exact .inr ⟨Function.update_self .., by simp [Sys.setTask, Sys.setChild, Child.launched]⟩
      · rw [hj] at hi
        cases hi
    · exact hi.congr (Function.update_of_ne hij ..) (Function.update_of_ne hij ..)
  | @connectFailed j pid' q' rc now c _ hj =>
    by_cases hij : i = j
    · -- the launch has killed its process
      subst hij
      rcases hi with hi | ⟨hi, -⟩
      · rw [hj] at hi
        cases hi
        left
        rw [Sys.setProc] at hq
        dsimp only at hq
        rw [Function.update_self] at hq
        cases hq
        exact .inr rfl
      · rw [hj] at hi
        cases hi
    · exact .inr (hi.congr (Function.update_of_ne hij ..) (Function.update_of_ne hij ..))
  | @reaped j pid' q' rc now c _ hj hq' hrc =>
    by_cases hij : i = j
    · -- the process has exited
      subst hij
      rcases hi with hi | ⟨hi, -⟩
      · rw [hj] at hi
        cases hi
      · rw [hj] at hi
        cases hi
        have hsame : some q' = some q := hq'.symm.trans hq
        cases hsame
        exact .inl (.inl (by rw [hrc]; rfl))
    · exact .inr (hi.congr (Function.update_of_ne hij ..) (Function.update_of_ne hij ..))
  | cancelLaunch hc' => rw [hc] at hc'; cases hc'
  | cancel hc' => rw [hc] at hc'; cases hc'
  | exit => exact .inr hi
  | stop | stopQuiet => cases hs
  | graceOver | graceTimeout | busStopped => exact .inr hi

/-- `stop` signals every process that has not ended. -/
theorem inv_stop (hI : Inv s) (h : Step p hasBus s .stop s') (hno : ∀ i pid, s.task i ≠ .launching pid) : Inv s' := by
  have hheld : ∀ pid q, s.procs pid = some q → q.Ended ∨ ∃ i, s.live i = some pid := by
    intro pid q hq
    cases hs : s.stopping with
    | true => exact .inl ((hI.ended hs).2 pid q hq)
    | false =>
      rcases hI.held hs pid q hq with hend | ⟨i, hi⟩
      · exact .inl hend
      · exact (live_of_holds hno hi hq).imp_right fun hl => ⟨i, hl⟩
  have hstop : s'.stopping = true := by
    cases h <;> rfl
  have hfalse : s'.stopping ≠ false := by rw [hstop]; decide
  refine ⟨fun hs => absurd hs hfalse, fun hs => absurd hs hfalse, fun _ => ?_⟩
  cases h with
  | stop =>
    refine ⟨hno, fun pid q hq => ?_⟩
    rcases signal_procs s.live pid with heq | ⟨q', hq', hend, -⟩
    · have hq₀ : s.procs pid = some q := heq.symm.trans hq
      rcases hheld pid q hq₀ with hend | ⟨i, hi⟩
      · exact hend
      · exact ended_of_signal hi hq
    · cases hq'.symm.trans hq
      exact hend
  | stopQuiet _ hlive =>
    refine ⟨hno, fun pid q hq => ?_⟩
    rcases hheld pid q hq with hend | ⟨i, hi⟩
    · exact hend
    · rw [hlive i] at hi
      cases hi

/-- **Each step preserves the invariant**, if it does not begin `stop` while a launch is
under way. -/
theorem inv_step (hI : Inv s) (h : Step p hasBus s e s') (hno : NoLaunch s e) : Inv s' := by
  by_cases he : e = .stop
  · subst he
    exact inv_stop hI h (hno rfl)
  have hsame : s'.stopping = s.stopping := by
    cases h <;> first | rfl | exact absurd rfl he
  refine ⟨fun hs => ?_, fun hs pid q hq => ?_, fun hs => ?_⟩
  · -- `stop` has not begun, so none of its steps can be taken
    obtain ⟨hidle, hc⟩ := hI.idle (hsame ▸ hs)
    cases h with
    | stop | stopQuiet => exact absurd rfl he
    | graceOver h' => rw [hidle] at h'; cases h'
    | graceTimeout h' => rw [hidle] at h'; cases h'
    | busStopped h' => rw [hidle] at h'; cases h'
    | _ => exact ⟨hidle, hc⟩
  · have hs₀ : s.stopping = false := hsame ▸ hs
    have hc := (hI.idle hs₀).2
    rcases step_procs h pid with heq | ⟨q', hq', hend, -⟩ | ⟨-, -, i, hi⟩
    · have hq₀ : s.procs pid = some q := heq.symm.trans hq
      rcases hI.held hs₀ pid q hq₀ with hend | ⟨i, hi⟩
      · exact .inl hend
      · exact (step_holds h hc hs hi hq).imp_right fun hi' => ⟨i, hi'⟩
    · cases hq'.symm.trans hq
      exact .inl hend
    · exact .inr ⟨i, .inl hi⟩
  · have hs₀ : s.stopping = true := hsame ▸ hs
    obtain ⟨hlaunch, hend⟩ := hI.ended hs₀
    exact ⟨fun i pid hi => hlaunch i pid (step_launching h hs₀ hi), fun pid q => (step_ended h hs₀ hend).1 q⟩

/-! ### Runs -/

/-- What `stop` owes once it has returned: every process that was ever launched has
exited or was told to, and none is launched after that. -/
def Clean (p : Policy τ) (hasBus : Bool) (s : Sys ι τ) : Prop :=
  s.stop = .returned → (∀ pid q, s.procs pid = some q → q.Ended) ∧
    ∀ es s', Run (Step p hasBus) s es s' → ∀ pid, s.procs pid = none → s'.procs pid = none

/-- Once all processes have ended, none is launched any more. -/
theorem run_ended {es : List (Ev ι τ)} (h : Run (Step p hasBus) s es s') (hI : Inv s) (hs : s.stopping = true) :
    ∀ pid, s.procs pid = none → s'.procs pid = none := by
  obtain ⟨hlaunch, hend⟩ := hI.ended hs
  clear hI
  induction h with
  | nil => exact fun _ => id
  | cons h _ ih =>
    intro pid hnone
    refine ih (step_stopping h hs) (fun i pid hi => hlaunch i pid (step_launching h hs hi))
      (fun pid q => (step_ended h hs hend).1 q) pid ?_
    exact (step_ended h hs hend).2 hnone

/-- **Stopping is clean** in every run in which `stop` is not called while a launch is
under way. -/
theorem stop_clean [Zero τ] {es : List (Ev ι τ)} (h : Run (Guarded NoLaunch (Step p hasBus)) .init es s) :
    Clean p hasBus s := by
  have hI : Inv s := h.inv (fun _ _ _ hI hstep => inv_step hI hstep.2 hstep.1) inv_init
  intro hret
  have hs : s.stopping = true := by
    by_contra hs
    have := (hI.idle (by simpa using hs)).1
    rw [hret] at this
    cases this
  exact ⟨(hI.ended hs).2, fun es s' hrun => run_ended hrun hI hs⟩

end Inv

/-! ### Two children -/

/-- Three strikes within a minute, twenty starts. -/
def defaults : Policy ℤ := ⟨3, 60, 20⟩

/-- Both children run when `stop` is called. -/
theorem stop_clean_running : ∃ s : Sys Bool ℤ, s.stop = .returned ∧ Clean defaults false s := by
  have hrun : ∃ s : Sys Bool ℤ, s.stop = .returned ∧ Run (Guarded NoLaunch (Step defaults false)) .init
      [.spawn false 0 1, .launched false, .stop, .graceOver true] s := by
    refine ⟨_, ?_, .cons ⟨?_, .spawn rfl (.inl rfl) rfl rfl⟩ (.cons ⟨?_, .launched rfl rfl⟩
      (.cons ⟨?_, .stop rfl ⟨false, rfl⟩⟩ (.one ⟨?_, .graceTimeout rfl⟩)))⟩
    · rfl
    · rintro ⟨⟩
    · rintro ⟨⟩
    · rintro - (_ | _) pid ⟨⟩
    · rintro ⟨⟩
  obtain ⟨s, hret, hrun⟩ := hrun
  exact ⟨s, hret, stop_clean hrun⟩

/-- **Stopping is not clean** when a launch is under way: its process is recorded while
`stop` waits for another one, and then its task is cancelled. -/
theorem stop_not_clean : ∃ es s, Run (Step defaults false) (Sys.init : Sys Bool ℤ) es s ∧ ¬ Clean defaults false s := by
  refine ⟨[.spawn false 0 1, .launched false, .spawn true 0 2, .stop, .launched true, .exit 1 0, .graceOver false], _,
    .cons (.spawn rfl (.inl rfl) rfl rfl) (.cons (.launched rfl rfl) (.cons (.spawn rfl (.inl rfl) rfl rfl)
      (.cons (.stop rfl ⟨false, rfl⟩) (.cons (.launched rfl rfl) (.cons (.exit rfl rfl) (.one (.graceOver rfl ?_))))))),
    fun h => ?_⟩
  · rintro (_ | _) pid hpid
    · cases hpid
      exact ⟨_, rfl, rfl⟩
    · cases hpid
  · have hend := (h rfl).1 2 ⟨none, false⟩ rfl
    rcases hend with h | h <;> cases h

end Persona.Daemon
