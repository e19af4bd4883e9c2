import Mathlib.Order.Lattice

/-!
# Supervised children

`daemon.py`: what a `_supervise` task does to the record of its child. A lifetime of the
child is a launch, which may fail, and the exit of the process; a failed launch counts as
an exit with `rc = -1`. After an exit the child is stopped (the supervisor is stopping),
left down, or launched again.

Times are the readings of `time.monotonic()`; all the code does with them is to subtract
and to compare.
-/

namespace Persona.Daemon

/-- `_Child.state`. -/
inductive ChildState where
  | pending | running | restarting | failed | stopped
  deriving DecidableEq

/-- `_Child`, without its spec. -/
structure Child (τ : Type*) where
  /-- The process launched last. -/
  proc : Option ℕ
  pid : Option ℕ
  strikes : ℕ
  starts : ℕ
  lastStart : τ
  lastRc : Option ℤ
  state : ChildState

/-- The restart policy of a `Supervisor`. -/
structure Policy (τ : Type*) where
  maxStrikes : ℕ
  stableReset : τ
  maxTotalStarts : ℕ

namespace Child

variable {τ : Type*}

/-- `_Child.__init__`. -/
def new [Zero τ] : Child τ := ⟨none, none, 0, 0, 0, none, .pending⟩

/-- The start of a lifetime. -/
def starting (now : τ) (c : Child τ) : Child τ := { c with starts := c.starts + 1, lastStart := now }

/-- `_launch` has returned the process `pid`. -/
def launched (pid : ℕ) (c : Child τ) : Child τ := { c with proc := some pid, pid := some pid, state := .running }

/-- `_launch` has raised. -/
def launchFailed (c : Child τ) : Child τ := { c with proc := none }

variable [LinearOrder τ] [Sub τ]

/-- The end of a lifetime: what follows the exit with the code `rc`. The task goes on if
and only if the child is `restarting`. -/
def exited (p : Policy τ) (stopping : Bool) (rc : ℤ) (now : τ) (c : Child τ) : Child τ :=
  let c := { c with lastRc := some rc }
  if stopping then { c with state := .stopped }
  else if p.maxTotalStarts ≤ c.starts then { c with state := .failed }
  else
    let strikes := (if p.stableReset ≤ now - c.lastStart then 0 else c.strikes) + 1
    if strikes ≤ p.maxStrikes then { c with strikes, state := .restarting } else { c with strikes, state := .failed }

section Exited

variable (p : Policy τ) (rc : ℤ) (now : τ) (c : Child τ)

theorem starts_exited (stopping : Bool) : (c.exited p stopping rc now).starts = c.starts := by
  simp only [exited]
  split_ifs <;> rfl

/-- The strikes after an exit that the first limit lets pass. -/
def nextStrikes (uptime : τ) (n : ℕ) : ℕ := (if p.stableReset ≤ uptime then 0 else n) + 1

/-- The two limits, in the order in which they are checked. -/
theorem exited_cases :
    (p.maxTotalStarts ≤ c.starts ∧ (c.exited p false rc now).state = .failed) ∨
    (c.starts < p.maxTotalStarts ∧
      (c.exited p false rc now).strikes = nextStrikes p (now - c.lastStart) c.strikes ∧
      (c.exited p false rc now).state =
        if nextStrikes p (now - c.lastStart) c.strikes ≤ p.maxStrikes then .restarting else .failed) := by
  simp only [exited, nextStrikes]
  rw [if_neg Bool.false_ne_true]
  by_cases hT : p.maxTotalStarts ≤ c.starts
  · left
    rw [if_pos hT]
    exact ⟨hT, rfl⟩
  · right
    rw [if_neg hT]
    refine ⟨by omega, ?_, ?_⟩
    · split_ifs <;> rfl
    · split_ifs <;> rfl

end Exited

end Child

end Persona.Daemon
