import Persona.Lib.Snapshot
import Persona.TaskBoard.Store
import Mathlib.Data.List.Induction

/-!
# Concurrent `task_set` calls

`task_set` opens a connection of its own, reads the row in autocommit, merges the patch
in Python, and then inserts or updates the row and commits. SQLite lets one connection
write at a time, but the `SELECT` is outside the write transaction. `Persona.Lib.Snapshot`
runs such calls in every interleaving; here the calls are `task_set`'s, on any jobs, from
any number of threads or processes.

When another call's write falls between a call's `SELECT` and its own write on the same
job, the call merges its patch into a state that is no longer there: two first inserts
collide on the primary key, and of two updates the first is lost
(`setCalls_not_atomic`). When every write finds the row its `SELECT` returned, the calls
are atomic merges in the order of their commits (`setCalls_atomic`).
-/

namespace Persona.TaskBoard

open Persona.Lib Persona.Lib.Snapshot

/-- A call `task_set(job_id, patch)` made at time `now`. -/
structure SetCall where
  /-- `job_id`. -/
  jobId : String
  /-- `patch`. -/
  patch : Dict
  /-- `int(time.time())`. -/
  now : ℤ

variable (P : Python) {ι : Type} (calls : ι → SetCall)

/-- The calls as `Persona.Lib.Snapshot` runs them: the `SELECT`, then the `INSERT` or
`UPDATE`. -/
def setCalls : Calls Board (Option Row) ι where
  read i b := b.lookup (calls i).jobId
  write i read b := write P (calls i).now (calls i).jobId (calls i).patch read b
  atomic i b := taskSet P (calls i).now (calls i).jobId (calls i).patch b
  write_read i b := write_lookup P (calls i).now (calls i).jobId (calls i).patch b

variable [DecidableEq ι]

/-- What concurrent calls owe their callers. -/
structure AtomicMerge (b₀ : Board) (s : State Board (Option Row) ι) : Prop where
  /-- No call has failed on the primary key, and the board is what the calls that have
  committed make of `b₀`, run alone in some order. -/
  ser : Serializable (setCalls P calls) b₀ s
  /-- No field of a patch is lost, and the status column is the merged state's. -/
  row : ∀ i, s.pc i = .done → ∃ r, s.committed.lookup (calls i).jobId = some r ∧
    (∀ k ∈ (calls i).patch, k ∈ r.state) ∧ r.Consistent P

variable {P calls}

omit [DecidableEq ι] in
/-- A serial run of calls keeps every field of every patch, and the status column. -/
theorem lookup_serial {order : List ι} {i : ι} (hi : i ∈ order) (b : Board) :
    ∃ r, (serial (setCalls P calls) order b).lookup (calls i).jobId = some r ∧
      (∀ k ∈ (calls i).patch, k ∈ r.state) ∧ r.Consistent P := by
  induction order using List.reverseRecOn with
  | nil => simp at hi
  | append_singleton order j ih =>
    simp only [serial, List.foldl_append, List.foldl_cons, List.foldl_nil]
    show ∃ r, (taskSet P _ (calls j).jobId (calls j).patch (serial (setCalls P calls) order b)).lookup _ = _ ∧ _
    by_cases hj : (calls i).jobId = (calls j).jobId
    · -- the last call wrote this row: its state is the one before it, and its own patch
      rw [hj, lookup_taskSet]
      refine ⟨_, rfl, fun k hk => ?_, rfl⟩
      simp only [merged, update, AList.mem_union]
      rcases List.mem_append.mp hi with hi | hi
      · obtain ⟨r, hr, hkeep, -⟩ := ih hi
        rw [hj] at hr
        rw [hr]
        exact .inr (hkeep k hk)
      · rw [List.mem_singleton.mp hi] at hk
        exact .inl hk
    · rw [lookup_taskSet_ne P hj]
      rcases List.mem_append.mp hi with hi | hi
      · exact ih hi
      · exact absurd (by rw [List.mem_singleton.mp hi]) hj

/-- **Concurrent `task_set` calls are atomic merges** as long as every write finds the
row as the call's own `SELECT` returned it. -/
theorem setCalls_atomic {b₀ : Board} {es : List (Ev ι)} {s : State Board (Option Row) ι}
    (h : Run (Guarded (Validated (setCalls P calls)) (Step (setCalls P calls))) (.init b₀) es s) :
    AtomicMerge P calls b₀ s := by
  have hser := serializable h
  refine ⟨hser, fun i hi => ?_⟩
  obtain ⟨_, order, _, hmem, hc⟩ := hser
  rw [hc]
  exact lookup_serial ((hmem i).mpr hi) b₀

/-- Two calls on one job: its creation, and a field. -/
def twoSets : Bool → SetCall
  | false => ⟨"j", item "status" (.str "delegated"), 1⟩
  | true => ⟨"j", item "title" (.str "t"), 2⟩

/-- One after the other, the two calls are atomic merges. -/
theorem setCalls_atomic_twoSets : ∃ s, (∀ i, s.pc i = .done) ∧ AtomicMerge (.ofTable []) twoSets ∅ s := by
  obtain ⟨s, hrun, hdone⟩ : ∃ s, Run (Guarded (Validated (setCalls (.ofTable []) twoSets))
      (Step (setCalls (.ofTable []) twoSets))) (.init ∅) [.select false, .write false, .commit false, .select true,
        .write true, .commit true] s ∧ ∀ i, s.pc i = .done := by
    refine ⟨_, .cons ⟨trivial, .select rfl⟩ (.cons ⟨?_, .write rfl rfl rfl⟩ (.cons ⟨trivial, .commit rfl⟩
      (.cons ⟨trivial, .select rfl⟩ (.cons ⟨?_, .write rfl rfl rfl⟩ (.cons ⟨trivial, .commit rfl⟩ .nil))))), ?_⟩
    · intro v hv
      cases hv; rfl
    · intro v hv
      cases hv; rfl
    · rintro (_ | _) <;> rfl
  exact ⟨s, hdone, setCalls_atomic hrun⟩

/-- **Interleaved, `task_set` is no atomic merge**: when both calls read before either
writes, on an empty board the second insert fails on the primary key, and on a board
with the row the second update loses the patch of the first. -/
theorem setCalls_not_atomic :
    (∃ es s, Run (Step (setCalls (.ofTable []) twoSets)) (.init ∅) es s ∧ ¬ AtomicMerge (.ofTable []) twoSets ∅ s) ∧
    (∃ b₀ es s, Run (Step (setCalls (.ofTable []) twoSets)) (.init b₀) es s ∧ (∀ i, s.pc i = .done) ∧
      ¬ AtomicMerge (.ofTable []) twoSets b₀ s) := by
  constructor
  · refine ⟨[.select false, .select true, .write false, .commit false, .write true], _,
      .cons (.select rfl) (.cons (.select rfl) (.cons (.write rfl rfl rfl) (.cons (.commit rfl)
        (.cons (.refuse rfl rfl rfl) .nil)))), fun h => h.ser.1 true rfl⟩
  · refine ⟨AList.singleton "j" ⟨none, ∅, 0, 0⟩,
      [.select false, .select true, .write false, .commit false, .write true, .commit true], _,
      .cons (.select rfl) (.cons (.select rfl) (.cons (.write rfl rfl rfl) (.cons (.commit rfl)
        (.cons (.write rfl rfl rfl) (.cons (.commit rfl) .nil))))), by rintro (_ | _) <;> rfl, fun h => ?_⟩
    obtain ⟨r, hr, hkeep, -⟩ := h.row false rfl
    cases hr
    exact absurd (hkeep "status" (by decide)) (by decide)

end Persona.TaskBoard
