import Persona.Json
import Mathlib.Data.List.AList
import Mathlib.Data.List.Sort

/-!
# The Task Board

`taskboard.py`: one row per job, with the job's merged state, the status column kept
beside it for queries, and two time stamps. The table is an association list keyed by
`job_id`, so the primary key is part of its type; a state is a dictionary kept as the
value `json.loads` makes of the stored blob.

`taskSet` is the read, merge and write of one `task_set` call run alone. The write
itself, given the row that was read, is `write`: `TaskBoard.Interleave` runs the two
apart.
-/

namespace Persona.TaskBoard

/-- A job's state, or a patch to it. -/
abbrev Dict := AList fun _ : String => Json

/-- `state.update(patch)`. -/
def update (state patch : Dict) : Dict := patch ∪ state

/-- `d.get(k)`. -/
def getKey (d : Dict) (k : String) : Json := (d.lookup k).getD .null

/-- A dictionary with one item. -/
def item (k : String) (v : Json) : Dict := AList.singleton k v

theorem lookup_item_ne {k k' : String} {v : Json} (h : k ≠ k') : (item k' v).lookup k = none := by
  rw [item, ← AList.insert_empty, AList.lookup_insert_ne h, AList.lookup_empty]

theorem notMem_item {k k' : String} {v : Json} (h : k ≠ k') : k ∉ item k' v :=
  AList.lookup_eq_none.mp (lookup_item_ne h)

theorem notMem_insert {k k' : String} {v : Json} {d : Dict} (h : k ≠ k') (hd : k ∉ d) : k ∉ d.insert k' v := by
  rw [AList.mem_insert]
  exact not_or_intro h hd

theorem lookup_update (state patch : Dict) (k : String) :
    (update state patch).lookup k = (patch.lookup k).or (state.lookup k) := by
  rw [update]
  by_cases h : k ∈ patch
  · rw [AList.lookup_union_left h]
    obtain ⟨v, hv⟩ := Option.isSome_iff_exists.mp (AList.lookup_isSome.mpr h)
    rw [hv]; rfl
  · rw [AList.lookup_union_right h, AList.lookup_eq_none.mpr h]; rfl

@[simp] theorem lookup_update_of_notMem {state patch : Dict} {k : String} (h : k ∉ patch) :
    (update state patch).lookup k = state.lookup k := by
  rw [lookup_update, AList.lookup_eq_none.mpr h]; rfl

/-- A row of the table `tasks`, but for its key. -/
structure Row where
  /-- The status column. -/
  status : Option String
  /-- The state blob. -/
  state : Dict
  /-- When the row was inserted. -/
  createdAt : ℤ
  /-- When the row was last written. -/
  updatedAt : ℤ

/-- The table `tasks`, keyed by `job_id`. -/
abbrev Board := AList fun _ : String => Row

variable (P : Python)

/-- The status column of a merged state: `str(status) if status is not None else None`. -/
def statusOf (state : Dict) : Option String :=
  let status := getKey state "status"
  if status.isNull then none else some (P.toStr status)

/-- A row whose status column is that of its state. -/
def Row.Consistent (r : Row) : Prop := r.status = statusOf P r.state

/-- The state `task_set` writes, given the row it read. -/
def merged (read : Option Row) (patch : Dict) : Dict :=
  update (match read with | some r => r.state | none => ∅) patch

/-- `INSERT INTO tasks`; `none` is an `IntegrityError`. -/
def insertRow (b : Board) (jobId : String) (r : Row) : Option Board :=
  if jobId ∈ b then none else some (b.insert jobId r)

/-- `UPDATE tasks SET state, status, updated_at WHERE job_id`: no row, nothing updated. -/
def updateRow (b : Board) (jobId : String) (state : Dict) (status : Option String) (now : ℤ) : Board :=
  match b.lookup jobId with
  | some r => b.insert jobId { r with state := state, status := status, updatedAt := now }
  | none => b

/-- The write of `task_set` to the table `b`, when its `SELECT` had returned `read`. -/
def write (now : ℤ) (jobId : String) (patch : Dict) (read : Option Row) (b : Board) : Option Board :=
  let state := merged read patch
  match read with
  | some _ => some (updateRow b jobId state (statusOf P state) now)
  | none => insertRow b jobId ⟨statusOf P state, state, now, now⟩

/-- `task_set`, run alone. -/
def taskSet (now : ℤ) (jobId : String) (patch : Dict) (b : Board) : Board :=
  let state := merged (b.lookup jobId) patch
  match b.lookup jobId with
  | some _ => updateRow b jobId state (statusOf P state) now
  | none => b.insert jobId ⟨statusOf P state, state, now, now⟩

/-- `task_get`. -/
def taskGet (jobId : String) (b : Board) : Option Dict :=
  (b.lookup jobId).map fun r =>
    let state := if "job_id" ∈ r.state then r.state else r.state.insert "job_id" (.str jobId)
    (state.insert "_created_at" (.int r.createdAt)).insert "_updated_at" (.int r.updatedAt)

/-- A row as `task_list` returns it. -/
structure Listed where
  /-- `job_id`. -/
  jobId : String
  /-- `status`. -/
  status : Option String
  /-- `created_at`. -/
  createdAt : ℤ
  /-- `updated_at`. -/
  updatedAt : ℤ

/-- `ORDER BY updated_at DESC, created_at DESC`. -/
def Listed.Before (r r' : Listed) : Prop :=
  r'.updatedAt < r.updatedAt ∨ (r'.updatedAt = r.updatedAt ∧ r'.createdAt ≤ r.createdAt)

instance : DecidableRel Listed.Before := fun _ _ => inferInstanceAs (Decidable (_ ∨ _))

/-- The rows of the table, each with its key. -/
def listed (b : Board) : List Listed :=
  b.entries.map fun e => ⟨e.1, e.2.status, e.2.createdAt, e.2.updatedAt⟩

/-- `task_list`. -/
def taskList (limit : ℕ) (b : Board) : List Listed :=
  ((listed b).insertionSort Listed.Before).take limit

/-! ### What the operations do -/

theorem updateRow_some {b : Board} {jobId : String} {state : Dict} {status : Option String} {now : ℤ} {r : Row}
    (h : b.lookup jobId = some r) :
    updateRow b jobId state status now =
      b.insert jobId { r with state := state, status := status, updatedAt := now } := by
  rw [updateRow, h]

/-- `task_set` is its own `SELECT` and write, one after the other. -/
theorem write_lookup (now : ℤ) (jobId : String) (patch : Dict) (b : Board) :
    write P now jobId patch (b.lookup jobId) b = some (taskSet P now jobId patch b) := by
  unfold write taskSet
  cases h : b.lookup jobId with
  | some r => rfl
  | none => simp [insertRow, AList.lookup_eq_none.mp h]

/-- The row `task_set` leaves. -/
theorem lookup_taskSet (now : ℤ) (jobId : String) (patch : Dict) (b : Board) :
    (taskSet P now jobId patch b).lookup jobId =
      some ⟨statusOf P (merged (b.lookup jobId) patch), merged (b.lookup jobId) patch,
        ((b.lookup jobId).map (·.createdAt)).getD now, now⟩ := by
  rw [taskSet]
  cases h : b.lookup jobId with
  | some r => simp [updateRow_some h]
  | none => simp

/-- `task_set` leaves the other rows. -/
theorem lookup_taskSet_ne {now : ℤ} {jobId j : String} {patch : Dict} {b : Board} (hne : j ≠ jobId) :
    (taskSet P now jobId patch b).lookup j = b.lookup j := by
  rw [taskSet]
  cases h : b.lookup jobId with
  | some r => simp [updateRow_some h, AList.lookup_insert_ne hne]
  | none => simp [AList.lookup_insert_ne hne]

/-- What `task_get` returns says, of any key but its own three, what the state says. -/
theorem getKey_taskGet {jobId k : String} {b : Board} {r : Row} {full : Dict} (h : b.lookup jobId = some r)
    (hf : taskGet jobId b = some full) (h₁ : k ≠ "job_id") (h₂ : k ≠ "_created_at") (h₃ : k ≠ "_updated_at") :
    getKey full k = getKey r.state k := by
  rw [taskGet, h] at hf
  simp only [Option.map_some, Option.some.injEq] at hf
  subst hf
  unfold getKey
  rw [AList.lookup_insert_ne h₃, AList.lookup_insert_ne h₂]
  split_ifs
  · rfl
  · rw [AList.lookup_insert_ne h₁]

theorem mem_listed {b : Board} {l : Listed} :
    l ∈ listed b ↔ ∃ r, b.lookup l.jobId = some r ∧ l = ⟨l.jobId, r.status, r.createdAt, r.updatedAt⟩ := by
  rw [listed]
  rw [List.mem_map]
  constructor
  · rintro ⟨⟨j, r⟩, he, rfl⟩
    exact ⟨r, AList.mem_lookup_iff.mpr he, rfl⟩
  · rintro ⟨r, hr, hl⟩
    exact ⟨⟨l.jobId, r⟩, AList.mem_lookup_iff.mp hr, hl.symm⟩

/-- A listed row is a row of the table. -/
theorem mem_of_mem_taskList {limit : ℕ} {b : Board} {l : Listed} (h : l ∈ taskList limit b) : l ∈ listed b := by
  have := List.mem_of_mem_take h
  rwa [List.mem_insertionSort] at this

theorem nodup_jobId_listed (b : Board) : ((listed b).map Listed.jobId).Nodup := by
  have hmap : (listed b).map Listed.jobId = b.keys := by
    simp [listed, AList.keys, List.keys, Function.comp_def]
  rw [hmap]
  exact b.keys_nodup

/-- No row is listed twice. -/
theorem nodup_taskList (limit : ℕ) (b : Board) : ((taskList limit b).map Listed.jobId).Nodup := by
  have hsort := ((List.perm_insertionSort Listed.Before (listed b)).map Listed.jobId).nodup_iff.mpr (nodup_jobId_listed b)
  exact hsort.sublist ((List.take_sublist _ _).map _)

instance : Std.Total Listed.Before where
  total l l' := by unfold Listed.Before; omega

instance : IsTrans Listed Listed.Before where
  trans l l' l'' h h' := by unfold Listed.Before at *; omega

/-- The row written last is listed first. -/
theorem taskList_head (limit : ℕ) {b : Board} {l : Listed} (hl : l ∈ listed b)
    (hnew : ∀ l' ∈ listed b, l'.jobId ≠ l.jobId → l'.updatedAt < l.updatedAt) :
    ∃ rows, taskList (limit + 1) b = l :: rows := by
  have hsorted := List.pairwise_insertionSort Listed.Before (listed b)
  have hmem : ∀ l', l' ∈ (listed b).insertionSort Listed.Before ↔ l' ∈ listed b := fun l' => List.mem_insertionSort _
  rw [taskList]
  cases hs : (listed b).insertionSort Listed.Before with
  | nil =>
    rw [← hmem, hs] at hl
    cases hl
  | cons f rows =>
    have hf : f ∈ listed b := by rw [← hmem, hs]; exact List.mem_cons_self
    have hfl : f = l := by
      by_contra hne
      have hbefore : f.Before l := by
        rw [hs, List.pairwise_cons] at hsorted
        rw [← hmem, hs] at hl
        exact hsorted.1 l ((List.mem_cons.mp hl).resolve_left (Ne.symm hne))
      have hkey : f.jobId ≠ l.jobId := by
        intro hkey
        obtain ⟨r, hr, hfr⟩ := mem_listed.mp hf
        obtain ⟨r', hr', hlr⟩ := mem_listed.mp hl
        rw [hkey, hr', Option.some.injEq] at hr
        exact hne (by rw [hfr, hlr, hkey, hr])
      have hlt := hnew f hf hkey
      unfold Listed.Before at hbefore
      omega
    exact ⟨rows.take limit, by rw [hfl, List.take_succ_cons]⟩

/-- A row written later than all others were is listed first. -/
theorem taskList_taskSet (limit : ℕ) {now : ℤ} {jobId : String} (patch : Dict) {b : Board}
    (hnow : ∀ l ∈ listed b, l.updatedAt < now) : ∃ row rows,
    taskList (limit + 1) (taskSet P now jobId patch b) = row :: rows ∧ row.jobId = jobId ∧
      row.status = statusOf P (merged (b.lookup jobId) patch) := by
  have hl : (⟨jobId, statusOf P (merged (b.lookup jobId) patch), ((b.lookup jobId).map (·.createdAt)).getD now, now⟩ :
      Listed) ∈ listed (taskSet P now jobId patch b) := mem_listed.mpr ⟨_, lookup_taskSet P now jobId patch b, rfl⟩
  obtain ⟨rows, hrows⟩ := taskList_head limit hl fun l' hl' hne => by
    obtain ⟨r', hr', heq⟩ := mem_listed.mp hl'
    rw [lookup_taskSet_ne P hne] at hr'
    exact hnow l' (mem_listed.mpr ⟨r', hr', heq⟩)
  exact ⟨_, rows, hrows, rfl, rfl⟩

end Persona.TaskBoard
