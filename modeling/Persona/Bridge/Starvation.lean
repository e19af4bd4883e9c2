import Persona.Bridge.Faults

/-!
# Which rows a tick gets to

Both loops of a tick run over the 200 most recently updated rows of the board, and an
exception from one row ends the loop. So a delegated row is not attempted when 200 rows
have been updated after it, or when a row before it raises: the command line's timeout
is not caught, nor is `int()` of a priority or of an end time that is no number, nor a
`RecursionError` of `json.loads`, nor what the Task Board raises. The command line's other
failures (a non-zero code, output without JSON or without an id) do not stop the loop.

`attempts_complete_iff` says exactly when every row that is due is attempted.
-/

namespace Persona.Bridge

open Persona.Lib Persona.TaskBoard

/-! ### The rows that are due -/

/-- What `task_get(job_id) or {}` returns. -/
def fullOf (b : Board) (jobId : String) : Dict := (taskGet jobId b).getD ∅

/-- The row's `hermes_task_id`. -/
def tidOf (b : Board) (jobId : String) : Json := getKey (fullOf b jobId) "hermes_task_id"

/-- The row's status column. -/
def columnOf (b : Board) (jobId : String) : Option String := (b.lookup jobId).bind (·.status)

/-- A delegated row without a card. -/
def pending (b : Board) (jobId : String) : Bool :=
  columnOf b jobId = some Status.delegated.text && !(tidOf b jobId).truthy

/-- An open row with a card. -/
def mirrored (b : Board) (jobId : String) : Bool :=
  columnOf b jobId ∈ openStatuses.map some && (tidOf b jobId).truthy

/-- The row is as it is on the board `b`, of which it was listed. -/
def Unchanged (b : Board) (row : Listed) (s : St) : Prop :=
  row ∈ listed b ∧ s.board.lookup row.jobId = b.lookup row.jobId

theorem Unchanged.column {b : Board} {row : Listed} {s : St} (h : Unchanged b row s) :
    row.status = columnOf b row.jobId := by
  obtain ⟨r, hr, hrow⟩ := mem_listed.mp h.1
  rw [columnOf, hr, hrow]
  rfl

theorem Unchanged.full {b : Board} {row : Listed} {s : St} (h : Unchanged b row s) :
    (taskGet row.jobId s.board).getD ∅ = fullOf b row.jobId := by
  rw [fullOf, taskGet, taskGet, h.2]

theorem Unchanged.set {H : Host} {b : Board} {row : Listed} {s : St} {n : ℕ} {j : String} {patch : Dict}
    (h : Unchanged b row s) (hne : j ≠ row.jobId) : Unchanged b row (s.set H n j patch) :=
  ⟨h.1, (lookup_taskSet_ne H.toPython (Ne.symm hne)).trans h.2⟩

/-! ### One row of the enqueue loop -/

section Enqueue

variable (H : Host) (F : Faults)

/-- The calls a create makes: none if the mark cannot be set or the arguments cannot be built. -/
def createCallsF (b : Board) (jobId : String) : List (String × List Json) :=
  if F.set jobId 1 then []
  else
    match buildCreateArgsF H F jobId (fullOf b jobId) with
    | .error _ => []
    | .ok args => [(jobId, args)]

/-- A create raises. -/
def createRaisesF (b : Board) (jobId : String) : Bool :=
  F.set jobId 1 ||
    match buildCreateArgsF H F jobId (fullOf b jobId) with
    | .error _ => true
    | .ok args =>
      match H.runner jobId args with
      | .error _ => true
      | .ok answer => !(createdPatchF H F answer).isOk || F.set jobId 2

/-- A row ends the enqueue loop. -/
def enqueueStops (b : Board) (jobId : String) : Bool :=
  columnOf b jobId = some Status.delegated.text && (F.get jobId || (!(tidOf b jobId).truthy && createRaisesF H F b jobId))

variable {H F} {b : Board} {jobId : String} {s : St}

theorem fst_of_mem_createCallsF {c : String × List Json} (h : c ∈ createCallsF H F b jobId) : c.1 = jobId := by
  unfold createCallsF at h
  split_ifs at h
  · cases h
  · split at h
    · cases h
    · rw [List.mem_singleton.mp h]

theorem createCardF_isOk : (createCardF H F jobId (fullOf b jobId) s).1.isOk = !createRaisesF H F b jobId := by
  rw [createCardF, createRaisesF]
  cases F.set jobId 1 with
  | true => rfl
  | false =>
    rw [if_neg (by simp), Bool.false_or]
    dsimp only
    cases buildCreateArgsF H F jobId (fullOf b jobId) with
    | error e => rfl
    | ok args =>
      dsimp only
      cases H.runner jobId args with
      | error e => rfl
      | ok answer =>
        dsimp only
        rcases createdPatchF H F answer with e | ⟨patch, tid⟩
        · rfl
        · dsimp only
          cases F.set jobId 2 <;> rfl

theorem createCardF_calls : (createCardF H F jobId (fullOf b jobId) s).2.calls = s.calls ++ createCallsF H F b jobId := by
  rw [createCardF, createCallsF]
  cases F.set jobId 1 with
  | true => simp
  | false =>
    rw [if_neg (by simp), if_neg (by simp)]
    dsimp only
    cases buildCreateArgsF H F jobId (fullOf b jobId) with
    | error e => simp
    | ok args =>
      dsimp only
      cases H.runner jobId args with
      | error e => simp
      | ok answer =>
        dsimp only
        rcases createdPatchF H F answer with e | ⟨patch, tid⟩
        · simp
        · dsimp only
          split_ifs <;> simp

/-- A create writes its own row only. -/
theorem createCardF_lookup_ne {state : Dict} {j : String} (hne : j ≠ jobId) :
    (createCardF H F jobId state s).2.board.lookup j = s.board.lookup j := by
  rw [createCardF]
  cases F.set jobId 1 with
  | true => rfl
  | false =>
    rw [if_neg (by simp)]
    dsimp only
    cases buildCreateArgsF H F jobId state with
    | error e => exact lookup_taskSet_ne _ hne
    | ok args =>
      dsimp only
      cases H.runner jobId args with
      | error e => exact lookup_taskSet_ne _ hne
      | ok answer =>
        dsimp only
        rcases createdPatchF H F answer with e | ⟨patch, tid⟩
        · exact lookup_taskSet_ne _ hne
        · dsimp only
          split_ifs
          · exact lookup_taskSet_ne _ hne
          · exact (lookup_taskSet_ne _ hne).trans (lookup_taskSet_ne _ hne)

/-- What the enqueue loop does with a row as listed: a create if it is pending. -/
theorem enqueueRowF_eq {row : Listed} (h : Unchanged b row s) : enqueueRowF H F row s =
    if columnOf b row.jobId ≠ some Status.delegated.text then (.ok none, s)
    else if F.get row.jobId then (.error .board, s)
    else if (tidOf b row.jobId).truthy then (.ok none, s)
    else ((createCardF H F row.jobId (fullOf b row.jobId) s).1.map fun tid => tid.map fun _ => row.jobId,
      (createCardF H F row.jobId (fullOf b row.jobId) s).2) := by
  rw [enqueueRowF]
  rw [h.full, h.column]
  rfl

/-- The enqueue loop's body writes its own row only. -/
theorem enqueueRowF_lookup_ne {row : Listed} {j : String} (hne : j ≠ row.jobId) :
    (enqueueRowF H F row s).2.board.lookup j = s.board.lookup j := by
  simp only [enqueueRowF]
  split_ifs
  · rfl
  · rfl
  · rfl
  · exact createCardF_lookup_ne hne

/-- A value computed from the result is no exception. -/
theorem isOk_map {ε α β : Type} (f : α → β) (x : Except ε α) : (x.map f).isOk = x.isOk := by
  cases x <;> rfl

/-- The enqueue loop deals with each row on its own. -/
theorem local_enqueueRowF :
    Local Listed.jobId (Unchanged b) (fun row => enqueueStops H F b row.jobId) (enqueueRowF H F) where
  raises_iff row s h := by
    rw [enqueueRowF_eq h, enqueueStops]
    split_ifs with hcol hget htid
    · rw [decide_eq_false hcol]
      rfl
    · rw [decide_eq_true (not_not.mp hcol), hget]
      rfl
    · rw [decide_eq_true (not_not.mp hcol), Bool.eq_false_iff.mpr hget, htid]
      rfl
    · rw [decide_eq_true (not_not.mp hcol), Bool.eq_false_iff.mpr hget, Bool.eq_false_iff.mpr htid]
      simpa [isOk_map] using createCardF_isOk
  frame _ _ _ hne h := ⟨h.1, (enqueueRowF_lookup_ne hne.symm).trans h.2⟩

/-- The calls of the enqueue loop. -/
theorem calls_enqueueRowF {row : Listed} (h : Unchanged b row s) : (enqueueRowF H F row s).2.calls =
    s.calls ++ if pending b row.jobId && !F.get row.jobId then createCallsF H F b row.jobId else [] := by
  rw [enqueueRowF_eq h, pending]
  by_cases hcol : columnOf b row.jobId ≠ some Status.delegated.text
  · rw [if_pos hcol, decide_eq_false hcol]
    simp
  · rw [if_neg hcol, decide_eq_true (not_not.mp hcol), Bool.true_and]
    cases F.get row.jobId with
    | true => simp
    | false =>
      rw [if_neg (by simp)]
      cases (tidOf b row.jobId).truthy with
      | true => simp
      | false => exact createCardF_calls

theorem unchanged_of_mem_taskList {limit : ℕ} {row : Listed} (h : row ∈ taskList limit s.board) :
    Unchanged s.board row s :=
  ⟨mem_of_mem_taskList h, rfl⟩

/-- The calls `enqueue_delegated` makes: a create for each pending row the loop gets to. -/
theorem calls_enqueueDelegatedF (s : St) (limit : ℕ) (hlist : F.list = false) : (enqueueDelegatedF H F limit s).2.calls =
    s.calls ++ (visited (fun row => enqueueStops H F s.board row.jobId) (taskList limit s.board)).flatMap
      fun row => if pending s.board row.jobId && !F.get row.jobId then createCallsF H F s.board row.jobId else [] := by
  rw [enqueueDelegatedF, if_neg (by simp [hlist])]
  exact log_scan local_enqueueRowF (fun _ _ => calls_enqueueRowF) (nodup_taskList limit s.board)
    fun _ => unchanged_of_mem_taskList

end Enqueue

/-! ### One row of the mirror loop -/

section Mirror

variable (H : Host) (F : Faults)

/-- A card raises in the mirror loop: the command line does, or what is read of it, or the write. -/
def mirrorRaisesF (b : Board) (jobId : String) : Bool :=
  match shownPatchF H F jobId (fullOf b jobId) (tidOf b jobId) with
  | .error _ => true
  | .ok patch => !patch.entries.isEmpty && F.set jobId 5

/-- A row ends the mirror loop. -/
def mirrorStops (b : Board) (jobId : String) : Bool :=
  columnOf b jobId ∈ openStatuses.map some && (F.get jobId || ((tidOf b jobId).truthy && mirrorRaisesF H F b jobId))

variable {H F} {b : Board} {jobId : String} {s : St}

theorem mirrorCardF_isOk :
    (mirrorCardF H F jobId (fullOf b jobId) (tidOf b jobId) s).1.isOk = !mirrorRaisesF H F b jobId := by
  rw [mirrorCardF, mirrorRaisesF]
  cases shownPatchF H F jobId (fullOf b jobId) (tidOf b jobId) with
  | error e => rfl
  | ok patch =>
    dsimp only
    cases patch.entries.isEmpty with
    | true => rfl
    | false => cases F.set jobId 5 <;> rfl

theorem mirrorCardF_calls {full : Dict} {tid : Json} :
    (mirrorCardF H F jobId full tid s).2.calls = s.calls ++ [(jobId, showArgs H tid)] := by
  rw [mirrorCardF]
  cases shownPatchF H F jobId full tid with
  | error e => rfl
  | ok patch =>
    dsimp only
    split_ifs <;> rfl

/-- A card is mirrored onto its own row only. -/
theorem mirrorCardF_lookup_ne {full : Dict} {tid : Json} {j : String} (hne : j ≠ jobId) :
    (mirrorCardF H F jobId full tid s).2.board.lookup j = s.board.lookup j := by
  rw [mirrorCardF]
  cases shownPatchF H F jobId full tid with
  | error e => rfl
  | ok patch =>
    dsimp only
    split_ifs
    · rfl
    · rfl
    · exact lookup_taskSet_ne _ hne

/-- The mirror loop's body writes its own row only. -/
theorem mirrorRowF_lookup_ne {row : Listed} {j : String} (hne : j ≠ row.jobId) :
    (mirrorRowF H F row s).2.board.lookup j = s.board.lookup j := by
  simp only [mirrorRowF]
  split_ifs
  · rfl
  · exact mirrorCardF_lookup_ne hne
  · rfl
  · rfl

/-- What the mirror loop does with a row as listed: a show if it is open and has a card. -/
theorem mirrorRowF_eq {row : Listed} (h : Unchanged b row s) : mirrorRowF H F row s =
    if columnOf b row.jobId ∉ openStatuses.map some then (.ok none, s)
    else if F.get row.jobId then (.error .board, s)
    else if (tidOf b row.jobId).truthy then mirrorCardF H F row.jobId (fullOf b row.jobId) (tidOf b row.jobId) s
    else (.ok none, s) := by
  rw [mirrorRowF]
  rw [h.full, h.column]
  rfl

/-- The mirror loop deals with each row on its own. -/
theorem local_mirrorRowF :
    Local Listed.jobId (Unchanged b) (fun row => mirrorStops H F b row.jobId) (mirrorRowF H F) where
  raises_iff row s h := by
    rw [mirrorRowF_eq h, mirrorStops]
    by_cases hcol : columnOf b row.jobId ∉ openStatuses.map some
    · rw [if_pos hcol, decide_eq_false hcol]
      rfl
    · rw [if_neg hcol, decide_eq_true (not_not.mp hcol), Bool.true_and]
      cases F.get row.jobId with
      | true => rfl
      | false =>
        rw [if_neg (by simp), Bool.false_or]
        cases (tidOf b row.jobId).truthy with
        | true => exact mirrorCardF_isOk
        | false => rfl
  frame _ _ _ hne h := ⟨h.1, (mirrorRowF_lookup_ne hne.symm).trans h.2⟩

/-- The calls of the mirror loop. -/
theorem calls_mirrorRowF {row : Listed} (h : Unchanged b row s) : (mirrorRowF H F row s).2.calls =
    s.calls ++ if mirrored b row.jobId && !F.get row.jobId then [(row.jobId, showArgs H (tidOf b row.jobId))] else [] := by
  rw [mirrorRowF_eq h, mirrored]
  by_cases hcol : columnOf b row.jobId ∉ openStatuses.map some
  · rw [if_pos hcol, decide_eq_false hcol]
    simp
  · rw [if_neg hcol, decide_eq_true (not_not.mp hcol), Bool.true_and]
    cases F.get row.jobId with
    | true => simp
    | false =>
      rw [if_neg (by simp)]
      cases (tidOf b row.jobId).truthy with
      | true => exact mirrorCardF_calls
      | false => simp

/-- The calls `mirror_outcomes` makes: a show for each open row with a card the loop gets to. -/
theorem calls_mirrorOutcomesF (s : St) (limit : ℕ) (hlist : F.list = false) : (mirrorOutcomesF H F limit s).2.calls =
    s.calls ++ (visited (fun row => mirrorStops H F s.board row.jobId) (taskList limit s.board)).flatMap fun row =>
      if mirrored s.board row.jobId && !F.get row.jobId then [(row.jobId, showArgs H (tidOf s.board row.jobId))] else [] := by
  rw [mirrorOutcomesF, if_neg (by simp [hlist])]
  exact log_scan local_mirrorRowF (fun _ _ => calls_mirrorRowF) (nodup_taskList limit s.board)
    fun _ => unchanged_of_mem_taskList

end Mirror

/-! ### A host without faults -/

section Plain

variable (H : Host)

/-- A card raises in the mirror loop: the command line does, or an end time is no number. -/
def mirrorRaises (b : Board) (jobId : String) : Bool :=
  !(shownPatch H jobId (fullOf b jobId) (tidOf b jobId)).isOk

variable {H} {b : Board} {jobId : String} {s : St}

theorem isOk_lift {α : Type} (r : Except Raised α × St) : (lift r).1.isOk = r.1.isOk := by
  rcases r with ⟨_ | a, s⟩ <;> rfl

theorem enqueueRow_of_not_pending {row : Listed} (h : Unchanged b row s) (hp : pending b row.jobId = false) :
    enqueueRow H row s = (.ok none, s) := by
  rw [pending] at hp
  rw [enqueueRow]
  rw [h.full, h.column]
  by_cases hcol : columnOf b row.jobId ≠ some Status.delegated.text
  · exact if_pos hcol
  · rw [decide_eq_true (not_not.mp hcol), Bool.true_and, Bool.not_eq_false'] at hp
    rw [if_neg hcol]
    exact if_pos hp

theorem enqueueRow_lookup_ne {row : Listed} {j : String} (hne : j ≠ row.jobId) :
    (enqueueRow H row s).2.board.lookup j = s.board.lookup j := by
  have h := enqueueRowF_lookup_ne (H := H) (F := .none) (s := s) hne
  rwa [enqueueRowF_none] at h

theorem calls_enqueueDelegated (H : Host) (s : St) (limit : ℕ) : (enqueueDelegated H limit s).2.calls = s.calls ++
    (visited (fun row => enqueueStops H .none s.board row.jobId) (taskList limit s.board)).flatMap fun row =>
      if pending s.board row.jobId && !Faults.none.get row.jobId then createCallsF H .none s.board row.jobId else [] := by
  have h := calls_enqueueDelegatedF (H := H) s limit (show Faults.none.list = false from rfl)
  rwa [enqueueDelegatedF_none] at h

theorem mirrorRaisesF_none : mirrorRaisesF H .none b jobId = mirrorRaises H b jobId := by
  rw [mirrorRaisesF, mirrorRaises, shownPatchF_none]
  cases shownPatch H jobId (fullOf b jobId) (tidOf b jobId) with
  | error e => rfl
  | ok patch => exact Bool.and_false _

theorem mirrorStops_none : mirrorStops H .none b jobId = (mirrored b jobId && mirrorRaises H b jobId) := by
  rw [mirrorStops, mirrorRaisesF_none, mirrored, Bool.and_assoc]
  rfl

/-- What the mirror loop does with a row as listed: a show if it is open and has a card. -/
theorem mirrorRow_eq {row : Listed} (h : Unchanged b row s) :
    mirrorRow H row s = if mirrored b row.jobId then
      mirrorCard H row.jobId (fullOf b row.jobId) (tidOf b row.jobId) s else (.ok none, s) := by
  rw [mirrorRow, mirrored]
  rw [h.full, h.column]
  by_cases hc : columnOf b row.jobId ∈ openStatuses.map some
  · have htid : getKey (fullOf b row.jobId) "hermes_task_id" = tidOf b row.jobId := rfl
    cases ht : (tidOf b row.jobId).truthy <;> simp [hc, htid, ht]
  · simp [hc]

theorem mirrorRow_lookup_ne {row : Listed} {j : String} (hne : j ≠ row.jobId) :
    (mirrorRow H row s).2.board.lookup j = s.board.lookup j := by
  have h := mirrorRowF_lookup_ne (H := H) (F := .none) (s := s) hne
  rwa [mirrorRowF_none] at h

/-- The mirror loop deals with each row on its own. -/
theorem local_mirrorRow :
    Local Listed.jobId (Unchanged b) (fun row => mirrored b row.jobId && mirrorRaises H b row.jobId)
      (mirrorRow H) where
  raises_iff row s h := by
    rw [← isOk_lift, ← mirrorRowF_none, ← mirrorStops_none]
    exact local_mirrorRowF.raises_iff row s h
  frame _ _ _ hne h := ⟨h.1, (mirrorRow_lookup_ne hne.symm).trans h.2⟩

/-- The calls `mirror_outcomes` makes: a show for each open row with a card the loop gets to. -/
theorem calls_mirrorOutcomes (H : Host) (s : St) (limit : ℕ) : (mirrorOutcomes H limit s).2.calls = s.calls ++
    (visited (fun row => mirrored s.board row.jobId && mirrorRaises H s.board row.jobId)
      (taskList limit s.board)).flatMap fun row =>
        if mirrored s.board row.jobId then [(row.jobId, showArgs H (tidOf s.board row.jobId))] else [] := by
  have h := calls_mirrorOutcomesF (H := H) s limit (show Faults.none.list = false from rfl)
  rw [mirrorOutcomesF_none] at h
  simp only [mirrorStops_none] at h
  simp only [Faults.none, Bool.not_false, Bool.and_true] at h
  exact h

end Plain

/-! ### Completeness -/

/-- `enqueue_delegated` attempts a create for every pending row. -/
def EnqueueComplete (H : Host) (F : Faults) (b : Board) : Prop :=
  ∀ j, pending b j = true → ∃ args, buildCreateArgsF H F j (fullOf b j) = .ok args ∧
    (j, args) ∈ (enqueueDelegatedF H F scanLimit ⟨b, []⟩).2.calls

/-- `mirror_outcomes` attempts a show for every open row with a card. -/
def MirrorComplete (H : Host) (F : Faults) (b : Board) : Prop :=
  ∀ j, mirrored b j = true → (j, showArgs H (tidOf b j)) ∈ (mirrorOutcomesF H F scanLimit ⟨b, []⟩).2.calls

/-- Every row with `due` is among the rows listed, and no row listed before one of them
ends the loop. -/
def Reaches (due stops : String → Bool) (b : Board) : Prop :=
  (∀ j, due j = true → j ∈ (taskList scanLimit b).map Listed.jobId) ∧
    (taskList scanLimit b).Pairwise fun row row' => due row'.jobId = true → stops row.jobId = false

/-- The rows that are due are visited exactly when the loop reaches them. -/
theorem reaches_iff (due stops : String → Bool) (b : Board) : Reaches due stops b ↔
    ∀ j, due j = true → j ∈ (visited (fun row => stops row.jobId) (taskList scanLimit b)).map Listed.jobId :=
  (forall_key_mem_visited_iff (p := fun j => due j = true) (nodup_taskList scanLimit b)).symm

/-- When a loop makes no call for a row that is due, there must be none. -/
theorem reaches_of_not_due {due : String → Bool} (h : ∀ j, due j = false) (stops : String → Bool) (b : Board) :
    Reaches due stops b :=
  (reaches_iff due stops b).mpr fun j hj => absurd hj (by simp [h j])

variable (H : Host) (F : Faults) (b : Board)

/-- When the rows cannot be listed, there must be none that is due. -/
theorem complete_iff_of_not_listed {complete : Prop} {due stops : String → Bool} {own : String → Prop}
    (hlist : F.list = true) (h : complete ↔ ∀ j, due j = false) :
    complete ↔ (∀ j, due j = true → F.list = false ∧ own j) ∧ Reaches due stops b := by
  rw [h]
  constructor
  · intro hno
    exact ⟨fun j hj => absurd hj (by simp [hno j]), reaches_of_not_due hno stops b⟩
  · rintro ⟨hown, -⟩ j
    rw [Bool.eq_false_iff]
    intro hj
    exact absurd (hown j hj).1 (by simp [hlist])

theorem enqueueComplete_iff : EnqueueComplete H F b ↔
    (∀ j, pending b j = true → F.list = false ∧ F.get j = false ∧ F.set j 1 = false ∧
      ∃ args, buildCreateArgsF H F j (fullOf b j) = .ok args) ∧
    Reaches (pending b) (enqueueStops H F b) b := by
  by_cases hlist : F.list = true
  · -- nothing is called
    have hcalls : (enqueueDelegatedF H F scanLimit ⟨b, []⟩).2.calls = [] := by rw [enqueueDelegatedF, if_pos hlist]
    refine complete_iff_of_not_listed F b hlist ⟨fun h j => ?_, fun hno j hj => absurd hj (by simp [hno j])⟩
    rw [Bool.eq_false_iff]
    intro hj
    obtain ⟨args, -, hmem⟩ := h j hj
    rw [hcalls] at hmem
    cases hmem
  · rw [Bool.not_eq_true] at hlist
    rw [reaches_iff, EnqueueComplete, calls_enqueueDelegatedF _ _ hlist, List.nil_append]
    constructor
    · intro h
      have hrow : ∀ j, pending b j = true → ∃ row ∈ visited (fun row => enqueueStops H F b row.jobId) (taskList scanLimit b),
          row.jobId = j ∧ F.get j = false ∧ F.set j 1 = false := by
        intro j hj
        obtain ⟨args, -, hmem⟩ := h j hj
        obtain ⟨row, hrow, hcall⟩ := List.mem_flatMap.mp hmem
        split_ifs at hcall with hget
        · have hkey : j = row.jobId := fst_of_mem_createCallsF hcall
          rw [Bool.and_eq_true, Bool.not_eq_true', ← hkey] at hget
          refine ⟨row, hrow, hkey.symm, hget.2, ?_⟩
          rw [createCallsF, ← hkey] at hcall
          split_ifs at hcall with hset
          · cases hcall
          · exact Bool.eq_false_iff.mpr hset
        · cases hcall
      refine ⟨fun j hj => ?_, fun j hj => ?_⟩
      · obtain ⟨-, -, -, hget, hset⟩ := hrow j hj
        exact ⟨hlist, hget, hset, (h j hj).imp fun _ ha => ha.1⟩
      · obtain ⟨row, hvisited, hkey, -⟩ := hrow j hj
        exact hkey ▸ List.mem_map_of_mem hvisited
    · rintro ⟨hown, hv⟩ j hj
      obtain ⟨-, hget, hset, args, ha⟩ := hown j hj
      obtain ⟨row, hrow, rfl⟩ := List.mem_map.mp (hv j hj)
      refine ⟨args, ha, List.mem_flatMap.mpr ⟨row, hrow, ?_⟩⟩
      rw [if_pos (by rw [hget, Bool.not_false, Bool.and_true]; exact hj), createCallsF, hset, ha, if_neg (by simp)]
      exact List.mem_singleton_self _

theorem mirrorComplete_iff : MirrorComplete H F b ↔
    (∀ j, mirrored b j = true → F.list = false ∧ F.get j = false) ∧ Reaches (mirrored b) (mirrorStops H F b) b := by
  by_cases hlist : F.list = true
  · -- nothing is called
    have hcalls : (mirrorOutcomesF H F scanLimit ⟨b, []⟩).2.calls = [] := by rw [mirrorOutcomesF, if_pos hlist]
    refine complete_iff_of_not_listed F b hlist ⟨fun h j => ?_, fun hno j hj => absurd hj (by simp [hno j])⟩
    rw [Bool.eq_false_iff]
    intro hj
    have hmem := h j hj
    rw [hcalls] at hmem
    cases hmem
  · rw [Bool.not_eq_true] at hlist
    rw [reaches_iff, MirrorComplete, calls_mirrorOutcomesF _ _ hlist, List.nil_append]
    constructor
    · intro h
      have hrow : ∀ j, mirrored b j = true → ∃ row ∈ visited (fun row => mirrorStops H F b row.jobId) (taskList scanLimit b),
          row.jobId = j ∧ F.get j = false := by
        intro j hj
        obtain ⟨row, hrow, hcall⟩ := List.mem_flatMap.mp (h j hj)
        split_ifs at hcall with hget
        · have hkey : j = row.jobId := congrArg Prod.fst (List.mem_singleton.mp hcall)
          rw [Bool.and_eq_true, Bool.not_eq_true', ← hkey] at hget
          exact ⟨row, hrow, hkey.symm, hget.2⟩
        · cases hcall
      refine ⟨fun j hj => ?_, fun j hj => ?_⟩
      · obtain ⟨-, -, -, hget⟩ := hrow j hj
        exact ⟨hlist, hget⟩
      · obtain ⟨row, hvisited, hkey, -⟩ := hrow j hj
        exact hkey ▸ List.mem_map_of_mem hvisited
    · rintro ⟨hown, hv⟩ j hj
      obtain ⟨row, hrow, rfl⟩ := List.mem_map.mp (hv j hj)
      refine List.mem_flatMap.mpr ⟨row, hrow, ?_⟩
      rw [if_pos (by rw [(hown _ hj).2, Bool.not_false, Bool.and_true]; exact hj)]
      exact List.mem_singleton_self _

/-- **Which rows a tick attempts.** `enqueue_delegated` attempts every pending row
exactly when the rows can be listed, each pending one can be read, marked and made
arguments of and is among the 200 listed, and no row before one of them ends the loop;
`mirror_outcomes` attempts every open row with a card exactly when the rows can be
listed, each such row can be read and is among the 200 listed, and no row before one of
them ends the loop. -/
theorem attempts_complete_iff :
    (EnqueueComplete H F b ↔
      (∀ j, pending b j = true → F.list = false ∧ F.get j = false ∧ F.set j 1 = false ∧
        ∃ args, buildCreateArgsF H F j (fullOf b j) = .ok args) ∧
      Reaches (pending b) (enqueueStops H F b) b) ∧
    (MirrorComplete H F b ↔
      (∀ j, mirrored b j = true → F.list = false ∧ F.get j = false) ∧ Reaches (mirrored b) (mirrorStops H F b) b) :=
  ⟨enqueueComplete_iff H F b, mirrorComplete_iff H F b⟩

/-- A board with two delegated rows. -/
def twoDelegated : Board :=
  ((∅ : Board).insert "a" ⟨some "delegated", item "status" (.str "delegated"), 1, 1⟩).insert "b"
    ⟨some "delegated", item "status" (.str "delegated"), 2, 2⟩

/-- A host on which every call of the command line raises, as on a timeout. -/
def deafHost : Host where
  toPython := .ofTable []
  cli := "hermes"
  board := ""
  tenant := "persona"
  runner _ _ := .error .runner
  time _ _ := 0

/-- When the first create times out, the second delegated row is not attempted. -/
theorem attempts_not_complete : ¬ ∀ H b, EnqueueComplete H .none b ∧ MirrorComplete H .none b := by
  intro h
  obtain ⟨args, -, hmem⟩ := (h deafHost twoDelegated).1 "a" (by decide)
  have hcalls : (enqueueDelegatedF deafHost .none scanLimit ⟨twoDelegated, []⟩).2.calls.map Prod.fst = ["b"] := by decide
  have : "a" ∈ (enqueueDelegatedF deafHost .none scanLimit ⟨twoDelegated, []⟩).2.calls.map Prod.fst :=
    List.mem_map_of_mem (f := Prod.fst) hmem
  rw [hcalls] at this
  exact absurd this (by decide)

end Persona.Bridge
