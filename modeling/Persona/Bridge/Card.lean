import Persona.Bridge.Starvation

/-!
# What a card makes of its row

The `show` payload of a Hermes card, and what the patch derived from it says: its
status is the card's, and it touches no other keys than its own. With the row-by-row
account of the two loops (`Persona.Bridge.Starvation`) this gives what a whole tick does
to a row that has a card: nothing when the row is closed, and else it writes the card's
status, if the card has one.
-/

namespace Persona.Bridge

open Persona.Lib Persona.TaskBoard

/-! ### The patch of a payload -/

theorem lookup_setSome_ne {k k' : String} {v : Json} {d : Dict} (h : k ≠ k') :
    (setSome k' v d).lookup k = d.lookup k := by
  rw [setSome]
  split_ifs
  · rfl
  · exact AList.lookup_insert_ne h

/-- The keys a patch may have besides `attempts` and `status`. -/
def outcomeKeys : List String := ["summary", "metadata", "finished_at", "error", "block_reason"]

variable {P : Python} {now : ℤ} {payload : List (String × Json)} {patch : Dict} {k : String}

/-- Of the other keys, a derived patch says what its base says. -/
theorem lookup_deriveUpdate (h : deriveUpdate P now payload = some patch) (hk : k ∉ outcomeKeys) :
    patch.lookup k = (basePatch P payload).lookup k := by
  simp only [outcomeKeys, List.mem_cons, List.not_mem_nil, or_false, not_or] at hk
  obtain ⟨h₁, h₂, h₃, h₄, h₅⟩ := hk
  unfold deriveUpdate at h
  cases hst : deriveStatus P payload with
  | none => simp only [hst, Option.some.injEq] at h; rw [h]
  | some st =>
    cases st <;> simp only [hst, Option.map_eq_some_iff, Option.some.injEq] at h
    case delegated | running => rw [h]
    case ok =>
      obtain ⟨t, -, rfl⟩ := h
      rw [AList.lookup_insert_ne h₃, lookup_setSome_ne h₂, lookup_setSome_ne h₁]
    case blocked => rw [← h, lookup_setSome_ne h₅]
    case error | timeout =>
      obtain ⟨t, -, rfl⟩ := h
      rw [lookup_setSome_ne h₄, AList.lookup_insert_ne h₃]

/-- A derived patch has the card's status. -/
theorem lookup_status_deriveUpdate (h : deriveUpdate P now payload = some patch) :
    patch.lookup "status" = (deriveStatus P payload).map fun st => .str st.text := by
  have hk : "status" ∉ outcomeKeys := by decide
  rw [lookup_deriveUpdate h hk]
  unfold basePatch
  cases deriveStatus P payload with
  | some st => exact AList.lookup_insert _
  | none =>
    dsimp only
    split_ifs
    · rfl
    · exact lookup_item_ne (by decide)

/-- A derived patch has no key but its own. -/
theorem notMem_deriveUpdate (h : deriveUpdate P now payload = some patch) (hk : k ∉ outcomeKeys)
    (h₁ : k ≠ "attempts") (h₂ : k ≠ "status") : k ∉ patch := by
  have hbase : k ∉ (if (runsOf payload).isEmpty then (∅ : Dict) else
      item "attempts" (.int (runsOf payload).length)) := by
    split_ifs
    · exact AList.notMem_empty k
    · exact notMem_item h₁
  rw [← AList.lookup_eq_none, lookup_deriveUpdate h hk, AList.lookup_eq_none]
  unfold basePatch
  cases deriveStatus P payload with
  | some st => exact notMem_insert h₂ hbase
  | none => exact hbase

/-- Mirroring adds no key but the start. -/
theorem lookup_mirrorPatch {full : Dict} (h : k ≠ "started_at") :
    (mirrorPatch now full patch).lookup k = patch.lookup k := by
  rw [mirrorPatch]
  split
  · split_ifs
    · exact AList.lookup_insert_ne h
    · rfl
  · rfl

/-- Mirroring leaves `hermes_task_id` alone. -/
theorem tid_notMem_mirrorPatch {full : Dict} {now' : ℤ} (h : deriveUpdate P now payload = some patch) :
    "hermes_task_id" ∉ mirrorPatch now' full patch := by
  have hkey : "hermes_task_id" ∉ outcomeKeys := by decide
  rw [← AList.lookup_eq_none, lookup_mirrorPatch (by decide), AList.lookup_eq_none]
  exact notMem_deriveUpdate h hkey (by decide) (by decide)

/-- The patch of a card that was fetched. -/
theorem cardPatch_eq {H : Host} {j : String} {full : Dict} {answer : ℤ × String × String} (hne : payload ≠ [])
    (hfetch : fetchTask H answer = some payload)
    (hpatch : deriveUpdate H.toPython (H.time j 3) payload = some patch) :
    cardPatch H j full answer = .ok (mirrorPatch (H.time j 4) full patch) := by
  cases payload with
  | nil => exact absurd rfl hne
  | cons kv payload =>
    rw [cardPatch]
    rw [hfetch]
    dsimp only
    rw [hpatch]

/-! ### A tick and one row -/

section Tick

variable {H : Host} {b : Board} {j : String}

theorem pending_eq_false_of_mirrored (h : mirrored b j = true) : pending b j = false := by
  have ht : (tidOf b j).truthy = true := (Bool.and_eq_true_iff.mp h).2
  simp [pending, ht]

/-- The enqueue loop leaves a row that is not pending. -/
theorem enqueue_lookup {s : St} (h : pending s.board j = false) (limit : ℕ) :
    (enqueueDelegated H limit s).2.board.lookup j = s.board.lookup j := by
  refine scan_frame (Q := fun t : St => t.board.lookup j = s.board.lookup j) (fun row hrow t ht => ?_) rfl
  by_cases hj : row.jobId = j
  · subst hj
    have hu : Unchanged s.board row t := ⟨mem_of_mem_taskList hrow, ht⟩
    rw [enqueueRow_of_not_pending hu h]
    exact ht
  · exact (enqueueRow_lookup_ne (Ne.symm hj)).trans ht

/-- The mirror loop leaves a row that is closed or has no card. -/
theorem mirror_lookup {s : St} (h : mirrored s.board j = false) (limit : ℕ) :
    (mirrorOutcomes H limit s).2.board.lookup j = s.board.lookup j := by
  refine scan_frame (Q := fun t : St => t.board.lookup j = s.board.lookup j) (fun row hrow t ht => ?_) rfl
  by_cases hj : row.jobId = j
  · subst hj
    have hu : Unchanged s.board row t := ⟨mem_of_mem_taskList hrow, ht⟩
    rw [mirrorRow_eq hu, h]
    exact ht
  · exact (mirrorRow_lookup_ne (Ne.symm hj)).trans ht

/-- A row for which the mirror loop makes a call ends as `mirrorCard` leaves it. -/
theorem mirror_lookup_of_call {s : St} {args : List Json} {limit : ℕ} (hno : ∀ c ∈ s.calls, c.1 ≠ j)
    (hm : mirrored s.board j = true) (hcall : (j, args) ∈ (mirrorOutcomes H limit s).2.calls) :
    ∃ t : St, t.board.lookup j = s.board.lookup j ∧ (mirrorOutcomes H limit s).2.board.lookup j =
      (mirrorCard H j (fullOf s.board j) (tidOf s.board j) t).2.board.lookup j := by
  rw [calls_mirrorOutcomes, List.mem_append] at hcall
  obtain ⟨row, hrow, hc⟩ := List.mem_flatMap.mp (hcall.resolve_left fun h => hno _ h rfl)
  have hj : j = row.jobId := by
    split_ifs at hc
    · exact congrArg Prod.fst (List.mem_singleton.mp hc)
    · simp at hc
  subst hj
  obtain ⟨t, hu, -, heq⟩ := scan_at (fun t : St => t.board.lookup row.jobId) local_mirrorRow
    (fun _ _ hne => mirrorRow_lookup_ne (Ne.symm hne)) (nodup_taskList limit s.board)
    (fun _ => unchanged_of_mem_taskList) hrow
  refine ⟨t, hu.2, heq.trans ?_⟩
  rw [mirrorRow_eq hu, if_pos hm]

/-- The enqueue loop makes no call for a row that is not pending. -/
theorem enqueue_calls_ne {s : St} (h : pending s.board j = false) (hno : ∀ c ∈ s.calls, c.1 ≠ j) (limit : ℕ) :
    ∀ c ∈ (enqueueDelegated H limit s).2.calls, c.1 ≠ j := by
  intro c hc
  rw [calls_enqueueDelegated, List.mem_append] at hc
  rcases hc with hc | hc
  · exact hno c hc
  · obtain ⟨row, -, hc⟩ := List.mem_flatMap.mp hc
    split_ifs at hc with hp
    · rw [fst_of_mem_createCallsF hc]
      rintro rfl
      rw [h] at hp
      exact absurd hp (by simp)
    · simp at hc

/-- A tick is its enqueue loop alone, if that raised, or both loops. -/
theorem tick_snd (s : St) :
    (tick H s).2 = (enqueueDelegated H scanLimit s).2 ∨
      (tick H s).2 = (mirrorOutcomes H scanLimit (enqueueDelegated H scanLimit s).2).2 := by
  rw [tick]
  rcases enqueueDelegated H scanLimit s with ⟨_ | created, s₁⟩
  · exact .inl rfl
  · right
    dsimp only
    rcases mirrorOutcomes H scanLimit s₁ with ⟨_ | updated, s₂⟩ <;> rfl

theorem lookup_congr {b b' : Board} (h : b'.lookup j = b.lookup j) :
    fullOf b' j = fullOf b j ∧ tidOf b' j = tidOf b j ∧ mirrored b' j = mirrored b j ∧
      pending b' j = pending b j := by
  have hf : fullOf b' j = fullOf b j := by rw [fullOf, taskGet, h]; rfl
  have ht : tidOf b' j = tidOf b j := by rw [tidOf, hf]; rfl
  have hc : columnOf b' j = columnOf b j := by rw [columnOf, h]; rfl
  exact ⟨hf, ht, by rw [mirrored, hc, ht]; rfl, by rw [pending, hc, ht]; rfl⟩

/-- **A tick and a closed row**: a row with a card whose status is not open stays as it is. -/
theorem tick_lookup_closed (hp : pending b j = false) (hm : mirrored b j = false) :
    (tick H ⟨b, []⟩).2.board.lookup j = b.lookup j := by
  have h₁ : (enqueueDelegated H scanLimit ⟨b, []⟩).2.board.lookup j = b.lookup j := enqueue_lookup hp scanLimit
  rcases tick_snd (H := H) ⟨b, []⟩ with h | h
  · rw [h, h₁]
  · rw [h, mirror_lookup _ scanLimit, h₁]
    rw [(lookup_congr h₁).2.2.1, hm]

/-- **A tick and an open row**: when the tick shows the row's card, the row ends as
`mirrorCard` leaves it. -/
theorem tick_lookup_open {args : List Json} (hm : mirrored b j = true)
    (hcall : (j, args) ∈ (tick H ⟨b, []⟩).2.calls) :
    ∃ t : St, t.board.lookup j = b.lookup j ∧
      (tick H ⟨b, []⟩).2.board.lookup j = (mirrorCard H j (fullOf b j) (tidOf b j) t).2.board.lookup j := by
  have hp := pending_eq_false_of_mirrored hm
  have h₁ : (enqueueDelegated H scanLimit ⟨b, []⟩).2.board.lookup j = b.lookup j := enqueue_lookup hp scanLimit
  have hno := enqueue_calls_ne (H := H) (s := ⟨b, []⟩) hp (by simp) scanLimit
  obtain ⟨hf, ht, hm', -⟩ := lookup_congr h₁
  rcases tick_snd (H := H) ⟨b, []⟩ with h | h
  · rw [h] at hcall
    exact absurd rfl (hno _ hcall)
  · rw [h] at hcall ⊢
    obtain ⟨t, ht₁, ht₂⟩ := mirror_lookup_of_call hno (hm'.trans hm) hcall
    exact ⟨t, ht₁.trans h₁, by rw [ht₂, hf, ht]⟩

end Tick

end Persona.Bridge
