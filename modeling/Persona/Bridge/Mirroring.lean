import Persona.Bridge.Convergence

/-!
# Mirroring twice

What `mirror_outcomes` writes is a list of patches, one for each open row with a card that the loop gets to
(`board_mirrorOutcomes`). A patch that leaves its row open says the same at any time but for the start, which
is written once; so a second run over the same cards writes nothing new (`mirror_again`). The start counts as
missing when it is 0: a run that stamps a start with second 0 is followed by one that stamps it anew.
-/

namespace Persona.Bridge

open Persona.Lib Persona.TaskBoard

/-! ### A patch and the clock -/

section Clock

variable {P : Python} {now now' : ℤ} {payload : List (String × Json)} {patch patch' full : Dict}

theorem isSome_finishedTs (P : Python) (now now' : ℤ) (run : List (String × Json)) :
    (finishedTs P now run).isSome = (finishedTs P now' run).isSome := by
  unfold finishedTs
  cases Json.get run "ended_at" <;> rfl

/-- Whether a payload raises does not depend on the clock. -/
theorem isSome_deriveUpdate (P : Python) (now now' : ℤ) (payload : List (String × Json)) :
    (deriveUpdate P now payload).isSome = (deriveUpdate P now' payload).isSome := by
  have hts := isSome_finishedTs P now now' (latestRun payload)
  unfold deriveUpdate
  cases deriveStatus P payload with
  | none => rfl
  | some st => cases st <;> first | rfl | simpa only [Option.isSome_map] using hts

/-- A card that does not close its row: the patch is the attempts and the status. -/
theorem deriveUpdate_open (h : ∀ st, deriveStatus P payload = some st → st.text ∈ openStatuses) (now : ℤ) :
    deriveUpdate P now payload = some (basePatch P payload) := by
  unfold deriveUpdate
  cases hst : deriveStatus P payload with
  | none => rfl
  | some st =>
    have hopen := h st hst
    cases st
    case delegated | running => rfl
    all_goals exact absurd hopen (by decide)

/-- The finish is written when the row is closed. -/
theorem closed_of_finished (h : deriveUpdate P now payload = some patch) (hk : "finished_at" ∈ patch) :
    ∃ st, deriveStatus P payload = some st ∧ st.text ∉ openStatuses := by
  by_contra hno
  have hopen : ∀ st, deriveStatus P payload = some st → st.text ∈ openStatuses := by
    intro st hst
    by_contra hclosed
    exact hno ⟨st, hst, hclosed⟩
  rw [deriveUpdate_open hopen, Option.some.injEq] at h
  subst h
  have hbase : "finished_at" ∉ (if (runsOf payload).isEmpty then (∅ : Dict) else
      item "attempts" (.int (runsOf payload).length)) := by
    split_ifs
    · exact AList.notMem_empty _
    · exact notMem_item (by decide)
  unfold basePatch at hk
  cases hst : deriveStatus P payload with
  | none =>
    rw [hst] at hk
    exact hbase hk
  | some st =>
    rw [hst] at hk
    exact notMem_insert (by decide) hbase hk

/-- The start is written when the row runs and has none. -/
theorem mirrorPatch_eq (now : ℤ) (h : deriveUpdate P now' payload = some patch) : mirrorPatch now full patch =
    if deriveStatus P payload = some .running ∧ (getKey full "started_at").truthy = false then
      patch.insert "started_at" (.int now) else patch := by
  have hst := lookup_status_deriveUpdate h
  unfold mirrorPatch getKey
  cases hd : deriveStatus P payload with
  | none =>
    rw [hd] at hst
    rw [hst]
    simp
  | some st =>
    rw [hd] at hst
    rw [hst]
    have hrun : st.text = Status.running.text ↔ some st = some Status.running := by
      rw [Status.text_injective.eq_iff, Option.some.injEq]
    simp only [Option.map_some, Option.getD_some, hrun]

theorem started_notMem (h : deriveUpdate P now payload = some patch) : "started_at" ∉ patch :=
  notMem_deriveUpdate h (by decide) (by decide) (by decide)

/-- Whether there is anything to write does not depend on the clock, nor on the row. -/
theorem isEmpty_mirrorPatch {full' : Dict} (t t' : ℤ) (h : deriveUpdate P now payload = some patch)
    (h' : deriveUpdate P now' payload = some patch') :
    (mirrorPatch t full patch).entries.isEmpty = (mirrorPatch t' full' patch').entries.isEmpty := by
  cases hst : deriveStatus P payload with
  | none =>
    have hopen : ∀ st, deriveStatus P payload = some st → st.text ∈ openStatuses := by simp [hst]
    rw [deriveUpdate_open hopen, Option.some.injEq] at h h'
    subst h
    subst h'
    rw [mirrorPatch_eq t (deriveUpdate_open hopen now), mirrorPatch_eq t' (deriveUpdate_open hopen now), hst]
    simp
  | some st =>
    -- both hold the status
    have hfull : ∀ {d : Dict}, d.lookup "status" = some (.str st.text) → d.entries.isEmpty = false := by
      intro d hd
      cases hentries : d.entries with
      | nil =>
        rw [AList.lookup, hentries] at hd
        cases hd
      | cons e es => rfl
    rw [hfull, hfull]
    · rw [lookup_mirrorPatch (by decide), lookup_status_deriveUpdate h', hst]
      rfl
    · rw [lookup_mirrorPatch (by decide), lookup_status_deriveUpdate h, hst]
      rfl

end Clock

/-! ### What is written -/

section Writes

variable (H : Host) (limit : ℕ) (b : Board)

/-- The patch that is written to a row, if the loop gets to it. -/
def mirrorWrite (jobId : String) : Option Dict :=
  if mirrored b jobId then
    match shownPatch H jobId (fullOf b jobId) (tidOf b jobId) with
    | .ok patch => if patch.entries.isEmpty then none else some patch
    | .error _ => none
  else none

/-- The row raises when the loop gets to it. -/
def stops (row : Listed) : Bool := mirrored b row.jobId && mirrorRaises H b row.jobId

/-- The patches that `mirror_outcomes` writes, each with the row it is for. -/
def mirrorWrites : List (String × Dict) :=
  (visited (stops H b) (taskList limit b)).flatMap fun row => ((mirrorWrite H b row.jobId).map fun p => (row.jobId, p)).toList

/-- `board.task_set` of a patch. -/
def writeBack (b : Board) (w : String × Dict) : Board := taskSet H.toPython (H.time w.1 5) w.1 w.2 b

variable {H} {limit} {b}

/-- **The board after `mirror_outcomes`** is that after its writes. -/
theorem board_mirrorOutcomes (H : Host) (limit : ℕ) (b : Board) :
    (mirrorOutcomes H limit ⟨b, []⟩).2.board = (mirrorWrites H limit b).foldl (writeBack H) b := by
  have hbody : ∀ (row : Listed) (s : St), Unchanged b row s → (mirrorRow H row s).2.board =
      ((mirrorWrite H b row.jobId).map fun p => (row.jobId, p)).toList.foldl (writeBack H) s.board := by
    intro row s hu
    rw [mirrorRow_eq hu, mirrorWrite]
    split_ifs
    · rw [mirrorCard]
      cases hshown : shownPatch H row.jobId (fullOf b row.jobId) (tidOf b row.jobId) with
      | error e => rfl
      | ok patch =>
        dsimp only
        split_ifs <;> rfl
    · rfl
  exact fold_scan local_mirrorRow hbody (nodup_taskList limit b) fun row hrow => ⟨mem_of_mem_taskList hrow, rfl⟩

variable {ws : List (String × Dict)} {j : String} {p : Dict}

theorem mem_mirrorWrites : (j, p) ∈ mirrorWrites H limit b ↔
    j ∈ (visited (stops H b) (taskList limit b)).map Listed.jobId ∧ mirrorWrite H b j = some p := by
  rw [mirrorWrites, List.mem_flatMap]
  constructor
  · rintro ⟨row, hrow, hw⟩
    obtain ⟨p', hp, heq⟩ := Option.map_eq_some_iff.mp (Option.mem_toList.mp hw)
    obtain ⟨rfl, rfl⟩ := Prod.mk.inj heq
    exact ⟨List.mem_map_of_mem hrow, hp⟩
  · rintro ⟨hmem, hw⟩
    obtain ⟨row, hrow, rfl⟩ := List.mem_map.mp hmem
    refine ⟨row, hrow, ?_⟩
    rw [hw]
    exact List.mem_singleton_self _

/-- Each row is written once at most. -/
theorem nodup_mirrorWrites (H : Host) (limit : ℕ) (b : Board) : ((mirrorWrites H limit b).map Prod.fst).Nodup := by
  have hsub : ∀ rows : List Listed, ((rows.flatMap fun row =>
      ((mirrorWrite H b row.jobId).map fun p => (row.jobId, p)).toList).map Prod.fst).Sublist (rows.map Listed.jobId) := by
    intro rows
    induction rows with
    | nil => exact .slnil
    | cons row rows ih =>
      rw [List.flatMap_cons, List.map_append, List.map_cons]
      cases mirrorWrite H b row.jobId with
      | none => exact .cons _ ih
      | some p => exact .cons_cons _ ih
  exact ((nodup_taskList limit b).sublist (visited_sublist.map _)).sublist (hsub _)

theorem lookup_writes_ne (h : j ∉ ws.map Prod.fst) : (ws.foldl (writeBack H) b).lookup j = b.lookup j := by
  induction ws generalizing b with
  | nil => rfl
  | cons w ws ih =>
    rw [List.map_cons, List.mem_cons, not_or] at h
    rw [List.foldl_cons, ih h.2]
    exact lookup_taskSet_ne _ h.1

/-- The row that a write leaves. -/
theorem lookup_writes (hnodup : (ws.map Prod.fst).Nodup) (h : (j, p) ∈ ws) :
    (ws.foldl (writeBack H) b).lookup j = (taskSet H.toPython (H.time j 5) j p b).lookup j := by
  induction ws generalizing b with
  | nil => cases h
  | cons w ws ih =>
    rw [List.map_cons, List.nodup_cons] at hnodup
    rw [List.foldl_cons]
    rcases List.mem_cons.mp h with rfl | h
    · exact lookup_writes_ne hnodup.1
    · have hne : j ≠ w.1 := fun heq => hnodup.1 (heq ▸ List.mem_map_of_mem h)
      rw [ih hnodup.2 h, lookup_taskSet, lookup_taskSet, writeBack, lookup_taskSet_ne _ hne]

/-- A row that is not written stays. -/
theorem lookup_mirrorOutcomes_ne (h : j ∉ (mirrorWrites H limit b).map Prod.fst) :
    (mirrorOutcomes H limit ⟨b, []⟩).2.board.lookup j = b.lookup j := by
  rw [board_mirrorOutcomes]
  exact lookup_writes_ne h

/-- A row that is written was there. -/
theorem exists_row (h : mirrored b j = true) : ∃ r, b.lookup j = some r := by
  have hcol := (Bool.and_eq_true_iff.mp h).1
  rw [decide_eq_true_eq, columnOf] at hcol
  cases hr : b.lookup j with
  | none =>
    rw [hr] at hcol
    simp at hcol
  | some r => exact ⟨r, rfl⟩

/-- A row that is written has the merged state. -/
theorem lookup_mirrorOutcomes (h : (j, p) ∈ mirrorWrites H limit b) : ∃ r, b.lookup j = some r ∧
    (mirrorOutcomes H limit ⟨b, []⟩).2.board.lookup j =
      some ⟨statusOf H.toPython (update r.state p), update r.state p, r.createdAt, H.time j 5⟩ := by
  have hm : mirrored b j = true := by
    by_contra hm
    have hw := (mem_mirrorWrites.mp h).2
    rw [mirrorWrite, if_neg hm] at hw
    cases hw
  obtain ⟨r, hr⟩ := exists_row hm
  refine ⟨r, hr, ?_⟩
  rw [board_mirrorOutcomes, lookup_writes (nodup_mirrorWrites H limit b) h, lookup_taskSet, hr]
  rfl

theorem cardPatch_none {full : Dict} {answer : ℤ × String × String} (h : fetchTask H answer = none ∨ fetchTask H answer = some []) :
    cardPatch H j full answer = .ok ∅ := by
  rw [cardPatch]
  rcases h with h | h <;> rw [h]

/-- An answer that is not passed over has something in it. -/
theorem exists_payload {answer : ℤ × String × String} (h : ¬ (fetchTask H answer = none ∨ fetchTask H answer = some [])) :
    ∃ payload, fetchTask H answer = some payload ∧ payload ≠ [] := by
  obtain ⟨hne, hempty⟩ := not_or.mp h
  obtain ⟨payload, hfetch⟩ := Option.ne_none_iff_exists'.mp hne
  exact ⟨payload, hfetch, fun h => hempty (h ▸ hfetch)⟩

theorem cardPatch_raises {full : Dict} {answer : ℤ × String × String} {payload : List (String × Json)} (hne : payload ≠ [])
    (hfetch : fetchTask H answer = some payload) (hpatch : deriveUpdate H.toPython (H.time j 3) payload = none) :
    cardPatch H j full answer = .error .conversion := by
  cases payload with
  | nil => exact absurd rfl hne
  | cons kv payload =>
    rw [cardPatch]
    rw [hfetch]
    dsimp only
    rw [hpatch]

theorem shownPatch_error {full : Dict} {tid : Json} {e : Raised} (h : H.runner j (showArgs H tid) = .error e) :
    shownPatch H j full tid = .error e := by
  rw [shownPatch, h]
  rfl

theorem shownPatch_ok {full : Dict} {tid : Json} {answer : ℤ × String × String} (h : H.runner j (showArgs H tid) = .ok answer) :
    shownPatch H j full tid = cardPatch H j full answer := by
  rw [shownPatch, h]
  rfl

/-- What a patch that is written comes from. -/
theorem payload_of_write (h : mirrorWrite H b j = some p) : mirrored b j = true ∧
    ∃ answer payload patch, H.runner j (showArgs H (tidOf b j)) = .ok answer ∧ fetchTask H answer = some payload ∧
      payload ≠ [] ∧ deriveUpdate H.toPython (H.time j 3) payload = some patch ∧
        p = mirrorPatch (H.time j 4) (fullOf b j) patch := by
  rw [mirrorWrite] at h
  split_ifs at h with hm
  refine ⟨hm, ?_⟩
  cases hrun : H.runner j (showArgs H (tidOf b j)) with
  | error e =>
    rw [shownPatch_error hrun] at h
    cases h
  | ok answer =>
    rw [shownPatch_ok hrun] at h
    by_cases hnone : fetchTask H answer = none ∨ fetchTask H answer = some []
    · rw [cardPatch_none hnone] at h
      cases h
    · obtain ⟨payload, hfetch, hne⟩ := exists_payload hnone
      cases hpatch : deriveUpdate H.toPython (H.time j 3) payload with
      | none =>
        rw [cardPatch_raises hne hfetch hpatch] at h
        cases h
      | some patch =>
        rw [cardPatch_eq hne hfetch hpatch] at h
        dsimp only at h
        split_ifs at h
        exact ⟨answer, payload, patch, rfl, hfetch, hne, hpatch, (Option.some.inj h).symm⟩

end Writes

/-! ### The same cards at another time -/

section Again

/-- The host at other times. -/
def Host.withTime (H : Host) (time : String → ℕ → ℤ) : Host := { H with time := time }

variable {H : Host} {b : Board} {j : String} (time : String → ℕ → ℤ)

theorem fetchTask_withTime (answer : ℤ × String × String) : fetchTask (H.withTime time) answer = fetchTask H answer := rfl

/-- What is asked of a patch: that there is one, and whether it is empty. -/
def emptyPatch (r : Except Raised Dict) : Option Bool := r.toOption.map fun p => p.entries.isEmpty

theorem cardPatch_withTime (full : Dict) (answer : ℤ × String × String) :
    emptyPatch (cardPatch (H.withTime time) j full answer) = emptyPatch (cardPatch H j full answer) := by
  by_cases hnone : fetchTask H answer = none ∨ fetchTask H answer = some []
  · rw [cardPatch_none hnone, cardPatch_none ((fetchTask_withTime time answer).symm ▸ hnone)]
  · obtain ⟨payload, hfetch, hne⟩ := exists_payload hnone
    have hsome := isSome_deriveUpdate H.toPython (time j 3) (H.time j 3) payload
    have hfetch' : fetchTask (H.withTime time) answer = some payload := hfetch
    cases h : deriveUpdate H.toPython (H.time j 3) payload with
    | none =>
      rw [h, Option.isSome_none, Option.isSome_eq_false_iff, Option.isNone_iff_eq_none] at hsome
      rw [cardPatch_raises hne hfetch h, cardPatch_raises hne hfetch' hsome]
    | some patch =>
      rw [h, Option.isSome_some] at hsome
      obtain ⟨patch', h'⟩ := Option.isSome_iff_exists.mp hsome
      rw [cardPatch_eq hne hfetch h, cardPatch_eq hne hfetch' h']
      exact congrArg some (isEmpty_mirrorPatch _ _ h' h)

theorem shownPatch_withTime (full : Dict) (tid : Json) :
    emptyPatch (shownPatch (H.withTime time) j full tid) = emptyPatch (shownPatch H j full tid) := by
  cases h : H.runner j (showArgs H tid) with
  | error e =>
    have h' : (H.withTime time).runner j (showArgs (H.withTime time) tid) = .error e := h
    rw [shownPatch_error h, shownPatch_error h']
  | ok answer =>
    have h' : (H.withTime time).runner j (showArgs (H.withTime time) tid) = .ok answer := h
    rw [shownPatch_ok h, shownPatch_ok h']
    exact cardPatch_withTime time full answer

theorem isOk_eq_isSome (r : Except Raised Dict) : r.isOk = (emptyPatch r).isSome := by cases r <;> rfl

/-- A row raises at any time or at none. -/
theorem stops_withTime (b : Board) : stops (H.withTime time) b = stops H b := by
  funext row
  rw [stops, stops, mirrorRaises, mirrorRaises, isOk_eq_isSome, isOk_eq_isSome, shownPatch_withTime]

theorem isSome_mirrorWrite_eq (H : Host) (b : Board) (j : String) : (mirrorWrite H b j).isSome =
    (mirrored b j && (emptyPatch (shownPatch H j (fullOf b j) (tidOf b j)) == some false)) := by
  unfold mirrorWrite
  cases mirrored b j with
  | false => rfl
  | true =>
    rw [if_pos rfl, Bool.true_and]
    cases shownPatch H j (fullOf b j) (tidOf b j) with
    | error e => rfl
    | ok patch =>
      show Option.isSome (if patch.entries.isEmpty then none else some patch) = (some patch.entries.isEmpty == some false)
      cases patch.entries.isEmpty <;> rfl

/-- There is something to write at any time or at none. -/
theorem isSome_mirrorWrite (b : Board) (j : String) :
    (mirrorWrite (H.withTime time) b j).isSome = (mirrorWrite H b j).isSome := by
  rw [isSome_mirrorWrite_eq, isSome_mirrorWrite_eq, shownPatch_withTime]

end Again

/-! ### The row of a write -/

section Row

variable {H : Host} {limit : ℕ} {b : Board} {j : String} {p : Dict}

theorem getKey_fullOf {r : Row} {k : String} (h : b.lookup j = some r) (h₁ : k ≠ "job_id") (h₂ : k ≠ "_created_at")
    (h₃ : k ≠ "_updated_at") : getKey (fullOf b j) k = getKey r.state k := by
  obtain ⟨full, hfull⟩ : ∃ full, taskGet j b = some full := by
    rw [taskGet, h]
    exact ⟨_, rfl⟩
  rw [fullOf, hfull, Option.getD_some]
  exact getKey_taskGet h hfull h₁ h₂ h₃

theorem getKey_update_of_notMem {state : Dict} {k : String} (h : k ∉ p) : getKey (update state p) k = getKey state k := by
  rw [getKey, lookup_update_of_notMem h]
  rfl

theorem getKey_update_of_lookup {state : Dict} {k : String} {v : Json} (h : p.lookup k = some v) : getKey (update state p) k = v := by
  rw [getKey, lookup_update, h]
  rfl

/-- A row that is written is still the row of its card. -/
theorem tidOf_write (h : (j, p) ∈ mirrorWrites H limit b) : tidOf (mirrorOutcomes H limit ⟨b, []⟩).2.board j = tidOf b j := by
  obtain ⟨r, hr, hrow⟩ := lookup_mirrorOutcomes h
  obtain ⟨-, -, payload, patch, -, -, -, hpatch, rfl⟩ := payload_of_write (mem_mirrorWrites.mp h).2
  rw [tidOf, getKey_fullOf hrow (by decide) (by decide) (by decide), tidOf, getKey_fullOf hr (by decide) (by decide) (by decide)]
  exact getKey_update_of_notMem (tid_notMem_mirrorPatch hpatch)

/-- The status column of a row that is written, if the card has a status. -/
theorem columnOf_write {st : Status} (h : (j, p) ∈ mirrorWrites H limit b) (hst : p.lookup "status" = some (.str st.text)) :
    columnOf (mirrorOutcomes H limit ⟨b, []⟩).2.board j = some st.text := by
  obtain ⟨r, hr, hrow⟩ := lookup_mirrorOutcomes h
  rw [columnOf, hrow]
  show statusOf H.toPython (update r.state p) = some st.text
  rw [statusOf, getKey_update_of_lookup hst]
  rfl

/-- The card of a row that is written and stays open does not close it. -/
theorem open_of_mirrored {payload : List (String × Json)} {patch full : Dict} {now now' : ℤ}
    (h : (j, mirrorPatch now' full patch) ∈ mirrorWrites H limit b) (hpatch : deriveUpdate H.toPython now payload = some patch)
    (hm : mirrored (mirrorOutcomes H limit ⟨b, []⟩).2.board j = true) :
    ∀ st, deriveStatus H.toPython payload = some st → st.text ∈ openStatuses := by
  intro st hst
  have hlookup : (mirrorPatch now' full patch).lookup "status" = some (.str st.text) := by
    rw [lookup_mirrorPatch (by decide), lookup_status_deriveUpdate hpatch, hst]
    rfl
  have hcol := (Bool.and_eq_true_iff.mp hm).1
  rw [decide_eq_true_eq, columnOf_write h hlookup] at hcol
  simpa using hcol

/-- A row that runs has a start once it is written, unless the clock says 0. -/
theorem started_write {payload : List (String × Json)} {patch : Dict} {now : ℤ} (hclock : H.time j 4 ≠ 0)
    (h : (j, mirrorPatch (H.time j 4) (fullOf b j) patch) ∈ mirrorWrites H limit b)
    (hpatch : deriveUpdate H.toPython now payload = some patch) (hrun : deriveStatus H.toPython payload = some .running) :
    (getKey (fullOf (mirrorOutcomes H limit ⟨b, []⟩).2.board j) "started_at").truthy = true := by
  obtain ⟨r, hr, hrow⟩ := lookup_mirrorOutcomes h
  rw [getKey_fullOf hrow (by decide) (by decide) (by decide)]
  show (getKey (update r.state (mirrorPatch (H.time j 4) (fullOf b j) patch)) "started_at").truthy = true
  rw [mirrorPatch_eq _ hpatch]
  cases hstarted : (getKey (fullOf b j) "started_at").truthy with
  | false =>
    rw [if_pos ⟨hrun, rfl⟩, getKey_update_of_lookup (AList.lookup_insert _)]
    simpa [Json.truthy] using hclock
  | true =>
    rw [if_neg (by simp), getKey_update_of_notMem (started_notMem hpatch), ← getKey_fullOf hr (by decide) (by decide) (by decide)]
    exact hstarted

/-- What a second run writes to a row, the first has written. -/
theorem write_again {p' : Dict} {time : String → ℕ → ℤ} (hclock : H.time j 4 ≠ 0) (h : (j, p) ∈ mirrorWrites H limit b)
    (h' : mirrorWrite (H.withTime time) (mirrorOutcomes H limit ⟨b, []⟩).2.board j = some p') {k : String} {v : Json}
    (hv : p'.lookup k = some v) : p.lookup k = some v := by
  obtain ⟨-, answer, payload, patch, hrun, hfetch, -, hpatch, rfl⟩ := payload_of_write (mem_mirrorWrites.mp h).2
  obtain ⟨hm, answer', payload', patch', hrun', hfetch', -, hpatch', rfl⟩ := payload_of_write h'
  -- the card is the same
  rw [tidOf_write h] at hrun'
  obtain rfl : answer = answer' := Except.ok.inj (hrun.symm.trans hrun')
  obtain rfl : payload = payload' := Option.some.inj (hfetch.symm.trans hfetch')
  have hopen := open_of_mirrored h hpatch hm
  obtain rfl : basePatch H.toPython payload = patch := Option.some.inj ((deriveUpdate_open hopen _).symm.trans hpatch)
  obtain rfl : basePatch H.toPython payload = patch' := Option.some.inj ((deriveUpdate_open hopen _).symm.trans hpatch')
  have hnew : ¬ (deriveStatus H.toPython payload = some .running ∧
      (getKey (fullOf (mirrorOutcomes H limit ⟨b, []⟩).2.board j) "started_at").truthy = false) := by
    rintro ⟨hstatus, hnone⟩
    rw [started_write hclock h hpatch hstatus] at hnone
    cases hnone
  rw [mirrorPatch_eq _ (deriveUpdate_open hopen (H.time j 3)), if_neg hnew] at hv
  rw [mirrorPatch_eq _ hpatch]
  split_ifs
  · have hne : k ≠ "started_at" := by
      rintro rfl
      rw [AList.lookup_eq_none.mpr (started_notMem hpatch)] at hv
      cases hv
    rw [AList.lookup_insert_ne hne]
    exact hv
  · exact hv

end Row

/-! ### The rows of a second run -/

section Order

variable {H : Host} {limit : ℕ} {b : Board} {row row' : Listed}

theorem precedes_listed_insert {j : String} {r : Row} (h₁ : row.jobId ≠ j) (h₂ : row'.jobId ≠ j)
    (h : Precedes (listed b) row row') : Precedes (listed (b.insert j r)) row row' := by
  obtain ⟨e, e', rfl, rfl, he⟩ := precedes_map.mp h
  refine Precedes.map _ ?_
  rw [AList.entries_insert]
  have herase : Precedes (List.kerase j b.entries) e e' := by
    have hsub := List.Sublist.eraseP (p := fun s : Sigma fun _ : String => Row => j = s.1) he
    rwa [List.eraseP_of_forall_not] at hsub
    intro x hx
    rw [decide_eq_true_eq]
    rcases List.mem_cons.mp hx with rfl | hx
    · exact Ne.symm h₁
    · obtain rfl := List.mem_singleton.mp hx
      exact Ne.symm h₂
  exact herase.mono (List.sublist_cons_self _ _)

/-- Rows that are not written stay in their order. -/
theorem precedes_listed_writes {ws : List (String × Dict)} (h₁ : row.jobId ∉ ws.map Prod.fst) (h₂ : row'.jobId ∉ ws.map Prod.fst)
    (h : Precedes (listed b) row row') : Precedes (listed (ws.foldl (writeBack H) b)) row row' := by
  induction ws generalizing b with
  | nil => exact h
  | cons w ws ih =>
    rw [List.map_cons, List.mem_cons, not_or] at h₁ h₂
    refine ih h₁.2 h₂.2 ?_
    rw [writeBack, taskSet]
    cases hr : b.lookup w.1 with
    | none => exact precedes_listed_insert h₁.1 h₂.1 h
    | some r =>
      dsimp only
      rw [updateRow_some hr]
      exact precedes_listed_insert h₁.1 h₂.1 h

theorem nodup_listed (b : Board) : (listed b).Nodup := (nodup_jobId_listed b).of_map

theorem mem_listed_congr {b' : Board} (h : b'.lookup row.jobId = b.lookup row.jobId) : row ∈ listed b' ↔ row ∈ listed b := by
  rw [mem_listed, mem_listed, h]

/-- A row at which the loop stops is not written. -/
theorem notMem_writes_of_stops (h : stops H b row = true) : row.jobId ∉ (mirrorWrites H limit b).map Prod.fst := by
  intro hmem
  obtain ⟨⟨j, p⟩, hw, heq⟩ := List.mem_map.mp hmem
  obtain rfl : j = row.jobId := heq
  have hsome := (mem_mirrorWrites.mp hw).2
  obtain ⟨hm, hraises⟩ := Bool.and_eq_true_iff.mp h
  rw [mirrorWrite, if_pos hm] at hsome
  rw [mirrorRaises] at hraises
  cases hshown : shownPatch H row.jobId (fullOf b row.jobId) (tidOf b row.jobId) with
  | error e =>
    rw [hshown] at hsome
    cases hsome
  | ok patch =>
    rw [hshown] at hraises
    cases hraises

theorem stops_congr {b' : Board} (h : b'.lookup row.jobId = b.lookup row.jobId) : stops H b' row = stops H b row := by
  obtain ⟨hfull, htid, hm, -⟩ := lookup_congr h
  rw [stops, stops, mirrorRaises, mirrorRaises, hfull, htid, hm]

/-- **A second run gets to no row that the first did not**, if all rows are listed: what the first run stopped at
comes before what it did not get to, and stops the second run as well. -/
theorem visited_again (hrows : (listed b).length ≤ limit) (time : String → ℕ → ℤ) {j : String}
    (h : j ∈ (visited (stops (H.withTime time) (mirrorOutcomes H limit ⟨b, []⟩).2.board)
      (taskList limit (mirrorOutcomes H limit ⟨b, []⟩).2.board)).map Listed.jobId) :
    j ∈ (visited (stops H b) (taskList limit b)).map Listed.jobId := by
  by_contra hj
  obtain ⟨row', hrow', rfl⟩ := List.mem_map.mp h
  have hwrites' : row'.jobId ∉ (mirrorWrites H limit b).map Prod.fst := by
    intro hmem
    obtain ⟨⟨j, p⟩, hw, heq⟩ := List.mem_map.mp hmem
    obtain rfl : j = row'.jobId := heq
    exact hj (mem_mirrorWrites.mp hw).1
  have hall : taskList limit b = (listed b).insertionSort Listed.Before :=
    List.take_of_length_le ((List.length_insertionSort _ _).trans_le hrows)
  have hlisted := mem_of_mem_taskList (visited_sublist.subset hrow')
  have hmem : row' ∈ taskList limit b := by
    rw [hall, List.mem_insertionSort]
    exact (mem_listed_congr (lookup_mirrorOutcomes_ne hwrites')).mp hlisted
  obtain ⟨row, hbefore, hstops⟩ := exists_precedes_of_notMem_visited hmem fun hv => hj (List.mem_map_of_mem hv)
  -- the row that stopped the first run is as it was, and still before the other
  have hwrites : row.jobId ∉ (mirrorWrites H limit b).map Prod.fst := notMem_writes_of_stops hstops
  have hstill := lookup_mirrorOutcomes_ne hwrites
  have hstops' : stops (H.withTime time) (mirrorOutcomes H limit ⟨b, []⟩).2.board row = true := by
    rw [stops_withTime, stops_congr hstill]
    exact hstops
  have hrow : row ∈ listed (mirrorOutcomes H limit ⟨b, []⟩).2.board :=
    (mem_listed_congr hstill).mpr (mem_of_mem_taskList hbefore.left_mem)
  have hbefore' : Precedes ((listed (mirrorOutcomes H limit ⟨b, []⟩).2.board).insertionSort Listed.Before) row row' := by
    refine precedes_sorted (nodup_listed b) (nodup_listed _) hrow hlisted (fun hkeep => ?_) (hall ▸ hbefore)
    rw [board_mirrorOutcomes]
    exact precedes_listed_writes hwrites hwrites' hkeep
  have hlonger := visited_append_sublist (stops (H.withTime time) (mirrorOutcomes H limit ⟨b, []⟩).2.board)
    (taskList limit (mirrorOutcomes H limit ⟨b, []⟩).2.board)
    (((listed (mirrorOutcomes H limit ⟨b, []⟩).2.board).insertionSort Listed.Before).drop limit)
  rw [taskList, List.take_append_drop] at hlonger
  refine notMem_visited ?_ hbefore' hstops' (hlonger.subset hrow')
  exact (List.perm_insertionSort _ _).nodup_iff.mpr (nodup_listed _)

end Order

/-! ### Once and twice -/

/-- The rows say the same, whenever they were last written. -/
structure SameRow (r r' : Row) : Prop where
  status : r'.status = r.status
  createdAt : r'.createdAt = r.createdAt
  state : ∀ k, r'.state.lookup k = r.state.lookup k

section Twice

variable {H : Host} {limit : ℕ} {b : Board}

theorem sameRow_refl (r : Option Row) : Option.Rel SameRow r r := by
  cases r with
  | none => exact .none
  | some r => exact .some ⟨rfl, rfl, fun _ => rfl⟩

/-- A patch that says nothing new. -/
theorem lookup_update_of_forall {state p : Dict} (h : ∀ k v, p.lookup k = some v → state.lookup k = some v) (k : String) :
    (update state p).lookup k = state.lookup k := by
  rw [lookup_update]
  cases hk : p.lookup k with
  | none => rfl
  | some v => exact (h k v hk).symm

/-- A row after a second run. -/
theorem sameRow_again (hrows : (listed b).length ≤ limit) (hclock : ∀ j, H.time j 4 ≠ 0) (time : String → ℕ → ℤ) (j : String) :
    Option.Rel SameRow ((mirrorOutcomes H limit ⟨b, []⟩).2.board.lookup j)
      ((mirrorOutcomes (H.withTime time) limit ⟨(mirrorOutcomes H limit ⟨b, []⟩).2.board, []⟩).2.board.lookup j) := by
  generalize honce : (mirrorOutcomes H limit ⟨b, []⟩).2.board = once
  by_cases hmem : j ∈ (mirrorWrites (H.withTime time) limit once).map Prod.fst
  · obtain ⟨⟨j, p'⟩, hw', rfl⟩ := List.mem_map.mp hmem
    obtain ⟨hvisited, hwrite'⟩ := mem_mirrorWrites.mp hw'
    rw [← honce] at hvisited hwrite'
    have hvisited := visited_again hrows time hvisited
    -- the first run has written the row too
    have hsome : (mirrorWrite H once j).isSome = true := by
      rw [← isSome_mirrorWrite time, ← honce, hwrite']
      rfl
    cases hwrite : mirrorWrite H b j with
    | none =>
      have hnot : j ∉ (mirrorWrites H limit b).map Prod.fst := by
        intro hin
        obtain ⟨⟨j, p⟩, hw, rfl⟩ := List.mem_map.mp hin
        rw [(mem_mirrorWrites.mp hw).2] at hwrite
        cases hwrite
      obtain ⟨hfull, htid, hm, -⟩ := lookup_congr (lookup_mirrorOutcomes_ne hnot)
      rw [isSome_mirrorWrite_eq, ← honce, hfull, htid, hm, ← isSome_mirrorWrite_eq, hwrite] at hsome
      cases hsome
    | some p =>
      have hw : (j, p) ∈ mirrorWrites H limit b := mem_mirrorWrites.mpr ⟨hvisited, hwrite⟩
      obtain ⟨r, -, hrow⟩ := lookup_mirrorOutcomes hw
      obtain ⟨r', hr', hrow'⟩ := lookup_mirrorOutcomes hw'
      rw [honce] at hrow
      obtain rfl := Option.some.inj (hr'.symm.trans hrow)
      have hsame : ∀ k, (update (update r.state p) p').lookup k = (update r.state p).lookup k := by
        refine lookup_update_of_forall fun k v hv => ?_
        rw [lookup_update, write_again (hclock j) hw hwrite' hv]
        rfl
      have hstatus : statusOf H.toPython (update (update r.state p) p') = statusOf H.toPython (update r.state p) := by
        unfold statusOf getKey
        rw [hsame]
      rw [hrow', hrow]
      exact .some ⟨hstatus, rfl, hsame⟩
  · rw [lookup_mirrorOutcomes_ne hmem]
    exact sameRow_refl _

end Twice

/-! ### Any number of runs -/

section Runs

/-- What runs on the hosts write, one after the other. -/
def runWrites : List Host → Board → List (String × Dict)
  | [], _ => []
  | H :: Hs, b => mirrorWrites H scanLimit b ++ runWrites Hs (mirrorOutcomes H scanLimit ⟨b, []⟩).2.board

/-- The key is written to the row. -/
def writesKey (j k : String) (w : String × Dict) : Bool := w.1 = j && k ∈ w.2

/-- The key cannot be written to the row any more: it has a start, or it is closed. -/
def Settled (b : Board) (j k : String) : Prop :=
  k = "started_at" ∧ (getKey (fullOf b j) "started_at").truthy = true ∨ k = "finished_at" ∧ mirrored b j = false

variable {H : Host} {b : Board} {j k : String} {limit : ℕ} {p : Dict}

theorem mirrored_of_write (h : (j, p) ∈ mirrorWrites H limit b) : mirrored b j = true :=
  (payload_of_write (mem_mirrorWrites.mp h).2).1

/-- A settled key is not written. -/
theorem notMem_of_settled (hset : Settled b j k) (h : (j, p) ∈ mirrorWrites H limit b) : k ∉ p := by
  obtain ⟨hm, -, payload, patch, -, -, -, hpatch, rfl⟩ := payload_of_write (mem_mirrorWrites.mp h).2
  rcases hset with ⟨rfl, hstarted⟩ | ⟨rfl, hclosed⟩
  · rw [mirrorPatch_eq _ hpatch, if_neg (by simp [hstarted])]
    exact started_notMem hpatch
  · rw [hclosed] at hm
    cases hm

/-- A settled key stays settled. -/
theorem settled_again (hset : Settled b j k) : Settled (mirrorOutcomes H limit ⟨b, []⟩).2.board j k := by
  by_cases hmem : j ∈ (mirrorWrites H limit b).map Prod.fst
  · obtain ⟨⟨j, p⟩, hw, rfl⟩ := List.mem_map.mp hmem
    have hnot := notMem_of_settled hset hw
    rcases hset with ⟨rfl, hstarted⟩ | ⟨rfl, hclosed⟩
    · obtain ⟨r, hr, hrow⟩ := lookup_mirrorOutcomes hw
      refine .inl ⟨rfl, ?_⟩
      rw [getKey_fullOf hrow (by decide) (by decide) (by decide)]
      show (getKey (update r.state p) "started_at").truthy = true
      rw [getKey_update_of_notMem hnot, ← getKey_fullOf hr (by decide) (by decide) (by decide)]
      exact hstarted
    · rw [mirrored_of_write hw] at hclosed
      cases hclosed
  · obtain ⟨hfull, -, hm, -⟩ := lookup_congr (lookup_mirrorOutcomes_ne hmem)
    rcases hset with ⟨rfl, hstarted⟩ | ⟨rfl, hclosed⟩
    · exact .inl ⟨rfl, hfull ▸ hstarted⟩
    · exact .inr ⟨rfl, hm ▸ hclosed⟩

/-- A start or a finish that is written is settled. -/
theorem settled_of_write (hk : k = "started_at" ∧ H.time j 4 ≠ 0 ∨ k = "finished_at")
    (h : (j, p) ∈ mirrorWrites H limit b) (hin : k ∈ p) : Settled (mirrorOutcomes H limit ⟨b, []⟩).2.board j k := by
  obtain ⟨-, -, payload, patch, -, -, -, hpatch, rfl⟩ := payload_of_write (mem_mirrorWrites.mp h).2
  rcases hk with ⟨rfl, hclock⟩ | rfl
  · refine .inl ⟨rfl, started_write hclock h hpatch ?_⟩
    by_contra hrun
    rw [mirrorPatch_eq _ hpatch, if_neg fun hc => hrun hc.1] at hin
    exact started_notMem hpatch hin
  · refine .inr ⟨rfl, ?_⟩
    have hfinished : "finished_at" ∈ patch := by
      rw [← AList.lookup_isSome, lookup_mirrorPatch (by decide), AList.lookup_isSome] at hin
      exact hin
    obtain ⟨st, hst, hclosed⟩ := closed_of_finished hpatch hfinished
    by_contra hm
    rw [Bool.not_eq_false] at hm
    exact hclosed (open_of_mirrored h hpatch hm st hst)

/-- One run writes a key to a row once at most. -/
theorem countP_mirrorWrites (H : Host) (b : Board) (j k : String) : (mirrorWrites H limit b).countP (writesKey j k) ≤ 1 := by
  have hle : (mirrorWrites H limit b).countP (writesKey j k) ≤ ((mirrorWrites H limit b).map Prod.fst).count j := by
    rw [List.count, List.countP_map]
    refine List.countP_mono_left fun w _ hw => ?_
    have hw := (Bool.and_eq_true_iff.mp hw).1
    simpa using hw
  exact hle.trans (List.nodup_iff_count_le_one.mp (nodup_mirrorWrites H limit b) j)

theorem countP_of_settled (hset : Settled b j k) (Hs : List Host) : (runWrites Hs b).countP (writesKey j k) = 0 := by
  induction Hs generalizing b with
  | nil => rfl
  | cons H Hs ih =>
    rw [runWrites, List.countP_append, ih (settled_again hset), Nat.add_zero, List.countP_eq_zero]
    rintro ⟨i, p⟩ hw hkey
    obtain ⟨hi, hin⟩ := Bool.and_eq_true_iff.mp hkey
    obtain rfl : i = j := of_decide_eq_true hi
    exact notMem_of_settled hset hw (of_decide_eq_true hin)

/-- A key that is settled once it is written is written once at most. -/
theorem countP_runWrites {Hs : List Host}
    (hk : k = "started_at" ∧ (∀ H ∈ Hs, ∀ j, H.time j 4 ≠ 0) ∨ k = "finished_at") (b : Board) (j : String) :
    (runWrites Hs b).countP (writesKey j k) ≤ 1 := by
  induction Hs generalizing b with
  | nil => exact Nat.zero_le _
  | cons H Hs ih =>
    rw [runWrites, List.countP_append]
    rcases Nat.eq_zero_or_pos ((mirrorWrites H scanLimit b).countP (writesKey j k)) with hzero | hpos
    · rw [hzero, Nat.zero_add]
      exact ih (hk.imp_left fun h => ⟨h.1, fun H' hH' => h.2 H' (List.mem_cons_of_mem _ hH')⟩) _
    · obtain ⟨⟨i, p⟩, hw, hkey⟩ := List.countP_pos_iff.mp hpos
      obtain ⟨hi, hin⟩ := Bool.and_eq_true_iff.mp hkey
      obtain rfl : i = j := of_decide_eq_true hi
      have hsettled := settled_of_write (hk.imp_left fun h => ⟨h.1, h.2 H List.mem_cons_self i⟩) hw (of_decide_eq_true hin)
      rw [countP_of_settled hsettled Hs]
      exact countP_mirrorWrites H b _ k

end Runs

/-- **Mirroring is idempotent** on a board of which all rows are listed: a second run, at any time, leaves each row
as it is but for `updated_at`, unless the first stamped a start with second 0. In any number of runs, over any cards,
the finish of a row is written once at most; and so is the start, unless a run reads the clock as 0. -/
theorem mirror_again (H : Host) (b : Board) (hrows : (listed b).length ≤ scanLimit) (hclock : ∀ j, H.time j 4 ≠ 0) :
    (∀ (time : String → ℕ → ℤ) (j : String), Option.Rel SameRow ((mirrorOutcomes H scanLimit ⟨b, []⟩).2.board.lookup j)
      ((mirrorOutcomes (H.withTime time) scanLimit ⟨(mirrorOutcomes H scanLimit ⟨b, []⟩).2.board, []⟩).2.board.lookup j)) ∧
    (∀ (Hs : List Host) (j : String), (runWrites Hs b).countP (writesKey j "finished_at") ≤ 1) ∧
    ∀ Hs : List Host, (∀ H ∈ Hs, ∀ j, H.time j 4 ≠ 0) → ∀ j, (runWrites Hs b).countP (writesKey j "started_at") ≤ 1 :=
  ⟨sameRow_again hrows hclock, fun _ => countP_runWrites (.inr rfl) b, fun _ hHs => countP_runWrites (.inl ⟨rfl, hHs⟩) b⟩

/-- A card that runs, with no run that has ended. -/
def runningCard : Card := ⟨"running", none, []⟩

/-- The card as `show --json` prints it, without the braces. -/
def runningItems : String := "\"task\": \x7b\"status\": \"running\"\x7d, \"latest_summary\": null, \"runs\": []"

theorem mirror_again_running :
    (∀ (time : String → ℕ → ℤ) (j : String),
      Option.Rel SameRow ((mirrorOutcomes (showing runningItems runningCard) scanLimit ⟨oneCard, []⟩).2.board.lookup j)
        ((mirrorOutcomes ((showing runningItems runningCard).withTime time) scanLimit
          ⟨(mirrorOutcomes (showing runningItems runningCard) scanLimit ⟨oneCard, []⟩).2.board, []⟩).2.board.lookup j)) ∧
    (∀ (Hs : List Host) (j : String), (runWrites Hs oneCard).countP (writesKey j "finished_at") ≤ 1) ∧
    ∀ Hs : List Host, (∀ H ∈ Hs, ∀ j, H.time j 4 ≠ 0) → ∀ j, (runWrites Hs oneCard).countP (writesKey j "started_at") ≤ 1 :=
  mirror_again (showing runningItems runningCard) oneCard (by decide) fun _ => (by decide : (30 : ℤ) ≠ 0)

/-- A start that is stamped with second 0 is stamped anew. -/
theorem not_mirror_again : ¬ ∀ (H : Host) (b : Board), (listed b).length ≤ scanLimit → ∀ (time : String → ℕ → ℤ) (j : String),
    Option.Rel SameRow ((mirrorOutcomes H scanLimit ⟨b, []⟩).2.board.lookup j)
      ((mirrorOutcomes (H.withTime time) scanLimit ⟨(mirrorOutcomes H scanLimit ⟨b, []⟩).2.board, []⟩).2.board.lookup j) := by
  intro h
  have hsame := h ((showing runningItems runningCard).withTime fun _ _ => 0) oneCard (by decide) (fun _ _ => 30) "a"
  have hstart : ∀ {r r' : Option Row}, Option.Rel SameRow r r' →
      (r.map fun r => (getKey r.state "started_at").truthy) = r'.map fun r => (getKey r.state "started_at").truthy := by
    rintro _ _ (hrow | -)
    · simp [getKey, hrow.state]
    · rfl
  exact absurd (hstart hsame) (by decide)

end Persona.Bridge
