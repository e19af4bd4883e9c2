import Persona.TaskBoard.Store
import Persona.Lib.Bytes
import Persona.Lib.TextFile
import Mathlib.Data.List.AList

/-!
# The legacy import

`migrate_from_jsonl` of `taskboard.py` takes an old log of events, one JSON object a line, over into an empty
board. It is a best effort: a file that cannot be opened has no lines, and a line that is no JSON is skipped.
What is JSON but no object, or has an id or a patch of another type, is not looked for.

`migrateFromJsonl_complete_iff` says for which files the import is total and complete. What `task_set` does with
an id that is no text or a patch that is no dictionary is left open: it raises, or writes something.
-/

namespace Persona.TaskBoard

open Persona.Lib

/-! ### The import -/

/-- What `json.loads` makes of a line. -/
inductive Loaded where
  /-- A value, and whether a lone surrogate is in its job id or its patch. -/
  | value (v : Json) (lone : Bool)
  /-- A `ValueError`. -/
  | invalid
  /-- Another exception: the value is nested too deeply. -/
  | raised

/-- What the import is given. -/
structure Importer where
  python : Python
  loads : String → Loaded
  /-- `task_set` with an id that is no text, or a patch that is no dictionary; `none` when it raises. -/
  untyped : Json → Json → Board → Option Board
  /-- `int(time.time())` at the `n`-th call. -/
  now : ℕ → ℤ

/-- What the loop does with a line. -/
inductive LineStep where
  | skip
  /-- `evt` has no `get`, or `json.loads` raises. -/
  | raise
  | call (jid patch : Json) (lone : Bool)

/-- The items of an object as a dictionary. -/
def ofItems (kvs : List (String × Json)) : Dict := (kvs.map fun kv => (⟨kv.1, kv.2⟩ : Σ _ : String, Json)).toAList

variable (I : Importer)

/-- The body of the loop, up to `task_set`. -/
def lineStep (line : String) : LineStep :=
  if PyText.strip line = "" then .skip
  else
    match I.loads (PyText.strip line) with
    | .invalid => .skip
    | .raised => .raise
    | .value (.obj evt) lone =>
      let jid := Json.get evt "job_id"
      let patch := (Json.get evt "patch").or (.obj [])
      if jid.truthy then .call jid patch lone else .skip
    | .value _ _ => .raise

/-- `task_set(jid, patch)`; `none` when it raises, as SQLite does on a lone surrogate. -/
def taskSetJson (now : ℤ) (jid patch : Json) (lone : Bool) (b : Board) : Option Board :=
  match jid, patch with
  | .str jobId, .obj kvs => if lone then none else some (taskSet I.python now jobId (ofItems kvs) b)
  | _, _ => I.untyped jid patch b

/-- How an import ends. -/
structure Imported where
  /-- The calls of `task_set`. -/
  calls : List (Json × Json)
  board : Board
  raised : Bool

/-- The loop over the lines, with `n` calls before. -/
def importLines : ℕ → List String → Board → Imported
  | _, [], b => ⟨[], b, false⟩
  | n, line :: lines, b =>
    match lineStep I line with
    | .skip => importLines n lines b
    | .raise => ⟨[], b, true⟩
    | .call jid patch lone =>
      match taskSetJson I (I.now n) jid patch lone b with
      | none => ⟨[(jid, patch)], b, true⟩
      | some b' =>
        let rest := importLines (n + 1) lines b'
        ⟨(jid, patch) :: rest.calls, rest.board, rest.raised⟩

/-- The lines of a text. -/
def logLines (text : String) : List String := (TextFile.readlines (TextFile.universal text.toList)).map String.ofList

/-- `migrate_from_jsonl`, on the bytes of the file. -/
def migrateFromJsonl (maxLines : ℕ) (bytes : List UInt8) (b : Board) : Imported :=
  match Bytes.decode bytes with
  | none => ⟨[], b, true⟩
  | some text =>
    let lines := logLines text
    importLines I 0 (if maxLines < lines.length then lines.drop (if maxLines = 0 then 0 else lines.length - maxLines) else lines) b

/-! ### What is asked of it -/

/-- The id and the patch of a line that is well formed: an object with a text that is not empty for an id, and
an object for a patch, or none. -/
def wellFormed (line : String) : Option (String × List (String × Json)) :=
  if PyText.strip line = "" then none
  else
    match I.loads (PyText.strip line) with
    | .value (.obj evt) _ =>
      match evt.lookup "job_id", evt.lookup "patch" with
      | some (.str jobId), some (.obj patch) => if jobId = "" then none else some (jobId, patch)
      | some (.str jobId), none => if jobId = "" then none else some (jobId, [])
      | _, _ => none
    | _ => none

/-- The merge of the patches of an id, from the first to the last; `none` when it has none. -/
def mergedFrom (start : Option Dict) (jobId : String) (events : List (String × List (String × Json))) : Option Dict :=
  (events.filter fun e => e.1 = jobId).foldl (fun state e => some (update (state.getD ∅) (ofItems e.2))) start

/-- The import is total and complete. -/
structure Complete (bytes : List UInt8) (result : Imported) : Prop where
  returns : result.raised = false
  /-- The lines that are not well formed are skipped: `task_set` is called for the others alone. -/
  skips : ∀ text, Bytes.decode bytes = some text →
    result.calls = ((logLines text).filterMap (wellFormed I)).map fun e => (.str e.1, .obj e.2)
  rows : ∀ text, Bytes.decode bytes = some text → ∀ jobId,
    (result.board.lookup jobId).map Row.state = mergedFrom none jobId ((logLines text).filterMap (wellFormed I))

/-- A line that does no harm: it is blank, or no JSON; or an object without an id; or well formed, and without
a lone surrogate in its id and its patch. -/
def Harmless (line : String) : Prop :=
  PyText.strip line = "" ∨ I.loads (PyText.strip line) = .invalid ∨
    ∃ evt lone, I.loads (PyText.strip line) = .value (.obj evt) lone ∧
      ((Json.get evt "job_id").truthy = false ∨ (wellFormed I line).isSome ∧ lone = false)

variable {I} {n : ℕ} {line jobId : String} {lines : List String} {b : Board} {bytes : List UInt8}

/-! ### A line -/

/-- What is done with a line that is well formed. -/
theorem lineStep_of_wellFormed {patch : List (String × Json)} (h : wellFormed I line = some (jobId, patch)) :
    ∃ evt lone, I.loads (PyText.strip line) = .value (.obj evt) lone ∧ lineStep I line = .call (.str jobId) (.obj patch) lone := by
  rw [wellFormed] at h
  split_ifs at h with hblank
  cases hload : I.loads (PyText.strip line) with
  | invalid => simp [hload] at h
  | raised => simp [hload] at h
  | value v lone =>
    cases v with
    | obj evt =>
      simp only [hload] at h
      refine ⟨evt, lone, rfl, ?_⟩
      rw [lineStep, if_neg hblank, hload]
      dsimp only
      split at h
      · rename_i jobId' patch' hid hpatch
        split_ifs at h with hempty
        obtain ⟨rfl, rfl⟩ := Prod.mk.inj (Option.some.inj h)
        have hor : (Json.obj patch').or (.obj []) = .obj patch' := by
          cases patch' <;> rfl
        have htruthy : (Json.str jobId').truthy = true := by simpa [Json.truthy] using hempty
        simp only [Json.get, hid, hpatch, Option.getD_some, hor, htruthy, if_true]
      · rename_i jobId' hid hpatch
        split_ifs at h with hempty
        obtain ⟨rfl, rfl⟩ := Prod.mk.inj (Option.some.inj h)
        have htruthy : (Json.str jobId').truthy = true := by simpa [Json.truthy] using hempty
        simp only [Json.get, hid, hpatch, Option.getD_some, Option.getD_none, htruthy, if_true]
        rfl
      · cases h
    | _ => simp [hload] at h

/-- A line that is skipped is not well formed. -/
theorem wellFormed_of_skip (h : lineStep I line = .skip) : wellFormed I line = none := by
  cases hwf : wellFormed I line with
  | none => rfl
  | some e =>
    obtain ⟨evt, lone, hload, hcall⟩ := lineStep_of_wellFormed hwf
    rw [h] at hcall
    cases hcall

/-- A line that is skipped does no harm. -/
theorem harmless_of_skip (h : lineStep I line = .skip) : Harmless I line := by
  rw [lineStep] at h
  split_ifs at h with hblank
  · exact Or.inl hblank
  · cases hload : I.loads (PyText.strip line) with
    | invalid => exact Or.inr (Or.inl hload)
    | raised => simp [hload] at h
    | value v lone =>
      cases v with
      | obj evt =>
        simp only [hload] at h
        split_ifs at h with hid
        exact Or.inr (Or.inr ⟨evt, lone, hload, Or.inl (by simpa using hid)⟩)
      | _ => simp [hload] at h

/-- What is done with a line that does no harm: it is skipped, or what is well formed is handed over. -/
theorem Harmless.cases (h : Harmless I line) :
    (lineStep I line = .skip ∧ wellFormed I line = none) ∨
      ∃ jobId patch, lineStep I line = .call (.str jobId) (.obj patch) false ∧ wellFormed I line = some (jobId, patch) := by
  have hskip (hs : lineStep I line = .skip) : lineStep I line = .skip ∧ wellFormed I line = none := ⟨hs, wellFormed_of_skip hs⟩
  by_cases hblank : PyText.strip line = ""
  · exact Or.inl (hskip (by rw [lineStep, if_pos hblank]))
  rcases h with h | h | ⟨evt, lone, hload, hid | ⟨hwf, hlone⟩⟩
  · exact absurd h hblank
  · exact Or.inl (hskip (by rw [lineStep, if_neg hblank, h]))
  · refine Or.inl (hskip ?_)
    rw [lineStep, if_neg hblank, hload]
    simp [hid]
  · obtain ⟨⟨jobId, patch⟩, hsome⟩ := Option.isSome_iff_exists.mp hwf
    obtain ⟨evt', lone', hload', hcall⟩ := lineStep_of_wellFormed hsome
    rw [hload] at hload'
    obtain ⟨-, rfl⟩ := Loaded.value.inj hload'
    subst hlone
    exact Or.inr ⟨jobId, patch, hcall, hsome⟩

/-! ### The states of the rows -/

theorem mergedFrom_cons (start : Option Dict) (jobId : String) (e : String × List (String × Json))
    (events : List (String × List (String × Json))) :
    mergedFrom start jobId (e :: events) =
      mergedFrom (if e.1 = jobId then some (update (start.getD ∅) (ofItems e.2)) else start) jobId events := by
  unfold mergedFrom
  by_cases h : e.1 = jobId
  · rw [if_pos h, List.filter_cons_of_pos (by simpa using h), List.foldl_cons]
  · rw [if_neg h, List.filter_cons_of_neg (by simpa using h)]

/-- What `task_set` does to the state of a row. -/
theorem state_taskSet (P : Python) (now : ℤ) (id jobId : String) (patch : Dict) (b : Board) :
    ((taskSet P now id patch b).lookup jobId).map Row.state =
      if id = jobId then some (update (((b.lookup jobId).map Row.state).getD ∅) patch)
      else (b.lookup jobId).map Row.state := by
  by_cases h : id = jobId
  · subst h
    rw [if_pos rfl, lookup_taskSet, Option.map_some]
    unfold merged
    cases b.lookup id <;> rfl
  · rw [if_neg h, lookup_taskSet_ne P (Ne.symm h)]

/-! ### The loop -/

theorem importLines_cons (I : Importer) (n : ℕ) (line : String) (lines : List String) (b : Board) :
    importLines I n (line :: lines) b =
      match lineStep I line with
      | .skip => importLines I n lines b
      | .raise => ⟨[], b, true⟩
      | .call jid patch lone =>
        match taskSetJson I (I.now n) jid patch lone b with
        | none => ⟨[(jid, patch)], b, true⟩
        | some b' =>
          let rest := importLines I (n + 1) lines b'
          ⟨(jid, patch) :: rest.calls, rest.board, rest.raised⟩ := rfl

/-- An import that does not raise hands over every line that is well formed. -/
theorem length_le_calls (h : (importLines I n lines b).raised = false) :
    (lines.filterMap (wellFormed I)).length ≤ (importLines I n lines b).calls.length := by
  induction lines generalizing n b with
  | nil => exact Nat.zero_le _
  | cons line lines ih =>
    rw [importLines_cons] at h ⊢
    cases hstep : lineStep I line with
    | skip =>
      rw [hstep] at h
      rw [List.filterMap_cons_none (wellFormed_of_skip hstep)]
      exact ih h
    | raise =>
      rw [hstep] at h
      cases h
    | call jid patch lone =>
      rw [hstep] at h
      dsimp only at h ⊢
      cases hset : taskSetJson I (I.now n) jid patch lone b with
      | none =>
        rw [hset] at h
        cases h
      | some b' =>
        rw [hset] at h
        have hrest := ih h
        cases hwf : wellFormed I line with
        | none =>
          rw [List.filterMap_cons_none hwf]
          exact hrest.trans (Nat.le_succ _)
        | some e =>
          rw [List.filterMap_cons_some hwf]
          exact Nat.succ_le_succ hrest

/-- An import that does not raise, and hands over what is well formed alone, meets no line that does harm. -/
theorem harmless_of_importLines (h : (importLines I n lines b).raised = false)
    (hcalls : (importLines I n lines b).calls = (lines.filterMap (wellFormed I)).map fun e => (.str e.1, .obj e.2)) :
    ∀ line ∈ lines, Harmless I line := by
  induction lines generalizing n b with
  | nil => exact List.forall_mem_nil _
  | cons line lines ih =>
    rw [importLines_cons] at h hcalls
    cases hstep : lineStep I line with
    | skip =>
      rw [hstep] at h hcalls
      rw [List.filterMap_cons_none (wellFormed_of_skip hstep)] at hcalls
      exact List.forall_mem_cons.mpr ⟨harmless_of_skip hstep, ih h hcalls⟩
    | raise =>
      rw [hstep] at h
      cases h
    | call jid patch lone =>
      rw [hstep] at h hcalls
      dsimp only at h hcalls
      cases hset : taskSetJson I (I.now n) jid patch lone b with
      | none =>
        rw [hset] at h
        cases h
      | some b' =>
        rw [hset] at h hcalls
        dsimp only at h hcalls
        cases hwf : wellFormed I line with
        | none =>
          -- One call more than there are lines that are well formed.
          rw [List.filterMap_cons_none hwf] at hcalls
          have hlen := congrArg List.length hcalls
          rw [List.length_cons, List.length_map] at hlen
          have hle := length_le_calls h
          omega
        | some e =>
          obtain ⟨evt, lone', hload, hcall⟩ := lineStep_of_wellFormed hwf
          rw [hstep] at hcall
          obtain ⟨rfl, rfl, rfl⟩ := LineStep.call.inj hcall
          rw [List.filterMap_cons_some hwf, List.map_cons] at hcalls
          have hlone : lone = false := by
            cases lone with
            | false => rfl
            | true => cases hset
          have hharmless : Harmless I line := Or.inr (Or.inr ⟨evt, lone, hload, Or.inr ⟨by rw [hwf]; rfl, hlone⟩⟩)
          exact List.forall_mem_cons.mpr ⟨hharmless, ih h (List.cons.inj hcalls).2⟩

/-- What the import does with lines that do no harm. -/
theorem importLines_of_harmless (h : ∀ line ∈ lines, Harmless I line) :
    (importLines I n lines b).raised = false ∧
      (importLines I n lines b).calls = ((lines.filterMap (wellFormed I)).map fun e => (.str e.1, .obj e.2)) ∧
      ∀ jobId, ((importLines I n lines b).board.lookup jobId).map Row.state =
        mergedFrom ((b.lookup jobId).map Row.state) jobId (lines.filterMap (wellFormed I)) := by
  induction lines generalizing n b with
  | nil => exact ⟨rfl, rfl, fun jobId => rfl⟩
  | cons line lines ih =>
    obtain ⟨hline, hlines⟩ := List.forall_mem_cons.mp h
    rw [importLines_cons]
    rcases hline.cases with ⟨hskip, hwf⟩ | ⟨id, patch, hcall, hwf⟩
    · rw [hskip, List.filterMap_cons_none hwf]
      exact ih hlines
    · rw [hcall, List.filterMap_cons_some hwf]
      have hset : taskSetJson I (I.now n) (.str id) (.obj patch) false b = some (taskSet I.python (I.now n) id (ofItems patch) b) := rfl
      dsimp only
      rw [hset]
      obtain ⟨hraised, hcalls, hrows⟩ := @ih (n + 1) (taskSet I.python (I.now n) id (ofItems patch) b) hlines
      refine ⟨hraised, ?_, fun jobId => ?_⟩
      · rw [List.map_cons, ← hcalls]
      · rw [mergedFrom_cons, ← state_taskSet I.python (I.now n)]
        exact hrows jobId

/-! ### Files -/

theorem migrateFromJsonl_eq {maxLines : ℕ} {text : String} (hdecode : Bytes.decode bytes = some text)
    (hmax : (logLines text).length ≤ maxLines) :
    migrateFromJsonl I maxLines bytes b = importLines I 0 (logLines text) b := by
  rw [migrateFromJsonl, hdecode]
  dsimp only
  rw [if_neg (Nat.not_lt.mpr hmax)]

/-- The import of a file into an empty board is total and complete just when the file is UTF-8 and none of its
lines does harm. -/
theorem migrateFromJsonl_complete_iff (I : Importer) (maxLines : ℕ) (bytes : List UInt8)
    (hmax : ∀ text, Bytes.decode bytes = some text → (logLines text).length ≤ maxLines) :
    Complete I bytes (migrateFromJsonl I maxLines bytes ∅) ↔
      ∃ text, Bytes.decode bytes = some text ∧ ∀ line ∈ logLines text, Harmless I line := by
  cases hdecode : Bytes.decode bytes with
  | none =>
    have hraised : (migrateFromJsonl I maxLines bytes ∅).raised = true := by rw [migrateFromJsonl, hdecode]
    constructor
    · intro h
      exact absurd (h.returns.symm.trans hraised) (by decide)
    · rintro ⟨text, htext, -⟩
      cases htext
  | some text =>
    have heq := @migrateFromJsonl_eq I ∅ bytes maxLines text hdecode (hmax text hdecode)
    rw [heq]
    constructor
    · intro h
      exact ⟨text, rfl, harmless_of_importLines h.returns (h.skips text hdecode)⟩
    · rintro ⟨text', htext, hharmless⟩
      obtain rfl := Option.some.inj htext
      obtain ⟨hraised, hcalls, hrows⟩ := @importLines_of_harmless I 0 (logLines text) ∅ hharmless
      refine ⟨hraised, fun text' htext' => ?_, fun text' htext' jobId => ?_⟩
      · obtain rfl := Option.some.inj (hdecode.symm.trans htext')
        exact hcalls
      · obtain rfl := Option.some.inj (hdecode.symm.trans htext')
        exact hrows jobId

/-- An importer that reads just the given texts. -/
def Importer.ofTable (texts : List (String × Json)) : Importer where
  python := .ofTable texts
  loads s := ((texts.lookup s).map fun v => .value v false).getD .invalid
  untyped _ _ _ := none
  now _ := 0

/-- A log with a line that is cut off. -/
theorem migrateFromJsonl_complete_cut :
    let I := Importer.ofTable [("\x7b\"job_id\": \"a\"\x7d", .obj [("job_id", .str "a")])]
    let bytes := Bytes.encode "\x7b\"job_id\": \"a\"\x7d\n\x7b\"job_id\""
    Complete I bytes (migrateFromJsonl I 50000 bytes ∅) := by
  intro I bytes
  have hdecode : Bytes.decode bytes = some "\x7b\"job_id\": \"a\"\x7d\n\x7b\"job_id\"" := Bytes.decode_encode _
  refine (migrateFromJsonl_complete_iff I 50000 bytes fun text htext => ?_).mpr ⟨_, hdecode, ?_⟩
  · obtain rfl := Option.some.inj (hdecode.symm.trans htext)
    decide
  · have hlines : logLines "\x7b\"job_id\": \"a\"\x7d\n\x7b\"job_id\"" = ["\x7b\"job_id\": \"a\"\x7d\n", "\x7b\"job_id\""] := by decide
    rw [hlines]
    refine List.forall_mem_cons.mpr ⟨Or.inr (Or.inr ?_), List.forall_mem_singleton.mpr (Or.inr (Or.inl ?_))⟩
    · have hstrip : PyText.strip "\x7b\"job_id\": \"a\"\x7d\n" = "\x7b\"job_id\": \"a\"\x7d" := by decide
      refine ⟨[("job_id", .str "a")], false, by rw [hstrip]; rfl, Or.inr ⟨?_, rfl⟩⟩
      rw [wellFormed, hstrip]
      rfl
    · have hstrip : PyText.strip "\x7b\"job_id\"" = "\x7b\"job_id\"" := by decide
      rw [hstrip]
      rfl

/-- A line that is a number ends the import with an exception. -/
theorem not_complete_number :
    let I := Importer.ofTable [("5", .int 5)]
    let bytes := Bytes.encode "5\n"
    ¬ Complete I bytes (migrateFromJsonl I 50000 bytes ∅) := by
  intro I bytes h
  have hdecode : Bytes.decode bytes = some "5\n" := Bytes.decode_encode _
  have hlines : logLines "5\n" = ["5\n"] := by decide
  have hstrip : PyText.strip "5\n" = "5" := by decide
  have hraise : lineStep I "5\n" = .raise := by
    rw [lineStep, hstrip]
    rfl
  have hreturns := h.returns
  rw [migrateFromJsonl_eq hdecode (by rw [hlines]; decide), hlines, importLines_cons, hraise] at hreturns
  cases hreturns

end Persona.TaskBoard
