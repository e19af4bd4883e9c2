import Persona.Bridge.Hermes

/-!
# A tick on which calls fail

`Persona.Bridge.Hermes` has a tick whose only exceptions are the command line's and `int`'s. Here the other
calls of a row may raise too: the Task Board's, when its database fails or a text to be written holds a lone
surrogate; and `json.loads` and `str`, by a `RecursionError` on what is nested too deeply, which
`except ValueError` lets through. An exception ends the loop with what was done so far; on a host without
faults the loops are those of `Persona.Bridge.Hermes` (`enqueueDelegatedF_none`, `mirrorOutcomesF_none`).
-/

namespace Persona.Bridge

open Persona.Lib Persona.TaskBoard

/-- The calls that raise. -/
structure Faults where
  /-- `json.loads` of the text, by another exception than `ValueError`. -/
  loads : String → Bool
  /-- `str` of the value. -/
  str : Json → Bool
  /-- `task_list`. -/
  list : Bool
  /-- `task_get` of the row. -/
  get : String → Bool
  /-- `task_set` of the row, where the clock is read for the `n`-th time. -/
  set : String → ℕ → Bool

/-- No call raises. -/
def Faults.none : Faults := ⟨fun _ => false, fun _ => false, false, fun _ => false, fun _ _ => false⟩

/-- An exception that a row or the listing can raise. -/
inductive Failure where
  /-- As on a host without faults. -/
  | raised (e : Raised)
  /-- A `RecursionError`. -/
  | recursion
  /-- The Task Board's call raised. -/
  | board

/-! ### What is read -/

/-- The texts that `_loads_lenient` tries, one after the other, until one is JSON. -/
def candidates (stdout : String) : List String :=
  let s := PyText.strip stdout
  if s = "" then []
  else s :: (((PyText.splitlines s).reverse.map PyText.strip).filter fun line =>
    line.startsWith "\x7b" || line.startsWith "[") ++ (braced s).toList

section

variable (H : Host) (F : Faults)

/-- A text that is tried raises. -/
def triesRaise : List String → Bool
  | [] => false
  | text :: texts => F.loads text || ((H.loads text).isNone && triesRaise texts)

/-- `_loads_lenient`. -/
def loadsLenientF (stdout : String) : Except Failure (Option Json) :=
  if triesRaise H F (candidates stdout) then .error .recursion else .ok (loadsLenient H.toPython stdout)

/-- `build_create_args`: the title, the assignee and the tenant are read before the priority, the body after it. -/
def buildCreateArgsF (jobId : String) (state : Dict) : Except Failure (List Json) :=
  if F.str ((getKey state "title").or (.str jobId)) || F.str ((getKey state "assignee").or (.str "default")) ||
      F.str ((getKey state "tenant").or (.str H.tenant)) then .error .recursion
  else
    match buildCreateArgs H jobId state with
    | .error e => .error (.raised e)
    | .ok args => if F.str ((getKey state "body").or (.str "")) then .error .recursion else .ok args

/-- `derive_update`: the column is read first, the run's outcome if the column is not settled, and the run's
metadata if they are a text. -/
def deriveUpdateF (now : ℤ) (payload : List (String × Json)) : Except Failure Dict :=
  let column := (Json.get (taskOf payload) "status").or (.str "")
  let outcome := Json.get (latestRun payload) "outcome"
  if F.str column then .error .recursion
  else if normalize H.toPython column ∉ settled ∧ outcome.truthy = true ∧ F.str outcome = true then .error .recursion
  else if (match Json.get (latestRun payload) "metadata" with | .str s => F.loads s | _ => false) then .error .recursion
  else
    match deriveUpdate H.toPython now payload with
    | none => .error (.raised .conversion)
    | some patch => .ok patch

/-! ### A tick -/

/-- What `create_card` makes of the command line's answer: the output is read when the code is zero. -/
def createdPatchF (answer : ℤ × String × String) : Except Failure (Dict × Option Json) :=
  if answer.1 ≠ 0 then .ok (createdPatch H answer)
  else (loadsLenientF H F answer.2.1).map fun _ => createdPatch H answer

/-- `create_card`. -/
def createCardF (jobId : String) (state : Dict) (s : St) : Except Failure (Option Json) × St :=
  if F.set jobId 1 then (.error .board, s)
  else
    let s := s.set H 1 jobId (inflightPatch (H.time jobId 0))
    match buildCreateArgsF H F jobId state with
    | .error e => (.error e, s)
    | .ok args =>
      let s := s.called jobId args
      match H.runner jobId args with
      | .error e => (.error (.raised e), s)
      | .ok answer =>
        match createdPatchF H F answer with
        | .error e => (.error e, s)
        | .ok (patch, tid) => if F.set jobId 2 then (.error .board, s) else (.ok tid, s.set H 2 jobId patch)

/-- The body of `enqueue_delegated`'s loop. -/
def enqueueRowF (row : Listed) (s : St) : Except Failure (Option String) × St :=
  if row.status ≠ some Status.delegated.text then (.ok none, s)
  else if F.get row.jobId then (.error .board, s)
  else
    let full := (taskGet row.jobId s.board).getD ∅
    if (getKey full "hermes_task_id").truthy then (.ok none, s)
    else
      let r := createCardF H F row.jobId full s
      (r.1.map fun tid => tid.map fun _ => row.jobId, r.2)

/-- `enqueue_delegated`. -/
def enqueueDelegatedF (limit : ℕ) (s : St) : Except Failure (List String) × St :=
  if F.list then (.error .board, s) else scan (enqueueRowF H F) (taskList limit s.board) s

/-- The patch that `mirror_outcomes` makes of the command line's answer. -/
def cardPatchF (jobId : String) (full : Dict) (answer : ℤ × String × String) : Except Failure Dict :=
  if answer.1 ≠ 0 then .ok ∅
  else
    match loadsLenientF H F answer.2.1 with
    | .error e => .error e
    | .ok _ =>
      match fetchTask H answer with
      | none | some [] => .ok ∅
      | some payload => (deriveUpdateF H F (H.time jobId 3) payload).map (mirrorPatch (H.time jobId 4) full)

/-- The patch for a row with the card `tid`, or what the row raises. -/
def shownPatchF (jobId : String) (full : Dict) (tid : Json) : Except Failure Dict :=
  match H.runner jobId (showArgs H tid) with
  | .error e => .error (.raised e)
  | .ok answer => cardPatchF H F jobId full answer

/-- `mirror_outcomes` on a row with the card `tid`. -/
def mirrorCardF (jobId : String) (full : Dict) (tid : Json) (s : St) : Except Failure (Option String) × St :=
  let s := s.called jobId (showArgs H tid)
  match shownPatchF H F jobId full tid with
  | .error e => (.error e, s)
  | .ok patch =>
    if patch.entries.isEmpty then (.ok none, s)
    else if F.set jobId 5 then (.error .board, s)
    else (.ok (some jobId), s.set H 5 jobId patch)

/-- The body of `mirror_outcomes`' loop. -/
def mirrorRowF (row : Listed) (s : St) : Except Failure (Option String) × St :=
  if row.status ∉ openStatuses.map some then (.ok none, s)
  else if F.get row.jobId then (.error .board, s)
  else
    let full := (taskGet row.jobId s.board).getD ∅
    let tid := getKey full "hermes_task_id"
    if tid.truthy then mirrorCardF H F row.jobId full tid s else (.ok none, s)

/-- `mirror_outcomes`. -/
def mirrorOutcomesF (limit : ℕ) (s : St) : Except Failure (List String) × St :=
  if F.list then (.error .board, s) else scan (mirrorRowF H F) (taskList limit s.board) s

end

/-! ### A host without faults -/

variable (H : Host)

theorem firstJson_eq_findSome (P : Python) (lines : List String) : firstJson P lines =
    ((lines.map PyText.strip).filter fun line => line.startsWith "\x7b" || line.startsWith "[").findSome? P.loads := by
  induction lines with
  | nil => rfl
  | cons line lines ih =>
    rw [firstJson, List.map_cons, List.filter_cons]
    split_ifs with hline
    · rw [List.findSome?_cons, ih]
      cases P.loads (PyText.strip line) <;> rfl
    · exact ih

/-- `_loads_lenient` reads the first of the texts it tries that is JSON. -/
theorem loadsLenient_eq_findSome (P : Python) (stdout : String) :
    loadsLenient P stdout = (candidates stdout).findSome? P.loads := by
  rw [loadsLenient, candidates]
  split_ifs
  · rfl
  · rw [List.cons_append, List.findSome?_cons, List.findSome?_append, firstJson_eq_findSome]
    cases P.loads (PyText.strip stdout) with
    | some v => rfl
    | none =>
      cases braced (PyText.strip stdout) with
      | none => simp
      | some t => simp

theorem triesRaise_none (texts : List String) : triesRaise H .none texts = false := by
  induction texts with
  | nil => rfl
  | cons text texts ih => rw [triesRaise, ih, Bool.and_false]; rfl

theorem loadsLenientF_none (stdout : String) : loadsLenientF H .none stdout = .ok (loadsLenient H.toPython stdout) := by
  rw [loadsLenientF, triesRaise_none]
  rfl

/-- The outcome of a loop or a row, an exception being a failure. -/
def lift {α : Type} (r : Except Raised α × St) : Except Failure α × St := (r.1.mapError .raised, r.2)

theorem buildCreateArgsF_none (jobId : String) (state : Dict) :
    buildCreateArgsF H .none jobId state = (buildCreateArgs H jobId state).mapError .raised := by
  unfold buildCreateArgsF
  cases buildCreateArgs H jobId state <;> rfl

theorem deriveUpdateF_none (now : ℤ) (payload : List (String × Json)) : deriveUpdateF H .none now payload =
    match deriveUpdate H.toPython now payload with
    | none => .error (.raised .conversion)
    | some patch => .ok patch := by
  have hmeta : (match Json.get (latestRun payload) "metadata" with | .str s => Faults.none.loads s | _ => false) = false := by
    split <;> rfl
  rw [deriveUpdateF, hmeta]
  simp [Faults.none]

theorem createCardF_none (jobId : String) (state : Dict) (s : St) :
    createCardF H .none jobId state s = lift (createCard H jobId state s) := by
  have hcreated : ∀ answer, createdPatchF H .none answer = .ok (createdPatch H answer) := by
    intro answer
    rw [createdPatchF, loadsLenientF_none]
    split_ifs <;> rfl
  rw [createCardF, createCard, buildCreateArgsF_none, if_neg (by exact Bool.false_ne_true)]
  cases buildCreateArgs H jobId state with
  | error e => rfl
  | ok args =>
    dsimp only [Except.mapError]
    cases H.runner jobId args with
    | error e => rfl
    | ok answer =>
      dsimp only
      rw [hcreated]
      rfl

theorem shownPatchF_none (jobId : String) (full : Dict) (tid : Json) :
    shownPatchF H .none jobId full tid = (shownPatch H jobId full tid).mapError .raised := by
  rw [shownPatchF, shownPatch]
  cases H.runner jobId (showArgs H tid) with
  | error e => rfl
  | ok answer =>
    obtain ⟨rc, out, err⟩ := answer
    show cardPatchF H .none jobId full (rc, out, err) = (cardPatch H jobId full (rc, out, err)).mapError .raised
    rw [cardPatchF, cardPatch, loadsLenientF_none]
    by_cases hrc : rc ≠ 0
    · rw [if_pos hrc, fetchTask, if_pos hrc]
      rfl
    · rw [if_neg hrc]
      dsimp only
      rcases fetchTask H (rc, out, err) with _ | _ | ⟨kv, payload⟩
      · rfl
      · rfl
      · dsimp only
        rw [deriveUpdateF_none]
        cases deriveUpdate H.toPython (H.time jobId 3) (kv :: payload) <;> rfl

theorem enqueueRowF_none (row : Listed) (s : St) : enqueueRowF H .none row s = lift (enqueueRow H row s) := by
  by_cases hstatus : row.status ≠ some Status.delegated.text
  · rw [enqueueRowF, enqueueRow, if_pos hstatus, if_pos hstatus]
    rfl
  · rw [enqueueRowF, enqueueRow, if_neg hstatus, if_neg hstatus, if_neg (by exact Bool.false_ne_true)]
    dsimp only
    split_ifs
    · rfl
    · rw [createCardF_none]
      rcases createCard H row.jobId ((taskGet row.jobId s.board).getD ∅) s with ⟨_ | tid, s'⟩ <;> rfl

theorem mirrorCardF_none (jobId : String) (full : Dict) (tid : Json) (s : St) :
    mirrorCardF H .none jobId full tid s = lift (mirrorCard H jobId full tid s) := by
  rw [mirrorCardF, mirrorCard, shownPatchF_none]
  cases shownPatch H jobId full tid with
  | error e => rfl
  | ok patch =>
    dsimp only [Except.mapError]
    rw [if_neg (show ¬ Faults.none.set jobId 5 = true from Bool.false_ne_true)]
    split_ifs <;> rfl

theorem mirrorRowF_none (row : Listed) (s : St) : mirrorRowF H .none row s = lift (mirrorRow H row s) := by
  by_cases hstatus : row.status ∉ openStatuses.map some
  · rw [mirrorRowF, mirrorRow, if_pos hstatus, if_pos hstatus]
    rfl
  · rw [mirrorRowF, mirrorRow, if_neg hstatus, if_neg hstatus, if_neg (by exact Bool.false_ne_true)]
    dsimp only
    split_ifs
    · exact mirrorCardF_none H row.jobId _ _ s
    · rfl

/-- A loop whose bodies are lifted is the loop, lifted. -/
theorem scan_lift {α β : Type} {body : α → St → Except Raised (Option β) × St}
    {bodyF : α → St → Except Failure (Option β) × St} (h : ∀ a s, bodyF a s = lift (body a s)) (l : List α) (s : St) :
    scan bodyF l s = lift (scan body l s) := by
  induction l generalizing s with
  | nil => rfl
  | cons a l ih =>
    rw [scan_cons, scan_cons, h]
    rcases body a s with ⟨_ | b, s₁⟩
    · rfl
    · dsimp only [lift, Except.mapError]
      rw [ih]
      rcases scan body l s₁ with ⟨_ | bs, s₂⟩ <;> rfl

theorem enqueueDelegatedF_none (limit : ℕ) (s : St) :
    enqueueDelegatedF H .none limit s = lift (enqueueDelegated H limit s) :=
  scan_lift (enqueueRowF_none H) _ s

theorem mirrorOutcomesF_none (limit : ℕ) (s : St) : mirrorOutcomesF H .none limit s = lift (mirrorOutcomes H limit s) :=
  scan_lift (mirrorRowF_none H) _ s

end Persona.Bridge
