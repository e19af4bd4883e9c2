import Persona.Lib.Scan
import Persona.TaskBoard.Store

/-!
# The Hermes bridge

`tools/hermes_bridge.py`: a tick first creates a Hermes card for each delegated row of
the Task Board that has no `hermes_task_id` (`enqueueDelegated`), and then reads the
card of each open row that has one and merges its outcome back (`mirrorOutcomes`).
Hermes is reached through its command line only.

A `Host` is what the bridge runs on: Python's library, the settings, the answers of the
command line and the clock. The command line may raise (`subprocess.run` does, on a
timeout), and it may answer differently for each row and each call; since a tick makes
each call at most once for a row, its answers are a function of the row and the call.
-/

namespace Persona.Bridge

open Persona.Lib Persona.TaskBoard

/-- A persona status the bridge writes or looks for. -/
inductive Status where
  | delegated | running | ok | blocked | error | timeout
  deriving DecidableEq

/-- The status as the Task Board stores it. -/
def Status.text : Status → String
  | .delegated => "delegated" | .running => "running" | .ok => "ok" | .blocked => "blocked"
  | .error => "error" | .timeout => "timeout"

theorem Status.text_injective : Function.Injective Status.text := by
  intro a b h
  cases a <;> cases b <;> first | rfl | exact absurd h (by decide)

/-- An exception that a row can raise. -/
inductive Raised where
  /-- The command line raised. -/
  | runner
  /-- `int()` of something that is no integer. -/
  | conversion

/-- What the bridge runs on. -/
structure Host extends Python where
  /-- `HERMES_CLI`. -/
  cli : String
  /-- `BRIDGE_BOARD`, empty for Hermes' default board. -/
  board : String
  /-- `BRIDGE_TENANT`. -/
  tenant : String
  /-- `runner(args)`, called for a row: it raises, or returns `(returncode, stdout, stderr)`. -/
  runner : String → List Json → Except Raised (ℤ × String × String)
  /-- `int(time.time())`, the `n`-th time it is read for a row. -/
  time : String → ℕ → ℤ

/-! ### Statuses -/

/-- `_STATUS_MAP`: Hermes run outcomes and event kinds. -/
def statusMap : List (String × Option Status) :=
  [("active", some .running), ("claimed", some .running), ("promoted", some .running),
    ("heartbeat", some .running), ("reclaimed", some .running), ("claim_extended", some .running),
    ("completed", some .ok), ("blocked", some .blocked), ("gave_up", some .error), ("crashed", some .error),
    ("timed_out", some .timeout), ("spawn_failed", none)]

/-- `_COLUMN_MAP`: Hermes columns. -/
def columnMap : List (String × Option Status) :=
  [("triage", none), ("todo", none), ("scheduled", none), ("ready", none), ("running", some .running),
    ("blocked", some .blocked), ("review", some .blocked), ("done", some .ok), ("archived", some .ok)]

/-- `str(v).strip().lower()`. -/
def normalize (P : Python) (v : Json) : String := PyText.lower (PyText.strip (P.toStr v))

/-- `map_hermes_status`. -/
def mapHermesStatus (P : Python) (signal : Json) : Option Status :=
  if signal.truthy then (statusMap.lookup (normalize P signal)).join else none

/-- `map_hermes_column`. -/
def mapHermesColumn (P : Python) (column : Json) : Option Status :=
  if column.truthy then (columnMap.lookup (normalize P column)).join else none

/-! ### Calling Hermes -/

/-- `BACKREF_PREFIX`. -/
def backrefPrefix : String := "persona-job:"

/-- `_backref_body`. -/
def backrefBody (jobId body : String) : String :=
  PyText.rstrip (backrefPrefix ++ " " ++ jobId ++ "\n\n" ++ body) ++ "\n"

/-- `if board: args += ["--board", board]`. -/
def boardArgs (H : Host) : List Json := if H.board = "" then [] else [.str "--board", .str H.board]

/-- `build_create_args`; it raises when the priority is no integer. -/
def buildCreateArgs (H : Host) (jobId : String) (state : Dict) : Except Raised (List Json) :=
  let title := H.toStr ((getKey state "title").or (.str jobId))
  let assignee := H.toStr ((getKey state "assignee").or (.str "default"))
  let tenant := H.toStr ((getKey state "tenant").or (.str H.tenant))
  match H.toInt ((state.lookup "priority").getD (.int 2)) with
  | none => .error .conversion
  | some priority =>
    .ok ([.str H.cli, .str "kanban", .str "create", .str title, .str "--assignee", .str assignee,
      .str "--tenant", .str tenant, .str "--priority", .str (toString priority),
      .str "--body", .str (backrefBody jobId (H.toStr ((getKey state "body").or (.str "")))), .str "--json"] ++
        boardArgs H)

/-- The arguments of `hermes kanban show`. -/
def showArgs (H : Host) (tid : Json) : List Json :=
  [.str H.cli, .str "kanban", .str "show", tid, .str "--json"] ++ boardArgs H

/-- The first of the lines that starts with a bracket and is JSON. -/
def firstJson (P : Python) : List String → Option Json
  | [] => none
  | line :: lines =>
    let line := PyText.strip line
    if line.startsWith "\x7b" || line.startsWith "[" then (P.loads line).or (firstJson P lines) else firstJson P lines

/-- What lies from the first `{` to the last `}`, if the one comes before the other. -/
def braced (s : String) : Option String :=
  let cs := s.toList
  let start := cs.findIdx (· == '\x7b')
  let stop := cs.length - cs.reverse.findIdx (· == '\x7d')
  if start + 1 < stop then some (String.ofList ((cs.take stop).drop start)) else none

/-- `_loads_lenient`: JSON that may be surrounded by other output. -/
def loadsLenient (P : Python) (stdout : String) : Option Json :=
  let s := PyText.strip stdout
  if s = "" then none
  else (P.loads s).or ((firstJson P (PyText.splitlines s).reverse).or ((braced s).bind P.loads))

/-- `parse_created_id`. -/
def parseCreatedId (P : Python) (stdout : String) : Json :=
  match loadsLenient P stdout with
  | some (.obj o) => (Json.get o "id").or (Json.get o "task_id")
  | _ => .null

/-! ### What a card says -/

/-- `_finished_ts`; `none` when `int` raises. -/
def finishedTs (P : Python) (now : ℤ) (run : List (String × Json)) : Option ℤ :=
  match Json.get run "ended_at" with
  | .bool b => P.toInt (.bool b)
  | .int n => P.toInt (.int n)
  | .float x => P.toInt (.float x)
  | _ => some now

/-- The task of a `show` payload; a bare task is tolerated. -/
def taskOf (payload : List (String × Json)) : List (String × Json) :=
  match Json.get payload "task" with
  | .obj t => t
  | _ => if (payload.lookup "status").isSome then payload else []

/-- The runs of a `show` payload. -/
def runsOf (payload : List (String × Json)) : List Json :=
  match Json.get payload "runs" with
  | .arr rs => rs
  | _ => []

/-- The latest run. -/
def latestRun (payload : List (String × Json)) : List (String × Json) :=
  match (runsOf payload).getLast? with
  | some (.obj r) => r
  | _ => []

/-- The columns in which a card is settled. -/
def settled : List String := ["blocked", "done", "archived"]

/-- The status `derive_update` gives: a settled column's, else the latest run's
outcome's, else the column's. -/
def deriveStatus (P : Python) (payload : List (String × Json)) : Option Status :=
  let col := normalize P ((Json.get (taskOf payload) "status").or (.str ""))
  if col ∈ settled then mapHermesColumn P (.str col)
  else (mapHermesStatus P (Json.get (latestRun payload) "outcome")).or (mapHermesColumn P (.str col))

/-- `if v is not None: d[k] = v`. -/
def setSome (k : String) (v : Json) (d : Dict) : Dict := if v.isNull then d else d.insert k v

/-- The patch `derive_update` starts with: the attempts and the status. -/
def basePatch (P : Python) (payload : List (String × Json)) : Dict :=
  let patch := if (runsOf payload).isEmpty then ∅ else item "attempts" (.int (runsOf payload).length)
  match deriveStatus P payload with
  | some st => patch.insert "status" (.str st.text)
  | none => patch

/-- `derive_update`: the patch a `show` payload stands for; `none` when it raises. -/
def deriveUpdate (P : Python) (now : ℤ) (payload : List (String × Json)) : Option Dict :=
  let latest := latestRun payload
  let patch := basePatch P payload
  let metadata := match Json.get latest "metadata" with
    | .str s => (P.loads s).getD (.str s)
    | v => v
  match deriveStatus P payload with
  | some .ok =>
    let summary := (Json.get latest "summary").or (Json.get payload "latest_summary")
    let patch := setSome "metadata" metadata (setSome "summary" summary patch)
    (finishedTs P now latest).map fun t => patch.insert "finished_at" (.int t)
  | some .error | some .timeout =>
    (finishedTs P now latest).map fun t =>
      setSome "error" (Json.get latest "error") (patch.insert "finished_at" (.int t))
  | some .blocked =>
    let reason := ((Json.get latest "summary").or (Json.get latest "error")).or (Json.get payload "latest_summary")
    some (setSome "block_reason" reason patch)
  | _ => some patch

/-! ### A tick -/

/-- The board, and the calls made to the command line, each with the row it is for. -/
structure St where
  /-- The Task Board. -/
  board : Board
  /-- The calls made so far. -/
  calls : List (String × List Json)

/-- `board.task_set`, the clock being read for the `n`-th time. -/
def St.set (H : Host) (s : St) (n : ℕ) (jobId : String) (patch : Dict) : St :=
  { s with board := taskSet H.toPython (H.time jobId n) jobId patch s.board }

/-- A call is made. -/
def St.called (s : St) (jobId : String) (args : List Json) : St := { s with calls := s.calls ++ [(jobId, args)] }

section St

variable (H : Host) (s : St) (n : ℕ) (jobId : String) (patch : Dict) (args : List Json)

@[simp] theorem St.board_set :
    (s.set H n jobId patch).board = taskSet H.toPython (H.time jobId n) jobId patch s.board := rfl

@[simp] theorem St.calls_set : (s.set H n jobId patch).calls = s.calls := rfl

@[simp] theorem St.board_called : (s.called jobId args).board = s.board := rfl

@[simp] theorem St.calls_called : (s.called jobId args).calls = s.calls ++ [(jobId, args)] := rfl

end St

/-- The patch that says a create has begun. -/
def inflightPatch (now : ℤ) : Dict := item "delegate_inflight" (.int now)

/-- The patch that says a create went wrong. -/
def errorPatch (message : String) : Dict := item "delegate_error" (.str message)

/-- The patch that binds a row to its card. -/
def boundPatch (H : Host) (tid : Json) : Dict :=
  (((item "hermes_task_id" tid).insert "hermes_board" (.str (if H.board = "" then "default" else H.board))).insert
    "delegate_inflight" (.int 0)).insert "delegate_error" .null

/-- What `create_card` makes of the command line's answer: the patch, and the id if
there is one. -/
def createdPatch (H : Host) : ℤ × String × String → Dict × Option Json
  | (rc, out, err) =>
    if rc ≠ 0 then (errorPatch (PyText.lastChars 500 err), none)
    else
      let tid := parseCreatedId H.toPython out
      if tid.truthy then (boundPatch H tid, some tid) else (errorPatch "create returned no id", none)

/-- `create_card`. -/
def createCard (H : Host) (jobId : String) (state : Dict) (s : St) : Except Raised (Option Json) × St :=
  let s := s.set H 1 jobId (inflightPatch (H.time jobId 0))
  match buildCreateArgs H jobId state with
  | .error e => (.error e, s)
  | .ok args =>
    let s := s.called jobId args
    match H.runner jobId args with
    | .error e => (.error e, s)
    | .ok answer => (.ok (createdPatch H answer).2, s.set H 2 jobId (createdPatch H answer).1)

/-- `fetch_task`: what the command line shows of a card. -/
def fetchTask (H : Host) : ℤ × String × String → Option (List (String × Json))
  | (rc, out, _) =>
    if rc ≠ 0 then none
    else match loadsLenient H.toPython out with
      | some (.obj o) => some o
      | _ => none

/-- The body of `enqueue_delegated`'s loop. -/
def enqueueRow (H : Host) (row : Listed) (s : St) : Except Raised (Option String) × St :=
  if row.status ≠ some Status.delegated.text then (.ok none, s)
  else
    let full := (taskGet row.jobId s.board).getD ∅
    if (getKey full "hermes_task_id").truthy then (.ok none, s)
    else
      let r := createCard H row.jobId full s
      (r.1.map fun tid => tid.map fun _ => row.jobId, r.2)

/-- `enqueue_delegated`. -/
def enqueueDelegated (H : Host) (limit : ℕ) (s : St) : Except Raised (List String) × St :=
  scan (enqueueRow H) (taskList limit s.board) s

/-- `OPEN_STATUSES`. -/
def openStatuses : List String := [Status.delegated.text, Status.running.text]

instance (status : Option String) : Decidable (status ∈ openStatuses.map some) := inferInstance

/-- The patch `mirror_outcomes` writes: the card's, and the start when it is first seen
running. -/
def mirrorPatch (now : ℤ) (full patch : Dict) : Dict :=
  match getKey patch "status" with
  | .str st =>
    if st = Status.running.text ∧ (getKey full "started_at").truthy = false then
      patch.insert "started_at" (.int now)
    else patch
  | _ => patch

/-- The patch `mirror_outcomes` makes of the command line's answer; an empty one, which
is not written, when the card could not be fetched. -/
def cardPatch (H : Host) (jobId : String) (full : Dict) (answer : ℤ × String × String) : Except Raised Dict :=
  match fetchTask H answer with
  | none | some [] => .ok ∅
  | some payload =>
    match deriveUpdate H.toPython (H.time jobId 3) payload with
    | none => .error .conversion
    | some patch => .ok (mirrorPatch (H.time jobId 4) full patch)

/-- The patch for a row with the card `tid`, or what the row raises. -/
def shownPatch (H : Host) (jobId : String) (full : Dict) (tid : Json) : Except Raised Dict :=
  (H.runner jobId (showArgs H tid)).bind (cardPatch H jobId full)

/-- `mirror_outcomes` on a row with the card `tid`. -/
def mirrorCard (H : Host) (jobId : String) (full : Dict) (tid : Json) (s : St) :
    Except Raised (Option String) × St :=
  let s := s.called jobId (showArgs H tid)
  match shownPatch H jobId full tid with
  | .error e => (.error e, s)
  | .ok patch => if patch.entries.isEmpty then (.ok none, s) else (.ok (some jobId), s.set H 5 jobId patch)

/-- The body of `mirror_outcomes`' loop. -/
def mirrorRow (H : Host) (row : Listed) (s : St) : Except Raised (Option String) × St :=
  if row.status ∉ openStatuses.map some then (.ok none, s)
  else
    let full := (taskGet row.jobId s.board).getD ∅
    let tid := getKey full "hermes_task_id"
    if tid.truthy then mirrorCard H row.jobId full tid s else (.ok none, s)

/-- `mirror_outcomes`. -/
def mirrorOutcomes (H : Host) (limit : ℕ) (s : St) : Except Raised (List String) × St :=
  scan (mirrorRow H) (taskList limit s.board) s

/-- The `limit` of both scans. -/
def scanLimit : ℕ := 200

/-- `tick`: enqueue, then mirror, unless the first raised. -/
def tick (H : Host) (s : St) : Except Raised (List String × List String) × St :=
  match enqueueDelegated H scanLimit s with
  | (.error e, s) => (.error e, s)
  | (.ok created, s) =>
    match mirrorOutcomes H scanLimit s with
    | (.error e, s) => (.error e, s)
    | (.ok updated, s) => (.ok (created, updated), s)

end Persona.Bridge
