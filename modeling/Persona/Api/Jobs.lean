import Persona.Bridge.Creation

/-!
# Jobs and their ids

`POST /agent/run` and `POST /agent/delegate` of `server.py`: each accepted submission
gets a job id, under which it has a row of the Task Board, and a run also has a job file
and a result file in `run/jobs`. The id is the client's, or made from the clock
(`job-<seconds>`) or at random (`delegate-<uuid>`). A run ends later, while other
requests are served, and the bridge, another process, works on the same rows: its ticks
are taken apart as in `Persona.Bridge.Creation`.

`/agent/delegate` refuses an id that has a row, `/agent/run` takes any id:
`owned_of_fresh` says that every submission owns its id, its row and its files in a run
in which each `/agent/run` has an id without a row, and files that no earlier run has.
-/

namespace Persona.Api.Jobs

open Persona.Lib Persona.TaskBoard Persona.Bridge

/-! ### The two routes -/

/-- What the server runs on: Python's library, the settings, and the files. -/
structure Server (ρ : Type*) extends Python where
  /-- `json.dumps(payload, indent=2)`. -/
  dumps : List (String × Json) → String
  /-- `str(Path("run") / "jobs" / name)`. -/
  path : String → String
  /-- The file that a name in `run/jobs` leads to. -/
  file : String → ρ
  /-- `DELEGATE_DEFAULT_ASSIGNEE`. -/
  assignee : String
  /-- `DELEGATE_DEFAULT_TENANT`. -/
  tenant : String

/-- Where a submission's work is done. -/
inductive Kind where
  | agentRun | hermesDelegate
  deriving DecidableEq

/-- The `kind` of a row. -/
def Kind.text : Kind → String
  | .agentRun => "agent_run"
  | .hermesDelegate => "hermes_delegate"

section Routes

variable {ρ : Type*} (S : Server ρ)

/-- The name of a job file. -/
def jobName (jobId : String) : String := jobId ++ ".job.json"

/-- The name of a result file. -/
def resultName (jobId : String) : String := jobId ++ ".result.json"

/-- `task_id` of `agent_run`. -/
def runId (now : ℤ) (payload : List (String × Json)) : String :=
  S.toStr ((Json.get payload "task_id").or (.str ("job-" ++ toString now)))

/-- What `agent_run` puts on the Task Board before the job runs. -/
def runPatch (taskId : String) (startedAt : ℤ) : Dict :=
  ((((item "status" (.str Status.running.text)).insert "kind" (.str Kind.agentRun.text)).insert
    "job_file" (.str (S.path (jobName taskId)))).insert
    "result_file" (.str (S.path (resultName taskId)))).insert "started_at" (.int startedAt)

/-- How `subprocess.run` ends. -/
inductive Ended where
  | exited (returncode : ℤ)
  | timeout
  /-- Another exception, which `agent_run` does not catch. -/
  | raised

/-- What `agent_run` puts on the Task Board after the job has run. -/
def endPatch (finishedAt : ℤ) : Ended → Option Dict
  | .exited returncode =>
    let status := if returncode = 0 then Status.ok else Status.error
    some (((item "status" (.str status.text)).insert "returncode" (.int returncode)).insert
      "finished_at" (.int finishedAt))
  | .timeout => some ((item "status" (.str Status.timeout.text)).insert "finished_at" (.int finishedAt))
  | .raised => none

/-- `DELEGATE_ROLES`. -/
def delegateRoles : List String := ["researcher", "critic", "summarizer", "coder", "librarian"]

/-- `resolve_delegate_assignee`: the assignee, or the error. -/
def resolveDelegateAssignee (payload : List (String × Json)) : Except String String :=
  let role := PyText.lower (PyText.strip (S.toStr ((Json.get payload "role").or (.str ""))))
  if role ≠ "" then
    if role ∈ delegateRoles then .ok role else .error "unknown_role"
  else .ok (S.toStr ((Json.get payload "assignee").or (.str S.assignee)))

/-- Why a delegation is not accepted. -/
inductive Refusal where
  /-- The response that says so: its code and its content. -/
  | response (code : ℕ) (content : List (String × Json))
  /-- `int()` raised on the priority. -/
  | raised

/-- `job_id` of `agent_delegate`; `uuid` is `uuid.uuid4().hex[:12]`. -/
def delegateId (uuid : String) (payload : List (String × Json)) : String :=
  S.toStr (((Json.get payload "job_id").or (Json.get payload "task_id")).or (.str ("delegate-" ++ uuid)))

/-- What `agent_delegate` puts on the Task Board. -/
def delegatePatch (payload : List (String × Json)) (title assignee : String) (priority delegatedAt : ℤ) : Dict :=
  (((((((item "status" (.str Status.delegated.text)).insert "kind" (.str Kind.hermesDelegate.text)).insert
    "title" (.str title)).insert
    "body" (.str (S.toStr ((Json.get payload "body").or (.str ""))))).insert
    "assignee" (.str assignee)).insert
    "tenant" (.str (S.toStr ((Json.get payload "tenant").or (.str S.tenant))))).insert
    "priority" (.int priority)).insert "delegated_at" (.int delegatedAt)

/-- `agent_delegate`, up to its write: the job id and what it puts on the Task Board. -/
def agentDelegate (payload : List (String × Json)) (uuid : String) (now : ℤ) (b : Board) :
    Except Refusal (String × Dict) :=
  let title := PyText.strip (S.toStr ((Json.get payload "title").or (.str "")))
  if title = "" then .error (.response 400 [("error", .str "title_required")])
  else
    match resolveDelegateAssignee S payload with
    | .error err =>
      .error (.response 400 [("error", .str err), ("role", Json.get payload "role"),
        ("known_roles", .arr (delegateRoles.map .str))])
    | .ok assignee =>
      let jobId := delegateId S uuid payload
      if (taskGet jobId b).isSome then
        .error (.response 409 [("error", .str "job_exists"), ("job_id", .str jobId)])
      else
        match S.toInt ((payload.lookup "priority").getD (.int 2)) with
        | none => .error .raised
        | some priority => .ok (jobId, delegatePatch S payload title assignee priority now)

/-- A delegation is accepted under an id that has no row. -/
theorem lookup_of_agentDelegate {payload : List (String × Json)} {uuid : String} {now : ℤ} {b : Board} {jobId : String}
    {patch : Dict} (h : agentDelegate S payload uuid now b = .ok (jobId, patch)) : b.lookup jobId = none := by
  simp only [agentDelegate] at h
  split at h
  · cases h
  · cases hres : resolveDelegateAssignee S payload with
    | error err =>
      rw [hres] at h
      cases h
    | ok assignee =>
      rw [hres] at h
      dsimp only at h
      split at h
      · cases h
      · next hrow =>
        cases hint : S.toInt ((payload.lookup "priority").getD (.int 2)) with
        | none =>
          rw [hint] at h
          cases h
        | some priority =>
          rw [hint] at h
          simp only [Except.ok.injEq, Prod.mk.injEq] at h
          rw [← h.1]
          simpa [taskGet] using hrow

end Routes

/-! ### Runs -/

/-- An accepted submission. -/
structure Submission where
  jobId : String
  kind : Kind

/-- The Task Board, the files, and the work in flight. -/
structure World (ρ : Type*) where
  /-- The Task Board. -/
  board : Board
  /-- Where the bridge is. -/
  proc : Creation.Proc
  /-- The files' contents. -/
  files : ρ → Option String
  /-- The submissions accepted so far, in order. -/
  accepted : List Submission
  /-- The numbers of those whose job is running here. -/
  running : List ℕ

/-- What happens. An `/agent/run` whose job file cannot be written is not accepted, and
changes nothing. -/
inductive Event where
  /-- `POST /agent/run`, as far as the job's start; `time` is the clock, the `n`-th time
  it is read. -/
  | agentRun (payload : List (String × Json)) (time : ℕ → ℤ)
  /-- The job of a run writes its result. -/
  | result (n : ℕ) (text : String)
  /-- The job of a run ends. -/
  | ended (n : ℕ) (how : Ended) (time : ℕ → ℤ)
  /-- `POST /agent/delegate`. -/
  | agentDelegate (payload : List (String × Json)) (uuid : String) (time : ℕ → ℤ)
  /-- A step of the bridge. -/
  | bridge (ev : Creation.Ev)

section Step

variable {ρ : Type*} [DecidableEq ρ] (S : Server ρ)

/-- `_job_set`. -/
def World.jobSet (w : World ρ) (now : ℤ) (jobId : String) (patch : Dict) : World ρ :=
  { w with board := taskSet S.toPython now jobId patch w.board }

/-- A text is written to a file of `run/jobs`. -/
def World.writeText (w : World ρ) (name text : String) : World ρ :=
  { w with files := Function.update w.files (S.file name) (some text) }

/-- `agent_run`, as far as the job's start. -/
def agentRun (payload : List (String × Json)) (time : ℕ → ℤ) (w : World ρ) : World ρ :=
  let taskId := runId S (time 0) payload
  let w' := (w.writeText S (jobName taskId) (S.dumps payload)).jobSet S (time 2) taskId (runPatch S taskId (time 1))
  { w' with
    accepted := w.accepted ++ [⟨taskId, .agentRun⟩]
    running := w.running ++ [w.accepted.length] }

/-- The rest of `agent_run`, for the `n`-th submission. -/
def agentRunEnded (n : ℕ) (taskId : String) (how : Ended) (time : ℕ → ℤ) (w : World ρ) : World ρ :=
  let w' :=
    match endPatch (time 0) how with
    | some patch => w.jobSet S (time 1) taskId patch
    | none => w
  { w' with running := w.running.erase n }

/-- `agent_delegate`. -/
def agentDelegated (payload : List (String × Json)) (uuid : String) (time : ℕ → ℤ) (w : World ρ) : World ρ :=
  match agentDelegate S payload uuid (time 0) w.board with
  | .error _ => w
  | .ok (jobId, patch) =>
    { w.jobSet S (time 1) jobId patch with accepted := w.accepted ++ [⟨jobId, .hermesDelegate⟩] }

/-- The steps. The bridge takes any step of its own, whatever cards there are. -/
inductive Step : World ρ → Event → World ρ → Prop
  | agentRun {w : World ρ} {payload : List (String × Json)} {time : ℕ → ℤ} :
      Step w (.agentRun payload time) (agentRun S payload time w)
  | result {w : World ρ} {n : ℕ} {text : String} {sub : Submission} (hn : n ∈ w.running)
      (hsub : w.accepted[n]? = some sub) : Step w (.result n text) (w.writeText S (resultName sub.jobId) text)
  | ended {w : World ρ} {n : ℕ} {how : Ended} {time : ℕ → ℤ} {sub : Submission} (hn : n ∈ w.running)
      (hsub : w.accepted[n]? = some sub) : Step w (.ended n how time) (agentRunEnded S n sub.jobId how time w)
  | agentDelegate {w : World ρ} {payload : List (String × Json)} {uuid : String} {time : ℕ → ℤ} :
      Step w (.agentDelegate payload uuid time) (agentDelegated S payload uuid time w)
  | bridge {w : World ρ} {ev : Creation.Ev} {H : Host} {cards : List Creation.Posted} {sys : Creation.Sys}
      (hev : ∀ now jobId patch, ev ≠ .set now jobId patch) (h : Creation.Step H ⟨w.board, cards, w.proc⟩ ev sys) :
      Step w (.bridge ev) { w with board := sys.board, proc := sys.proc }

/-- Nothing has been accepted, and the bridge does not run. -/
structure World.Start (w : World ρ) : Prop where
  accepted : w.accepted = []
  running : w.running = []
  proc : w.proc = .down

/-! ### Who writes what -/

/-- The steps that may write a submission's row: the end of its own job if it runs here,
the bridge's if it is delegated. -/
def Event.WritesRow (n : ℕ) : Kind → Event → Prop
  | .agentRun, .ended m _ _ => m = n
  | .hermesDelegate, .bridge _ => True
  | _, _ => False

/-- The steps that may write a run's files: its own job's result. -/
def Event.WritesFiles (n : ℕ) : Event → Prop
  | .result m _ => m = n
  | _ => False

/-- The files of a job. -/
def filesOf (jobId : String) : List ρ := [S.file (jobName jobId), S.file (resultName jobId)]

/-- A step leaves the row and the files of the `n`-th submission to itself. -/
structure Kept (w : World ρ) (e : Event) (w' : World ρ) (n : ℕ) (sub : Submission) : Prop where
  row : ¬ e.WritesRow n sub.kind → w'.board.lookup sub.jobId = w.board.lookup sub.jobId
  files : sub.kind = .agentRun → ¬ e.WritesFiles n → ∀ f ∈ filesOf S sub.jobId, w'.files f = w.files f

/-- After the step no two submissions have one id, and it has left each of the earlier
ones its row and its files. -/
def StepOwned (w : World ρ) (e : Event) : Prop :=
  ∀ w', Step S w e w' →
    (w'.accepted.map (·.jobId)).Nodup ∧ ∀ n sub, w.accepted[n]? = some sub → Kept S w e w' n sub

/-- Every accepted submission owns its id. -/
def Owned (w₀ : World ρ) (es : List Event) : Prop := AtEach (Step S) (StepOwned S) w₀ es

/-- Two jobs have no file in common. -/
def Apart (jobId jobId' : String) : Prop := ∀ f ∈ filesOf S jobId, f ∉ filesOf S jobId'

/-- An `/agent/run` has an id without a row, and files that no earlier run has. -/
def Fresh (w : World ρ) : Event → Prop
  | .agentRun payload time =>
    let taskId := runId S (time 0) payload
    w.board.lookup taskId = none ∧ ∀ sub ∈ w.accepted, sub.kind = .agentRun → Apart S taskId sub.jobId
  | _ => True

end Step

/-! ### Rows that the bridge leaves alone -/

section Local

variable {H : Host} {b b' : Board} {j : String}

/-- A row that is not delegated and has no card. -/
def LocalRow (b : Board) (j : String) : Prop :=
  columnOf b j ≠ some Status.delegated.text ∧ (tidOf b j).truthy = false

theorem LocalRow.congr (h : LocalRow b j) (hlookup : b'.lookup j = b.lookup j) : LocalRow b' j := by
  unfold LocalRow columnOf tidOf fullOf taskGet at h ⊢
  rwa [hlookup]

/-- A write that gives a status other than `delegated`, and no card, to a new row or to
such a row makes it such a row. -/
theorem localRow_taskSet {P : Python} {now : ℤ} {patch : Dict} {status : String}
    (hstatus : patch.lookup "status" = some (.str status)) (hne : status ≠ Status.delegated.text)
    (htid : "hermes_task_id" ∉ patch) (h : (tidOf b j).truthy = false) : LocalRow (taskSet P now j patch b) j := by
  constructor
  · have hkey : getKey (merged (b.lookup j) patch) "status" = .str status := by
      unfold getKey merged
      rw [lookup_update, hstatus]
      rfl
    rw [columnOf, lookup_taskSet, Option.bind_some, statusOf, hkey]
    simpa [Json.isNull] using hne
  · rwa [Creation.tidOf_taskSet htid]

/-- None of the rows is a delegated one with this id. -/
def Quiet (j : String) (rows : List Listed) : Prop :=
  ∀ row ∈ rows, row.jobId = j → row.status ≠ some Status.delegated.text

/-- The bridge is not about to write this row. -/
def Spares (j : String) : Creation.Proc → Prop
  | .down | .idle | .mirror _ => True
  | .enqueue rows => Quiet j rows
  | .create j' _ rows | .marked j' _ rows | .answered j' _ rows => j' ≠ j ∧ Quiet j rows
  | .patched j' _ _ => j' ≠ j

/-- The ids the bridge has in hand. -/
def inHand : Creation.Proc → List String
  | .down | .idle => []
  | .enqueue rows | .mirror rows => rows.map Listed.jobId
  | .create j _ rows | .marked j _ rows | .answered j _ rows | .patched j _ rows => j :: rows.map Listed.jobId

theorem quiet_of_notMem {rows : List Listed} (h : j ∉ rows.map Listed.jobId) : Quiet j rows :=
  fun _ hrow hj => absurd (hj ▸ List.mem_map_of_mem hrow) h

theorem spares_of_notMem {p : Creation.Proc} (h : j ∉ inHand p) : Spares j p := by
  cases p with
  | down | idle | mirror rows => trivial
  | enqueue rows => exact quiet_of_notMem h
  | create j' full rows | marked j' full rows | answered j' full rows =>
    simp only [inHand, List.mem_cons, not_or] at h
    exact ⟨Ne.symm h.1, quiet_of_notMem h.2⟩
  | patched j' full rows =>
    simp only [inHand, List.mem_cons, not_or] at h
    exact Ne.symm h.1

/-- A local row is not listed as delegated. -/
theorem LocalRow.quiet_taskList (h : LocalRow b j) (limit : ℕ) : Quiet j (taskList limit b) := by
  rintro row hrow rfl
  have hu : Unchanged b row ⟨b, []⟩ := ⟨mem_of_mem_taskList hrow, rfl⟩
  rw [hu.column]
  exact h.1

variable {s s' : Creation.Sys} {ev : Creation.Ev}

/-- **The bridge leaves local rows alone.** -/
theorem bridge_spares (h : Creation.Step H s ev s') (hev : ∀ now jobId patch, ev ≠ .set now jobId patch)
    (hl : LocalRow s.board j) (hp : Spares j s.proc) : s'.board.lookup j = s.board.lookup j ∧ Spares j s'.proc := by
  cases h with
  | set hset => exact absurd rfl (hev _ _ _)
  | stop | start _ | rest _ | mirror _ | refuse _ _ => exact ⟨rfl, trivial⟩
  | tick hproc => exact ⟨rfl, hl.quiet_taskList _⟩
  | @visit row rows hproc =>
    rw [hproc] at hp
    have hrows : Quiet j rows := fun r hr => hp r (List.mem_cons_of_mem _ hr)
    refine ⟨rfl, ?_⟩
    show Spares j (Creation.visit s.board row rows)
    unfold Creation.visit
    split_ifs with hst
    · exact hrows
    · exact hrows
    · exact ⟨fun hj => hp row List.mem_cons_self hj (not_not.mp hst), hrows⟩
  | mark hproc =>
    rw [hproc] at hp
    exact ⟨lookup_taskSet_ne _ hp.1.symm, hp⟩
  | create made answer hproc =>
    rw [hproc] at hp
    cases answer with
    | error e => exact ⟨rfl, trivial⟩
    | ok a => exact ⟨rfl, hp⟩
  | record now hproc =>
    rw [hproc] at hp
    exact ⟨lookup_taskSet_ne _ hp.1.symm, hp.2⟩
  | @look row rows runner time hproc =>
    refine ⟨rfl, ?_⟩
    show Spares j (Creation.look _ s.board row rows)
    unfold Creation.look
    split_ifs with hst htid
    · have hne : row.jobId ≠ j := by
        rintro rfl
        rw [hl.2] at htid
        cases htid
      unfold Creation.afterShow
      split
      · trivial
      · split_ifs
        · trivial
        · exact hne
    · trivial
    · trivial
  | merge now hproc =>
    rw [hproc] at hp
    exact ⟨lookup_taskSet_ne _ (Ne.symm hp), trivial⟩

theorem mem_taskSet {P : Python} {now : ℤ} {jobId : String} {patch : Dict} (h : j ∈ b) :
    j ∈ taskSet P now jobId patch b := by
  rw [← AList.lookup_isSome] at h ⊢
  by_cases hj : j = jobId
  · rw [hj, lookup_taskSet]
    rfl
  · rwa [lookup_taskSet_ne P hj]

/-- The bridge takes up rows of the board only, and removes none. -/
theorem bridge_inHand (h : Creation.Step H s ev s') (hev : ∀ now jobId patch, ev ≠ .set now jobId patch)
    (hp : ∀ i ∈ inHand s.proc, i ∈ s.board) :
    (∀ i ∈ s.board, i ∈ s'.board) ∧ ∀ i ∈ inHand s'.proc, i ∈ s'.board := by
  have hlisted : ∀ i ∈ (taskList scanLimit s.board).map Listed.jobId, i ∈ s.board := by
    intro i hi
    obtain ⟨row, hrow, rfl⟩ := List.mem_map.mp hi
    obtain ⟨r, hr, -⟩ := mem_listed.mp (mem_of_mem_taskList hrow)
    exact AList.lookup_isSome.mp (by rw [hr]; rfl)
  cases h with
  | set hset => exact absurd rfl (hev _ _ _)
  | stop | start _ | rest _ | refuse _ _ => exact ⟨fun _ hi => hi, fun _ hi => nomatch hi⟩
  | tick hproc | mirror hproc => exact ⟨fun _ hi => hi, hlisted⟩
  | @visit row rows hproc =>
    rw [hproc] at hp
    refine ⟨fun _ hi => hi, fun i hi => hp i ?_⟩
    change i ∈ inHand (Creation.visit s.board row rows) at hi
    unfold Creation.visit at hi
    split_ifs at hi
    · exact List.mem_cons_of_mem _ hi
    · exact List.mem_cons_of_mem _ hi
    · exact hi
  | mark hproc =>
    rw [hproc] at hp
    exact ⟨fun _ => mem_taskSet, fun i hi => mem_taskSet (hp i hi)⟩
  | create made answer hproc =>
    rw [hproc] at hp
    cases answer with
    | error e => exact ⟨fun _ hi => hi, fun _ hi => nomatch hi⟩
    | ok a => exact ⟨fun _ hi => hi, hp⟩
  | record now hproc =>
    rw [hproc] at hp
    exact ⟨fun _ => mem_taskSet, fun i hi => mem_taskSet (hp i (List.mem_cons_of_mem _ hi))⟩
  | @look row rows runner time hproc =>
    rw [hproc] at hp
    refine ⟨fun _ hi => hi, fun i hi => hp i ?_⟩
    change i ∈ inHand (Creation.look _ s.board row rows) at hi
    unfold Creation.look Creation.afterShow at hi
    split_ifs at hi
    · split at hi
      · cases hi
      · split_ifs at hi
        · exact List.mem_cons_of_mem _ hi
        · exact hi
    · exact List.mem_cons_of_mem _ hi
    · exact List.mem_cons_of_mem _ hi
  | merge now hproc =>
    rw [hproc] at hp
    exact ⟨fun _ => mem_taskSet, fun i hi => mem_taskSet (hp i (List.mem_cons_of_mem _ hi))⟩

end Local

/-! ### What holds throughout a run -/

section Invariant

variable {ρ : Type*} {S : Server ρ} {w w' : World ρ}

theorem Apart.symm {jobId jobId' : String} (h : Apart S jobId jobId') : Apart S jobId' jobId :=
  fun f hf hf' => h f hf' hf

/-- A patch that leaves a row with the bridge's hands off it. -/
structure LocalPatch (patch : Dict) : Prop where
  status : ∃ status, patch.lookup "status" = some (.str status) ∧ status ≠ Status.delegated.text
  card : "hermes_task_id" ∉ patch

theorem localPatch_item {status : String} (h : status ≠ Status.delegated.text) :
    LocalPatch (item "status" (.str status)) where
  status := ⟨status, rfl, h⟩
  card := notMem_item (by decide)

theorem LocalPatch.insert {patch : Dict} {k : String} {v : Json} (h : LocalPatch patch) (hstatus : "status" ≠ k)
    (hcard : "hermes_task_id" ≠ k) : LocalPatch (patch.insert k v) where
  status := by
    rw [AList.lookup_insert_ne hstatus]
    exact h.status
  card := notMem_insert hcard h.card

theorem localPatch_runPatch (taskId : String) (startedAt : ℤ) : LocalPatch (runPatch S taskId startedAt) := by
  have hstatus : LocalPatch (item "status" (.str Status.running.text)) := localPatch_item (by decide)
  have hkind : LocalPatch ((item "status" (.str Status.running.text)).insert "kind" (.str Kind.agentRun.text)) :=
    hstatus.insert (by decide) (by decide)
  exact ((hkind.insert (by decide) (by decide)).insert (by decide) (by decide)).insert (by decide) (by decide)

theorem localPatch_endPatch {finishedAt : ℤ} {how : Ended} {patch : Dict} (h : endPatch finishedAt how = some patch) :
    LocalPatch patch := by
  cases how with
  | exited returncode =>
    rw [endPatch, Option.some.injEq] at h
    subst h
    have hstatus : LocalPatch (item "status" (.str (if returncode = 0 then Status.ok else Status.error).text)) := by
      apply localPatch_item
      split_ifs <;> decide
    exact (hstatus.insert (by decide) (by decide)).insert (by decide) (by decide)
  | timeout =>
    rw [endPatch, Option.some.injEq] at h
    subst h
    have hstatus : LocalPatch (item "status" (.str Status.timeout.text)) := localPatch_item (by decide)
    exact hstatus.insert (by decide) (by decide)
  | raised => cases h

theorem LocalPatch.localRow {P : Python} {b : Board} {j : String} {now : ℤ} {patch : Dict} (h : LocalPatch patch)
    (htid : (tidOf b j).truthy = false) : LocalRow (taskSet P now j patch b) j := by
  obtain ⟨status, hstatus, hne⟩ := h.status
  exact localRow_taskSet hstatus hne h.card htid

variable (S) in
/-- What holds of the submissions in every state of a run in which ids are fresh. -/
structure Inv (w : World ρ) : Prop where
  /-- Each has its row. -/
  present : ∀ sub ∈ w.accepted, sub.jobId ∈ w.board
  nodup : (w.accepted.map (·.jobId)).Nodup
  /-- Runs have no file in common. -/
  apart : w.accepted.Pairwise fun sub sub' =>
    sub.kind = .agentRun → sub'.kind = .agentRun → Apart S sub'.jobId sub.jobId
  inHand : ∀ j ∈ inHand w.proc, j ∈ w.board
  /-- The bridge has nothing to do with runs. -/
  home : ∀ sub ∈ w.accepted, sub.kind = .agentRun → LocalRow w.board sub.jobId ∧ Spares sub.jobId w.proc
  running : ∀ n ∈ w.running, ∃ sub, w.accepted[n]? = some sub ∧ sub.kind = .agentRun

theorem inv_start (h : w.Start) : Inv S w := by
  constructor
  · simp [h.accepted]
  · simp [h.accepted]
  · simp [h.accepted]
  · simp [h.proc, inHand]
  · simp [h.accepted]
  · simp [h.running]

/-- Two submissions have two ids. -/
theorem Inv.jobId_ne (h : Inv S w) {n m : ℕ} {sub sub' : Submission} (hn : w.accepted[n]? = some sub)
    (hm : w.accepted[m]? = some sub') (hne : n ≠ m) : sub.jobId ≠ sub'.jobId := by
  intro heq
  have hlt : n < (w.accepted.map (·.jobId)).length := by
    rw [List.length_map]
    exact (List.getElem?_eq_some_iff.mp hn).1
  refine hne ((List.getElem?_inj hlt h.nodup).mp ?_)
  rw [List.getElem?_map, List.getElem?_map, hn, hm, Option.map_some, Option.map_some, heq]

/-- Two runs have no file in common. -/
theorem Inv.apart_of_ne (h : Inv S w) {n m : ℕ} {sub sub' : Submission} (hn : w.accepted[n]? = some sub)
    (hm : w.accepted[m]? = some sub') (hne : n ≠ m) (hk : sub.kind = .agentRun) (hk' : sub'.kind = .agentRun) :
    Apart S sub.jobId sub'.jobId := by
  obtain ⟨hn', rfl⟩ := List.getElem?_eq_some_iff.mp hn
  obtain ⟨hm', rfl⟩ := List.getElem?_eq_some_iff.mp hm
  have hpair := List.pairwise_iff_getElem.mp h.apart
  rcases Nat.lt_or_gt_of_ne hne with hlt | hlt
  · exact (hpair n m hn' hm' hlt hk hk').symm
  · exact hpair m n hm' hn' hlt hk' hk

/-- An id without a row is no submission's. -/
theorem Inv.jobId_ne_of_lookup (h : Inv S w) {jobId : String} (hid : w.board.lookup jobId = none) {sub : Submission}
    (hsub : sub ∈ w.accepted) : sub.jobId ≠ jobId := by
  rintro rfl
  exact AList.lookup_eq_none.mp hid (h.present sub hsub)

/-- A submission is accepted under an id without a row. -/
theorem Inv.accept (h : Inv S w) {P : Python} {now : ℤ} {jobId : String} {kind : Kind} {patch : Dict}
    {files : ρ → Option String} {running : List ℕ} (hid : w.board.lookup jobId = none)
    (hrun : kind = .agentRun →
      LocalPatch patch ∧ ∀ sub ∈ w.accepted, sub.kind = .agentRun → Apart S jobId sub.jobId)
    (hrunning : ∀ n ∈ running, n ∈ w.running ∨ (n = w.accepted.length ∧ kind = .agentRun)) :
    Inv S ⟨taskSet P now jobId patch w.board, w.proc, files, w.accepted ++ [⟨jobId, kind⟩], running⟩ := by
  have hne : ∀ sub ∈ w.accepted, sub.jobId ≠ jobId := fun sub hsub => h.jobId_ne_of_lookup hid hsub
  constructor
  case present =>
    intro sub hsub
    rcases List.mem_append.mp hsub with hsub | hsub
    · exact mem_taskSet (h.present sub hsub)
    · obtain rfl := List.mem_singleton.mp hsub
      exact AList.lookup_isSome.mp (by rw [lookup_taskSet]; rfl)
  case nodup =>
    show ((w.accepted ++ [(⟨jobId, kind⟩ : Submission)]).map (·.jobId)).Nodup
    rw [List.map_append, List.nodup_append]
    refine ⟨h.nodup, List.nodup_singleton _, ?_⟩
    intro i hi i' hi'
    obtain ⟨sub, hsub, rfl⟩ := List.mem_map.mp hi
    rw [List.map_singleton, List.mem_singleton] at hi'
    rw [hi']
    exact hne sub hsub
  case apart =>
    show (w.accepted ++ [(⟨jobId, kind⟩ : Submission)]).Pairwise _
    rw [List.pairwise_append]
    refine ⟨h.apart, List.pairwise_singleton _ _, ?_⟩
    intro sub hsub sub' hsub' hk hk'
    obtain rfl := List.mem_singleton.mp hsub'
    exact (hrun hk').2 sub hsub hk
  case inHand => exact fun j hj => mem_taskSet (h.inHand j hj)
  case home =>
    intro sub hsub hk
    rcases List.mem_append.mp hsub with hsub | hsub
    · obtain ⟨hl, hs⟩ := h.home sub hsub hk
      exact ⟨hl.congr (lookup_taskSet_ne P (hne sub hsub)), hs⟩
    · obtain rfl := List.mem_singleton.mp hsub
      have htid : (tidOf w.board jobId).truthy = false := by
        rw [Creation.tidOf_eq, hid]
        rfl
      exact ⟨(hrun hk).1.localRow htid, spares_of_notMem fun hj => AList.lookup_eq_none.mp hid (h.inHand _ hj)⟩
  case running =>
    intro n hn
    rcases hrunning n hn with hn | ⟨rfl, hk⟩
    · obtain ⟨sub, hsub, hk⟩ := h.running n hn
      refine ⟨sub, ?_, hk⟩
      show (w.accepted ++ [_])[n]? = some sub
      rw [List.getElem?_append_left (List.getElem?_eq_some_iff.mp hsub).1, hsub]
    · exact ⟨_, List.getElem?_concat_length, hk⟩

/-- A run's row is written. -/
theorem Inv.jobSet (h : Inv S w) {now : ℤ} {patch : Dict} {sub : Submission} (hsub : sub ∈ w.accepted)
    (hk : sub.kind = .agentRun) (hpatch : LocalPatch patch) : Inv S (w.jobSet S now sub.jobId patch) := by
  constructor
  case present => exact fun sub' hsub' => mem_taskSet (h.present sub' hsub')
  case nodup => exact h.nodup
  case apart => exact h.apart
  case inHand => exact fun j hj => mem_taskSet (h.inHand j hj)
  case home =>
    intro sub' hsub' hk'
    obtain ⟨hl, hs⟩ := h.home sub' hsub' hk'
    refine ⟨?_, hs⟩
    by_cases hj : sub'.jobId = sub.jobId
    · rw [hj]
      exact hpatch.localRow (h.home sub hsub hk).1.2
    · exact hl.congr (lookup_taskSet_ne _ hj)
  case running => exact h.running

theorem Inv.ended (h : Inv S w) {n : ℕ} {how : Ended} {time : ℕ → ℤ} {sub : Submission} (hn : n ∈ w.running)
    (hsub : w.accepted[n]? = some sub) : Inv S (agentRunEnded S n sub.jobId how time w) := by
  have hk : sub.kind = .agentRun := by
    obtain ⟨sub', hsub', hk⟩ := h.running n hn
    rw [hsub, Option.some.injEq] at hsub'
    rwa [hsub']
  have hset : ∀ v : World ρ, Inv S v → Inv S { v with running := v.running.erase n } := fun v hv =>
    ⟨hv.present, hv.nodup, hv.apart, hv.inHand, hv.home, fun m hm => hv.running m (List.mem_of_mem_erase hm)⟩
  rw [agentRunEnded]
  cases hp : endPatch (time 0) how with
  | none => exact hset w h
  | some patch => exact hset _ (h.jobSet (List.mem_of_getElem? hsub) hk (localPatch_endPatch hp))

theorem Inv.agentDelegated (h : Inv S w) {payload : List (String × Json)} {uuid : String} {time : ℕ → ℤ} :
    Inv S (agentDelegated S payload uuid time w) := by
  rw [Jobs.agentDelegated]
  cases hd : agentDelegate S payload uuid (time 0) w.board with
  | error e => exact h
  | ok accepted =>
    exact h.accept (lookup_of_agentDelegate S hd) (fun hk => nomatch hk) fun n hn => .inl hn

theorem Inv.bridge (h : Inv S w) {H : Host} {ev : Creation.Ev} {cards : List Creation.Posted} {sys : Creation.Sys}
    (hev : ∀ now jobId patch, ev ≠ .set now jobId patch) (hs : Creation.Step H ⟨w.board, cards, w.proc⟩ ev sys) :
    Inv S { w with board := sys.board, proc := sys.proc } := by
  obtain ⟨hkeep, hhand⟩ := bridge_inHand hs hev h.inHand
  refine ⟨fun sub hsub => hkeep _ (h.present sub hsub), h.nodup, h.apart, hhand, fun sub hsub hk => ?_, h.running⟩
  obtain ⟨hl, hp⟩ := h.home sub hsub hk
  obtain ⟨hlookup, hp'⟩ := bridge_spares hs hev hl hp
  exact ⟨hl.congr hlookup, hp'⟩

variable [DecidableEq ρ]

theorem Inv.agentRun (h : Inv S w) {payload : List (String × Json)} {time : ℕ → ℤ}
    (hf : Fresh S w (.agentRun payload time)) : Inv S (agentRun S payload time w) := by
  refine h.accept hf.1 (fun _ => ⟨localPatch_runPatch _ _, hf.2⟩) (fun n hn => ?_)
  rcases List.mem_append.mp hn with hn | hn
  · exact .inl hn
  · exact .inr ⟨List.mem_singleton.mp hn, rfl⟩

/-- What holds throughout a run is preserved by each step. -/
theorem inv_step {e : Event} (h : Inv S w) (hf : Fresh S w e) (hs : Step S w e w') : Inv S w' := by
  cases hs with
  | agentRun => exact h.agentRun hf
  | result hn hsub => exact ⟨h.present, h.nodup, h.apart, h.inHand, h.home, h.running⟩
  | ended hn hsub => exact h.ended hn hsub
  | agentDelegate => exact h.agentDelegated
  | bridge hev hs => exact h.bridge hev hs

/-- A write to other files leaves a job's. -/
theorem writeText_files {name text : String} {sub : Submission} (h : S.file name ∉ filesOf S sub.jobId) :
    ∀ f ∈ filesOf S sub.jobId, (w.writeText S name text).files f = w.files f := by
  intro f hf
  refine Function.update_of_ne ?_ _ _
  rintro rfl
  exact h hf

/-- A step leaves to a submission what is its own. -/
theorem kept_step {e : Event} (h : Inv S w) (hf : Fresh S w e) (hs : Step S w e w') {n : ℕ} {sub : Submission}
    (hn : w.accepted[n]? = some sub) : Kept S w e w' n sub := by
  have hmem : sub ∈ w.accepted := List.mem_of_getElem? hn
  cases hs with
  | @agentRun payload time =>
    constructor
    · exact fun _ => lookup_taskSet_ne _ (h.jobId_ne_of_lookup hf.1 hmem)
    · intro hk _
      refine writeText_files (hf.2 sub hmem hk _ ?_)
      exact List.mem_cons_self
  | @result m text sub' hm hsub' =>
    refine ⟨fun _ => rfl, fun hk hne => ?_⟩
    obtain ⟨sub'', hsub'', hk'⟩ := h.running m hm
    rw [hsub', Option.some.injEq] at hsub''
    subst hsub''
    refine writeText_files (h.apart_of_ne hsub' hn hne hk' hk _ ?_)
    exact List.mem_cons_of_mem _ List.mem_cons_self
  | @ended m how time sub' hm hsub' =>
    constructor
    · intro hne
      have hmn : n ≠ m := by
        rintro rfl
        obtain ⟨sub'', hsub'', hk⟩ := h.running n hm
        rw [hn, Option.some.injEq] at hsub''
        rw [hsub'', hk] at hne
        exact hne rfl
      rw [agentRunEnded]
      cases endPatch (time 0) how with
      | none => rfl
      | some patch => exact lookup_taskSet_ne _ (h.jobId_ne hn hsub' hmn)
    · intro _ _ f _
      rw [agentRunEnded]
      cases endPatch (time 0) how <;> rfl
  | @agentDelegate payload uuid time =>
    rw [agentDelegated]
    cases hd : agentDelegate S payload uuid (time 0) w.board with
    | error e => exact ⟨fun _ => rfl, fun _ _ _ _ => rfl⟩
    | ok accepted =>
      refine ⟨fun _ => ?_, fun _ _ _ _ => rfl⟩
      exact lookup_taskSet_ne _ (h.jobId_ne_of_lookup (lookup_of_agentDelegate S hd) hmem)
  | bridge hev hs =>
    refine ⟨fun hne => ?_, fun _ _ _ _ => rfl⟩
    cases hk : sub.kind with
    | hermesDelegate =>
      rw [hk] at hne
      exact absurd trivial hne
    | agentRun =>
      obtain ⟨hl, hp⟩ := h.home sub hmem hk
      exact (bridge_spares hs hev hl hp).1

/-- **Every accepted submission owns its job id**, in a run in which each `/agent/run` has
an id without a row, and files that no earlier run has. -/
theorem owned_of_fresh {es : List Event} (h₀ : w.Start) (hfresh : AtEach (Step S) (Fresh S) w es) : Owned S w es := by
  refine AtEach.of_inv (I := Inv S) (fun _ _ _ hI hf hs => inv_step hI hf hs) ?_ (inv_start h₀) hfresh
  intro v e hI hf v' hs
  exact ⟨(inv_step hI hf hs).nodup, fun n sub hn => kept_step hI hf hs hn⟩

end Invariant

/-! ### Two submissions with one id -/

/-- A server whose files are their names. -/
def plainServer : Server String where
  toPython := .ofTable []
  dumps _ := "\x7b\x7d"
  path name := "run/jobs/" ++ name
  file name := name
  assignee := "default"
  tenant := "persona"

/-- Nothing yet. -/
def World.empty : World String := ⟨∅, .down, fun _ => none, [], []⟩

/-- A run `a`, a run `b`, and then `a` ends. -/
def twoRuns : List Event :=
  [.agentRun [("task_id", .str "a")] fun _ => 0, .agentRun [("task_id", .str "b")] fun _ => 0,
    .ended 0 (.exited 0) fun _ => 1]

theorem owned_twoRuns :
    (∃ w, Run (Step plainServer) World.empty twoRuns w) ∧ Owned plainServer World.empty twoRuns := by
  refine ⟨⟨_, .cons .agentRun (.cons .agentRun (.one (.ended List.mem_cons_self rfl)))⟩, ?_⟩
  refine owned_of_fresh ⟨rfl, rfl, rfl⟩ ?_
  refine atEach_cons.mpr ⟨⟨rfl, fun sub hsub => nomatch hsub⟩, fun w₁ h₁ => ?_⟩
  cases h₁
  refine atEach_cons.mpr ⟨⟨?_, ?_⟩, fun w₂ h₂ => ?_⟩
  · have hne : runId plainServer 0 [("task_id", .str "b")] ≠ runId plainServer 0 [("task_id", .str "a")] := by decide
    exact (lookup_taskSet_ne _ hne).trans rfl
  · intro sub hsub _
    obtain rfl := List.mem_singleton.mp hsub
    unfold Apart
    decide
  · exact atEach_cons.mpr ⟨trivial, fun _ _ => atEach_nil⟩

/-- Two `/agent/run` requests without an id in the same second get one id. -/
theorem not_owned : ¬ ∀ (S : Server String) (w : World String) (es : List Event), w.Start → Owned S w es := by
  intro h
  have howned := h plainServer World.empty [.agentRun [] fun _ => 0, .agentRun [] fun _ => 0] ⟨rfl, rfl, rfl⟩
  have hlast := howned [.agentRun [] fun _ => 0] (.agentRun [] fun _ => 0) [] _ rfl (.one .agentRun) _ .agentRun
  exact absurd hlast.1 (by simp [agentRun, World.jobSet, World.writeText, World.empty])

end Persona.Api.Jobs
