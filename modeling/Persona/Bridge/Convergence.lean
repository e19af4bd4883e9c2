import Persona.Bridge.Card
import Persona.Lib.Run

/-!
# Mirroring a card that goes on changing

The mirror loop looks only at rows whose status is open (`delegated` or `running`), and
the status it writes is that of the card's settled column, or else of its latest run. So
the first tick that sees the card *closing* (its status is neither missing nor `running`)
writes that status and is the last one to look: a crashed or timed-out run that Hermes
retries, or a blocked card that is unblocked, leaves the row closed for good.

`Card` is the card as Hermes has it, `Step` the card's changes and the bridge's ticks in
any order, and `row_converges_iff` says exactly when the row ends in agreement with a
card that has settled.
-/

namespace Persona.Bridge

open Persona.Lib Persona.TaskBoard

/-! ### Cards -/

/-- A run of a card. -/
structure HermesRun where
  /-- `outcome`, once there is one. -/
  outcome : Option String
  /-- `summary`. -/
  summary : Option String
  /-- `error`. -/
  error : Option String
  /-- `metadata`: an object, or a text. -/
  metadata : Json
  /-- `ended_at`, in seconds. -/
  endedAt : Option ℤ

/-- A Hermes card. -/
structure Card where
  /-- The column it is in. -/
  column : String
  /-- `latest_summary`. -/
  latestSummary : Option String
  /-- Its runs, oldest first. -/
  runs : List HermesRun

/-- A text or `None`. -/
def optStr (s : Option String) : Json := (s.map .str).getD .null

/-- A run in the `show` payload. -/
def HermesRun.items (r : HermesRun) : List (String × Json) :=
  [("outcome", optStr r.outcome), ("summary", optStr r.summary), ("error", optStr r.error),
    ("metadata", r.metadata), ("ended_at", (r.endedAt.map .int).getD .null)]

/-- What `hermes kanban show --json` says of a card. -/
def Card.payload (c : Card) : List (String × Json) :=
  [("task", .obj [("status", .str c.column)]), ("latest_summary", optStr c.latestSummary),
    ("runs", .arr (c.runs.map fun r => .obj r.items))]

/-- The status of a column. -/
def columnStatus (column : String) : Option Status := (columnMap.lookup (PyText.lower (PyText.strip column))).join

/-- The status of a run's outcome. -/
def outcomeStatus (outcome : String) : Option Status :=
  (statusMap.lookup (PyText.lower (PyText.strip outcome))).join

/-- The status of a card: its column's when it is settled, else its latest run's, else
its column's. -/
def Card.status (c : Card) : Option Status :=
  let col := PyText.lower (PyText.strip c.column)
  if col ∈ settled then columnStatus col
  else ((c.runs.getLast?.bind (·.outcome)).bind outcomeStatus).or (columnStatus col)

variable {P : Python} {c : Card}

theorem mapHermesColumn_str (column : String) : mapHermesColumn P (.str column) = columnStatus column := by
  rw [mapHermesColumn, columnStatus, normalize]
  by_cases h : column = ""
  · subst h; rfl
  · simp [Json.truthy, h]

theorem mapHermesStatus_optStr (outcome : Option String) :
    mapHermesStatus P (optStr outcome) = outcome.bind outcomeStatus := by
  rw [mapHermesStatus, normalize]
  cases outcome with
  | none => rfl
  | some s =>
    by_cases h : s = ""
    · subst h; rfl
    · simp [optStr, Json.truthy, h, outcomeStatus]

theorem latestRun_payload (c : Card) : latestRun c.payload = (c.runs.getLast?.map HermesRun.items).getD [] := by
  have hruns : runsOf c.payload = c.runs.map fun r => .obj r.items := rfl
  rw [latestRun, hruns, List.getLast?_map]
  cases c.runs.getLast? <;> rfl

/-- The status derived from the payload is the card's. -/
theorem deriveStatus_payload (P : Python) (c : Card) : deriveStatus P c.payload = c.status := by
  have hcol : normalize P ((Json.get (taskOf c.payload) "status").or (.str "")) =
      PyText.lower (PyText.strip c.column) := by
    show normalize P ((Json.str c.column).or (.str "")) = _
    rw [Json.or]
    by_cases h : c.column = "" <;> simp [Json.truthy, h, normalize]
  have hout : Json.get (latestRun c.payload) "outcome" = optStr (c.runs.getLast?.bind (·.outcome)) := by
    rw [latestRun_payload]
    cases c.runs.getLast? <;> rfl
  rw [deriveStatus, Card.status]
  simp only [hcol, hout, mapHermesColumn_str, mapHermesStatus_optStr]

theorem normalize_settled : ∀ column ∈ settled, PyText.lower (PyText.strip column) = column := by decide

/-- The status of a settled column is a closed one. -/
theorem columnStatus_settled {column : String} (h : column ∈ settled) :
    ∃ st, columnStatus column = some st ∧ st.text ∉ openStatuses := by
  simp only [settled, List.mem_cons, List.not_mem_nil, or_false] at h
  rcases h with rfl | rfl | rfl
  · exact ⟨.blocked, by decide, by decide⟩
  · exact ⟨.ok, by decide, by decide⟩
  · exact ⟨.ok, by decide, by decide⟩

/-- A settled card has its column's status. -/
theorem status_of_settled (h : c.column ∈ settled) : c.status = columnStatus c.column := by
  rw [Card.status]
  rw [normalize_settled _ h]
  exact if_pos h

/-- A card's payload makes a patch. -/
theorem deriveUpdate_payload (P : Python) (now : ℤ) (c : Card) :
    ∃ patch, deriveUpdate P now c.payload = some patch := by
  have hts : ∃ t, finishedTs P now (latestRun c.payload) = some t := by
    rw [latestRun_payload]
    cases c.runs.getLast? with
    | none => exact ⟨now, rfl⟩
    | some r =>
      have hget : Json.get r.items "ended_at" = (r.endedAt.map .int).getD .null := rfl
      show ∃ t, finishedTs P now r.items = some t
      rw [finishedTs]
      rw [hget]
      cases r.endedAt with
      | none => exact ⟨now, rfl⟩
      | some n => exact ⟨n, rfl⟩
  obtain ⟨t, ht⟩ := hts
  unfold deriveUpdate
  dsimp only
  rw [ht]
  cases deriveStatus P c.payload with
  | none => exact ⟨_, rfl⟩
  | some st => cases st <;> exact ⟨_, rfl⟩

/-! ### One tick -/

/-- Row `j` holds the card `tid` and has the status `text`. -/
def RowIs (b : Board) (j : String) (tid : Json) (text : String) : Prop :=
  ∃ r, b.lookup j = some r ∧ getKey r.state "hermes_task_id" = tid ∧ getKey r.state "status" = .str text ∧
    r.status = some text

/-- The status a row has after a tick has shown its card. -/
def nextStatus (text : String) (c : Card) : String :=
  if text ∈ openStatuses then ((c.status.map Status.text).getD text) else text

variable {H : Host} {b : Board} {j : String} {tid : Json} {text : String}

theorem RowIs.columnOf_eq (h : RowIs b j tid text) : columnOf b j = some text := by
  obtain ⟨r, hr, -, -, hc⟩ := h
  rw [columnOf, hr]
  exact hc

theorem RowIs.tidOf_eq (h : RowIs b j tid text) : tidOf b j = tid := by
  obtain ⟨r, hr, ht, -, -⟩ := h
  obtain ⟨full, hf⟩ : ∃ full, taskGet j b = some full := by rw [taskGet, hr]; exact ⟨_, rfl⟩
  rw [tidOf, fullOf, hf, Option.getD_some, ← ht]
  exact getKey_taskGet hr hf (by decide) (by decide) (by decide)

theorem RowIs.congr {b' : Board} (h : RowIs b j tid text) (he : b'.lookup j = b.lookup j) :
    RowIs b' j tid text := by
  obtain ⟨r, hr, hrest⟩ := h
  exact ⟨r, he.trans hr, hrest⟩

/-- A patch that leaves the card alone and may set the status. -/
theorem RowIs.set {now : ℤ} {patch : Dict} {status : Option Status} (h : RowIs b j tid text)
    (htid : "hermes_task_id" ∉ patch) (hst : patch.lookup "status" = status.map fun st => .str st.text) :
    RowIs (taskSet P now j patch b) j tid ((status.map Status.text).getD text) := by
  obtain ⟨r, hr, ht, hs, hc⟩ := h
  have hst' : getKey (merged (some r) patch) "status" = .str ((status.map Status.text).getD text) := by
    unfold getKey at hs ⊢
    rw [merged, lookup_update, hst]
    cases status with
    | none => exact hs
    | some st => rfl
  refine ⟨_, lookup_taskSet P now j patch b, ?_, ?_, ?_⟩
  · rw [hr, ← ht]
    unfold getKey
    rw [merged, lookup_update_of_notMem htid]
  · rw [hr]
    exact hst'
  · simp only [statusOf, hr, hst', Json.isNull, Bool.false_eq_true, if_false, Python.toStr_str]

/-- The tick fetches the card: its `show` returns the card's payload, and the tick makes
the call unless the row is closed. -/
structure Fetches (H : Host) (b : Board) (j : String) (tid : Json) (c : Card) : Prop where
  /-- The command line's answer. -/
  answer : ∃ out err, H.runner j (showArgs H tid) = .ok (0, out, err) ∧
    loadsLenient H.toPython out = some (.obj c.payload)
  /-- The call is made. -/
  made : mirrored b j = true → (j, showArgs H tid) ∈ (tick H ⟨b, []⟩).2.calls

/-- What the mirror loop does to a row whose card was fetched. -/
theorem rowIs_mirrorCard {full : Dict} {t : St} (h : RowIs t.board j tid text) (hf : Fetches H b j tid c) :
    RowIs (mirrorCard H j full tid t).2.board j tid ((c.status.map Status.text).getD text) := by
  obtain ⟨out, err, hrun, hload⟩ := hf.answer
  obtain ⟨patch, hpatch⟩ := deriveUpdate_payload H.toPython (H.time j 3) c
  have hshown : shownPatch H j full tid = .ok (mirrorPatch (H.time j 4) full patch) := by
    have hfetch : fetchTask H (0, out, err) = some c.payload := by simp [fetchTask, hload]
    have hne : c.payload ≠ [] := List.cons_ne_nil _ _
    rw [shownPatch]
    rw [hrun]
    show cardPatch H j full (0, out, err) = _
    exact cardPatch_eq hne hfetch hpatch
  have hst : (mirrorPatch (H.time j 4) full patch).lookup "status" = c.status.map fun st => .str st.text := by
    have hne : "status" ≠ "started_at" := by decide
    rw [lookup_mirrorPatch hne, lookup_status_deriveUpdate hpatch, deriveStatus_payload]
  have htid : "hermes_task_id" ∉ mirrorPatch (H.time j 4) full patch := tid_notMem_mirrorPatch hpatch
  rw [mirrorCard]
  rw [hshown]
  dsimp only
  split_ifs with hempty
  · -- an empty patch has no status, so neither has the card
    have : c.status = none := by
      rw [List.isEmpty_iff] at hempty
      rw [AList.lookup, hempty] at hst
      simpa using hst.symm
    rw [this]
    exact h
  · exact h.set htid hst

/-- **A tick that fetches the card** moves the row's status as `nextStatus` says. -/
theorem rowIs_tick (htid : tid.truthy = true) (h : RowIs b j tid text) (hf : Fetches H b j tid c) :
    RowIs (tick H ⟨b, []⟩).2.board j tid (nextStatus text c) := by
  have hp : pending b j = false := by simp [pending, h.tidOf_eq, htid]
  rw [nextStatus]
  split_ifs with hopen
  · have hm : mirrored b j = true := by
      rw [mirrored, h.columnOf_eq, h.tidOf_eq, htid, Bool.and_true, decide_eq_true_eq]
      exact List.mem_map_of_mem hopen
    obtain ⟨t, ht, heq⟩ := tick_lookup_open hm (hf.made hm)
    rw [h.tidOf_eq] at heq
    exact (rowIs_mirrorCard (h.congr ht) hf).congr heq
  · have hm : mirrored b j = false := by
      rw [mirrored, h.columnOf_eq, Bool.and_eq_false_iff, decide_eq_false_iff_not]
      exact .inl fun hmem => hopen (by simpa using hmem)
    exact h.congr (tick_lookup_closed hp hm)

/-! ### Runs -/

/-- A card and the Task Board. -/
structure Sys where
  card : Card
  board : Board

/-- What happens: Hermes moves the card on, the bridge ticks, or someone writes to other
rows of the board. -/
inductive Ev where
  | change (c : Card)
  | tick (H : Host)
  | other (b : Board)

inductive Step (j : String) (tid : Json) : Sys → Ev → Sys → Prop
  | change (s : Sys) (c : Card) : Step j tid s (.change c) ⟨c, s.board⟩
  | tick (s : Sys) (H : Host) (hf : Fetches H s.board j tid s.card) :
      Step j tid s (.tick H) ⟨s.card, (tick H ⟨s.board, []⟩).2.board⟩
  | other (s : Sys) (b : Board) (h : b.lookup j = s.board.lookup j) : Step j tid s (.other b) ⟨s.card, b⟩

/-- The cards the ticks see, in order. -/
def fetched : Card → List Ev → List Card
  | _, [] => []
  | _, .change c :: es => fetched c es
  | c, .tick _ :: es => c :: fetched c es
  | c, .other _ :: es => fetched c es

/-- A card whose status ends the mirroring. -/
def closes (c : Card) : Bool := c.status.any fun st => st.text ∉ openStatuses

variable {s m s' : Sys} {es es₁ es₂ : List Ev}

/-- A run moves the row through the cards the ticks see. -/
theorem rowIs_run (htid : tid.truthy = true) (hrun : Run (Step j tid) s es s') (h : RowIs s.board j tid text) :
    RowIs s'.board j tid ((fetched s.card es).foldl nextStatus text) := by
  induction hrun generalizing text with
  | nil => exact h
  | cons hstep _ ih =>
    cases hstep with
    | change c => exact ih h
    | tick H hf => exact ih (rowIs_tick htid h hf)
    | other b hb => exact ih (h.congr hb)

theorem foldl_nextStatus_closed (h : text ∉ openStatuses) (cards : List Card) :
    cards.foldl nextStatus text = text := by
  induction cards with
  | nil => rfl
  | cons c cards ih => rw [List.foldl_cons, nextStatus, if_neg h, ih]

/-- The first card that closes an open row decides its status. -/
theorem foldl_nextStatus (h : text ∈ openStatuses) {cards : List Card} (hc : cards.find? closes = some c) :
    ∃ st, c.status = some st ∧ cards.foldl nextStatus text = st.text := by
  induction cards generalizing text with
  | nil => cases hc
  | cons d cards ih =>
    rw [List.foldl_cons, nextStatus, if_pos h]
    by_cases hd : closes d = true
    · rw [List.find?_cons_of_pos hd, Option.some.injEq] at hc
      subst hc
      unfold closes at hd
      cases hst : d.status with
      | none => rw [hst] at hd; cases hd
      | some st =>
        rw [hst] at hd
        exact ⟨st, rfl, foldl_nextStatus_closed (by simpa using hd) cards⟩
    · rw [List.find?_cons_of_neg hd] at hc
      refine ih ?_ hc
      unfold closes at hd
      cases hst : d.status with
      | none => exact h
      | some st => rw [hst] at hd; simpa using hd

/-- A card in a settled column closes the row. -/
theorem closes_of_settled (h : c.column ∈ settled) : closes c = true := by
  obtain ⟨st, hst, hclosed⟩ := columnStatus_settled h
  rw [closes, status_of_settled h, hst]
  simpa using hclosed

/-- The last card of a run. -/
theorem fetched_append (hrun : Run (Step j tid) s es₁ m) (es₂ : List Ev) :
    fetched s.card (es₁ ++ es₂) = fetched s.card es₁ ++ fetched m.card es₂ := by
  induction hrun with
  | nil => rfl
  | cons hstep _ ih =>
    cases hstep with
    | change c => exact ih
    | tick H hf => exact congrArg (_ :: ·) ih
    | other b hb => exact ih

theorem column_of_keep {column : String} (hrun : Run (Step j tid) m es s') (hm : m.card.column = column)
    (hkeep : ∀ c, Ev.change c ∈ es → c.column = column) : s'.card.column = column := by
  induction hrun with
  | nil => exact hm
  | cons hstep _ ih =>
    have htail := fun c hc => hkeep c (List.mem_cons_of_mem _ hc)
    cases hstep with
    | change c => exact ih (hkeep c List.mem_cons_self) htail
    | tick H hf => exact ih hm htail
    | other b hb => exact ih hm htail

/-- Row `j`, bound to the card `tid`, converges to it: if it is open at first, and from
some point on the card stays in a settled column, with a tick after that, then the row
ends with the column's status. -/
def Converges (j : String) (tid : Json) : Prop :=
  ∀ {P : Python} {text : String} {s m s' : Sys} {es₁ es₂ : List Ev} {H : Host}, text ∈ openStatuses →
    RowIs s.board j tid text → Run (Step j tid) s es₁ m → Run (Step j tid) m (.tick H :: es₂) s' →
    m.card.column ∈ settled → (∀ c, Ev.change c ∈ es₂ → c.column = m.card.column) →
    columnOf s'.board j = (mapHermesColumn P (.str s'.card.column)).map Status.text

/-- **When the row agrees with a card that has settled.** The row is open when its card
is bound, and from some point on the card stays in a settled column, with a tick after
that. The row then has the column's status exactly when the first closing card that any
tick saw has it. -/
theorem row_converges_iff (P : Python) (htid : tid.truthy = true) (hopen : text ∈ openStatuses)
    (h₀ : RowIs s.board j tid text) (h₁ : Run (Step j tid) s es₁ m)
    (h₂ : Run (Step j tid) m (.tick H :: es₂) s') (hset : m.card.column ∈ settled)
    (hkeep : ∀ c, Ev.change c ∈ es₂ → c.column = m.card.column) :
    columnOf s'.board j = (mapHermesColumn P (.str s'.card.column)).map Status.text ↔
      ((fetched s.card (es₁ ++ .tick H :: es₂)).find? closes).bind Card.status =
        mapHermesColumn P (.str s'.card.column) := by
  have hcol : s'.card.column = m.card.column := column_of_keep h₂ rfl fun c hc => hkeep c (by simpa using hc)
  have hrow := (rowIs_run htid (h₁.append h₂) h₀).columnOf_eq
  have hmem : m.card ∈ fetched s.card (es₁ ++ .tick H :: es₂) := by
    rw [fetched_append h₁]
    exact List.mem_append_right _ List.mem_cons_self
  obtain ⟨c, hc⟩ : ∃ c, (fetched s.card (es₁ ++ .tick H :: es₂)).find? closes = some c :=
    Option.isSome_iff_exists.mp (List.find?_isSome.mpr ⟨m.card, hmem, closes_of_settled hset⟩)
  obtain ⟨st, hst, hfold⟩ := foldl_nextStatus hopen hc
  obtain ⟨st', hst', -⟩ := columnStatus_settled hset
  rw [hrow, hfold, hc, Option.bind_some, hst, mapHermesColumn_str, hcol, hst', Option.map_some,
    Option.some.injEq, Option.some.injEq]
  exact Status.text_injective.eq_iff

/-! ### A run that is retried -/

/-- A card whose first run has crashed: Hermes will retry it. -/
def crashedCard : Card :=
  ⟨"running", none, [⟨some "crashed", none, some "worker died", .null, some 10⟩]⟩

/-- The same card after the retry. -/
def retriedCard : Card :=
  ⟨"done", some "all good", crashedCard.runs ++ [⟨some "completed", some "all good", none, .null, some 20⟩]⟩

/-- A board with one delegated row, whose card is `c1`. -/
def oneCard : Board :=
  (∅ : Board).insert "a"
    ⟨some "delegated", (item "status" (.str "delegated")).insert "hermes_task_id" (.str "c1"), 1, 1⟩

/-- A host whose command line shows the card `c`, as a text with the given items. -/
def showing (items : String) (c : Card) : Host where
  toPython := .ofTable [("\x7b" ++ items ++ "\x7d", .obj c.payload)]
  cli := "hermes"
  board := ""
  tenant := "persona"
  runner _ _ := .ok (0, "\x7b" ++ items ++ "\x7d", "")
  time _ _ := 30

/-- The crashed card as `show --json` prints it, without the braces. -/
def crashedItems : String :=
  "\"task\": \x7b\"status\": \"running\"\x7d, \"latest_summary\": null, \"runs\": [\x7b\"outcome\": \"crashed\", \"summary\": null, \"error\": \"worker died\", \"metadata\": null, \"ended_at\": 10\x7d]"

/-- The card after its retry as `show --json` prints it, without the braces. -/
def retriedItems : String :=
  "\"task\": \x7b\"status\": \"done\"\x7d, \"latest_summary\": \"all good\", \"runs\": [\x7b\"outcome\": \"crashed\", \"summary\": null, \"error\": \"worker died\", \"metadata\": null, \"ended_at\": 10\x7d, \x7b\"outcome\": \"completed\", \"summary\": \"all good\", \"error\": null, \"metadata\": null, \"ended_at\": 20\x7d]"

theorem rowIs_oneCard : RowIs oneCard "a" (.str "c1") "delegated" :=
  ⟨_, AList.lookup_insert _, rfl, rfl, rfl⟩

/-- The host's answer is read as the card. -/
theorem answer_showing (items : String) (c : Card) (j : String) (args : List Json) :
    ∃ out err, (showing items c).runner j args = .ok (0, out, err) ∧
      loadsLenient (showing items c).toPython out = some (.obj c.payload) := by
  refine ⟨"\x7b" ++ items ++ "\x7d", "", rfl, ?_⟩
  have hne : "\x7b" ++ items ++ "\x7d" ≠ "" := by simp
  have hload : (showing items c).loads ("\x7b" ++ items ++ "\x7d") = some (.obj c.payload) := List.lookup_cons_self ..
  rw [loadsLenient]
  simp only [PyText.strip_braces, if_neg hne, hload]
  rfl

/-- The only row's card is shown. -/
theorem made_showing {items : String} (hm : mirrored oneCard "a" = true) :
    ("a", showArgs (showing items c) (.str "c1")) ∈ (tick (showing items c) ⟨oneCard, []⟩).2.calls := by
  have henq : enqueueDelegated (showing items c) scanLimit ⟨oneCard, []⟩ = (.ok [], ⟨oneCard, []⟩) := rfl
  have hlist : taskList scanLimit oneCard = [⟨"a", some "delegated", 1, 1⟩] := rfl
  have htick : (tick (showing items c) ⟨oneCard, []⟩).2 =
      (mirrorOutcomes (showing items c) scanLimit ⟨oneCard, []⟩).2 := by
    rw [tick]
    rw [henq]
    dsimp only
    rcases mirrorOutcomes (showing items c) scanLimit ⟨oneCard, []⟩ with ⟨_ | updated, t⟩ <;> rfl
  rw [htick, calls_mirrorOutcomes, hlist, visited]
  simp only [List.flatMap_cons, if_pos hm, rowIs_oneCard.tidOf_eq]
  exact List.mem_cons_self

theorem fetches_crashed : Fetches (showing crashedItems crashedCard) oneCard "a" (.str "c1") crashedCard where
  answer := answer_showing crashedItems crashedCard "a" _
  made := made_showing

/-- A card that closes its row may change, and a tick after that need not show it. -/
theorem run_reopened {c' : Card} {H' : Host} (htid : tid.truthy = true) (h : RowIs b j tid text)
    (hf : Fetches H b j tid c) (hclosed : nextStatus text c ∉ openStatuses)
    (hans : ∃ out err, H'.runner j (showArgs H' tid) = .ok (0, out, err) ∧
      loadsLenient H'.toPython out = some (.obj c'.payload)) :
    ∃ m s' : Sys, Run (Step j tid) ⟨c, b⟩ [.tick H, .change c'] m ∧ Run (Step j tid) m [.tick H'] s' ∧
      m.card = c' ∧ s'.card = c' := by
  have hrow := rowIs_tick htid h hf
  refine ⟨_, _, .cons (.tick _ H hf) (.one (.change _ c')), .one (.tick _ H' ⟨hans, fun hm => ?_⟩), rfl, rfl⟩
  -- the row is closed, so no call is asked for
  rw [mirrored, hrow.columnOf_eq, Bool.and_eq_true, decide_eq_true_eq] at hm
  exact absurd (by simpa using hm.1) hclosed

/-- The run in which a tick sees the card between its crash and its retry. -/
theorem run_crashSeen : ∃ m s' : Sys,
    Run (Step "a" (.str "c1")) ⟨crashedCard, oneCard⟩
      [.tick (showing crashedItems crashedCard), .change retriedCard] m ∧
    Run (Step "a" (.str "c1")) m [.tick (showing retriedItems retriedCard)] s' ∧
      m.card = retriedCard ∧ s'.card = retriedCard := by
  have hclosed : nextStatus "delegated" crashedCard ∉ openStatuses := by decide
  exact run_reopened rfl rowIs_oneCard fetches_crashed hclosed (answer_showing retriedItems retriedCard "a" _)

theorem row_converges_iff_crashSeen : ∃ m s' : Sys, m.card = retriedCard ∧
    (columnOf s'.board "a" = (mapHermesColumn (.ofTable []) (.str s'.card.column)).map Status.text ↔
      ((fetched crashedCard [.tick (showing crashedItems crashedCard), .change retriedCard,
        .tick (showing retriedItems retriedCard)]).find? closes).bind Card.status =
          mapHermesColumn (.ofTable []) (.str s'.card.column)) := by
  obtain ⟨m, s', h₁, h₂, hm, -⟩ := run_crashSeen
  have hset : m.card.column ∈ settled := by rw [hm]; decide
  exact ⟨m, s', hm, row_converges_iff (.ofTable []) rfl (by decide) rowIs_oneCard h₁ h₂ hset (by simp)⟩

/-- When a tick sees the crashed run, the row stays `error` although the retry is done. -/
theorem row_not_converges : ¬ Converges "a" (.str "c1") := by
  intro h
  obtain ⟨m, s', h₁, h₂, hm, hs'⟩ := run_crashSeen
  have hrow := rowIs_run rfl (h₁.append h₂) rowIs_oneCard
  have hfold : (fetched crashedCard ([Ev.tick (showing crashedItems crashedCard), .change retriedCard] ++
      [.tick (showing retriedItems retriedCard)])).foldl nextStatus "delegated" = "error" := by decide
  rw [hfold] at hrow
  have hset : m.card.column ∈ settled := by rw [hm]; decide
  have heq := h (P := .ofTable []) (by decide) rowIs_oneCard h₁ h₂ hset (by simp)
  rw [hrow.columnOf_eq, hs', mapHermesColumn_str] at heq
  exact absurd heq (by decide)

end Persona.Bridge
