import Persona.Bridge.Card
import Persona.Lib.Run
import Mathlib.Data.Set.Finite.Lattice

/-!
# One card per job

`create_card` makes two writes to two databases: the command line creates the card, and
then the row gets the card's id. Here its steps are taken apart: the intent mark, the
command line, the record. The bridge may stop between any two of them and start again,
other programs write to the board in between, and the command line may create a card and
still fail, time out or answer with no id. The mark (`delegate_inflight`) is written and
never read, so a row whose card was not recorded is taken for one that has none:
`another_card` makes a second card for it. When no card is lost in this way, there is at
most one for each job, and no two rows hold the same one (`oneCard_run`).
-/

namespace Persona.Bridge.Creation

open Persona.Lib Persona.TaskBoard

/-! ### The system -/

/-- A card that the command line has created. -/
structure Posted where
  /-- Its id. -/
  id : Json
  /-- Its body. -/
  body : String

/-- The first line of a body that refers back to the job. -/
def backref (jobId : String) : String := backrefPrefix ++ " " ++ jobId

/-- The card refers back to the job. -/
def Posted.Carries (c : Posted) (jobId : String) : Prop := PyText.firstLine c.body = backref jobId

instance (c : Posted) (jobId : String) : Decidable (c.Carries jobId) := inferInstanceAs (Decidable (_ = _))

/-- The body a command line asks for, after `--body`. -/
def bodyOf (args : List Json) : String :=
  match args[11]? with
  | some (Json.str body) => body
  | _ => ""

/-- Where the bridge process is. -/
inductive Proc where
  /-- It does not run. -/
  | down
  /-- Between two ticks. -/
  | idle
  /-- In the enqueue loop, with these rows to come. -/
  | enqueue (rows : List Listed)
  /-- `create_card` is called for a row. -/
  | create (jobId : String) (full : Dict) (rows : List Listed)
  /-- The intent is marked. -/
  | marked (jobId : String) (full : Dict) (rows : List Listed)
  /-- The command line has returned. -/
  | answered (jobId : String) (answer : ℤ × String × String) (rows : List Listed)
  /-- In the mirror loop, with these rows to come. -/
  | mirror (rows : List Listed)
  /-- A row's card was shown, and makes a patch. -/
  | patched (jobId : String) (patch : Dict) (rows : List Listed)

/-- The Task Board, the cards and the bridge. -/
structure Sys where
  board : Board
  cards : List Posted
  proc : Proc

/-- Nothing yet. -/
def Sys.init : Sys := ⟨∅, [], .down⟩

variable (H : Host)

/-- The id in an answer of `create`, if it is one that `create_card` records. -/
def createdId : ℤ × String × String → Option Json
  | (rc, out, _) =>
    if rc = 0 ∧ (parseCreatedId H.toPython out).truthy then some (parseCreatedId H.toPython out) else none

/-- Where the enqueue loop goes from a row. -/
def visit (b : Board) (row : Listed) (rows : List Listed) : Proc :=
  if row.status ≠ some Status.delegated.text then .enqueue rows
  else if (tidOf b row.jobId).truthy then .enqueue rows
  else .create row.jobId (fullOf b row.jobId) rows

/-- Where the bridge goes when the command line has returned, or raised. -/
def afterCreate (jobId : String) (rows : List Listed) : Except Raised (ℤ × String × String) → Proc
  | .error _ => .down
  | .ok answer => .answered jobId answer rows

/-- Where the mirror loop goes when a card was shown, or the row has raised. -/
def afterShow (jobId : String) (rows : List Listed) : Except Raised Dict → Proc
  | .error _ => .down
  | .ok patch => if patch.entries.isEmpty then .mirror rows else .patched jobId patch rows

/-- Where the mirror loop goes from a row. -/
def look (b : Board) (row : Listed) (rows : List Listed) : Proc :=
  if row.status ∉ openStatuses.map some then .mirror rows
  else if (tidOf b row.jobId).truthy then
    afterShow row.jobId rows (shownPatch H row.jobId (fullOf b row.jobId) (tidOf b row.jobId))
  else .mirror rows

/-- What happens. -/
inductive Ev where
  /-- Another program calls `task_set`. -/
  | set (now : ℤ) (jobId : String) (patch : Dict)
  /-- The bridge stops. -/
  | stop
  /-- The bridge starts. -/
  | start
  /-- A tick begins: the enqueue loop lists its rows. -/
  | tick
  /-- The enqueue loop reads a row. -/
  | visit
  /-- `create_card` marks its intent. -/
  | mark (time now : ℤ)
  /-- The priority is no integer. -/
  | refuse
  /-- The command line runs: the id of the card it has made, if any, and what it answers. -/
  | create (made : Option Json) (answer : Except Raised (ℤ × String × String))
  /-- `create_card` records the answer. -/
  | record (now : ℤ)
  /-- The mirror loop lists its rows. -/
  | mirror
  /-- The mirror loop reads a row and shows its card. -/
  | look (runner : String → List Json → Except Raised (ℤ × String × String)) (time : String → ℕ → ℤ)
  /-- The mirror loop writes a row. -/
  | merge (now : ℤ)
  /-- The tick is over. -/
  | rest

/-- The steps. No other program writes `hermes_task_id`. A card's id is fresh, and an
answer that holds an id holds that of the card just made. -/
inductive Step : Sys → Ev → Sys → Prop
  | set {s : Sys} {now : ℤ} {jobId : String} {patch : Dict} (h : "hermes_task_id" ∉ patch) :
      Step s (.set now jobId patch) { s with board := taskSet H.toPython now jobId patch s.board }
  | stop {s : Sys} : Step s .stop { s with proc := .down }
  | start {s : Sys} (h : s.proc = .down) : Step s .start { s with proc := .idle }
  | tick {s : Sys} (h : s.proc = .idle) :
      Step s .tick { s with proc := .enqueue (taskList scanLimit s.board) }
  | visit {s : Sys} {row : Listed} {rows : List Listed} (h : s.proc = .enqueue (row :: rows)) :
      Step s .visit { s with proc := visit s.board row rows }
  | mark {s : Sys} {jobId : String} {full : Dict} {rows : List Listed} {time now : ℤ}
      (h : s.proc = .create jobId full rows) :
      Step s (.mark time now)
        { s with board := taskSet H.toPython now jobId (inflightPatch time) s.board, proc := .marked jobId full rows }
  | refuse {s : Sys} {jobId : String} {full : Dict} {rows : List Listed} {e : Raised}
      (h : s.proc = .marked jobId full rows) (hargs : buildCreateArgs H jobId full = .error e) :
      Step s .refuse { s with proc := .down }
  | create {s : Sys} {jobId : String} {full : Dict} {rows : List Listed} {args : List Json} (made : Option Json)
      (answer : Except Raised (ℤ × String × String)) (h : s.proc = .marked jobId full rows)
      (hargs : buildCreateArgs H jobId full = .ok args) (hfresh : ∀ id ∈ made, ∀ c ∈ s.cards, c.id ≠ id)
      (hid : ∀ a id, answer = .ok a → createdId H a = some id → made = some id) :
      Step s (.create made answer)
        { s with cards := s.cards ++ made.toList.map (⟨·, bodyOf args⟩), proc := afterCreate jobId rows answer }
  | record {s : Sys} {jobId : String} {answer : ℤ × String × String} {rows : List Listed} (now : ℤ)
      (h : s.proc = .answered jobId answer rows) :
      Step s (.record now)
        { s with board := taskSet H.toPython now jobId (createdPatch H answer).1 s.board, proc := .enqueue rows }
  | mirror {s : Sys} (h : s.proc = .enqueue []) :
      Step s .mirror { s with proc := .mirror (taskList scanLimit s.board) }
  | look {s : Sys} {row : Listed} {rows : List Listed}
      {runner : String → List Json → Except Raised (ℤ × String × String)} {time : String → ℕ → ℤ}
      (h : s.proc = .mirror (row :: rows)) :
      Step s (.look runner time)
        { s with proc := look { H with runner := runner, time := time } s.board row rows }
  | merge {s : Sys} {jobId : String} {patch : Dict} {rows : List Listed} (now : ℤ)
      (h : s.proc = .patched jobId patch rows) :
      Step s (.merge now) { s with board := taskSet H.toPython now jobId patch s.board, proc := .mirror rows }
  | rest {s : Sys} (h : s.proc = .mirror []) : Step s .rest { s with proc := .idle }

/-- One card per job: no job has two cards, and no card has two rows. -/
structure OneCard (s : Sys) : Prop where
  /-- At most one card refers back to a job. -/
  cards : ∀ j, (s.cards.filter (·.Carries j)).length ≤ 1
  /-- No two rows hold the same `hermes_task_id`. -/
  rows : ∀ j j', (tidOf s.board j).truthy = true → tidOf s.board j = tidOf s.board j' → j = j'


/-! ### A tick run alone -/

section Tick

variable {H} {β : Type} {b : Board} {cards : List Posted} {j : String} {row : Listed} {s : St}

variable (H) in
/-- The command line answers a create for the row with the id. -/
def Answers (j : String) (id : Json) : Prop :=
  ∃ state args a, buildCreateArgs H j state = .ok args ∧ H.runner j args = .ok a ∧ createdId H a = some id

/-- The system when a piece of a tick has returned, or raised. -/
def Sys.after (cards : List Posted) (p : Proc) : Except Raised β × St → Sys
  | (.ok _, s) => ⟨s.board, cards, p⟩
  | (.error _, s) => ⟨s.board, cards, .down⟩

/-- `create_card` is its steps, one after the other. -/
theorem createCard_run (s : St) (full : Dict) (rows : List Listed) (hfresh : ∀ id, Answers H j id → ∀ c ∈ cards, c.id ≠ id) :
    ∃ es cards', Run (Step H) ⟨s.board, cards, .create j full rows⟩ es
      (.after cards' (.enqueue rows) (createCard H j full s)) ∧ ∀ c ∈ cards', c ∈ cards ∨ Answers H j c.id := by
  have hmark : Step H ⟨s.board, cards, .create j full rows⟩ (.mark (H.time j 0) (H.time j 1))
      ⟨(s.set H 1 j (inflightPatch (H.time j 0))).board, cards, .marked j full rows⟩ := .mark rfl
  cases hargs : buildCreateArgs H j full with
  | error e =>
    rw [createCard, hargs]
    exact ⟨_, cards, .cons hmark (.one (.refuse rfl hargs)), fun c hc => .inl hc⟩
  | ok args =>
    cases hrun : H.runner j args with
    | error e =>
      simp only [createCard, hargs, hrun]
      refine ⟨_, _, .cons hmark (.one (.create none (.error e) rfl hargs ?_ ?_)), ?_⟩
      · intro id hid
        cases hid
      · intro a id ha
        cases ha
      · intro c hc
        exact .inl (by simpa using hc)
    | ok a =>
      have hans : ∀ id, createdId H a = some id → Answers H j id := fun id hid => ⟨full, args, a, hargs, hrun, hid⟩
      simp only [createCard, hargs, hrun]
      refine ⟨_, _, .cons hmark (.cons (.create (createdId H a) (.ok a) rfl hargs ?_ ?_)
        (.one (.record (H.time j 2) rfl))), ?_⟩
      · intro id hid
        exact hfresh id (hans id hid)
      · intro a' id ha
        cases ha
        exact fun hid => hid
      · intro c hc
        rcases List.mem_append.mp hc with hc | hc
        · exact .inl hc
        · simp only [List.mem_map, Option.mem_toList] at hc
          obtain ⟨id, hid, rfl⟩ := hc
          exact .inr (hans id hid)

/-- What is computed from a result does not change where the bridge is. -/
theorem Sys.after_map {γ : Type} (cards : List Posted) (p : Proc) (r : Except Raised β × St) (f : β → γ) :
    Sys.after cards p (r.1.map f, r.2) = Sys.after cards p r := by
  rcases r with ⟨_ | v, s⟩ <;> rfl

/-- The body of the enqueue loop is its steps. -/
theorem enqueueRow_run (s : St) (rows : List Listed) (hfresh : ∀ id, Answers H row.jobId id → ∀ c ∈ cards, c.id ≠ id) :
    ∃ es cards', Run (Step H) ⟨s.board, cards, .enqueue (row :: rows)⟩ es
      (.after cards' (.enqueue rows) (enqueueRow H row s)) ∧ ∀ c ∈ cards', c ∈ cards ∨ Answers H row.jobId c.id := by
  have hvisit : Step H ⟨s.board, cards, .enqueue (row :: rows)⟩ .visit ⟨s.board, cards, visit s.board row rows⟩ :=
    .visit rfl
  have hrow : enqueueRow H row s = if row.status ≠ some Status.delegated.text then (.ok none, s)
      else if (tidOf s.board row.jobId).truthy then (.ok none, s)
      else ((createCard H row.jobId (fullOf s.board row.jobId) s).1.map fun tid => tid.map fun _ => row.jobId,
        (createCard H row.jobId (fullOf s.board row.jobId) s).2) := rfl
  rw [visit] at hvisit
  rw [hrow]
  by_cases hst : row.status ≠ some Status.delegated.text
  · rw [if_pos hst] at hvisit ⊢
    exact ⟨_, cards, .one hvisit, fun c hc => .inl hc⟩
  by_cases ht : (tidOf s.board row.jobId).truthy = true
  · rw [if_neg hst, if_pos ht] at hvisit ⊢
    exact ⟨_, cards, .one hvisit, fun c hc => .inl hc⟩
  · rw [if_neg hst, if_neg ht] at hvisit ⊢
    obtain ⟨es, cards', hrun, hcards⟩ :=
      createCard_run s (fullOf s.board row.jobId) rows hfresh
    refine ⟨.visit :: es, cards', .cons hvisit ?_, hcards⟩
    rw [Sys.after_map]
    exact hrun

/-- The body of the mirror loop is its steps. -/
theorem mirrorRow_run (cards : List Posted) (row : Listed) (rows : List Listed) (s : St) :
    ∃ es, Run (Step H) ⟨s.board, cards, .mirror (row :: rows)⟩ es (.after cards (.mirror rows) (mirrorRow H row s)) := by
  have hlook : Step H ⟨s.board, cards, .mirror (row :: rows)⟩ (.look H.runner H.time)
      ⟨s.board, cards, look H s.board row rows⟩ := .look rfl
  have hrow : mirrorRow H row s = if row.status ∉ openStatuses.map some then (.ok none, s)
      else if (tidOf s.board row.jobId).truthy then
        mirrorCard H row.jobId (fullOf s.board row.jobId) (tidOf s.board row.jobId) s
      else (.ok none, s) := rfl
  rw [look] at hlook
  rw [hrow]
  by_cases hst : row.status ∉ openStatuses.map some
  · rw [if_pos hst] at hlook ⊢
    exact ⟨_, .one hlook⟩
  by_cases ht : (tidOf s.board row.jobId).truthy = true
  · rw [if_neg hst, if_pos ht] at hlook ⊢
    cases hpatch : shownPatch H row.jobId (fullOf s.board row.jobId) (tidOf s.board row.jobId) with
    | error e =>
      rw [hpatch] at hlook
      simp only [mirrorCard, hpatch]
      exact ⟨_, .one hlook⟩
    | ok patch =>
      simp only [hpatch, afterShow] at hlook
      simp only [mirrorCard, hpatch]
      by_cases hempty : patch.entries.isEmpty = true
      · rw [if_pos hempty] at hlook ⊢
        exact ⟨_, .one hlook⟩
      · rw [if_neg hempty] at hlook ⊢
        exact ⟨_, .cons hlook (.one (.merge (H.time row.jobId 5) rfl))⟩
  · rw [if_neg hst, if_neg ht] at hlook ⊢
    exact ⟨_, .one hlook⟩

variable (H) in
/-- The system in the enqueue loop, with these rows to come, whose ids will be fresh. -/
def EnqueueAt (rows : List Listed) (s : St) (x : Sys) : Prop :=
  ∃ cards, x = ⟨s.board, cards, .enqueue rows⟩ ∧ (rows.map Listed.jobId).Nodup ∧
    ∀ row ∈ rows, ∀ id, Answers H row.jobId id → ∀ c ∈ cards, c.id ≠ id

/-- The system when a row has raised. -/
def Ended (s : St) (x : Sys) : Prop := ∃ cards, x = ⟨s.board, cards, .down⟩

/-- The enqueue loop is its steps. -/
theorem enqueue_run {l : List Listed} (hnd : (l.map Listed.jobId).Nodup)
    (hfresh : ∀ j id, Answers H j id → ∀ c ∈ cards, c.id ≠ id)
    (hdiff : ∀ j j' id, Answers H j id → Answers H j' id → j = j') :
    ∃ es cards', Run (Step H) ⟨s.board, cards, .enqueue l⟩ es (.after cards' (.enqueue []) (scan (enqueueRow H) l s)) := by
  have hbody : ∀ row rows s x, EnqueueAt H (row :: rows) s x → ∃ es x', Run (Step H) x es x' ∧
      if (enqueueRow H row s).1.isOk then EnqueueAt H rows (enqueueRow H row s).2 x'
        else Ended (enqueueRow H row s).2 x' := by
    rintro row rows s x ⟨cards, rfl, hnd, hf⟩
    obtain ⟨es, cards', hrun, hcards⟩ := enqueueRow_run s rows (hf row List.mem_cons_self)
    refine ⟨es, _, hrun, ?_⟩
    rw [List.map_cons, List.nodup_cons] at hnd
    rcases enqueueRow H row s with ⟨_ | v, s'⟩
    · exact ⟨cards', rfl⟩
    · refine ⟨cards', rfl, hnd.2, fun r hr id hans c hc heq => ?_⟩
      rcases hcards c hc with hc | hc
      · exact hf r (List.mem_cons_of_mem _ hr) id hans c hc heq
      · -- the card made for this row has another id than the ones to come
        rw [heq] at hc
        rw [hdiff _ _ _ hc hans] at hnd
        exact hnd.1 (List.mem_map_of_mem hr)
  obtain ⟨es, x, hrun, hx⟩ := scan_run (s := s) hbody ⟨cards, rfl, hnd, fun r _ => hfresh r.jobId⟩
  refine ⟨es, ?_⟩
  generalize scan (enqueueRow H) l s = r at hx ⊢
  rcases r with ⟨_ | v, s'⟩
  · obtain ⟨cards', rfl⟩ := hx
    exact ⟨cards', hrun⟩
  · obtain ⟨cards', rfl, -⟩ := hx
    exact ⟨cards', hrun⟩

/-- The mirror loop is its steps. -/
theorem mirror_run (cards : List Posted) (s : St) (l : List Listed) :
    ∃ es, Run (Step H) ⟨s.board, cards, .mirror l⟩ es (.after cards (.mirror []) (scan (mirrorRow H) l s)) := by
  have hbody : ∀ row rows s x, x = Sys.mk s.board cards (.mirror (row :: rows)) → ∃ es x', Run (Step H) x es x' ∧
      if (mirrorRow H row s).1.isOk then x' = Sys.mk (mirrorRow H row s).2.board cards (.mirror rows)
        else x' = Sys.mk (mirrorRow H row s).2.board cards .down := by
    rintro row rows s x rfl
    obtain ⟨es, hrun⟩ := mirrorRow_run (H := H) cards row rows s
    refine ⟨es, _, hrun, ?_⟩
    rcases mirrorRow H row s with ⟨_ | v, s'⟩ <;> rfl
  obtain ⟨es, x, hrun, hx⟩ := scan_run (I := fun rows s x => x = Sys.mk s.board cards (.mirror rows))
    (E := fun s x => x = Sys.mk s.board cards .down) hbody (l := l) (s := s) rfl
  refine ⟨es, ?_⟩
  generalize scan (mirrorRow H) l s = r at hx ⊢
  rcases r with ⟨_ | v, s'⟩
  · obtain rfl : x = _ := hx
    exact hrun
  · obtain rfl : x = _ := hx
    exact hrun

/-- **A tick run alone** is a run of the steps, when the ids the command line answers
with are fresh and differ from row to row. -/
theorem tick_run (hfresh : ∀ j id, Answers H j id → ∀ c ∈ cards, c.id ≠ id)
    (hdiff : ∀ j j' id, Answers H j id → Answers H j' id → j = j') :
    ∃ es cards', Run (Step H) ⟨b, cards, .idle⟩ es (.after cards' .idle (tick H ⟨b, []⟩)) := by
  have htick : Step H ⟨b, cards, .idle⟩ .tick ⟨b, cards, .enqueue (taskList scanLimit b)⟩ := .tick rfl
  obtain ⟨es₁, cards₁, hrun₁⟩ := enqueue_run (s := ⟨b, []⟩) (nodup_taskList scanLimit b) hfresh hdiff
  rw [tick]
  rcases he : enqueueDelegated H scanLimit ⟨b, []⟩ with ⟨e | created, s₁⟩
  · rw [enqueueDelegated] at he
    rw [he] at hrun₁
    exact ⟨_, cards₁, .cons htick hrun₁⟩
  · have hmirror : Step H ⟨s₁.board, cards₁, .enqueue []⟩ .mirror
        ⟨s₁.board, cards₁, .mirror (taskList scanLimit s₁.board)⟩ := .mirror rfl
    obtain ⟨es₂, hrun₂⟩ := mirror_run (H := H) cards₁ s₁ (taskList scanLimit s₁.board)
    rw [enqueueDelegated] at he
    rw [he] at hrun₁
    dsimp only
    rcases hm : mirrorOutcomes H scanLimit s₁ with ⟨e | updated, s₂⟩
    · rw [mirrorOutcomes] at hm
      rw [hm] at hrun₂
      exact ⟨_, cards₁, .cons htick (hrun₁.append (.cons hmirror hrun₂))⟩
    · rw [mirrorOutcomes] at hm
      rw [hm] at hrun₂
      exact ⟨_, cards₁, .cons htick (hrun₁.append (.cons hmirror (hrun₂.snoc (.rest rfl))))⟩

end Tick

/-! ### What the writes leave -/

variable {H} {b b' : Board} {s s' : Sys} {j jobId : String} {patch : Dict} {now : ℤ}

/-- A row's `hermes_task_id` is its state's. -/
theorem tidOf_eq (b : Board) (j : String) :
    tidOf b j = getKey (((b.lookup j).map Row.state).getD ∅) "hermes_task_id" := by
  have hnone : getKey ∅ "hermes_task_id" = .null := rfl
  rw [tidOf, fullOf]
  cases hb : b.lookup j with
  | none => simp [taskGet, hb, hnone]
  | some r =>
    obtain ⟨full, hfull⟩ : ∃ full, taskGet j b = some full := by simp [taskGet, hb]
    rw [hfull]
    exact getKey_taskGet hb hfull (by decide) (by decide) (by decide)

/-- What a write makes of the row's `hermes_task_id`. -/
theorem tidOf_taskSet_self {P : Python} :
    tidOf (taskSet P now j patch b) j = ((patch.lookup "hermes_task_id").getD (tidOf b j)) := by
  rw [tidOf_eq, tidOf_eq, lookup_taskSet]
  simp only [Option.map_some, Option.getD_some, merged, getKey, lookup_update]
  cases patch.lookup "hermes_task_id" with
  | some v => rfl
  | none => cases b.lookup j <;> rfl

/-- A write to another row keeps a row's `hermes_task_id`. -/
theorem tidOf_taskSet_ne {P : Python} (h : j ≠ jobId) : tidOf (taskSet P now jobId patch b) j = tidOf b j := by
  rw [tidOf_eq, tidOf_eq, lookup_taskSet_ne P h]

/-- A write without the key keeps every row's `hermes_task_id`. -/
theorem tidOf_taskSet {P : Python} (h : "hermes_task_id" ∉ patch) (j : String) :
    tidOf (taskSet P now jobId patch b) j = tidOf b j := by
  by_cases hj : j = jobId
  · subst hj
    rw [tidOf_taskSet_self, AList.lookup_eq_none.mpr h, Option.getD_none]
  · exact tidOf_taskSet_ne hj

theorem createdPatch_of_some {answer : ℤ × String × String} {id : Json} (h : createdId H answer = some id) :
    (createdPatch H answer).1 = boundPatch H id ∧ id.truthy = true := by
  obtain ⟨rc, out, err⟩ := answer
  simp only [createdId, Option.ite_none_right_eq_some, Option.some.injEq] at h
  obtain ⟨⟨hrc, ht⟩, rfl⟩ := h
  simp [createdPatch, hrc, ht]

/-- A row that is bound to its card has the card's id. -/
theorem lookup_boundPatch (id : Json) : (boundPatch H id).lookup "hermes_task_id" = some id := by
  rw [boundPatch]
  rw [AList.lookup_insert_ne (by decide), AList.lookup_insert_ne (by decide), AList.lookup_insert_ne (by decide)]
  rfl

theorem inflightPatch_notMem (time : ℤ) : "hermes_task_id" ∉ inflightPatch time := notMem_item (by decide)

theorem createdPatch_of_none {answer : ℤ × String × String} (h : createdId H answer = none) :
    "hermes_task_id" ∉ (createdPatch H answer).1 := by
  have herr : ∀ message, "hermes_task_id" ∉ errorPatch message := fun _ => notMem_item (by decide)
  obtain ⟨rc, out, err⟩ := answer
  simp only [createdId, ite_eq_right_iff, reduceCtorEq, imp_false, not_and, Bool.not_eq_true] at h
  rw [createdPatch]
  by_cases hrc : rc = 0
  · simp [hrc, h hrc, herr]
  · simp [hrc, herr]

/-- A patch made of a shown card does not touch the row's `hermes_task_id`. -/
theorem notMem_shownPatch {full : Dict} {tid : Json} (h : shownPatch H j full tid = .ok patch) :
    "hermes_task_id" ∉ patch := by
  unfold shownPatch at h
  cases hrun : H.runner j (showArgs H tid) with
  | error e => rw [hrun] at h; cases h
  | ok answer =>
    rw [hrun] at h
    change cardPatch H j full answer = .ok patch at h
    unfold cardPatch at h
    split at h
    · cases h; exact AList.notMem_empty _
    · cases h; exact AList.notMem_empty _
    · split at h
      · cases h
      · rename_i derived hderived
        cases h
        exact tid_notMem_mirrorPatch hderived

/-! ### The invariant -/

/-- The row for which `create_card` is running. -/
def Proc.row : Proc → Option String
  | .create j _ _ => some j
  | .marked j _ _ => some j
  | .answered j _ _ => some j
  | _ => none

variable (H) in
/-- The card the command line has answered with, not yet recorded, and its row. -/
def Proc.unrecorded : Proc → Option (String × Json)
  | .answered j answer _ => (createdId H answer).map (j, ·)
  | _ => none

/-- The patch about to be written, which leaves `hermes_task_id` alone. -/
def Proc.Quiet : Proc → Prop
  | .patched _ patch _ => "hermes_task_id" ∉ patch
  | _ => True

variable (H) in
/-- No card is lost: a create that makes a card is answered with code 0 and an id that
can be read, its body refers back to no other job, and the bridge does not stop before
it has recorded the id. -/
def Kept : Sys → Ev → Prop
  | s, .create made answer => ∀ j full rows, s.proc = .marked j full rows → made.isSome = true →
      (∃ a, answer = .ok a ∧ (createdId H a).isSome = true) ∧
        ∀ args, buildCreateArgs H j full = .ok args → ∀ j', PyText.firstLine (bodyOf args) = backref j' → j' = j
  | s, .stop => s.proc.unrecorded H = none
  | _, _ => True

variable (H) in
/-- Where the cards are: each is bound to the row of the job it refers back to, or is
the one not yet recorded. -/
structure Inv (s : Sys) : Prop where
  /-- Ids are distinct. -/
  nodup : (s.cards.map Posted.id).Nodup
  /-- A card's job has it, or is about to. -/
  card : ∀ c ∈ s.cards, c.id.truthy = true ∧ ∀ j, c.Carries j →
    tidOf s.board j = c.id ∨ s.proc.unrecorded H = some (j, c.id)
  /-- A row's id is that of a card. -/
  row : ∀ j, (tidOf s.board j).truthy = true → ∃ c ∈ s.cards, c.id = tidOf s.board j
  /-- Of the rows, only one has it. -/
  distinct : ∀ j j', (tidOf s.board j).truthy = true → tidOf s.board j = tidOf s.board j' → j = j'
  /-- The card not yet recorded is no row's. -/
  unrecorded : ∀ j id, s.proc.unrecorded H = some (j, id) →
    (∃ c ∈ s.cards, c.id = id) ∧ ∀ j', tidOf s.board j' ≠ id
  /-- A row for which a card is made has none. -/
  unbound : ∀ j, s.proc.row = some j → (tidOf s.board j).truthy = false
  /-- The mirror loop leaves `hermes_task_id` alone. -/
  quiet : s.proc.Quiet

theorem Proc.row_of_unrecorded {p : Proc} {id : Json} (h : p.unrecorded H = some (j, id)) : p.row = some j := by
  cases p with
  | answered j' answer rows =>
    simp only [Proc.unrecorded, Option.map_eq_some_iff, Prod.mk.injEq] at h
    obtain ⟨_, -, rfl, -⟩ := h
    rfl
  | _ => cases h

/-- Two cards that refer back to one job have one id. -/
theorem Inv.id_eq {c c' : Posted} (h : Inv H s) (hc : c ∈ s.cards) (hc' : c' ∈ s.cards) (hj : c.Carries j)
    (hj' : c'.Carries j) : c.id = c'.id := by
  -- a row whose card is about to be recorded has none yet
  have hun : ∀ d ∈ s.cards, tidOf s.board j = d.id → ∀ id, s.proc.unrecorded H ≠ some (j, id) := by
    intro d hd ht id hu
    have hfalse := h.unbound j (Proc.row_of_unrecorded hu)
    rw [ht, (h.card d hd).1] at hfalse
    cases hfalse
  rcases (h.card c hc).2 j hj with ht | hu <;> rcases (h.card c' hc').2 j hj' with ht' | hu'
  · exact ht.symm.trans ht'
  · exact absurd hu' (hun c hc ht _)
  · exact absurd hu (hun c' hc' ht' _)
  · rw [hu, Option.some.injEq, Prod.mk.injEq] at hu'
    exact hu'.2

/-- With the invariant there is one card per job. -/
theorem Inv.oneCard (h : Inv H s) : OneCard s := by
  refine ⟨fun j => ?_, h.distinct⟩
  have hnd : ((s.cards.filter (·.Carries j)).map Posted.id).Nodup :=
    h.nodup.sublist (List.filter_sublist.map _)
  cases hl : s.cards.filter (·.Carries j) with
  | nil => simp
  | cons c l =>
    have hmem : ∀ d ∈ c :: l, d ∈ s.cards ∧ d.Carries j := by
      intro d hd
      rw [← hl] at hd
      simpa using hd
    obtain ⟨hc, hj⟩ := hmem c List.mem_cons_self
    have hsame : ∀ x ∈ (c :: l).map Posted.id, x = c.id := by
      intro x hx
      obtain ⟨d, hd, rfl⟩ := List.mem_map.mp hx
      obtain ⟨hd, hjd⟩ := hmem d hd
      exact h.id_eq hd hc hjd hj
    rw [hl, List.eq_replicate_of_mem hsame, List.nodup_replicate, List.length_map] at hnd
    exact hnd

/-- A step that makes no card and binds no row keeps the invariant. -/
theorem Inv.keep {p : Proc} (h : Inv H s) (hb : ∀ j, tidOf b j = tidOf s.board j)
    (hun : p.unrecorded H = s.proc.unrecorded H)
    (hrow : ∀ j, p.row = some j → (tidOf s.board j).truthy = false) (hq : p.Quiet) : Inv H ⟨b, s.cards, p⟩ where
  nodup := h.nodup
  card := by simpa only [hb, hun] using h.card
  row := by simpa only [hb] using h.row
  distinct := by simpa only [hb] using h.distinct
  unrecorded := by simpa only [hb, hun] using h.unrecorded
  unbound := by simpa only [hb] using hrow
  quiet := hq

/-- The command line makes a card. -/
theorem Inv.create {full : Dict} {rows : List Listed} {args : List Json} {id : Json}
    {answer : ℤ × String × String} (h : Inv H s) (hp : s.proc = .marked j full rows)
    (hid : createdId H answer = some id) (hfresh : ∀ c ∈ s.cards, c.id ≠ id)
    (hown : ∀ j', PyText.firstLine (bodyOf args) = backref j' → j' = j) :
    Inv H ⟨s.board, s.cards ++ [⟨id, bodyOf args⟩], .answered j answer rows⟩ := by
  have hun : s.proc.unrecorded H = none := by rw [hp]; rfl
  have hun' : (Proc.answered j answer rows).unrecorded H = some (j, id) := by simp [Proc.unrecorded, hid]
  have htruthy := (createdPatch_of_some hid).2
  have hrow : ∀ j', tidOf s.board j' ≠ id := by
    intro j' ht
    obtain ⟨c, hc, hcid⟩ := h.row j' (by rw [ht]; exact htruthy)
    exact hfresh c hc (hcid.trans ht)
  constructor
  case nodup =>
    rw [List.map_append, List.map_singleton, List.nodup_append]
    refine ⟨h.nodup, List.nodup_singleton _, fun x hx y hy => ?_⟩
    obtain ⟨c, hc, rfl⟩ := List.mem_map.mp hx
    rw [List.mem_singleton.mp hy]
    exact hfresh c hc
  case card =>
    intro c hc
    rcases List.mem_append.mp hc with hc | hc
    · obtain ⟨ht, hcar⟩ := h.card c hc
      refine ⟨ht, fun j' hj' => .inl ((hcar j' hj').resolve_right ?_)⟩
      simp [hun]
    · obtain rfl := List.mem_singleton.mp hc
      refine ⟨htruthy, fun j' hj' => .inr ?_⟩
      rw [hun', hown j' hj']
  case row =>
    intro j' ht
    obtain ⟨c, hc, hcid⟩ := h.row j' ht
    exact ⟨c, List.mem_append_left _ hc, hcid⟩
  case distinct => exact h.distinct
  case unrecorded =>
    intro j' id' hu
    rw [hun', Option.some.injEq, Prod.mk.injEq] at hu
    obtain ⟨rfl, rfl⟩ := hu
    exact ⟨⟨_, List.mem_append_right _ (List.mem_singleton_self _), rfl⟩, hrow⟩
  case unbound =>
    intro j' hj'
    refine h.unbound j' ?_
    rw [hp]
    exact hj'
  case quiet => trivial

/-- The card's id is recorded in its row. -/
theorem Inv.record {rows : List Listed} {id : Json} {answer : ℤ × String × String} (h : Inv H s)
    (hp : s.proc = .answered j answer rows) (hid : createdId H answer = some id) :
    Inv H ⟨taskSet H.toPython now j (boundPatch H id) s.board, s.cards, .enqueue rows⟩ := by
  have hun : s.proc.unrecorded H = some (j, id) := by simp [hp, Proc.unrecorded, hid]
  obtain ⟨⟨c₀, hc₀, hc₀id⟩, hnew⟩ := h.unrecorded j id hun
  have hnone : (tidOf s.board j).truthy = false := h.unbound j (by rw [hp]; rfl)
  have hself : tidOf (taskSet H.toPython now j (boundPatch H id) s.board) j = id := by
    rw [tidOf_taskSet_self, lookup_boundPatch, Option.getD_some]
  have hother : ∀ j' ≠ j, tidOf (taskSet H.toPython now j (boundPatch H id) s.board) j' = tidOf s.board j' :=
    fun j' hne => tidOf_taskSet_ne hne
  constructor
  case nodup => exact h.nodup
  case card =>
    intro c hc
    obtain ⟨ht, hcar⟩ := h.card c hc
    refine ⟨ht, fun j' hj' => .inl ?_⟩
    rcases hcar j' hj' with hold | hu
    · by_cases hj : j' = j
      · subst hj
        rw [hold, ht] at hnone
        cases hnone
      · exact (hother j' hj).trans hold
    · rw [hun, Option.some.injEq, Prod.mk.injEq] at hu
      obtain ⟨rfl, rfl⟩ := hu
      exact hself
  case row =>
    intro j' ht
    by_cases hj : j' = j
    · subst hj
      exact ⟨c₀, hc₀, hc₀id.trans hself.symm⟩
    · rw [hother j' hj] at ht ⊢
      exact h.row j' ht
  case distinct =>
    intro j₁ j₂ ht heq
    by_cases h₁ : j₁ = j <;> by_cases h₂ : j₂ = j
    · exact h₁.trans h₂.symm
    · rw [h₁, hself, hother j₂ h₂] at heq
      exact absurd heq.symm (hnew j₂)
    · rw [h₂, hself, hother j₁ h₁] at heq
      exact absurd heq (hnew j₁)
    · rw [hother j₁ h₁] at ht heq
      rw [hother j₂ h₂] at heq
      exact h.distinct j₁ j₂ ht heq
  case unrecorded => intro j' id' hu; cases hu
  case unbound => intro j' hj'; cases hj'
  case quiet => trivial

/-- Where the enqueue loop goes from a row, nothing is unrecorded, and a row that gets a
card has none. -/
theorem visit_spec (b : Board) (row : Listed) (rows : List Listed) :
    (visit b row rows).unrecorded H = none ∧ (visit b row rows).Quiet ∧
      ∀ j, (visit b row rows).row = some j → (tidOf b j).truthy = false := by
  rw [visit]
  split_ifs with hst ht
  · exact ⟨rfl, trivial, fun j hj => by cases hj⟩
  · exact ⟨rfl, trivial, fun j hj => by cases hj⟩
  · refine ⟨rfl, trivial, fun j hj => ?_⟩
    cases hj
    simpa using ht

/-- Where the mirror loop goes from a row, nothing is unrecorded, no row gets a card, and
no patch touches `hermes_task_id`. -/
theorem look_spec (H' : Host) (b : Board) (row : Listed) (rows : List Listed) :
    (look H' b row rows).unrecorded H = none ∧ (look H' b row rows).Quiet ∧ (look H' b row rows).row = none := by
  rw [look]
  split_ifs
  · cases hpatch : shownPatch H' row.jobId (fullOf b row.jobId) (tidOf b row.jobId) with
    | error e => exact ⟨rfl, trivial, rfl⟩
    | ok patch =>
      simp only [afterShow]
      split_ifs
      · exact ⟨rfl, trivial, rfl⟩
      · exact ⟨rfl, notMem_shownPatch hpatch, rfl⟩
  · exact ⟨rfl, trivial, rfl⟩
  · exact ⟨rfl, trivial, rfl⟩

/-- **A step** that loses no card keeps the invariant. -/
theorem inv_step {e : Ev} (h : Inv H s) (hs : Guarded (Kept H) (Step H) s e s') : Inv H s' := by
  obtain ⟨hkept, hstep⟩ := hs
  have hnone : ∀ {p : Proc}, p.row = none → ∀ j, p.row = some j → (tidOf s.board j).truthy = false := by
    intro p hp j hj
    rw [hp] at hj
    cases hj
  cases hstep with
  | set hpatch => exact h.keep (tidOf_taskSet hpatch) rfl h.unbound h.quiet
  | stop => exact h.keep (fun _ => rfl) hkept.symm (hnone rfl) trivial
  | start hp | tick hp | mirror hp | rest hp =>
    exact h.keep (fun _ => rfl) (by rw [hp]; rfl) (hnone rfl) trivial
  | refuse hp => exact h.keep (fun _ => rfl) (by rw [hp]; rfl) (hnone rfl) trivial
  | visit hp =>
    obtain ⟨hun, hq, hrow⟩ := visit_spec (H := H) s.board _ _
    exact h.keep (fun _ => rfl) (by rw [hun, hp]; rfl) hrow hq
  | look hp =>
    obtain ⟨hun, hq, hrow⟩ := look_spec (H := H) _ s.board _ _
    exact h.keep (fun _ => rfl) (by rw [hun, hp]; rfl) (hnone hrow) hq
  | mark hp =>
    refine h.keep (tidOf_taskSet (inflightPatch_notMem _)) (by rw [hp]; rfl) (fun j hj => h.unbound j ?_) trivial
    rw [hp]
    exact hj
  | merge _ hp =>
    have hq := h.quiet
    rw [hp] at hq
    exact h.keep (tidOf_taskSet hq) (by rw [hp]; rfl) (hnone rfl) trivial
  | @record j answer rows now hp =>
    cases hid : createdId H answer with
    | some id =>
      rw [(createdPatch_of_some hid).1]
      exact h.record hp hid
    | none =>
      refine h.keep (tidOf_taskSet (createdPatch_of_none hid)) ?_ (hnone rfl) trivial
      simp [hp, Proc.unrecorded, hid]
  | @create j full rows args made answer hp hargs hfresh hid =>
    cases made with
    | some id =>
      obtain ⟨⟨a, rfl, ha⟩, hown⟩ := hkept j full rows hp rfl
      obtain ⟨id', hid'⟩ := Option.isSome_iff_exists.mp ha
      obtain rfl : id = id' := Option.some.inj (hid a id' rfl hid')
      exact h.create hp hid' (hfresh id rfl) (hown args hargs)
    | none =>
      rw [Option.toList_none, List.map_nil, List.append_nil]
      cases answer with
      | error e => exact h.keep (fun _ => rfl) (by rw [hp]; rfl) (hnone rfl) trivial
      | ok a =>
        have hno : createdId H a = none := Option.eq_none_iff_forall_ne_some.mpr fun id hsome => by
          cases hid a id rfl hsome
        refine h.keep (fun _ => rfl) ?_ (fun j' hj' => h.unbound j' ?_) trivial
        · simp [hp, afterCreate, Proc.unrecorded, hno]
        · rw [hp]
          exact hj'

theorem inv_init : Inv H .init := by
  constructor
  case nodup => exact List.nodup_nil
  case card => intro c hc; cases hc
  case row => intro j ht; cases ht
  case distinct => intro j j' ht; cases ht
  case unrecorded => intro j id hu; cases hu
  case unbound => intro j hj; cases hj
  case quiet => trivial

/-- The body of the card that `create_card` asks for. -/
theorem bodyOf_createArgs {state : Dict} {args : List Json} (h : buildCreateArgs H j state = .ok args) :
    ∃ body, bodyOf args = backrefBody j body := by
  unfold buildCreateArgs at h
  split at h
  · cases h
  · cases h
    exact ⟨_, rfl⟩

/-- A job id that a line can end with: it is not empty, has no line break, and does not
end in white space. -/
structure Plain (jobId : String) : Prop where
  ne : jobId.toList ≠ []
  line : '\n' ∉ jobId.toList
  last : ∀ c ∈ jobId.toList.getLast?, PyText.isSpace c = false

/-- The card of such a job refers back to it. -/
theorem firstLine_backrefBody (h : Plain j) (body : String) :
    PyText.firstLine (backrefBody j body) = backref j := by
  have hl : (backref j).toList = (backrefPrefix ++ " ").toList ++ j.toList := String.toList_append
  have hpre : '\n' ∉ (backrefPrefix ++ " ").toList := by decide
  have hbody : backrefPrefix ++ " " ++ j ++ "\n\n" ++ body = backref j ++ "\n" ++ ("\n" ++ body) := by
    have hbreaks : "\n\n" = "\n" ++ "\n" := rfl
    rw [hbreaks, backref, String.append_assoc, String.append_assoc, String.append_assoc, String.append_assoc,
      String.append_assoc, String.append_assoc, String.append_assoc]
  rw [backrefBody, hbody]
  apply PyText.firstLine_rstrip
  · rw [hl]
    exact List.append_ne_nil_of_right_ne_nil _ h.ne
  · rw [hl, List.mem_append, not_or]
    exact ⟨hpre, h.line⟩
  · rw [hl, List.getLast?_append_of_ne_nil _ h.ne]
    exact h.last

theorem backref_injective : Function.Injective backref := by
  intro j j' h
  have hl := congrArg String.toList h
  simp only [backref, String.toList_append, List.append_cancel_left_eq] at hl
  exact String.toList_injective hl

/-- **One card per job**, in every run that loses no card. -/
theorem oneCard_run {es : List Ev} (h : Run (Guarded (Kept H) (Step H)) .init es s) : OneCard s :=
  (h.inv (I := Inv H) (fun _ _ _ => inv_step) inv_init).oneCard

/-- A command line that makes the card `t1`. -/
def postingHost : Host where
  toPython := .ofTable [("\x7b\"id\": \"t1\"\x7d", .obj [("id", .str "t1")])]
  cli := "hermes"
  board := ""
  tenant := "persona"
  runner _ _ := .ok (0, "\x7b\"id\": \"t1\"\x7d", "")
  time _ _ := 1

theorem plain_a : Plain "a" where
  ne := by decide
  line := by decide
  last := by
    intro c hc
    change some 'a' = some c at hc
    obtain rfl := Option.some.inj hc
    rfl

/-- The job `a` is delegated and its card recorded. -/
theorem oneCard_run_posted : ∃ s : Sys, s.cards.length = 1 ∧ tidOf s.board "a" = .str "t1" ∧ OneCard s := by
  obtain ⟨args, hargs⟩ : ∃ args, buildCreateArgs postingHost "a"
      (fullOf (taskSet postingHost.toPython 1 "a" (item "status" (.str "delegated")) ∅) "a") = .ok args := ⟨_, rfl⟩
  obtain ⟨body, hbody⟩ := bodyOf_createArgs hargs
  have hkept : ∀ j full rows, Proc.marked "a"
      (fullOf (taskSet postingHost.toPython 1 "a" (item "status" (.str "delegated")) ∅) "a") [] = .marked j full rows →
      ∀ args', buildCreateArgs postingHost j full = .ok args' →
        ∀ j', PyText.firstLine (bodyOf args') = backref j' → j' = j := by
    rintro j full rows ⟨⟩ args' hargs' j' hline
    obtain rfl : args = args' := by simpa [hargs] using hargs'
    rw [hbody, firstLine_backrefBody plain_a] at hline
    exact (backref_injective hline).symm
  have hlist : Proc.enqueue (taskList scanLimit (taskSet postingHost.toPython 1 "a"
      (item "status" (.str "delegated")) ∅)) = .enqueue [⟨"a", some "delegated", 1, 1⟩] := rfl
  obtain ⟨s, hrun, hlen, htid⟩ : ∃ s, Run (Guarded (Kept postingHost) (Step postingHost)) .init
      [.set 1 "a" (item "status" (.str "delegated")), .start, .tick, .visit, .mark 1 1,
        .create (some (.str "t1")) (.ok (0, "\x7b\"id\": \"t1\"\x7d", "")), .record 1] s ∧
          s.cards.length = 1 ∧ tidOf s.board "a" = .str "t1" := by
    refine ⟨_, .cons ⟨trivial, .set (by decide)⟩ (.cons ⟨trivial, .start rfl⟩ (.cons ⟨trivial, .tick rfl⟩
      (.cons ⟨trivial, .visit hlist⟩ (.cons ⟨trivial, .mark rfl⟩ (.cons ⟨?_, .create _ _ rfl hargs ?_ ?_⟩
        (.one ⟨trivial, .record _ rfl⟩)))))), rfl, rfl⟩
    · intro j full rows hp _
      exact ⟨⟨_, rfl, rfl⟩, hkept j full rows hp⟩
    · intro id _ c hc
      cases hc
    · intro a id ha hid
      cases ha
      exact hid
  exact ⟨s, hlen, htid, oneCard_run hrun⟩

/-! ### A card that is lost -/

/-- The patch that delegates a job, with a priority that is an integer. -/
def delegation : Dict := (item "status" (.str Status.delegated.text)).insert "priority" (.int 2)

theorem delegation_notMem : "hermes_task_id" ∉ delegation :=
  notMem_insert (by decide) (notMem_item (by decide))

/-- The row of a job that was delegated says so. -/
theorem getKey_merged_delegation (read : Option Row) {k : String} (hk : k ∈ delegation) :
    getKey (merged read delegation) k = getKey delegation k := by
  obtain ⟨v, hv⟩ := Option.isSome_iff_exists.mp (AList.lookup_isSome.mpr hk)
  simp only [merged, getKey, lookup_update, hv]
  rfl

/-- A card can be asked for a job that was delegated. -/
theorem createArgs_delegation (P : Python) (now : ℤ) (b : Board) (j : String) :
    ∃ args, buildCreateArgs H j (fullOf (taskSet P now j delegation b) j) = .ok args := by
  have hrow := lookup_taskSet P now j delegation b
  obtain ⟨full, hfull⟩ : ∃ full, taskGet j (taskSet P now j delegation b) = some full := by simp [taskGet, hrow]
  have hpriority : getKey full "priority" = .int 2 := by
    rw [getKey_taskGet hrow hfull (by decide) (by decide) (by decide)]
    exact getKey_merged_delegation _ (by decide)
  have hint : H.toInt ((full.lookup "priority").getD (.int 2)) = some 2 := by
    cases hlookup : full.lookup "priority" with
    | none => rfl
    | some v =>
      rw [getKey, hlookup, Option.getD_some] at hpriority
      rw [hpriority]
      rfl
  rw [fullOf, hfull, Option.getD_some, buildCreateArgs]
  simp only [hint]
  exact ⟨_, rfl⟩

/-- A job delegated last is listed first. -/
theorem delegated_first (P : Python) (b : Board) (j : String) :
    ∃ now row rows, taskList scanLimit (taskSet P now j delegation b) = row :: rows ∧ row.jobId = j ∧
      row.status = some Status.delegated.text := by
  obtain ⟨m, hm⟩ := (List.finite_toSet ((listed b).map Listed.updatedAt)).bddAbove
  have hnow : ∀ l ∈ listed b, l.updatedAt < m + 1 := by
    intro l hl
    have hle : l.updatedAt ≤ m := hm (List.mem_map_of_mem hl)
    omega
  obtain ⟨row, rows, hlist, hj, hst⟩ := taskList_taskSet P 199 delegation hnow
  refine ⟨m + 1, row, rows, hlist, hj, ?_⟩
  have hstatus : getKey (merged (b.lookup j) delegation) "status" = .str Status.delegated.text :=
    getKey_merged_delegation _ (by decide)
  simp [hst, statusOf, hstatus, Json.isNull]

/-- **A card that is lost is made again**: when the bridge is down and the row of a job
has no card, one more card for the job can be made, and the row still has none. -/
theorem another_card (hj : Plain j) (hp : s.proc = .down) (hnone : (tidOf s.board j).truthy = false) :
    ∃ es s', Run (Step H) s es s' ∧ s'.proc = .down ∧ (tidOf s'.board j).truthy = false ∧
      ∃ c, c.Carries j ∧ s'.cards = s.cards ++ [c] := by
  obtain ⟨b₀, cards, proc⟩ := s
  obtain rfl : proc = .down := hp
  have hinf : Infinite Json := Infinite.of_injective Json.int fun m n h => by injection h
  obtain ⟨id, hid⟩ := (List.finite_toSet (cards.map Posted.id)).exists_notMem
  obtain ⟨now, row, rows, hlist, rfl, hst⟩ := delegated_first H.toPython b₀ j
  obtain ⟨args, hargs⟩ := createArgs_delegation (H := H) H.toPython now b₀ row.jobId
  obtain ⟨body, hbody⟩ := bodyOf_createArgs hargs
  set b := taskSet H.toPython now row.jobId delegation b₀
  have htid : tidOf b row.jobId = tidOf b₀ row.jobId := tidOf_taskSet delegation_notMem _
  set b' := taskSet H.toPython 0 row.jobId (inflightPatch 0) b
  have hb' : tidOf b' row.jobId = tidOf b row.jobId := tidOf_taskSet (inflightPatch_notMem 0) _
  have hfresh : ∀ id' ∈ some id, ∀ c ∈ cards, c.id ≠ id' := by
    intro id' hid' c hc heq
    obtain rfl := Option.mem_some.mp hid'
    exact hid (heq ▸ List.mem_map_of_mem hc)
  have hvisit : visit b row rows = .create row.jobId (fullOf b row.jobId) rows := by
    simp [visit, hst, htid, hnone]
  have h₁ : Step H ⟨b₀, cards, .down⟩ (.set now row.jobId delegation) ⟨b, cards, .down⟩ := .set delegation_notMem
  have h₂ : Step H ⟨b, cards, .down⟩ .start ⟨b, cards, .idle⟩ := .start rfl
  have h₃ : Step H ⟨b, cards, .idle⟩ .tick ⟨b, cards, .enqueue (row :: rows)⟩ := hlist ▸ .tick rfl
  have h₄ : Step H ⟨b, cards, .enqueue (row :: rows)⟩ .visit
      ⟨b, cards, .create row.jobId (fullOf b row.jobId) rows⟩ := hvisit ▸ .visit rfl
  have h₅ : Step H ⟨b, cards, .create row.jobId (fullOf b row.jobId) rows⟩ (.mark 0 0)
      ⟨b', cards, .marked row.jobId (fullOf b row.jobId) rows⟩ := .mark rfl
  -- the command line makes the card, and times out
  have h₆ : Step H ⟨b', cards, .marked row.jobId (fullOf b row.jobId) rows⟩ (.create (some id) (.error .runner))
      ⟨b', cards ++ [⟨id, bodyOf args⟩], .down⟩ := .create _ _ rfl hargs hfresh fun _ _ h => by cases h
  refine ⟨_, _, .cons h₁ (.cons h₂ (.cons h₃ (.cons h₄ (.cons h₅ (.one h₆))))), rfl, ?_, ⟨id, bodyOf args⟩, ?_, rfl⟩
  · rw [hb', htid]
    exact hnone
  · rw [Posted.Carries, hbody]
    exact firstLine_backrefBody hj body

variable (H) in
/-- **Two cards for one job**: the command line makes the job's card and times out, and
the bridge, started again, has it make another. -/
theorem two_cards (hj : Plain j) : ∃ es s, Run (Step H) .init es s ∧ ¬ OneCard s := by
  have hnone : (tidOf Sys.init.board j).truthy = false := rfl
  obtain ⟨es₁, s₁, hrun₁, hdown, hnone₁, c₁, hc₁, hcards₁⟩ := another_card (H := H) (s := .init) hj rfl hnone
  obtain ⟨es₂, s₂, hrun₂, -, -, c₂, hc₂, hcards₂⟩ := another_card (H := H) hj hdown hnone₁
  refine ⟨es₁ ++ es₂, s₂, hrun₁.append hrun₂, fun h => ?_⟩
  have hlen := h.cards j
  have hcards : s₂.cards = [c₁, c₂] := by rw [hcards₂, hcards₁]; rfl
  rw [hcards, List.filter_cons_of_pos (by simpa using hc₁), List.filter_cons_of_pos (by simpa using hc₂)] at hlen
  simp at hlen

theorem not_oneCard_run : ¬ ∀ es s, Run (Step postingHost) .init es s → OneCard s := by
  intro h
  obtain ⟨es, s, hrun, hs⟩ := two_cards postingHost plain_a
  exact hs (h es s hrun)

end Persona.Bridge.Creation
