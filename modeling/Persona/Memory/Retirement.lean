import Persona.Lib.Run
import Persona.Memory.Consolidation

/-!
# Turns that are retired

Chat requests go on while a pass awaits its distiller: they append turns, also to the
conversation that is being distilled, and create and delete conversations. `Step` is the
passes and the requests in any order; a pass that nothing interrupts is `consolidate`
(`consolidate_run`).

A pass marks turns only when a call of the distiller is answered, and by their ids; since
ids are not given out twice, these are the very turns that the call was shown
(`Shown`). What the call must have produced is a fact in the store or a summary; the code
counts the facts it hands to `store.add`, and that is the same unless the store drops
all of them (`Kept`).
-/

namespace Persona.Memory

open Persona.Lib

variable {V : Type*}

/-- Where the consolidation is. -/
inductive PassPc where
  /-- Between two passes. -/
  | idle
  /-- In a pass, with these rows to go. -/
  | rows (S : Settings) (rest : List Db.Pending)
  /-- In a pass, awaiting the distiller. -/
  | distilling (S : Settings) (c : Call) (rest : List Db.Pending)

/-- A call of the distiller that was answered. -/
structure Answered (V : Type*) where
  settings : Settings
  call : Call
  reply : Reply V

/-- The consolidation, with the calls answered so far. -/
structure World (V : Type*) where
  st : St V
  pc : PassPc
  answered : List (Answered V)

/-- What happens. -/
inductive Ev (V : Type*) where
  | addTurn (now : ℤ) (cid role content : String) (profile topic : Option String) (tokens : Option ℤ)
  | newConversation (now : ℤ) (profile title : Option String) (cid : String)
  | deleteConversation (cid : String)
  /-- A pass begins. -/
  | start (S : Settings)
  /-- It turns to its next row, if there is one; `go` is `should_continue()`. -/
  | row (go : Bool)
  /-- The distiller answers, and the pass goes on to the end of the row. -/
  | answer (R : Reply V)

/-- The world with another database. -/
def World.setDb (s : World V) (db : Db) : World V := { s with st := { s.st with db } }

/-- The steps. -/
inductive Step (s : World V) : Ev V → World V → Prop
  | addTurn {now cid role content profile topic tokens} :
      Step s (.addTurn now cid role content profile topic tokens)
        (s.setDb (s.st.db.addTurn now cid role content profile topic tokens))
  | newConversation {now profile title cid} :
      Step s (.newConversation now profile title cid) (s.setDb (s.st.db.newConversation now profile title cid))
  | deleteConversation {cid} : Step s (.deleteConversation cid) (s.setDb (s.st.db.deleteConversation cid))
  | start {S} (h : s.pc = .idle) :
      Step s (.start S) { s with pc := .rows S (s.st.db.conversationsWithUndistilled S.minTurns S.maxConvos) }
  | done {S go} (h : s.pc = .rows S []) : Step s (.row go) { s with pc := .idle }
  | stop {S row rest go} (h : s.pc = .rows S (row :: rest)) (he : enterRow S go s.st.skip s.st.db row = .stop) :
      Step s (.row go) { s with pc := .idle }
  | skip {S row rest go} (h : s.pc = .rows S (row :: rest)) (he : enterRow S go s.st.skip s.st.db row = .skip) :
      Step s (.row go) { s with pc := .rows S rest }
  | call {S row rest go c} (h : s.pc = .rows S (row :: rest))
      (he : enterRow S go s.st.skip s.st.db row = .call c) : Step s (.row go) { s with pc := .distilling S c rest }
  | answer {S c rest R} (h : s.pc = .distilling S c rest) :
      Step s (.answer R)
        { st := (finishCall S R c s.st).2
          pc := if (finishCall S R c s.st).1 then .idle else .rows S rest
          answered := s.answered ++ [⟨S, c, R⟩] }

/-! ### A pass that is not interrupted -/

/-- The calls of a pass, with what was answered. -/
def answers (S : Settings) (reply : String → String → Reply V) (calls : List Call) : List (Answered V) :=
  calls.map fun c => ⟨S, c, reply c.conversationId (renderTurns c.turns)⟩

/-- The loop of `consolidate` is its steps. -/
theorem passRows_run (S : Settings) (go : String → Bool) (reply : String → String → Reply V) (rows : List Db.Pending)
    (s : St V) (answered : List (Answered V)) :
    ∃ es, Run Step ⟨s, .rows S rows, answered⟩ es ⟨(passRows S go reply rows s).st, .idle,
      answered ++ answers S reply (passRows S go reply rows s).calls⟩ := by
  induction rows generalizing s answered with
  | nil =>
    have hdone : Step ⟨s, .rows S [], answered⟩ (.row true) ⟨s, .idle, answered⟩ := .done rfl
    refine ⟨[.row true], ?_⟩
    simpa [passRows, answers] using Run.one hdone
  | cons row rows ih =>
    cases he : enterRow S (go row.conversationId) s.skip s.db row with
    | stop =>
      have hstop : Step ⟨s, .rows S (row :: rows), answered⟩ (.row (go row.conversationId)) ⟨s, .idle, answered⟩ :=
        .stop rfl he
      rw [passRows, he]
      refine ⟨[.row (go row.conversationId)], ?_⟩
      simpa [answers] using Run.one hstop
    | skip =>
      have hskip : Step ⟨s, .rows S (row :: rows), answered⟩ (.row (go row.conversationId))
          ⟨s, .rows S rows, answered⟩ := .skip rfl he
      obtain ⟨es, hrun⟩ := ih s answered
      rw [passRows, he]
      exact ⟨_, .cons hskip hrun⟩
    | call c =>
      have hcall : Step ⟨s, .rows S (row :: rows), answered⟩ (.row (go row.conversationId))
          ⟨s, .distilling S c rows, answered⟩ := .call rfl he
      have hanswer := Step.answer (s := ⟨s, .distilling S c rows, answered⟩)
        (R := reply c.conversationId (renderTurns c.turns)) rfl
      rw [passRows_call go he]
      dsimp only at hanswer ⊢
      split_ifs at hanswer ⊢ with hraised
      · exact ⟨_, .cons hcall (.one hanswer)⟩
      · obtain ⟨es, hrun⟩ := ih _ (answered ++ [⟨S, c, reply c.conversationId (renderTurns c.turns)⟩])
        rw [List.append_assoc] at hrun
        exact ⟨_, .cons hcall (.cons hanswer hrun)⟩

/-- **`consolidate` run alone** is a run of the steps. -/
theorem consolidate_run (S : Settings) (go : String → Bool) (reply : String → String → Reply V) (s : St V)
    (answered : List (Answered V)) :
    ∃ es, Run Step ⟨s, .idle, answered⟩ es ⟨(consolidate S go reply s).st, .idle,
      answered ++ answers S reply (consolidate S go reply s).calls⟩ := by
  have hstart : Step ⟨s, .idle, answered⟩ (.start S)
      ⟨s, .rows S (s.db.conversationsWithUndistilled S.minTurns S.maxConvos), answered⟩ := .start rfl
  obtain ⟨es, hrun⟩ := passRows_run S go reply (s.db.conversationsWithUndistilled S.minTurns S.maxConvos) s answered
  exact ⟨_, .cons hstart hrun⟩

/-! ### What a call produces -/

/-- The call has produced a fact in the store or a summary. -/
def Produces (S : Settings) (R : Reply V) (c : Call) : Prop :=
  (storeFacts S R c 0 R.facts).points ≠ [] ∨ ∃ d, R.distilled = some d ∧ PyText.strip (d.2.getD "") ≠ ""

/-- The store does not drop all the facts of a call that has no summary. -/
def Kept (R : Reply V) : Prop :=
  (∃ d, R.distilled = some d ∧ PyText.strip (d.2.getD "") ≠ "") ∨ R.facts = [] ∨
    (∃ k f, R.facts[k]? = some f ∧ R.embed k f = none) ∨ ∃ n < R.facts.length, R.stores n = true

variable {S : Settings} {R : Reply V} {c : Call} {s s' s₀ : World V} {e : Ev V} {es : List (Ev V)} {t : Turn}

/-- A call that marks its turns has produced something, if the store has not dropped it. -/
theorem produces_of_marks (hk : Kept R) (hm : Marks S R c) : Produces S R c := by
  obtain ⟨hr, -, d, hd, hsome⟩ := hm
  rcases hk with hsum | hnil | ⟨k, f, hkf, hnone⟩ | ⟨n, hn, hst⟩
  · exact .inr hsum
  · exact .inr ⟨d, hd, hsome.resolve_left (not_not.mpr hnil)⟩
  · have hraise : (storeFacts S R c 0 R.facts).raised = true := raised_iff.mpr ⟨k, f, hkf, by rwa [Nat.zero_add]⟩
    rw [hr] at hraise
    cases hraise
  · left
    intro hnil
    obtain ⟨p, hp, -⟩ := (mem_points_iff hr).mpr ⟨n, List.getElem?_eq_getElem hn, by rwa [Nat.zero_add]⟩
    rw [hnil] at hp
    cases hp

/-! ### What the requests do to the turns -/

/-- No turn is changed; new ones have new ids and are not marked. -/
def Chat (db db' : Db) : Prop :=
  db.lastId ≤ db'.lastId ∧ ∀ t ∈ db'.turns, t ∈ db.turns ∨ db.lastId < t.id ∧ t.distilled = false

theorem chat_insertConversation (conv : Conversation) (db : Db) : Chat db (db.insertConversation conv) := by
  rw [Db.insertConversation]
  split_ifs
  · exact ⟨le_rfl, fun t ht => .inl ht⟩
  · exact ⟨le_rfl, fun t ht => .inl ht⟩

theorem chat_addTurn {now : ℤ} {cid role content : String} {profile topic : Option String} {tokens : Option ℤ}
    (db : Db) : Chat db (db.addTurn now cid role content profile topic tokens) := by
  obtain ⟨hle, hturns⟩ := chat_insertConversation ⟨cid, profile, none, now, now⟩ db
  refine ⟨hle.trans (Nat.le_succ _), fun t ht => ?_⟩
  rcases List.mem_append.mp ht with ht | ht
  · exact hturns t ht
  · rw [List.mem_singleton] at ht
    subst ht
    exact .inr ⟨Nat.lt_succ_of_le hle, rfl⟩

theorem chat_deleteConversation (cid : String) (db : Db) : Chat db (db.deleteConversation cid) :=
  ⟨le_rfl, fun _ ht => .inl (List.mem_of_mem_filter ht)⟩

/-! ### The invariant -/

/-- The turns of the call are those that the distiller was shown: those of them that are
still in the database are as they were. -/
def Shown (db : Db) (c : Call) : Prop :=
  ∀ u ∈ c.turns, u.conversationId = c.conversationId ∧ u.distilled = false ∧ u.id ≤ db.lastId ∧
    ∀ t ∈ db.turns, t.id = u.id → t = u

theorem Shown.chat {db db' : Db} (h : Shown db c) (hc : Chat db db') : Shown db' c := by
  intro u hu
  obtain ⟨hcid, hdist, hle, hsame⟩ := h u hu
  refine ⟨hcid, hdist, hle.trans hc.1, fun t ht hid => ?_⟩
  rcases hc.2 t ht with ht | ⟨hlt, -⟩
  · exact hsame t ht hid
  · omega

/-- What a pass reads is what the distiller is shown. -/
theorem shown_of_enterRow {go : Bool} {skip : List String} {db : Db} {row : Db.Pending}
    (h : enterRow S go skip db row = .call c) : Shown db c := by
  obtain ⟨hcid, hturns, -⟩ := enterRow_eq_call h
  intro u hu
  rw [hturns] at hu
  obtain ⟨hmem, hu₁, hu₂⟩ := Db.mem_undistilledTurns.mp hu
  exact ⟨hu₁.trans hcid.symm, hu₂, db.id_le_lastId u hmem, fun t ht hid => db.turn_ext ht hmem hid⟩

/-- In the step the turn is marked. -/
def MarkedBy (s s' : World V) (t : Turn) : Prop :=
  t ∈ s.st.db.turns ∧ t.distilled = false ∧ ∃ t' ∈ s'.st.db.turns, t'.id = t.id ∧ t'.distilled = true

/-- The turn is one that the call was shown, marked since. -/
def Call.Has (c : Call) (t : Turn) : Prop :=
  c.conversationId = t.conversationId ∧ ∃ u ∈ c.turns, t = { u with distilled := true, summary := t.summary }

/-- A call that is under way is shown its turns, and every marked turn was marked at the
start or was shown to a call that produced something. -/
structure Inv (s₀ s : World V) : Prop where
  shown : ∀ S c rest, s.pc = .distilling S c rest → Shown s.st.db c
  retired : ∀ t ∈ s.st.db.turns, t.distilled = true →
    t ∈ s₀.st.db.turns ∨ ∃ a ∈ s.answered, a.call.Has t ∧ Produces a.settings a.reply a.call

/-- The side condition: no call's facts are all dropped by the store. -/
def NoLoss (_ : World V) (e : Ev V) : Prop := ∀ R, e = .answer R → Kept R

theorem mem_markDistilled {db : Db} {ids : List ℕ} {summary : Option String}
    (h : t ∈ (db.markDistilled ids summary).turns) :
    t ∈ db.turns ∧ t.id ∉ ids ∨
      ∃ t₀ ∈ db.turns, t₀.id ∈ ids ∧ t = { t₀ with distilled := true, summary } := by
  obtain ⟨t₀, ht₀, rfl⟩ := List.mem_map.mp h
  rw [Db.mark]
  split_ifs with hid
  · exact .inr ⟨t₀, ht₀, hid, rfl⟩
  · exact .inl ⟨ht₀, hid⟩

/-- What a step does to the marked turns: it adds none, or it answers a call and marks
turns that the call was shown. -/
theorem step_turns (h : Step s e s') (hshown : ∀ S c rest, s.pc = .distilling S c rest → Shown s.st.db c) :
    (∀ t ∈ s'.st.db.turns, t.distilled = true → t ∈ s.st.db.turns) ∨
      ∃ S c rest R, s.pc = .distilling S c rest ∧ e = .answer R ∧ s'.answered = s.answered ++ [⟨S, c, R⟩] ∧
        Marks S R c ∧ ∀ t ∈ s'.st.db.turns, t.distilled = true → t ∈ s.st.db.turns ∨ c.Has t := by
  have hchat : ∀ db', Chat s.st.db db' → ∀ t ∈ db'.turns, t.distilled = true → t ∈ s.st.db.turns := by
    intro db' hc t ht hdist
    rcases hc.2 t ht with ht | ⟨-, hnot⟩
    · exact ht
    · rw [hdist] at hnot
      cases hnot
  cases h with
  | addTurn => exact .inl (hchat _ (chat_addTurn _))
  | newConversation => exact .inl (hchat _ (chat_insertConversation _ _))
  | deleteConversation => exact .inl (hchat _ (chat_deleteConversation _ _))
  | start | done | stop | skip | call => exact .inl fun t ht _ => ht
  | @answer S c rest R hpc =>
    by_cases hm : Marks S R c
    · refine .inr ⟨S, c, rest, R, hpc, rfl, rfl, hm, fun t ht hdist => ?_⟩
      dsimp only at ht
      rw [db_finishCall, if_pos hm] at ht
      rcases mem_markDistilled ht with ⟨ht, -⟩ | ⟨t₀, ht₀, hid, rfl⟩
      · exact .inl ht
      · obtain ⟨u, hu, hid⟩ := List.mem_map.mp hid
        obtain ⟨hcid, -, -, hsame⟩ := hshown S c rest hpc u hu
        rw [hsame t₀ ht₀ hid.symm]
        exact .inr ⟨hcid.symm, u, hu, rfl⟩
    · left
      intro t ht _
      dsimp only at ht
      rwa [db_finishCall, if_neg hm] at ht

/-- The call that is under way stays as it was shown. -/
theorem step_shown (h : Step s e s') (hshown : ∀ S c rest, s.pc = .distilling S c rest → Shown s.st.db c) :
    ∀ S c rest, s'.pc = .distilling S c rest → Shown s'.st.db c := by
  intro S c rest hpc
  cases h with
  | addTurn => exact (hshown S c rest hpc).chat (chat_addTurn _)
  | newConversation => exact (hshown S c rest hpc).chat (chat_insertConversation _ _)
  | deleteConversation => exact (hshown S c rest hpc).chat (chat_deleteConversation _ _)
  | call _ he =>
    cases hpc
    exact shown_of_enterRow he
  | start | done | stop | skip => cases hpc
  | answer =>
    dsimp only at hpc
    split_ifs at hpc

theorem answered_subset (h : Step s e s') : s.answered ⊆ s'.answered := by
  cases h with
  | answer => exact List.subset_append_left ..
  | _ => exact List.Subset.refl _

/-- **Each step preserves the invariant.** -/
theorem inv_step (hI : Inv s₀ s) (h : Step s e s') (hno : NoLoss s e) : Inv s₀ s' := by
  refine ⟨step_shown h hI.shown, fun t ht hdist => ?_⟩
  have hold : t ∈ s.st.db.turns → t ∈ s₀.st.db.turns ∨
      ∃ a ∈ s'.answered, a.call.Has t ∧ Produces a.settings a.reply a.call := fun ht =>
    (hI.retired t ht hdist).imp_right fun ⟨a, ha, hat⟩ => ⟨a, answered_subset h ha, hat⟩
  rcases step_turns h hI.shown with hnone | ⟨S, c, rest, R, -, he, hans, hm, hmarked⟩
  · exact hold (hnone t ht hdist)
  · rcases hmarked t ht hdist with ht | hhas
    · exact hold ht
    · refine .inr ⟨⟨S, c, R⟩, ?_, hhas, produces_of_marks (hno R he) hm⟩
      rw [hans]
      exact List.mem_append_right _ (List.mem_singleton_self _)

/-! ### Runs -/

/-- Between two passes no turn is marked. -/
theorem run_idle (h : Run Step s es s') (hpc : s.pc = .idle) (hno : ∀ S, Ev.start S ∉ es) :
    ∀ t ∈ s'.st.db.turns, t.distilled = true → t ∈ s.st.db.turns := by
  induction h with
  | nil => exact fun t ht _ => ht
  | @cons s m s' e es hstep _ ih =>
    have hshown : ∀ S c rest, s.pc = .distilling S c rest → Shown s.st.db c := by
      intro S c rest hd
      rw [hpc] at hd
      cases hd
    have hm : m.pc = .idle := by
      cases hstep with
      | addTurn | newConversation | deleteConversation => exact hpc
      | start => exact absurd List.mem_cons_self (hno _)
      | done | stop => rfl
      | skip h' | call h' | answer h' => rw [hpc] at h'; cases h'
    intro t ht hdist
    have ht := ih hm (fun S hS => hno S (List.mem_cons_of_mem _ hS)) t ht hdist
    rcases step_turns hstep hshown with hnone | ⟨S, c, rest, R, hd, -⟩
    · exact hnone t ht hdist
    · rw [hpc] at hd
      cases hd

/-- What a reachable state owes: its marked turns were marked at the start, or were shown
to a call for their own conversation that produced a fact or a summary; the next step
marks only turns that the call it answers was shown; and when `should_continue()` is
false, no turn is marked until the next pass. -/
structure Retires (s₀ s : World V) : Prop where
  state : ∀ t ∈ s.st.db.turns, t.distilled = true →
    t ∈ s₀.st.db.turns ∨ ∃ a ∈ s.answered, a.call.Has t ∧ Produces a.settings a.reply a.call
  step : ∀ e s', Step s e s' → NoLoss s e → ∀ t, MarkedBy s s' t →
    ∃ S c rest R, s.pc = .distilling S c rest ∧ e = .answer R ∧ t ∈ c.turns ∧
      t.conversationId = c.conversationId ∧ Produces S R c
  stop : ∀ S row rest s', s.pc = .rows S (row :: rest) → Step s (.row false) s' → ∀ es s'', Run Step s' es s'' →
    (∀ S, Ev.start S ∉ es) → ∀ t ∈ s''.st.db.turns, t.distilled = true → t ∈ s.st.db.turns

/-- **A turn is retired only if it was distilled**, in every run in which the store does
not drop all the facts of a call that has no summary. -/
theorem retired_only_if_distilled (h₀ : s₀.pc = .idle) (hrun : Run (Guarded NoLoss Step) s₀ es s) : Retires s₀ s := by
  have hinit : Inv s₀ s₀ := ⟨fun S c rest hpc => (by rw [h₀] at hpc; cases hpc), fun t ht _ => .inl ht⟩
  have hI : Inv s₀ s := hrun.inv (fun _ _ _ hI hstep => inv_step hI hstep.2 hstep.1) hinit
  refine ⟨hI.retired, fun e s' hstep hno t hmark => ?_, fun S row rest s' hpc hstep es s'' hrun hno t ht hdist => ?_⟩
  · obtain ⟨ht, hfalse, t', ht', hid, hdist⟩ := hmark
    have hnew : t' ∉ s.st.db.turns := by
      intro hmem
      rw [s.st.db.turn_ext hmem ht hid, hfalse] at hdist
      cases hdist
    rcases step_turns hstep hI.shown with hnone | ⟨S, c, rest, R, hpc, he, -, hm, hmarked⟩
    · exact absurd (hnone t' ht' hdist) hnew
    · obtain ⟨-, u, hu, heq⟩ := (hmarked t' ht' hdist).resolve_left hnew
      rw [heq] at hid
      obtain ⟨hu₁, -, -, hsame⟩ := hI.shown S c rest hpc u hu
      have htu : t = u := hsame t ht hid.symm
      exact ⟨S, c, rest, R, hpc, he, htu ▸ hu, htu ▸ hu₁, produces_of_marks (hno R he) hm⟩
  · have hs' : s'.pc = .idle ∧ s'.st = s.st := by
      cases hstep with
      | done | stop => exact ⟨rfl, rfl⟩
      | skip h' he =>
        rw [hpc] at h'
        cases h'
        cases he
      | call h' he =>
        rw [hpc] at h'
        cases h'
        cases he
    rw [← hs'.2]
    exact run_idle hrun hs'.1 hno t ht hdist

/-! ### A fact that is dropped -/

/-- The passes begin with one conversation. -/
def talking : World ℤ := ⟨⟨talk, [], [], [], []⟩, .idle, []⟩

/-- A pass that works on the conversation, up to the distiller's answer. -/
theorem run_distilling : ∃ s c, Run (Guarded NoLoss Step) talking [.start oneConvo, .row true] s ∧
    s.pc = .distilling oneConvo c [] ∧ s.st = talking.st ∧ s.answered = [] ∧ c.turns = talk.turns := by
  refine ⟨_, _, .cons ⟨?_, .start rfl⟩ (.one ⟨?_, .call rfl rfl⟩), rfl, rfl, rfl, rfl⟩
  · rintro R ⟨⟩
  · rintro R ⟨⟩

theorem retired_only_if_distilled_talking : ∃ s, s.answered.length = 1 ∧ Retires talking s := by
  obtain ⟨s, c, hrun, hpc, -, hans, -⟩ := run_distilling
  have hkept : NoLoss s (.answer (oneFact true)) := by
    rintro R ⟨⟩
    exact .inr (.inr (.inr ⟨0, by decide, rfl⟩))
  refine ⟨_, ?_, retired_only_if_distilled rfl (hrun.snoc ⟨hkept, .answer hpc⟩)⟩
  rw [hans]
  rfl

/-- When the store drops the only fact of a call, the turn is retired for nothing. -/
theorem retired_not_distilled : ∃ es s, Run Step talking es s ∧ ¬ Retires talking s := by
  obtain ⟨s, c, hrun, hpc, hst, hans, hturns⟩ := run_distilling
  refine ⟨_, _, hrun.of_guarded.snoc (.answer (R := oneFact false) hpc), fun h => ?_⟩
  have hm : Marks oneConvo (oneFact false) c := ⟨rfl, rfl, _, rfl, .inl (by decide)⟩
  obtain ⟨t, ht⟩ : ∃ t, t ∈ talk.turns := ⟨_, List.mem_singleton_self _⟩
  have hmem : Db.mark (c.turns.map Turn.id) (some "") t ∈ (finishCall oneConvo (oneFact false) c s.st).2.db.turns := by
    rw [db_finishCall, if_pos hm, hst]
    exact List.mem_map_of_mem ht
  have hdist : (Db.mark (c.turns.map Turn.id) (some "") t).distilled = true := by
    rw [hturns, Db.mark, if_pos (List.mem_map_of_mem ht)]
  rcases h.state _ hmem hdist with hold | ⟨a, ha, -, hprod⟩
  · -- at the start no turn was marked
    have hnone : ∀ t ∈ talking.st.db.turns, t.distilled = false := by decide
    rw [hnone _ hold] at hdist
    cases hdist
  · dsimp only at ha
    rw [hans, List.nil_append, List.mem_singleton] at ha
    subst ha
    rcases hprod with hpoints | ⟨d, hd, hsum⟩
    · exact hpoints rfl
    · cases hd
      exact hsum (by decide)

end Persona.Memory
