import Persona.Api.Transcript

/-!
# Seeding a thread when the database fails

`_v1_prepare_conversation` takes a cold thread over from the client's array, turn by turn, each `add_turn` a
transaction of its own. One handler catches what any of the calls raises, and the new user turn is recorded
after it; a thread is cold as long as it has no turns. Here the calls may fail, each on its own, and a call that
fails leaves the database alone; `prepareConversationF_none` says that the rest is as in
`prepareConversation`.

What is seeded when an `add_turn` of the loop fails is the turns before it, and then the request's own turns
follow: `seedsWhole_iff` says how little has to be recorded for the thread to be seeded as a whole, now or
later.
-/

namespace Persona.Api

open Persona.Lib Persona.Memory

variable (P : Persistence)

/-! ### Calls that fail -/

/-- The calls of a request to the database that fail. -/
structure Faults where
  newConversation : Bool
  /-- The first `get_turns`. -/
  getTurns : Bool
  /-- The `n`-th `add_turn` of the loop. -/
  addTurn : ℕ → Bool
  /-- The `get_turns` after the loop. -/
  again : Bool
  /-- The `add_turn` of the new user turn, and of the reply. -/
  user : Bool
  reply : Bool

/-- No call fails. -/
def Faults.none : Faults := ⟨false, false, fun _ => false, false, false, false⟩

/-- The loop from the `n`-th turn on, and whether it comes to its end. -/
def seedTurnsF (fails : ℕ → Bool) (cid profile : String) : ℕ → List (ℤ × OAMessage String) → Db → Db × Bool
  | _, [], db => (db, true)
  | n, (now, m) :: ms, db =>
    if fails n then (db, false)
    else seedTurnsF fails cid profile (n + 1) ms
      (db.addTurn now cid m.role.name m.content (some profile) none (some (estimateTokens m.content)))

/-- `_persist_turn`, whose `add_turn` may fail. -/
def persistTurnF (fails : Bool) (now : ℤ) (cid role content profile : String) (topic : Option String) (db : Db) : Db :=
  if fails then db else persistTurn P now cid role content profile topic db

/-- The part of `_v1_prepare_conversation` in the `try`: the history, and the database. -/
def takeOver (F : Faults) (r : V1Req) (db : Db) : Option Window × Db :=
  if F.newConversation then (none, db)
  else
    let db := db.newConversation (r.time 0) (some r.profile) none r.cid
    if F.getTurns then (none, db)
    else
      let prior := priorTurns r.messages
      let seeded :=
        if (db.getTurns r.cid).isEmpty then
          seedTurnsF F.addTurn r.cid r.profile 0 (((List.range prior.length).map fun n => r.time (n + 1)).zip prior) db
        else (db, true)
      if seeded.2 = false ∨ (db.getTurns r.cid).isEmpty ∧ F.again then (none, seeded.1)
      else if P.historyEnabled = true ∧ (seeded.1.getTurns r.cid).isEmpty = false then
        (some (windowTurns (historyOptions P) (seeded.1.getTurns r.cid)), seeded.1)
      else (none, seeded.1)

/-- `_v1_prepare_conversation`, whose calls may fail. -/
def prepareConversationF (F : Faults) (r : V1Req) (db : Db) : Option Window × Db :=
  let taken := if P.convoOk = true ∧ P.persistEnabled = true then takeOver P F r db else (none, db)
  (taken.1,
    persistTurnF P F.user (r.time (r.messages.length + 1)) r.cid "user" (latestUserText r.messages) r.profile r.topic taken.2)

/-- `v1_chat_completions`, whose calls may fail. -/
def v1ChatCompletionsF (F : Faults) (r : V1Req) (reply : Option String) (db : Db) : Db :=
  let db := (prepareConversationF P F r db).2
  match reply with
  | none => db
  | some reply => persistTurnF P F.reply (r.time (r.messages.length + 2)) r.cid "assistant" reply r.profile r.topic db

/-! ### What is asked of a request -/

/-- The turns of its own that a request records. -/
def ownTurns (F : Faults) (r : V1Req) (reply : Option String) : List (String × String) :=
  (if F.user then [] else [("user", latestUserText r.messages)]) ++
    (if F.reply then [] else (reply.map fun text => ("assistant", text)).toList)

/-- The thread is seeded as a whole: it has all the prior turns of the array, before those that the request
records itself; or it has none of them, and the next request that succeeds, with an array that goes on from
them, seeds it. -/
structure SeedsWhole (F : Faults) (r : V1Req) (reply : Option String) (db : Db) : Prop where
  whole : stored r.cid (v1ChatCompletionsF P F r reply db) = view (priorTurns r.messages) ++ ownTurns F r reply ∨
    stored r.cid (v1ChatCompletionsF P F r reply db) = ownTurns F r reply
  later : stored r.cid (v1ChatCompletionsF P F r reply db) = ownTurns F r reply →
    ∀ (next : V1Req) (text : String), next.cid = r.cid → priorTurns r.messages <+: priorTurns next.messages →
      stored r.cid (v1ChatCompletionsF P .none next (some text) (v1ChatCompletionsF P F r reply db)) =
        view (priorTurns next.messages) ++ ownTurns .none next (some text)

variable {P} {F : Faults} {r next : V1Req} {reply : Option String} {db : Db} {cid : String}

/-! ### Without failures -/

theorem seedTurnsF_none (profile : String) (n : ℕ) (ms : List (ℤ × OAMessage String)) :
    seedTurnsF Faults.none.addTurn cid profile n ms db = (seedTurns cid profile ms db, true) := by
  induction ms generalizing n db with
  | nil => rfl
  | cons m ms ih =>
    have hok : ¬ Faults.none.addTurn n = true := Bool.false_ne_true
    rw [seedTurnsF, if_neg hok, ih]
    rfl

/-- A request none of whose calls fails is one of the thread. -/
theorem prepareConversationF_none (P : Persistence) (r : V1Req) (db : Db) :
    prepareConversationF P .none r db = prepareConversation P r db := by
  have hpersist : ∀ (now : ℤ) (cid role content profile : String) (topic : Option String) (db : Db),
      persistTurnF P Faults.none.user now cid role content profile topic db = persistTurn P now cid role content profile topic db :=
    fun _ _ _ _ _ _ _ => rfl
  have hseed : ∀ (profile : String) (ms : List (ℤ × OAMessage String)) (db : Db),
      seedTurnsF Faults.none.addTurn r.cid profile 0 ms db = (seedTurns r.cid profile ms db, true) :=
    fun profile ms db => seedTurnsF_none profile 0 ms
  rw [prepareConversationF, prepareConversation]
  by_cases hok : P.convoOk = true ∧ P.persistEnabled = true
  · have hcalls : Faults.none.newConversation = false ∧ Faults.none.getTurns = false ∧ Faults.none.again = false :=
      ⟨rfl, rfl, rfl⟩
    simp only [hpersist, hok, and_self, if_true, takeOver, hseed, true_and, hcalls, Bool.false_eq_true, if_false, and_false,
      or_false]
    by_cases hcold : ((db.newConversation (r.time 0) (some r.profile) none r.cid).getTurns r.cid).isEmpty = true
    · simp only [hcold, if_true, Bool.true_eq_false, if_false]
      split_ifs <;> rfl
    · rw [Bool.not_eq_true] at hcold
      simp only [hcold, Bool.false_eq_true, Bool.true_eq_false, if_false]
      split_ifs <;> rfl
  · have hoff : ∀ Q : Prop, ¬ (P.convoOk = true ∧ P.persistEnabled = true ∧ Q) := fun Q h => hok ⟨h.1, h.2.1⟩
    simp only [hpersist, if_neg hok, if_neg (hoff _)]

/-- So is its answer. -/
theorem v1ChatCompletionsF_none (P : Persistence) (r : V1Req) (reply : Option String) (db : Db) :
    v1ChatCompletionsF P .none r reply db = v1ChatCompletions P r reply db := by
  unfold v1ChatCompletionsF v1ChatCompletions
  rw [prepareConversationF_none]
  rfl

/-! ### An `add_turn` that fails -/

/-- A loop in which an `add_turn` fails has seeded the turns before the first that does. -/
theorem seedTurnsF_fails {fails : ℕ → Bool} {profile : String} {n : ℕ} {ms : List (ℤ × OAMessage String)}
    (h : ∃ k < ms.length, fails (n + k) = true) :
    (seedTurnsF fails cid profile n ms db).2 = false ∧ ∃ k < ms.length, (k = 0 ↔ fails n = true) ∧
      stored cid (seedTurnsF fails cid profile n ms db).1 = stored cid db ++ view ((ms.map Prod.snd).take k) := by
  induction ms generalizing n db with
  | nil =>
    obtain ⟨k, hk, -⟩ := h
    cases hk
  | cons m ms ih =>
    rw [seedTurnsF]
    by_cases hn : fails n = true
    · rw [if_pos hn]
      exact ⟨rfl, 0, Nat.succ_pos _, iff_of_true rfl hn, (List.append_nil _).symm⟩
    · rw [if_neg hn]
      have hrest : ∃ k < ms.length, fails (n + 1 + k) = true := by
        obtain ⟨k, hk, hfails⟩ := h
        cases k with
        | zero => exact absurd hfails hn
        | succ k =>
          rw [List.length_cons] at hk
          exact ⟨k, by omega, by rwa [Nat.add_assoc, Nat.add_comm 1]⟩
      obtain ⟨hstops, k, hk, -, hstored⟩ := @ih (db.addTurn m.1 cid m.2.role.name m.2.content (some profile) none
        (some (estimateTokens m.2.content))) _ hrest
      refine ⟨hstops, k + 1, by simpa using hk, iff_of_false (Nat.succ_ne_zero k) hn, ?_⟩
      rw [hstored, stored_addTurn, List.append_assoc]
      rfl

theorem map_snd_clocked (time : ℕ → ℤ) (prior : List (OAMessage String)) :
    (((List.range prior.length).map fun n => time (n + 1)).zip prior).map Prod.snd = prior :=
  List.map_snd_zip (by simp)

theorem isEmpty_newConversation (now : ℤ) (profile : Option String) (db : Db) :
    ((db.newConversation now profile none cid).getTurns cid).isEmpty = true ↔ stored cid db = [] := by
  rw [List.isEmpty_iff, ← stored_eq_nil_iff, stored_newConversation]

/-- What is taken over when an `add_turn` of the loop fails. -/
theorem stored_takeOver (hcold : stored r.cid db = []) (hnew : F.newConversation = false) (hget : F.getTurns = false)
    (h : ∃ k < (priorTurns r.messages).length, F.addTurn k = true) :
    ∃ k < (priorTurns r.messages).length, (k = 0 ↔ F.addTurn 0 = true) ∧
      stored r.cid (takeOver P F r db).2 = view ((priorTurns r.messages).take k) := by
  have hempty := (isEmpty_newConversation (r.time 0) (some r.profile) db).mpr hcold
  have hlength : (((List.range (priorTurns r.messages).length).map fun n => r.time (n + 1)).zip (priorTurns r.messages)).length =
      (priorTurns r.messages).length := by simp
  obtain ⟨k, hk, hfails⟩ := h
  obtain ⟨hstops, j, hj, hfirst, hstored⟩ := @seedTurnsF_fails (db.newConversation (r.time 0) (some r.profile) none r.cid) r.cid
    F.addTurn r.profile 0 (((List.range (priorTurns r.messages).length).map fun n => r.time (n + 1)).zip (priorTurns r.messages))
    ⟨k, by rwa [hlength], by rwa [Nat.zero_add]⟩
  rw [stored_newConversation, hcold, List.nil_append, map_snd_clocked] at hstored
  rw [hlength] at hj
  refine ⟨j, hj, hfirst, ?_⟩
  simp only [takeOver, hnew, hget, Bool.false_eq_true, if_false, hempty, if_true, hstops, true_or]
  exact hstored

/-- What is taken over when no call fails. -/
theorem stored_takeOver_none (P : Persistence) (r : V1Req) (db : Db) : stored r.cid (takeOver P .none r db).2 =
    if stored r.cid db = [] then view (priorTurns r.messages) else stored r.cid db := by
  have hcalls : Faults.none.newConversation = false ∧ Faults.none.getTurns = false ∧ Faults.none.again = false :=
    ⟨rfl, rfl, rfl⟩
  have hsecond : ∀ (Q : Prop) [Decidable Q] (w : Option Window) (d : Db), (if Q then (w, d) else (none, d)).2 = d := by
    intro Q _ w d
    split_ifs <;> rfl
  simp only [takeOver, hcalls, Bool.false_eq_true, if_false, and_false, or_false, seedTurnsF_none]
  by_cases hcold : stored r.cid db = []
  · have hempty := (isEmpty_newConversation (r.time 0) (some r.profile) db).mpr hcold
    simp only [hempty, if_true, Bool.true_eq_false, if_false, hsecond]
    rw [stored_seedTurns, stored_newConversation, hcold, List.nil_append, map_snd_clocked, if_pos rfl]
  · have hempty : ((db.newConversation (r.time 0) (some r.profile) none r.cid).getTurns r.cid).isEmpty = false := by
      rw [← Bool.not_eq_true, isEmpty_newConversation]
      exact hcold
    simp only [hempty, Bool.false_eq_true, Bool.true_eq_false, if_false, hsecond]
    rw [stored_newConversation, if_neg hcold]

section

variable (hok : P.convoOk = true) (hon : P.persistEnabled = true) (hcid : r.cid ≠ "")
include hok hon hcid

theorem stored_persistTurnF (fails : Bool) (now : ℤ) (role content profile : String) (topic : Option String) (db : Db) :
    stored r.cid (persistTurnF P fails now r.cid role content profile topic db) =
      stored r.cid db ++ if fails then [] else [(role, content)] := by
  rw [persistTurnF]
  split_ifs
  · rw [List.append_nil]
  · exact stored_persistTurn hok hon hcid now role content profile topic

/-- A request adds the turns of its own to what it has taken over. -/
theorem stored_v1ChatCompletionsF (F : Faults) (reply : Option String) (db : Db) :
    stored r.cid (v1ChatCompletionsF P F r reply db) = stored r.cid (takeOver P F r db).2 ++ ownTurns F r reply := by
  have hprepared : stored r.cid (prepareConversationF P F r db).2 =
      stored r.cid (takeOver P F r db).2 ++ if F.user then [] else [("user", latestUserText r.messages)] := by
    rw [prepareConversationF, if_pos ⟨hok, hon⟩]
    exact stored_persistTurnF hok hon hcid ..
  unfold v1ChatCompletionsF
  rw [ownTurns, ← List.append_assoc, ← hprepared]
  cases reply with
  | none => simp
  | some reply =>
    dsimp only
    rw [stored_persistTurnF hok hon hcid]
    rfl

/-- **Seeding is all or nothing**, when an `add_turn` of the loop fails, exactly if it is the first one and the
request records nothing itself. -/
theorem seedsWhole_iff (hcold : stored r.cid db = []) (hnew : F.newConversation = false) (hget : F.getTurns = false)
    (h : ∃ k < (priorTurns r.messages).length, F.addTurn k = true) :
    SeedsWhole P F r reply db ↔ F.addTurn 0 = true ∧ ownTurns F r reply = [] := by
  obtain ⟨k, hk, hfirst, htaken⟩ := @stored_takeOver P F r db hcold hnew hget h
  have hstored := stored_v1ChatCompletionsF hok hon hcid F reply db
  rw [htaken] at hstored
  constructor
  · rintro ⟨hwhole, hlater⟩
    rw [hstored] at hwhole hlater
    have hnone : k = 0 := by
      rcases hwhole with hwhole | hwhole
      · have hlen := congrArg List.length hwhole
        simp only [List.length_append, view, List.length_map, List.length_take] at hlen
        omega
      · have hlen := congrArg List.length hwhole
        simp only [List.length_append, view, List.length_map, List.length_take] at hlen
        omega
    refine ⟨hfirst.mp hnone, ?_⟩
    by_contra hown
    -- the next request finds a thread that is not empty, and has more turns before its message than that
    have hlinear : Linear (priorTurns r.messages ++ [⟨.user, ""⟩, ⟨.user, ""⟩]) := by
      intro m hm
      rcases List.mem_append.mp hm with hm | hm
      · simpa using (List.mem_filter.mp hm).2
      · have huser : m = ⟨.user, ""⟩ := by simpa using hm
        rw [huser]
        exact Role.noConfusion
    let e : Event := ⟨.send "", [], r.profile, none, r.time, none⟩
    have hprior := @priorTurns_request r.cid e _ "" hlinear
    have hseeds := hlater (by rw [hnone]; rfl) (e.request r.cid _ "") "" rfl (by rw [hprior]; exact List.prefix_append _ _)
    have hwarm : stored r.cid (v1ChatCompletionsF P F r reply db) ≠ [] := by
      rw [hstored]
      simp [hown]
    have hadds := @stored_v1ChatCompletionsF P (e.request r.cid (priorTurns r.messages ++ [⟨.user, ""⟩, ⟨.user, ""⟩]) "") hok hon
      hcid .none (some "") (v1ChatCompletionsF P F r reply db)
    rw [stored_takeOver_none, hprior] at hadds
    rw [hprior] at hseeds
    have hsame := hadds.symm.trans hseeds
    rw [List.append_cancel_right_eq, show (e.request r.cid _ "").cid = r.cid from rfl, if_neg hwarm, hstored, hnone] at hsame
    have hlen := congrArg List.length hsame
    have htwo : (ownTurns F r reply).length ≤ 2 := by
      unfold ownTurns
      cases reply <;> split_ifs <;> simp
    simp [view] at hlen
    omega
  · rintro ⟨hzero, hown⟩
    obtain rfl := hfirst.mpr hzero
    have hempty : stored r.cid (v1ChatCompletionsF P F r reply db) = [] := by
      rw [hstored, hown]
      rfl
    refine ⟨.inr (by rw [hempty, hown]), fun _ next text hnext _ => ?_⟩
    have hcid' : next.cid ≠ "" := by rwa [hnext]
    rw [← hnext] at hempty ⊢
    rw [stored_v1ChatCompletionsF hok hon hcid', stored_takeOver_none, if_pos hempty]

end

/-- A message and its reply, and a new message. -/
def secondMessage : V1Req where
  cid := "c"
  messages := [⟨.user, "hi"⟩, ⟨.assistant, "hello"⟩, ⟨.user, "and now?"⟩]
  profile := "default"
  topic := none
  time _ := 0

/-- The `n`-th `add_turn` of the loop fails, and that of the user turn may. -/
def failsAt (n : ℕ) (user : Bool) : Faults := { Faults.none with addTurn := fun k => k = n, user }

theorem seedsWhole_nothing : SeedsWhole persisting (failsAt 0 true) secondMessage none .empty :=
  (seedsWhole_iff rfl rfl (by decide) rfl rfl rfl ⟨0, by decide, rfl⟩).mpr ⟨rfl, rfl⟩

/-- The second `add_turn` fails, and the user turn is recorded: the reply in between is missing. -/
theorem not_seedsWhole_partial : ¬ SeedsWhole persisting (failsAt 1 false) secondMessage (some "now this") .empty := by
  intro h
  rcases h.whole with hwhole | hwhole
  · have hlen := congrArg List.length hwhole
    exact absurd hlen (by decide)
  · have hlen := congrArg List.length hwhole
    exact absurd hlen (by decide)

end Persona.Api
