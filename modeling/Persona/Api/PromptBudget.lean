import Persona.Api.Ledger
import Persona.Api.Prompt

/-!
# The size of a prompt

A thread grows without end, and so do the memory and what a client retrieves, while the model's context does not.
Each part of a prompt has its own cap for that: `window_turns` on the history, `_read_text` on the profile's texts,
`EXTERNAL_CONTEXT_MAX_CHARS` on the client's documents, and a length and a number for the memories.

`bounded_of_run` says that together they bound the prompt: whatever requests, passes of the sleep cycle and deletes
came before, it has at most `ceiling` characters beside the request's own text, its topic, the Task Board's block and
the notes made for it. In the messages form the contents of the history are not stripped, and the blanks around them
come on top.
-/

namespace Persona.Api.Prompt

open Persona.Lib
open Persona.Memory (Db Turn)
open Persona.Api.Deletion (chatId chatPrepare turns_insertConversation)

/-! ### The ceiling -/

/-- The caps are set, and the hard cap has room for a clipped turn. -/
structure Capped (H : Persistence) (E : ExternalContext) : Prop where
  turn : 1 ≤ H.maxTurnTokens
  history : H.maxTurnTokens + 11 ≤ H.hardCapTokens
  context : 0 ≤ E.maxChars

/-- The most characters of a part with a heading. -/
def partCeiling (header : String) (body : ℤ) : ℤ := chars header + body + 2

/-- Of the persona's text. -/
def personaCeiling : ℤ :=
  partCeiling (soulHeader "-") 12002 + partCeiling (hermesHeader "-") 12002 + partCeiling identityHeader 4002 +
    chars outputFormat

/-- Of the history, under a hard cap. -/
def historyCeiling (hardCap : ℤ) : ℤ := 19 * hardCap + (chars recentHeader + chars summaryHeader + summaryMax + 1)

/-- Of at most `k` memories. -/
def memoriesCeiling (k : ℕ) : ℤ := k * (chars (toString k) + 284)

/-- Of the parts that come with a request's text. -/
def requestCeiling (S : Settings) (E : ExternalContext) : ℤ :=
  partCeiling "User:\n" 0 + partCeiling externalHeader (E.maxChars + 26) + partCeiling tasksHeader 0 +
    partCeiling memoriesHeader (memoriesCeiling S.ragTopK.toNat) + partCeiling notesHeader 0

/-- Of all that a request does not bring with it. -/
def ceiling (S : Settings) (H : Persistence) (E : ExternalContext) : ℤ :=
  10 + (personaCeiling + 2) + partCeiling "Topic: " 0 + partCeiling "" (historyCeiling H.hardCapTokens) +
    requestCeiling S E + chars "Assistant:\n"

/-- The characters that a request brings with it. -/
def Generation.own (g : Generation) : ℤ := chars g.userText + chars g.topic + chars g.tasksBlock + chars g.reasoningNotes

/-- The blanks around the contents of a window's turns. -/
def padding (w : Window) : ℤ := (w.recent.map fun t => chars t.content - chars (PyText.strip t.content)).sum

/-- What the model is sent is within the ceiling, but for what the request brings with it. -/
structure Bounded (S : Settings) (U : PyText.Unicode) (F : Files) (H : Persistence) (E : ExternalContext)
    (g : Generation) : Prop where
  prompt : ∀ text, personaGenerate S U F g = .prompt text → chars text ≤ ceiling S H E + g.own
  messages : ∀ msgs thinks, personaGenerate S U F g = .messages msgs thinks →
    (msgs.map fun m => chars m.2).sum ≤ ceiling S H E + g.own + g.history.elim 0 padding

/-! ### Texts that are cut -/

section

variable {S : Settings} {U : PyText.Unicode} {F : Files} {H : Persistence} {E : ExternalContext} {g : Generation}
  {body a b : String} {n : ℤ}

theorem chars_titled_le (header : String) (h : chars body ≤ n) (hn : 0 ≤ n) : chars (titled header body) ≤ partCeiling header n := by
  have hgap : chars "\n\n" = 2 := by decide
  have hnone : chars "" = 0 := by decide
  have hheader := chars_nonneg header
  unfold titled partCeiling
  split_ifs
  · omega
  · rw [chars_append, chars_append, hgap]
    omega

theorem chars_orText_le (ha : chars a ≤ n) (hb : chars b ≤ n) : chars (orText a b) ≤ n := by
  unfold orText
  split_ifs
  · exact hb
  · exact ha

theorem chars_rstrip_take_le (limit : ℕ) (cs : List Char) : chars (PyText.rstrip (String.ofList (cs.take limit))) ≤ limit := by
  have hcut := length_rstripL_le (cs.take limit)
  rw [List.length_take] at hcut
  rw [chars, PyText.rstrip, String.toList_ofList, String.toList_ofList]
  omega

theorem chars_readText_le (limit : ℕ) (file : Option String) : chars (readText limit file) ≤ limit + 2 := by
  have hdots : chars "\n…" = 2 := by decide
  cases file with
  | none =>
    have hnone : chars (readText limit none) = 0 := by
      show chars "" = 0
      decide
    omega
  | some s =>
    unfold readText
    dsimp only
    split_ifs with hlong
    · have hcut := chars_rstrip_take_le limit (PyText.strip s).toList
      rw [chars_append, hdots]
      omega
    · rw [chars]
      omega

/-! ### The parts -/

theorem chars_thinkingPrefix_le (topic : String) (mode : Option String) (text : String) :
    chars (thinkingPrefix S U topic mode text) ≤ 10 := by
  have hthink : chars "/think\n" = 7 := by decide
  have hno : chars "/no_think\n" = 10 := by decide
  unfold thinkingPrefix
  split_ifs
  · omega
  · omega

theorem chars_selfIdentitySection_le : chars (selfIdentitySection S F) ≤ partCeiling identityHeader 4002 := by
  have hnone : chars "" = 0 := by decide
  refine chars_titled_le identityHeader ?_ (by omega)
  unfold loadSelfIdentity
  split_ifs
  · omega
  · exact chars_readText_le 4000 F.identity

theorem chars_dash (before after : String) {dash : String} (hdash : chars dash = 1) :
    chars (before ++ dash ++ after) = chars (before ++ "-" ++ after) := by
  have hone : chars "-" = 1 := by decide
  rw [chars_append, chars_append, chars_append, chars_append, hdash, hone]

theorem chars_soulHeader {dash : String} (hdash : chars dash = 1) : chars (soulHeader dash) = chars (soulHeader "-") :=
  chars_dash _ _ hdash

theorem chars_hermesHeader {dash : String} (hdash : chars dash = 1) :
    chars (hermesHeader dash) = chars (hermesHeader "-") := chars_dash _ _ hdash

theorem chars_personaText_le (dash : String) (hdash : chars dash = 1) (profile : String) :
    chars (personaText S F dash profile) ≤ personaCeiling := by
  have hgap : chars "\n\n" = 2 := by decide
  have hsoul : chars (orText (readText 12000 (F.soul profile)) "(SOUL.md missing)") ≤ 12002 :=
    chars_orText_le (chars_readText_le 12000 _) (by decide)
  have hhermes : chars (orText (readText 12000 (F.hermes profile)) "(.hermes.md missing)") ≤ 12002 :=
    chars_orText_le (chars_readText_le 12000 _) (by decide)
  have hidentity := chars_selfIdentitySection_le (S := S) (F := F)
  unfold personaText personaCeiling
  split_ifs
  · simp only [loadProfileWrappers, chars_append, chars_soulHeader hdash, chars_hermesHeader hdash, hgap]
    unfold partCeiling at hidentity ⊢
    linarith
  · have hplain : chars "You are a helpful assistant." = 28 := by decide
    have hsoulHeader := chars_nonneg (soulHeader "-")
    have hhermesHeader := chars_nonneg (hermesHeader "-")
    have hidentityHeader := chars_nonneg identityHeader
    have houtput := chars_nonneg outputFormat
    unfold partCeiling
    linarith

/-- A number has at most the digits of a larger one. -/
theorem chars_toString_mono {i k : ℕ} (h : i ≤ k) : chars (toString i) ≤ chars (toString k) := by
  have hlt : ∀ n : ℕ, (toString n).toList.length = n.repr.length := fun n => String.length_toList
  have hpos : 0 < k.repr.length := Nat.length_repr_pos
  have hk : k < 10 ^ k.repr.length := (Nat.length_repr_le_iff hpos).mp le_rfl
  have hi : i.repr.length ≤ k.repr.length := (Nat.length_repr_le_iff hpos).mpr (h.trans_lt hk)
  rw [chars, chars, hlt, hlt]
  exact Int.ofNat_le.mpr hi

/-- The lines of at most `k` memories. -/
theorem chars_formatRagContext_le {docs : List String} {k : ℕ} (h : docs.length ≤ k) :
    chars (formatRagContext docs) ≤ memoriesCeiling k := by
  have hbreak : chars "\n" = 1 := by decide
  have hparen : chars ") " = 2 := by decide
  have hk := chars_nonneg (toString k)
  have hline : ∀ n ∈ ((docs.zipIdx 1).map fun d => ragLine d.1 d.2).map chars, n ≤ chars (toString k) + 283 := by
    intro n hn
    simp only [List.map_map, List.mem_map, Function.comp] at hn
    obtain ⟨⟨doc, i⟩, hd, rfl⟩ := hn
    have hi : i ≤ k := by
      have := (List.mem_zipIdx hd).2.1
      omega
    have hdigits := chars_toString_mono hi
    have hcut := length_ragSnippet_le doc
    have hsnippet : chars (ragSnippet doc) ≤ 281 := by
      rw [chars]
      omega
    rw [ragLine, chars_append, chars_append, hparen]
    linarith
  by_cases hnone : docs = []
  · subst hnone
    have hempty : chars (formatRagContext []) = 0 := by decide
    rw [hempty, memoriesCeiling]
    positivity
  · have hne : (docs.zipIdx 1).map (fun d => ragLine d.1 d.2) ≠ [] := by simpa using hnone
    have hsum := List.sum_le_card_nsmul _ _ hline
    rw [formatRagContext, chars_intercalate _ hne, hbreak, memoriesCeiling]
    simp only [List.length_map, List.length_zipIdx, nsmul_eq_mul] at hsum ⊢
    nlinarith [hsum, hk, h]

/-! ### The history -/

/-- A turn as the requests store it. -/
structure Measured (t : Turn) : Prop where
  tokens : Estimated t
  role : t.role = "user" ∨ t.role = "assistant"

variable {t : Turn} {turns kept : List Turn} {m : ℤ}

theorem role_truncateTurn (m : ℤ) (t : Turn) : (truncateTurn m t).role = t.role := by
  unfold truncateTurn
  split_ifs <;> rfl

theorem chars_label_le (ht : Measured t) : chars (label (truncateTurn m t).role) ≤ 9 := by
  rw [role_truncateTurn]
  rcases ht.role with h | h
  · rw [h]
    decide
  · rw [h]
    decide

theorem historyOptions_eq (hcap : Capped H E) :
    historyOptions H = options H.maxTurnTokens H.hardCapTokens H.tokenBudget H.minRecent := by
  have hturn := hcap.turn
  have hhistory := hcap.history
  have hm : H.maxTurnTokens ≠ 0 := by omega
  have hh : H.hardCapTokens ≠ 0 := by omega
  simp only [historyOptions, options, hm, hh, if_false]

/-- A turn has a token at least, so the hard cap bounds their number. -/
theorem length_le_clippedTokens (hkept : ∀ t ∈ kept, Measured t) : (kept.length : ℤ) ≤ clippedTokens m kept := by
  induction kept with
  | nil => simp [clippedTokens]
  | cons t kept ih =>
    have hrest := ih fun u hu => hkept u (List.mem_cons_of_mem t hu)
    have ht : 1 ≤ tok (truncateTurn m t) := by
      rw [tok_of_estimated (estimated_truncateTurn (hkept t List.mem_cons_self).tokens)]
      exact (estimateTokens_bounds _).1
    rw [clippedTokens, List.map_cons, List.sum_cons, ← clippedTokens, List.length_cons]
    push_cast
    omega

/-- What a window holds: few turns, with short labels, and little text beside its padding. -/
theorem window_sizes (hcap : Capped H E) (hturns : ∀ t ∈ turns, Measured t) {w : Window}
    (hw : w = windowTurns (historyOptions H) turns) :
    (w.recent.length : ℤ) ≤ H.hardCapTokens ∧ (∀ t ∈ w.recent, chars (label t.role) ≤ 9) ∧
      (w.recent.map fun t => chars (PyText.strip t.content)).sum ≤ 7 * H.hardCapTokens ∧
      summaryChars w ≤ summaryMax + chars summaryHeader := by
  subst hw
  rw [historyOptions_eq hcap]
  obtain ⟨kept, hsplit, hrecent, hclipped, -⟩ := windowTurns_spec hcap.turn hcap.history
    (fun t ht => (hturns t ht).tokens) H.tokenBudget H.minRecent
  have hkept : ∀ t ∈ kept, Measured t := fun t ht => hturns t (hsplit ▸ List.mem_append_right _ ht)
  have hlength := length_le_clippedTokens (m := H.maxTurnTokens) hkept
  have hstripped := stripped_le (m := H.maxTurnTokens) fun t ht => (hkept t ht).tokens
  refine ⟨?_, fun t ht => ?_, ?_, summaryChars_le _ _ _ _ _⟩
  · rw [hrecent, List.length_map]
    omega
  · rw [hrecent] at ht
    obtain ⟨u, hu, rfl⟩ := List.mem_map.mp ht
    exact chars_label_le (hkept u hu)
  · rw [hrecent]
    omega

theorem chars_renderHistoryText_le (hcap : Capped H E) (hturns : ∀ t ∈ turns, Measured t) :
    chars (renderHistoryText (windowTurns (historyOptions H) turns)) ≤ historyCeiling H.hardCapTokens := by
  obtain ⟨hlength, hlabels, hstripped, hsummary⟩ := window_sizes hcap hturns rfl
  generalize windowTurns (historyOptions H) turns = w at *
  have htext := text_chars w
  have hheader := chars_nonneg recentHeader
  have hturn := hcap.turn
  have hhistory := hcap.history
  have hframe : frameChars w ≤ chars recentHeader + 12 * H.hardCapTokens + 1 := by
    have hsum := List.sum_le_card_nsmul (w.recent.map fun t => chars (label t.role) + 2) 11 fun n hn => by
      obtain ⟨t, ht, rfl⟩ := List.mem_map.mp hn
      have hlabel := hlabels t ht
      omega
    rw [List.length_map, nsmul_eq_mul] at hsum
    unfold frameChars
    split_ifs
    · omega
    · omega
    · omega
  unfold historyCeiling
  omega

theorem chars_renderHistoryMessages_le (hcap : Capped H E) (hturns : ∀ t ∈ turns, Measured t) :
    ((renderHistoryMessages (windowTurns (historyOptions H) turns)).map fun msg => chars msg.2).sum ≤
      historyCeiling H.hardCapTokens + padding (windowTurns (historyOptions H) turns) := by
  obtain ⟨-, -, hstripped, hsummary⟩ := window_sizes hcap hturns rfl
  generalize windowTurns (historyOptions H) turns = w at *
  have hheader := chars_nonneg recentHeader
  have hturn := hcap.turn
  have hhistory := hcap.history
  have hpadding : (w.recent.map fun t => chars t.content).sum =
      (w.recent.map fun t => chars (PyText.strip t.content)).sum + padding w := by
    rw [padding, ← List.sum_map_add]
    congr 1
    refine List.map_congr_left fun t _ => ?_
    ring
  rw [messages_chars, hpadding]
  unfold historyCeiling
  omega

end

/-! ### The turns of the database -/

/-- All turns of a database are as the requests store them. -/
def AllMeasured (db : Db) : Prop := ∀ t ∈ db.turns, Measured t

section

variable {H : Persistence} {E : ExternalContext} {db : Db} {cid : String}

theorem allMeasured_insertConversation (h : AllMeasured db) (c : Memory.Conversation) :
    AllMeasured (db.insertConversation c) := by
  rw [AllMeasured, turns_insertConversation]
  exact h

theorem allMeasured_addTurn (h : AllMeasured db) {role : String} (hrole : role = "user" ∨ role = "assistant") (now : ℤ)
    (cid content : String) (profile topic : Option String) :
    AllMeasured (db.addTurn now cid role content profile topic (some (estimateTokens content))) := by
  intro t ht
  rw [Db.turns_addTurn, List.mem_append, List.mem_singleton] at ht
  rcases ht with ht | rfl
  · exact h t ht
  · exact ⟨rfl, hrole⟩

theorem allMeasured_persistTurn (h : AllMeasured db) {role : String} (hrole : role = "user" ∨ role = "assistant") (now : ℤ)
    (cid content profile : String) (topic : Option String) :
    AllMeasured (persistTurn H now cid role content profile topic db) := by
  unfold persistTurn
  split_ifs
  · exact allMeasured_addTurn h hrole now cid content _ topic
  · exact h

theorem allMeasured_seedTurns {ms : List (ℤ × OAMessage String)} (h : AllMeasured db)
    (hms : ∀ m ∈ ms, m.2.role ≠ .system) (profile : String) : AllMeasured (seedTurns cid profile ms db) := by
  induction ms generalizing db with
  | nil => exact h
  | cons m ms ih =>
    have hrole : m.2.role.name = "user" ∨ m.2.role.name = "assistant" := by
      have hne := hms m List.mem_cons_self
      cases hm : m.2.role with
      | system => exact absurd hm hne
      | user => exact .inl rfl
      | assistant => exact .inr rfl
    exact ih (allMeasured_addTurn h hrole _ _ _ _ _) fun m' hm' => hms m' (List.mem_cons_of_mem m hm')

theorem allMeasured_markDistilled (h : AllMeasured db) (ids : List ℕ) (summary : Option String) :
    AllMeasured (db.markDistilled ids summary) := by
  intro t ht
  obtain ⟨u, hu, rfl⟩ := List.mem_map.mp ht
  have hsame : (Db.mark ids summary u).tokens = u.tokens ∧ (Db.mark ids summary u).content = u.content ∧
      (Db.mark ids summary u).role = u.role := by
    unfold Db.mark
    split_ifs <;> exact ⟨rfl, rfl, rfl⟩
  obtain ⟨htokens, hcontent, hrole⟩ := hsame
  exact ⟨by rw [Estimated, htokens, hcontent]; exact (h u hu).tokens, by rw [hrole]; exact (h u hu).role⟩

theorem measured_of_mem_getTurns (h : AllMeasured db) : ∀ t ∈ db.getTurns cid, Measured t := by
  intro t ht
  rw [Db.getTurns, List.mem_insertionSort] at ht
  exact h t (List.mem_of_mem_filter ht)

/-- The roles of what a cold thread is seeded with. -/
theorem role_of_mem_priorTurns {messages : List (OAMessage String)} {m : OAMessage String} (hm : m ∈ priorTurns messages) :
    m.role ≠ .system := by
  unfold priorTurns at hm
  exact of_decide_eq_true (List.mem_filter.mp hm).2

/-- Whether a history is the window of some measured turns. -/
def IsWindow (H : Persistence) (history : Option Window) : Prop :=
  ∀ w ∈ history, ∃ turns : List Turn, (∀ t ∈ turns, Measured t) ∧ w = windowTurns (historyOptions H) turns

theorem isWindow_ite {p : Prop} [Decidable p] {turns : List Turn} (h : ∀ t ∈ turns, Measured t) :
    IsWindow H (if p then some (windowTurns (historyOptions H) turns) else none) := by
  intro w hw
  split_ifs at hw
  · exact ⟨turns, h, (Option.mem_some.mp hw).symm⟩
  · cases hw

/-- **A `/v1` request** windows measured turns, and leaves them so. -/
theorem prepareConversation_measured (h : AllMeasured db) (r : V1Req) :
    IsWindow H (prepareConversation H r db).1 ∧ AllMeasured (prepareConversation H r db).2 := by
  have hseed : AllMeasured (seedTurns r.cid r.profile
      (((List.range (priorTurns r.messages).length).map fun n => r.time (n + 1)).zip (priorTurns r.messages))
      (db.newConversation (r.time 0) (some r.profile) none r.cid)) :=
    allMeasured_seedTurns (allMeasured_insertConversation h _)
      (fun m hm => role_of_mem_priorTurns (List.of_mem_zip hm).2) r.profile
  have hseeded : AllMeasured (if H.convoOk = true ∧ H.persistEnabled = true then
      if ((db.newConversation (r.time 0) (some r.profile) none r.cid).getTurns r.cid).isEmpty then
        seedTurns r.cid r.profile
          (((List.range (priorTurns r.messages).length).map fun n => r.time (n + 1)).zip (priorTurns r.messages))
          (db.newConversation (r.time 0) (some r.profile) none r.cid)
      else db.newConversation (r.time 0) (some r.profile) none r.cid
    else db) := by
    split_ifs
    · exact hseed
    · exact allMeasured_insertConversation h _
    · exact h
  exact ⟨isWindow_ite (measured_of_mem_getTurns hseeded), allMeasured_persistTurn hseeded (.inl rfl) _ _ _ _ _⟩

/-- **A `/chat` request** does so too. -/
theorem chatPrepare_measured (h : AllMeasured db) (r : Deletion.ChatReq) :
    IsWindow H (chatPrepare H r db).1 ∧ AllMeasured (chatPrepare H r db).2 := by
  have hmade : AllMeasured (if H.convoOk = true ∧ H.persistEnabled = true ∧ r.conversationId.getD "" = "" then
      db.newConversation (r.time 0) (some r.profile) none (chatId H r) else db) := by
    split_ifs
    · exact allMeasured_insertConversation h _
    · exact h
  exact ⟨isWindow_ite (measured_of_mem_getTurns hmade), allMeasured_persistTurn hmade (.inl rfl) _ _ _ _ _⟩

end

section

variable {V : Type*} {D : Deletion.Server} {w w' : Deletion.World V} {e : Deletion.Event V} {es : List (Deletion.Event V)}

/-- Whatever happens, the turns stay measured. -/
theorem allMeasured_step (h : AllMeasured w.st.db) (hstep : Deletion.Step D w e w') : AllMeasured w'.st.db := by
  cases hstep with
  | chat => exact (chatPrepare_measured h _).2
  | v1 => exact (prepareConversation_measured h _).2
  | failed ht hs => exact h
  | replied ht hs => exact allMeasured_persistTurn h (.inr rfl) _ _ _ _ _
  | noted ht hs => exact h
  | delete hok => exact fun t ht => h t (List.mem_of_mem_filter ht)
  | start hp =>
    dsimp only
    rw [(Deletion.start_cases hp).1]
    exact h
  | row hp =>
    dsimp only
    rw [(Deletion.row_cases hp).1]
    exact h
  | answer hp =>
    obtain ⟨T, c, rest, -, hst, -⟩ := Deletion.answer_cases hp
    dsimp only
    rw [hst, Memory.db_finishCall]
    split_ifs
    · exact allMeasured_markDistilled h _ _
    · exact h

theorem allMeasured_of_run (h : AllMeasured w.st.db) (hrun : Run (Deletion.Step D) w es w') : AllMeasured w'.st.db := by
  apply hrun.inv (I := fun u => AllMeasured u.st.db) _ h
  intro u e u' hu hstep
  exact allMeasured_step hu hstep

end

/-! ### The prompt -/

section

variable {V : Type*} {S : Settings} {U : PyText.Unicode} {D : Deletion.Server} {E : ExternalContext} {A : Surroundings V}
  {H : Persistence} {F : Files} {g : Generation} {db : Db} {r : Request}

/-- What a request hands to `persona_generate` is capped, but for what it brings with it. -/
structure Tame (S : Settings) (H : Persistence) (E : ExternalContext) (g : Generation) : Prop where
  docs : g.ragDocs.length ≤ S.ragTopK.toNat
  context : chars g.externalContext ≤ E.maxChars + 26
  history : IsWindow H g.history

theorem length_ragDocs_le (profile topic text : String) : (ragDocs S U D A profile topic text).length ≤ S.ragTopK.toNat := by
  unfold ragDocs
  split_ifs
  · exact List.length_take_le _ _
  · exact Nat.zero_le _

/-- The client's documents are cut at their cap. -/
theorem chars_externalContext_le (hmax : 0 ≤ E.maxChars) (messages : List (OAMessage String)) :
    chars (externalContext E messages) ≤ E.maxChars + 26 := by
  have hmarker : (PyText.PyStr.ofString "\n...[context truncated]...").length = 26 := by decide
  rw [chars, externalContext, String.toList_ofList, List.length_map]
  generalize messages.map (fun m => (⟨m.role, PyText.PyStr.ofString m.content⟩ : OAMessage PyText.PyStr)) = ms
  unfold injectedContext
  dsimp only
  split_ifs
  · rw [List.length_nil]
    omega
  · rw [List.length_nil]
    omega
  · rw [List.length_nil]
    omega
  · rename_i hlong
    generalize joinBlank _ = ctx at hlong
    have hcut : (PyText.PyStr.rstrip (PyText.PyStr.upTo E.maxChars ctx)).length ≤ E.maxChars.toNat := by
      rw [PyText.PyStr.rstrip, List.length_reverse]
      refine (List.dropWhile_suffix _).length_le.trans ?_
      rw [List.length_reverse, PyText.PyStr.upTo, if_pos hmax]
      exact List.length_take_le _ _
    rw [List.length_append, hmarker]
    omega
  · omega

theorem tame_generation (hcap : Capped D.persistence E) (hdb : AllMeasured db) (r : Request) :
    Tame S D.persistence E (r.generation S U D E A db) := by
  have hcontext := hcap.context
  cases r with
  | v1 q r =>
    exact ⟨length_ragDocs_le _ _ _, chars_externalContext_le hcontext r.messages, (prepareConversation_measured hdb r).1⟩
  | chat q r notes =>
    have hnone : chars "" = 0 := by decide
    refine ⟨length_ragDocs_le _ _ _, ?_, (chatPrepare_measured hdb r).1⟩
    show chars "" ≤ _
    omega

theorem historyCeiling_nonneg (hcap : Capped H E) : 0 ≤ historyCeiling H.hardCapTokens := by
  have hturn := hcap.turn
  have hhistory := hcap.history
  have hrecent := chars_nonneg recentHeader
  have hsummary := chars_nonneg summaryHeader
  unfold historyCeiling
  omega

theorem chars_history_le (hcap : Capped H E) (hg : IsWindow H g.history) :
    chars (g.history.elim "" renderHistoryText) ≤ historyCeiling H.hardCapTokens := by
  have hnonneg := historyCeiling_nonneg hcap
  cases hw : g.history with
  | none =>
    have hnone : chars "" = 0 := by decide
    show chars "" ≤ _
    omega
  | some w =>
    obtain ⟨turns, hturns, rfl⟩ := hg w hw
    exact chars_renderHistoryText_le hcap hturns

theorem chars_historyMessages_le (hcap : Capped H E) (hg : IsWindow H g.history) :
    ((g.history.elim [] renderHistoryMessages).map fun m => chars m.2).sum ≤
      historyCeiling H.hardCapTokens + g.history.elim 0 padding := by
  have hnonneg := historyCeiling_nonneg hcap
  cases hw : g.history with
  | none =>
    show (0 : ℤ) ≤ historyCeiling H.hardCapTokens + 0
    omega
  | some w =>
    obtain ⟨turns, hturns, rfl⟩ := hg w hw
    exact chars_renderHistoryMessages_le hcap hturns

theorem chars_request_le (hmax : 0 ≤ E.maxChars) (hg : Tame S H E g) :
    chars (request g) ≤ requestCeiling S E + chars g.userText + chars g.tasksBlock + chars g.reasoningNotes := by
  have hgap : chars "\n\n" = 2 := by decide
  have hexternal := chars_titled_le externalHeader hg.context (by omega)
  have htasks := chars_titled_le tasksHeader (le_refl (chars g.tasksBlock)) (chars_nonneg _)
  have hmemories := chars_titled_le memoriesHeader (chars_formatRagContext_le hg.docs) (by
    have hk := chars_nonneg (toString S.ragTopK.toNat)
    rw [memoriesCeiling]
    positivity)
  have hnotes := chars_titled_le notesHeader (le_refl (chars g.reasoningNotes)) (chars_nonneg _)
  rw [request, chars_append, chars_append, chars_append, chars_append, chars_append, chars_append, hgap]
  unfold requestCeiling
  simp only [partCeiling] at *
  linarith

/-- **The ceiling holds** of what a request hands on, if that is tame. -/
theorem bounded_of_tame (hcap : Capped H E) (hg : Tame S H E g) : Bounded S U F H E g where
  prompt := by
    intro text htext
    have hgap : chars "\n\n" = 2 := by decide
    have hdirective := chars_thinkingPrefix_le (S := S) (U := U) g.topic g.thinkingMode g.userText
    have hpersona := chars_personaText_le (S := S) (F := F) "—" (by decide) g.profile
    have hhistory := chars_titled_le "" (chars_history_le hcap hg.history) (historyCeiling_nonneg hcap)
    have hrequest := chars_request_le hcap.context hg
    unfold personaGenerate at htext
    split_ifs at htext
    obtain rfl := (Sent.prompt.inj htext).symm
    simp only [buildPersonaPrompt, chars_append, hgap]
    unfold ceiling Generation.own
    simp only [partCeiling, requestCeiling] at *
    linarith
  messages := by
    intro msgs thinks hmsgs
    have hgap : chars "\n\n" = 2 := by decide
    have hpersona := chars_personaText_le (S := S) (F := F) "-" (by decide) g.profile
    have hsystem := chars_strip_le (personaText S F "-" g.profile)
    have huser := chars_strip_le ("Topic: " ++ g.topic ++ "\n\n" ++ request g)
    have hhistory := chars_historyMessages_le hcap hg.history
    have hrequest := chars_request_le hcap.context hg
    have hassistant := chars_nonneg "Assistant:\n"
    have hnone := chars_nonneg ""
    unfold personaGenerate at hmsgs
    split_ifs at hmsgs
    obtain ⟨rfl, -⟩ := Sent.messages.inj hmsgs.symm
    rw [buildPersonaMessages, List.map_cons, List.sum_cons, List.map_append, List.sum_append, List.map_singleton,
      List.sum_singleton]
    rw [chars_append, chars_append, chars_append, hgap] at huser
    unfold ceiling Generation.own
    simp only [partCeiling, requestCeiling] at *
    linarith

end

section

variable {V : Type*}

/-- **No thread, memory or client can outgrow the context**: whatever requests, passes and deletes came before, the
prompt of a request is within the ceiling, but for what the request brings with it. -/
theorem bounded_of_run {S : Settings} {U : PyText.Unicode} {D : Deletion.Server} {E : ExternalContext}
    {w w' : Deletion.World V} {es : List (Deletion.Event V)} (hcap : Capped D.persistence E)
    (hdb : AllMeasured w.st.db) (hrun : Run (Deletion.Step D) w es w') (A : Surroundings V) (r : Request) :
    Bounded S U A.files D.persistence E (r.generation S U D E A w'.st.db) :=
  bounded_of_tame hcap (tame_generation hcap (allMeasured_of_run hdb hrun) r)

end

/-- The settings by default. -/
def defaults : Settings where
  topicRouting := false
  thinkingMode := "auto"
  thinkingTopics := ["science", "biology", "coding", "math", "research"]
  autoGate := false
  trivialMaxWords := 6
  complexMinWords := 30
  gateKeywords := ["why", "how", "explain"]
  profileWrappers := true
  selfIdentity := true
  ragEnabled := true
  ragTopK := 6
  kindsForChat := ["fact", "project_doc"]
  kindsForScience := ["fact", "scientist_note", "project_doc"]
  tasksInchat := true
  tasksLimit := 8
  inbandEnabled := false
  inbandTopics := ["science", "biology", "coding", "math"]
  useMessages := false

/-- A request that finds the profile's files missing, and nothing in the stores. -/
def bare : Surroundings ℤ :=
  ⟨⟨fun _ => none, fun _ => none, none⟩, .empty, fun _ => ⟨some 0, ⟨fun _ ps => ps, fun _ ps => .refl ps⟩, true⟩, some ∅⟩

/-- A second message, while the first waits for its reply. -/
theorem bounded_of_run_waiting :
    Bounded defaults .ascii bare.files Deletion.plainServer.persistence ⟨true, 24000⟩
      ((Request.chat ⟨none, none⟩ Deletion.hi "").generation defaults .ascii Deletion.plainServer ⟨true, 24000⟩ bare
        Deletion.waiting.st.db) :=
  bounded_of_run (w := Deletion.World.quiet .empty) ⟨by decide, by decide, by decide⟩
    (fun _ ht => (List.not_mem_nil ht).elim) Deletion.run_waiting bare _

end Persona.Api.Prompt
