import Persona.Api.Deletion
import Persona.Intake.Blanks
import Persona.Lib.Decimal
import Persona.Lib.Lines
import Persona.Lib.Regex
import Mathlib.Data.List.Infix
import Mathlib.Data.String.Basic

/-!
# The prompt

What `services/api/server.py` sends to the model for a request: the topic and whether the model is to think,
the profile's texts, the windowed history, the client's retrieved documents, the Task Board, and the memories
that a query of the vector store finds.

A memory is anything that was once distilled or dropped into the inbox, line breaks included.
`recalled_of_request` says that it takes one line of the prompt all the same, behind its number, cut to 281
characters, and that it is a memory of the request's profile and of a kind its topic allows.
-/

namespace Persona.Api.Prompt

open Persona.Lib Persona.TaskBoard
open Persona.Memory (Db Turn)
open Persona.Api.Deletion (chatPrepare)

/-! ### The settings -/

/-- The settings of a prompt. -/
structure Settings where
  /-- `TOPIC_ROUTING_DEFAULT`. -/
  topicRouting : Bool
  /-- `THINKING_MODE_DEFAULT`, `THINKING_MODE_TOPICS`. -/
  thinkingMode : String
  thinkingTopics : List String
  /-- `THINKING_AUTO_GATE` and the `THINKING_GATE_*` settings. -/
  autoGate : Bool
  trivialMaxWords : ℤ
  complexMinWords : ℤ
  gateKeywords : List String
  /-- `PROFILE_WRAPPERS_ENABLED`, `SELF_IDENTITY_ENABLED`. -/
  profileWrappers : Bool
  selfIdentity : Bool
  /-- `RAG_ENABLED`, `RAG_TOP_K`, `RAG_KINDS_FOR_CHAT`, `RAG_KINDS_FOR_SCIENCE`. -/
  ragEnabled : Bool
  ragTopK : ℤ
  kindsForChat : List String
  kindsForScience : List String
  /-- `TASKS_INCHAT_ENABLED`, `TASKS_INCHAT_LIMIT`. -/
  tasksInchat : Bool
  tasksLimit : ℕ
  /-- `REASONING_INBAND_ENABLED`, `REASONING_INBAND_TOPICS`. -/
  inbandEnabled : Bool
  inbandTopics : List String
  /-- `PERSONA_USE_MESSAGES`. -/
  useMessages : Bool

variable (S : Settings) (U : PyText.Unicode) (P : Python)

/-! ### The topic -/

/-- `TOPIC_KEYWORDS`, in the order of `TOPIC_PRIORITY`. -/
def topicKeywords : List (String × List String) :=
  [("coding", ["code", "function", "bug", "compile", "compiler", "debug", "regex", "stack trace", "exception",
      "traceback", "variable", "async", "git", "refactor", "python", "javascript", "typescript", "rust", "java",
      "sql", "api", "endpoint", "import", "syntax", "runtime", "null pointer"]),
    ("math", ["calculate", "equation", "integral", "derivative", "theorem", "proof", "algebra", "geometry",
      "probability", "matrix", "vector", "factorial", "polynomial", "logarithm", "summation", "modulo", "factorize"]),
    ("biology", ["cell", "dna", "rna", "protein", "gene", "genome", "organism", "enzyme", "neuron", "evolution",
      "species", "bacteria", "virus", "mitochondria", "photosynthesis", "chromosome", "metabolism"]),
    ("science", ["physics", "chemistry", "molecule", "atom", "quantum", "energy", "experiment", "hypothesis",
      "reaction", "thermodynamics", "velocity", "electron", "compound", "isotope", "gravity", "voltage"]),
    ("research", ["research", "paper", "citation", "literature", "survey", "methodology", "peer-reviewed", "study",
      "meta-analysis", "abstract", "findings", "references"])]

/-- `kw in low`. -/
def contains (low kw : String) : Bool := decide (kw.toList <:+: low.toList)

/-- The loop of `classify_topic`, with the best topic so far and its score. -/
def bestTopic (low best : String) (score : ℕ) : List (String × List String) → String
  | [] => best
  | (topic, keywords) :: rest =>
    let n := keywords.countP (contains low)
    if score < n then bestTopic low topic n rest else bestTopic low best score rest

/-- `classify_topic`. -/
def classifyTopic (text : String) : String := bestTopic (U.lower text) "chat" 0 topicKeywords

/-- `resolve_topic`. -/
def resolveTopic (req : Option String) (text : String) : String :=
  let rt := U.lower (PyText.strip (req.getD ""))
  if rt = "auto" then classifyTopic U text
  else if rt ≠ "" ∧ rt ≠ "chat" then rt
  else if S.topicRouting = true then classifyTopic U text
  else if rt = "" then "chat" else rt

/-- `rag_kinds_for_topic`. -/
def ragKindsForTopic (topic : String) : List String :=
  if U.lower (PyText.strip (if topic = "" then "chat" else topic)) ∈ ["science", "biology", "math", "coding"] then
    S.kindsForScience
  else S.kindsForChat

/-! ### Thinking -/

/-- `\b`. -/
def boundary : Regex Char := .look (Rag.wordBoundary U)

/-- `\b`, a word, and what comes after it. -/
def atWord (w : String) (r : Regex Char) : Regex Char := .seq (boundary U) (.seq (Regex.literal w.toList) r)

/-- `\bdef \w+\s*\(|\bclass \w+\s*[:(]|\bimport \w+`. -/
def codePattern : Regex Char :=
  let name := Regex.plus U.isWord
  let opened (ends : List Char) : Regex Char := .seq name (.seq (.many PyText.isSpace) (.one (· ∈ ends)))
  .alt (atWord U "def " (opened ['('])) (.alt (atWord U "class " (opened [':', '('])) (atWord U "import " name))

/-- `classify_triviality`: whether the text is worth reasoning about, and the signals. -/
def classifyTriviality (text : String) : Bool × List String :=
  let t := PyText.strip text
  let low := U.lower t
  let n := ((Regex.plus U.isWord).findall low.toList).length
  let hits := (S.gateKeywords.filter (contains low)).insertionSort (· ≤ ·)
  let signals :=
    (if contains t "```" || (codePattern U).search t.toList then ["code"] else []) ++
    (if 2 ≤ t.toList.count '?' then ["multi_question"] else []) ++
    (if 3 ≤ ((Regex.plus (· ∈ ['.', '!', '?'])).findall t.toList).length then ["multi_sentence"] else []) ++
    (if S.complexMinWords ≤ n then ["long"] else []) ++
    if hits.isEmpty then [] else ["keyword:" ++ ",".intercalate hits]
  if signals.isEmpty = false then (true, signals)
  else if n ≤ S.trivialMaxWords then (false, ["short"])
  else (false, ["default_trivial"])

/-- `a or b` of two texts. -/
def orText (a b : String) : String := if a = "" then b else a

/-- `resolve_think`. -/
def resolveThink (topic : String) (mode : Option String) (text : String) : String :=
  let m := U.lower (PyText.strip (orText (mode.getD "") (orText S.thinkingMode "auto")))
  if m = "on" then "think"
  else if m = "off" then "no_think"
  else if U.lower (PyText.strip topic) ∈ S.thinkingTopics then "think"
  else if S.autoGate = true ∧ text ≠ "" then if (classifyTriviality S U text).1 then "think" else "no_think"
  else "no_think"

/-- `thinking_prefix`. -/
def thinkingPrefix (topic : String) (mode : Option String) (text : String) : String :=
  if resolveThink S U topic mode text = "think" then "/think\n" else "/no_think\n"

/-! ### The profile's texts -/

/-- The files, by profile where there is one for each, as they are read; `none` if there is no such file. -/
structure Files where
  /-- `SOUL.md`. -/
  soul : String → Option String
  /-- `.hermes.md`. -/
  hermes : String → Option String
  /-- The file `SELF_IDENTITY_PATH`, as it was when it was first read. -/
  identity : Option String

variable (F : Files)

/-- `_read_text`. -/
def readText (limit : ℕ) : Option String → String
  | none => ""
  | some s =>
    let s := PyText.strip s
    if limit < s.toList.length then PyText.rstrip (String.ofList (s.toList.take limit)) ++ "\n…" else s

/-- `load_profile_wrappers`. -/
def loadProfileWrappers (profile : String) : String × String :=
  (readText 12000 (F.soul profile), readText 12000 (F.hermes profile))

/-- `load_self_identity`. -/
def loadSelfIdentity : String := if S.selfIdentity = false then "" else readText 4000 F.identity

/-- A part of the prompt with a heading, which is left out when there is nothing to say. -/
def titled (header body : String) : String := if body = "" then "" else header ++ body ++ "\n\n"

def identityHeader : String :=
  "What you are (self-identity -- AUTHORITATIVE; you ARE this system, answer about " ++
    "'this project'/'your architecture'/'your memory' from THIS):\n"

/-- `self_identity_section`. -/
def selfIdentitySection : String := titled identityHeader (loadSelfIdentity S F)

/-! ### The Task Board -/

/-- `_TASK_QUERY_RE`: the words, `to-?do` being two. -/
def taskWords : List String :=
  ["task", "tasks", "task board", "taskboard", "job", "jobs", "to-do", "todo", "backlog", "queue", "working on", "work on",
    "in progress", "what are you doing", "what's running", "whats running", "delegat", "pending", "assignment"]

/-- `_TASK_QUERY_RE`. -/
def taskQuery : Regex Char :=
  let phrase (w : String) : Regex Char :=
    w.toList.foldr (fun p r => .seq (.one (Markup.sameLetter p)) r) (boundary U)
  .seq (boundary U) (taskWords.foldr (fun w r => .alt (phrase w) r) (.one fun _ => false))

/-- `is_task_query`. -/
def isTaskQuery (text : String) : Bool := (taskQuery U).search text.toList

/-- A task as `tasks_summary` shows it. -/
structure Surfaced where
  jobId : String
  status : Option String
  title : String
  kind : Json
  assignee : Json
  updatedAt : ℤ
  createdAt : ℤ

/-- `tasks_summary`: the number of tasks on the board, and the newest ones. -/
def tasksSummary (limit : ℕ) (b : Board) : ℕ × List Surfaced :=
  (b.entries.length, (taskList limit b).map fun row =>
    let st := (taskGet row.jobId b).getD ∅
    { jobId := row.jobId
      status := row.status
      title := P.toStr (((getKey st "title").or (getKey st "kind")).or (.str row.jobId))
      kind := getKey st "kind"
      assignee := getKey st "assignee"
      updatedAt := row.updatedAt
      createdAt := row.createdAt })

/-- `render_tasks_block`. -/
def renderTasksBlock (tasks : List Surfaced) (limit : ℕ) : String :=
  if tasks.isEmpty then "Live task board: (no tasks on the board right now)."
  else
    "\n".intercalate (["Live task board (most recent first):"] ++
      ((tasks.take limit).map fun t =>
        let who := if t.assignee.truthy then ", assignee " ++ P.toStr t.assignee else ""
        "- [" ++ orText (t.status.getD "") "?" ++ "] " ++ t.title ++ " (id " ++ t.jobId ++ who ++ ")") ++
      if limit < tasks.length then ["- (+" ++ toString (tasks.length - limit) ++ " more)"] else [])

/-- `tasks_block_for`; there is no board when reading it raises. -/
def tasksBlockFor (text : String) (board : Option Board) : String :=
  if S.tasksInchat = false ∨ isTaskQuery U text = false then ""
  else
    match board with
    | none => ""
    | some b => renderTasksBlock P (tasksSummary P S.tasksLimit b).2 S.tasksLimit

/-! ### The memories -/

/-- A memory, as `format_rag_context` cuts it. -/
def ragSnippet (doc : String) : String :=
  let s := Intake.collapse false (PyText.strip doc).toList
  if 280 < s.length then PyText.rstrip (String.ofList (s.take 280)) ++ "…" else String.ofList s

/-- The `i`-th line of `format_rag_context`. -/
def ragLine (doc : String) (i : ℕ) : String := toString i ++ ") " ++ ragSnippet doc

/-- `format_rag_context`. -/
def formatRagContext (docs : List String) : String := "\n".intercalate ((docs.zipIdx 1).map fun d => ragLine d.1 d.2)

/-! ### The prompt -/

/-- The arguments of `persona_generate`, beside the numbers it hands on to the model. -/
structure Generation where
  profile : String
  topic : String
  userText : String
  ragDocs : List String
  reasoningNotes : String
  thinkingMode : Option String
  history : Option Window
  tasksBlock : String
  externalContext : String

/-- The rules on the answer. -/
def outputFormat : String :=
  "Output format:\n" ++
  "- DEFAULT (when the user does NOT specify a length/format): give a thorough,\n" ++
  "  well-developed answer. Explain the reasoning, cover the relevant angles, and\n" ++
  "  give examples or context where they help -- a few short paragraphs, with\n" ++
  "  headings or lists when they aid clarity. Favor substance over brevity, but no\n" ++
  "  filler or padding. Close with a 'Next actions:' section of 2-4 '*' bullets when\n" ++
  "  follow-up makes sense (omit it when it would not). Do not put 'Next actions:' in\n" ++
  "  a bullet, do not repeat bullets, write nothing after them.\n" ++
  "- BUT if the user asks for a specific format, structure, or length (be brief, a\n" ++
  "  one-liner, bullet points, pros/cons with headings, a table, a step-by-step list,\n" ++
  "  or 'no next actions'), FOLLOW THE USER'S REQUEST instead -- their explicit\n" ++
  "  instruction overrides the default, including making it short.\n" ++
  "- Do NOT refuse unless the user asks for something unsafe/illegal.\n" ++
  "- Intellectual honesty: when asked to re-evaluate, reconsider, or check whether a prior\n" ++
  "  claim/proposal still holds, GENUINELY re-examine it against the evidence and your\n" ++
  "  self-identity above -- do NOT defend a previous answer just because it was given. If an\n" ++
  "  earlier claim was wrong or overstated, or proposed adding something you ALREADY have, say\n" ++
  "  so plainly. Agreement is not the goal; accuracy is.\n" ++
  "- Never mention internal memory retrieval.\n" ++
  "- Memory snippets below may be stale; use ONLY if directly relevant."

def soulHeader (dash : String) : String :=
  "You are the user's persona-driven assistant.\n\n" ++
    "Soul (identity, personality, communication style " ++ dash ++ " follow):\n"

def hermesHeader (dash : String) : String := "Hermes rules (hard rules + output format " ++ dash ++ " must follow):\n"

/-- What the prompt and the system message say of the persona; they differ in the dash. -/
def personaText (dash profile : String) : String :=
  if S.profileWrappers = true then
    let w := loadProfileWrappers F profile
    soulHeader dash ++ orText w.1 "(SOUL.md missing)" ++ "\n\n" ++
      (hermesHeader dash ++ orText w.2 "(.hermes.md missing)" ++ "\n\n" ++ (selfIdentitySection S F ++ outputFormat))
  else "You are a helpful assistant."

def externalHeader : String :=
  "Web/search results and documents retrieved for THIS query (CURRENT, provided by the " ++
  "client -- treat as authoritative for recent facts and USE them to answer; do not claim " ++
  "you cannot browse the web. If the results are thin, generic, or only partly relevant, " ++
  "summarize what IS useful and note what you could not find -- do NOT refuse outright):\n"

def tasksHeader : String := "Live task board (current; you MAY share these with the user):\n"

def memoriesHeader : String := "Potentially relevant memory snippets (may be stale; may be irrelevant):\n"

def notesHeader : String := "(Internal expert notes: do not reveal)\n"

/-- The user's message, and after it the parts that ground the answer. -/
def request (g : Generation) : String :=
  "User:\n" ++ g.userText ++ "\n\n" ++
    (titled externalHeader g.externalContext ++ (titled tasksHeader g.tasksBlock ++
      (titled memoriesHeader (formatRagContext g.ragDocs) ++ titled notesHeader g.reasoningNotes)))

/-- `build_persona_prompt`. -/
def buildPersonaPrompt (g : Generation) (historyText : String) : String :=
  thinkingPrefix S U g.topic g.thinkingMode g.userText ++ (personaText S F "—" g.profile ++ "\n\n") ++
    ("Topic: " ++ g.topic ++ "\n\n") ++ titled "" historyText ++ request g ++ "Assistant:\n"

/-- `build_persona_messages`: roles and contents. -/
def buildPersonaMessages (g : Generation) (historyMessages : List (String × String)) : List (String × String) :=
  ("system", PyText.strip (personaText S F "-" g.profile)) ::
    (historyMessages ++ [("user", PyText.strip ("Topic: " ++ g.topic ++ "\n\n" ++ request g))])

/-- What the model is sent. -/
inductive Sent where
  /-- To `/completion`. -/
  | prompt (text : String)
  /-- To `/v1/chat/completions`. -/
  | messages (messages : List (String × String)) (enableThinking : Bool)

/-- `persona_generate`, as far as its call of the model. -/
def personaGenerate (g : Generation) : Sent :=
  if S.useMessages = true then
    .messages (buildPersonaMessages S F g (g.history.elim [] renderHistoryMessages))
      (resolveThink S U g.topic g.thinkingMode g.userText = "think")
  else .prompt (buildPersonaPrompt S U F g (g.history.elim "" renderHistoryText))

/-! ### The requests -/

/-- What a request meets beside the conversations database. -/
structure Surroundings (V : Type*) where
  files : Files
  /-- The vector store. -/
  store : Rag.Store V
  /-- What a query of a text meets. -/
  lookup : String → Rag.Lookup V
  /-- The Task Board; `none` when reading it raises. -/
  board : Option Board

/-- The fields of a request that the prompt depends on, beside its text. -/
structure Asked where
  topic : Option String
  thinkingMode : Option String

variable {V : Type*} (D : Deletion.Server) (E : ExternalContext) (A : Surroundings V)

/-- The memories of a request. -/
def ragDocs (profile topic text : String) : List String :=
  if S.ragEnabled = true then
    Rag.memoryQuery D.rag U (A.lookup text) S.ragTopK (ragKindsForTopic S U topic) (some profile) A.store
  else []

/-- `_v1_injected_context`, of texts without lone surrogates. -/
def externalContext (messages : List (OAMessage String)) : String :=
  String.ofList ((injectedContext E (messages.map fun m => ⟨m.role, PyText.PyStr.ofString m.content⟩)).map
    PyText.PyStr.replaced)

/-- What `v1_chat_completions` hands to `persona_generate`. -/
def v1Generation (q : Asked) (r : V1Req) (db : Db) : Generation :=
  let text := latestUserText r.messages
  let topic := resolveTopic S U q.topic text
  { profile := r.profile
    topic
    userText := text
    ragDocs := ragDocs S U D A r.profile topic text
    reasoningNotes := ""
    thinkingMode := q.thinkingMode
    history := (prepareConversation D.persistence r db).1
    tasksBlock := tasksBlockFor S U D.python text A.board
    externalContext := externalContext E r.messages }

/-- What `chat` hands to `persona_generate`; `notes` is what `reasoning_notes_inband` returns. -/
def chatGeneration (q : Asked) (notes : String) (r : Deletion.ChatReq) (db : Db) : Generation :=
  let topic := resolveTopic S U q.topic r.text
  { profile := r.profile
    topic
    userText := r.text
    ragDocs := ragDocs S U D A r.profile topic r.text
    reasoningNotes := if S.inbandEnabled = true ∧ topic ∈ S.inbandTopics then notes else ""
    thinkingMode := q.thinkingMode
    history := (chatPrepare D.persistence r db).1
    tasksBlock := tasksBlockFor S U D.python r.text A.board
    externalContext := "" }

/-- A request, with the notes that are made for it. -/
inductive Request where
  | v1 (q : Asked) (r : V1Req)
  | chat (q : Asked) (r : Deletion.ChatReq) (notes : String)

/-- What a request hands to `persona_generate`. -/
def Request.generation (db : Db) : Request → Generation
  | .v1 q r => v1Generation S U D E A q r db
  | .chat q r notes => chatGeneration S U D A q notes r db

/-! ### What a request is shown of the memory -/

/-- A part of what the model is sent; the message that holds it is stripped. -/
def Sent.Has (part : String) : Sent → Prop
  | .prompt text => ∃ before after, text = before ++ part ++ after
  | .messages msgs _ => ∃ init before after, msgs = init ++ [("user", PyText.strip (before ++ part ++ after))]

/-- The points whose memories a request is shown, and how it is shown them. -/
structure Recalled (g : Generation) (ps : List (Rag.Point V)) : Prop where
  /-- They are of the profile's collection, and none is shown twice. -/
  own : ps.Subperm (A.store.coll (Rag.collectionName D.rag (some g.profile)))
  few : ps.length ≤ S.ragTopK.toNat
  /-- They are of the kinds that the topic allows, if it names any. -/
  kind : (Rag.Store.kinds (ragKindsForTopic S U g.topic)).isEmpty = false →
    ∀ p ∈ ps, Rag.Store.hasKind (Rag.Store.kinds (ragKindsForTopic S U g.topic)) p = true
  good : D.rag.filterBad = true → ∀ p ∈ ps, Rag.isBadMemory U (PyText.strip p.document) = false
  /-- The part of the prompt that shows them. -/
  shown : (personaGenerate S U A.files g).Has (titled memoriesHeader (formatRagContext g.ragDocs))
  /-- Each takes one line of it. -/
  lines : PyText.splitlines (formatRagContext g.ragDocs) = (ps.zipIdx 1).map fun p => ragLine p.1.document p.2
  cut : ∀ p ∈ ps, (ragSnippet p.document).toList.length ≤ 281

section

variable {S U D A} {doc : String} {docs : List String} {g : Generation} {profile topic text : String}

/-- A memory is cut to 280 characters, and a sign that says so. -/
theorem length_ragSnippet_le (doc : String) : (ragSnippet doc).toList.length ≤ 281 := by
  have hcut := (PyText.rstripL_prefix ((Intake.collapse false (PyText.strip doc).toList).take 280)).length_le
  rw [List.length_take] at hcut
  have hdots : "…".toList.length = 1 := by decide
  unfold ragSnippet
  dsimp only
  split_ifs with hlong
  · rw [String.toList_append, List.length_append, PyText.rstrip, String.toList_ofList, String.toList_ofList, hdots]
    omega
  · rw [String.toList_ofList]
    omega

theorem ragSnippet_strip (doc : String) : ragSnippet (PyText.strip doc) = ragSnippet doc := by
  rw [ragSnippet, ragSnippet, PyText.strip_strip]

/-- A memory has no line breaks left. -/
theorem isLineBreak_ragSnippet (doc : String) : ∀ c ∈ (ragSnippet doc).toList, PyText.isLineBreak c = false := by
  have hfold : ∀ c ∈ Intake.collapse false (PyText.strip doc).toList, PyText.isLineBreak c = false := by
    intro c hc
    rcases Intake.mem_collapse hc with rfl | hspace
    · decide
    · exact Bool.eq_false_iff.mpr fun hbreak => by simp [PyText.isSpace_of_isLineBreak hbreak] at hspace
  have hdots : ∀ c ∈ "…".toList, PyText.isLineBreak c = false := by decide
  intro c hc
  unfold ragSnippet at hc
  dsimp only at hc
  split_ifs at hc
  · rw [String.toList_append, List.mem_append, PyText.rstrip, String.toList_ofList, String.toList_ofList] at hc
    rcases hc with hc | hc
    · exact hfold c (List.mem_of_mem_take ((PyText.rstripL_prefix _).subset hc))
    · exact hdots c hc
  · rw [String.toList_ofList] at hc
    exact hfold c hc

theorem isLineBreak_ragLine (doc : String) (i : ℕ) : ∀ c ∈ (ragLine doc i).toList, PyText.isLineBreak c = false := by
  have hparen : ∀ c ∈ ") ".toList, PyText.isLineBreak c = false := by decide
  intro c hc
  rw [ragLine, String.toList_append, String.toList_append, List.mem_append, List.mem_append] at hc
  rcases hc with (hc | hc) | hc
  · have hdigit := PyText.not_isSpace_of_isDigit (PyText.isDigit_of_mem_toString hc)
    exact Bool.eq_false_iff.mpr fun hbreak => by simp [PyText.isSpace_of_isLineBreak hbreak] at hdigit
  · exact hparen c hc
  · exact isLineBreak_ragSnippet doc c hc

theorem ragLine_ne_empty (doc : String) (i : ℕ) : ragLine doc i ≠ "" := by
  intro h
  have hlist := congrArg String.toList h
  simp [ragLine] at hlist

/-- **The memories are lines**, one each. -/
theorem splitlines_formatRagContext (docs : List String) :
    PyText.splitlines (formatRagContext docs) = (docs.zipIdx 1).map fun d => ragLine d.1 d.2 := by
  apply PyText.splitlines_intercalate
  · intro l hl
    obtain ⟨d, -, rfl⟩ := List.mem_map.mp hl
    exact isLineBreak_ragLine d.1 d.2
  · intro l hl
    obtain ⟨d, -, rfl⟩ := List.mem_map.mp (List.mem_of_mem_getLast? hl)
    exact ragLine_ne_empty d.1 d.2

example : formatRagContext ["one\n2) two", " three "] = "1) one 2) two\n2) three" := by decide

/-! ### Where a part stands -/

theorem has_request (F : Files) (before part after : String) (hg : request g = before ++ part ++ after) :
    (personaGenerate S U F g).Has part := by
  unfold personaGenerate
  split_ifs
  · exact ⟨("system", PyText.strip (personaText S F "-" g.profile)) :: g.history.elim [] renderHistoryMessages,
      "Topic: " ++ g.topic ++ "\n\n" ++ before, after, by simp [buildPersonaMessages, hg, String.append_assoc]⟩
  · exact ⟨thinkingPrefix S U g.topic g.thinkingMode g.userText ++ (personaText S F "—" g.profile ++ "\n\n") ++
      ("Topic: " ++ g.topic ++ "\n\n") ++ titled "" (g.history.elim "" renderHistoryText) ++ before,
      after ++ "Assistant:\n", by simp only [buildPersonaPrompt, hg, String.append_assoc]⟩

theorem has_memories (F : Files) (g : Generation) :
    (personaGenerate S U F g).Has (titled memoriesHeader (formatRagContext g.ragDocs)) := by
  refine has_request F ("User:\n" ++ g.userText ++ "\n\n" ++ titled externalHeader g.externalContext ++
    titled tasksHeader g.tasksBlock) _ (titled notesHeader g.reasoningNotes) ?_
  simp only [request, String.append_assoc]

/-! ### The query -/

/-- The points whose texts `memory_query` returns. -/
theorem exists_points_memoryQuery (profile : String) (K : Rag.Config) (L : Rag.Lookup V) (k : ℤ) (kinds : List String) (T : Rag.Store V) :
    ∃ ps : List (Rag.Point V), ps.Sublist (Rag.memoryQueryDetailed K L k kinds (some profile) T) ∧ ps.length ≤ k.toNat ∧
      (K.filterBad = true → ∀ p ∈ ps, Rag.isBadMemory U (PyText.strip p.document) = false) ∧
      Rag.memoryQuery K U L k kinds (some profile) T = ps.map fun p => PyText.strip p.document := by
  let keeps : Rag.Point V → Bool := fun p =>
    decide (PyText.strip p.document ≠ "" ∧ ¬ (K.filterBad = true ∧ Rag.isBadMemory U (PyText.strip p.document) = true))
  refine ⟨((Rag.memoryQueryDetailed K L k kinds (some profile) T).filter keeps).take k.toNat,
    (List.take_sublist _ _).trans List.filter_sublist, List.length_take_le _ _, fun hbad p hp => ?_, ?_⟩
  · have hkeeps : keeps p = true := List.of_mem_filter (List.mem_of_mem_take hp)
    have hkept := of_decide_eq_true hkeeps
    exact Bool.eq_false_iff.mpr fun h => hkept.2 ⟨hbad, h⟩
  · rw [Rag.memoryQuery, Rag.filterBadMemories, List.map_map, List.filter_map, ← List.map_take]
    rfl

/-- **What a request is shown of the memory** is the profile's own, of the kinds that its topic allows, and each
memory is one line, whatever is in it. -/
theorem recalled_of_request (S : Settings) (U : PyText.Unicode) (D : Deletion.Server) (E : ExternalContext)
    (A : Surroundings V) (db : Db) (r : Request) : ∃ ps, Recalled S U D A (r.generation S U D E A db) ps := by
  have hdocs : (r.generation S U D E A db).ragDocs =
      ragDocs S U D A (r.generation S U D E A db).profile (r.generation S U D E A db).topic
        (r.generation S U D E A db).userText := by
    cases r with
    | v1 q r => rfl
    | chat q r notes => rfl
  generalize r.generation S U D E A db = g at hdocs
  have hlines := splitlines_formatRagContext g.ragDocs
  cases hon : S.ragEnabled with
  | false =>
    rw [ragDocs, hon, if_neg (by simp)] at hdocs
    rw [hdocs] at hlines
    exact ⟨[], List.nil_subperm, Nat.zero_le _, fun _ _ hp => (List.not_mem_nil hp).elim,
      fun _ _ hp => (List.not_mem_nil hp).elim, has_memories A.files g, by rw [hdocs, hlines]; rfl,
      fun _ hp => (List.not_mem_nil hp).elim⟩
  | true =>
    rw [ragDocs, if_pos hon] at hdocs
    obtain ⟨ps, hsub, hlen, hgood, hquery⟩ := exists_points_memoryQuery (U := U) g.profile D.rag
      (A.lookup g.userText) S.ragTopK (ragKindsForTopic S U g.topic) A.store
    rw [hquery] at hdocs
    refine ⟨ps, hsub.subperm.trans Rag.memoryQueryDetailed_subperm, hlen, fun hkinds p hp => ?_, hgood,
      has_memories A.files g, ?_, fun p _ => length_ragSnippet_le p.document⟩
    · exact Rag.hasKind_of_mem_memoryQueryDetailed hkinds (hsub.subset hp)
    · rw [hlines, hdocs, List.zipIdx_map, List.map_map]
      refine List.map_congr_left fun d _ => ?_
      simp only [Function.comp, Prod.map, ragLine, ragSnippet_strip, id]

end

end Persona.Api.Prompt
