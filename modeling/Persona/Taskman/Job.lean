import Persona.Taskman.Edits
import Persona.Lib.Regex
import Persona.Lib.Firsts

/-!
# Running a job

`run_job` of `taskman2.py`, run with `assume_yes`: it collects the context of the repository and suggestions for the
steps, makes the edits one after the other, runs the commands, and collects the context again. Its result lists what
became of each edit and each command.

Commands do not raise: `run_cmd` and the patches catch what is raised. Nor does `do_write`. The other edits, their
previews and the file system around them may, and the exception then leaves `run_job`, with the repository as the
edits before have made it. `runJob_reports_iff` says for which jobs that does not happen; `run_job` then reports.
-/

namespace Persona.Taskman

open Persona.Lib PyText TextFile

/-! ### The host -/

/-- What `subprocess.run` returns. -/
structure Completed where
  returncode : ℤ
  stdout : PyStr
  stderr : PyStr

/-- A repository on a host. An argument of a command is `none` when it is no text. -/
structure Host (σ P : Type) extends Repository σ P where
  /-- `str(p.relative_to(repo))`; `none` when it raises. -/
  relative : P → Option PyStr
  /-- `shutil.which(name) is not None`. -/
  haveCmd : σ → String → Bool
  /-- `subprocess.run(cmd, input=…, timeout=…)` in the repository; the text of the exception when it raises. -/
  subprocess : σ → List (Option PyStr) → Option PyStr → ℤ → σ × Except PyStr Completed
  /-- The text of the exception with which a file is not written. -/
  writeError : σ → PyStr
  /-- `hashlib.sha256(…).hexdigest()`. -/
  sha256 : List UInt8 → String

/-- What `run_cmd` returns. -/
structure CmdResult where
  cmd : List (Option PyStr)
  returncode : ℤ
  stdout : PyStr
  stderr : PyStr

/-- One after the other; the second is not reached when the first raises. -/
def andThen {σ α β : Type} (r : σ × Option α) (f : σ → α → σ × Option β) : σ × Option β :=
  match r with
  | (s, some a) => f s a
  | (s, none) => (s, none)

variable {σ P : Type} (H : Host σ P) (E : Engine PyChar)

/-- `run_cmd`. -/
def runCmd (s : σ) (cmd : List (Option PyStr)) (timeout : ℤ) : σ × CmdResult :=
  match H.subprocess s cmd none timeout with
  | (s', .ok p) => (s', ⟨cmd, p.returncode, p.stdout, p.stderr⟩)
  | (s', .error e) => (s', ⟨cmd, 999, [], PyStr.ofString "Exception: " ++ e⟩)

/-- The arguments of a command. -/
def argv (words : List String) : List (Option PyStr) := words.map fun w => some (PyStr.ofString w)

/-- `have_cmd("git") and (repo / ".git").exists()`; `none` when it raises. -/
def hasGit (s : σ) : Option Bool := if H.haveCmd s "git" then H.there s (H.join (PyStr.ofString ".git")) else some false

/-! ### The context -/

/-- `rg_queries`: what is falsy is no list of queries; a text is the list of its characters. -/
inductive Queries where
  | list (qs : List (Option PyStr))
  /-- A number, `True` or a dictionary, of which there is no slice. -/
  | unsliceable

/-- What `collect_context` returns. -/
structure Context where
  gitStatus : CmdResult
  gitDiff : CmdResult
  rg : Option (List CmdResult)

/-- What stands for the output of git without a repository of git. -/
def noGit : CmdResult := ⟨[], 999, [], PyStr.ofString "Not a git repo or git not installed."⟩

/-- The part of `collect_context` that asks git. -/
def gitContext (s : σ) : σ × Option (CmdResult × CmdResult) :=
  match hasGit H s with
  | none => (s, none)
  | some true =>
    let (s₁, status) := runCmd H s (argv ["git", "status", "--porcelain"]) 60
    let (s₂, diff) := runCmd H s₁ (argv ["git", "diff"]) 60
    (s₂, some (status, diff))
  | some false => (s, some (noGit, noGit))

/-- The queries of `collect_context`. -/
def runQueries (s : σ) : List (Option PyStr) → σ × List CmdResult
  | [] => (s, [])
  | q :: qs =>
    let (s₁, result) := runCmd H s (argv ["rg", "-n"] ++ [q]) 60
    let (s₂, results) := runQueries s₁ qs
    (s₂, result :: results)

/-- `collect_context`. -/
def collectContext (s : σ) (extraRg : Queries) : σ × Option Context :=
  andThen (gitContext H s) fun s (status, diff) =>
    match extraRg with
    | .list [] => (s, some ⟨status, diff, none⟩)
    | .list qs =>
      if H.haveCmd s "rg" then
        let (s', results) := runQueries H s (qs.take 10)
        (s', some ⟨status, diff, some results⟩)
      else (s, some ⟨status, diff, none⟩)
    | .unsliceable => if H.haveCmd s "rg" then (s, none) else (s, some ⟨status, diff, none⟩)

/-! ### Suggestions -/

/-- `[A-Za-z0-9_\-./]`. -/
def isPathChar : PyChar → Bool
  | .scalar c => c.isAlphanum || c == '_' || c == '-' || c == '.' || c == '/'
  | .surrogate _ => false

/-- The endings of the files that a step may mention. -/
def endings : List PyStr := ["py", "sh", "js", "ts", "json", "yaml", "yml"].map PyStr.ofString

/-- The length of `\.(py|sh|js|ts|json|yaml|yml)` at the start of a text. -/
def endingAt : PyStr → Option ℕ
  | .scalar '.' :: cs => (endings.find? fun e => e.isPrefixOf cs).map fun e => e.length + 1
  | _ => none

/-- The length of `[A-Za-z0-9_\-./]+?\.(py|sh|js|ts|json|yaml|yml)` at the start of a text. -/
def mentionAt : PyStr → Option ℕ
  | [] => none
  | c :: cs => if isPathChar c then ((endingAt cs).or (mentionAt cs)).map (· + 1) else none

/-- The files that `re.findall` finds from a place on, after `skip` characters that belong to one already. -/
def mentionsFrom : ℕ → PyStr → List PyStr
  | _, [] => []
  | skip + 1, _ :: cs => mentionsFrom skip cs
  | 0, c :: cs =>
    match mentionAt (c :: cs) with
    | some n => (c :: cs).take n :: mentionsFrom (n - 1) cs
    | none => mentionsFrom 0 cs

/-- `str.lower`, compared with texts of ASCII: of one character outside ASCII the lower case begins with an ASCII
letter. -/
def lower (s : PyStr) : PyStr := s.flatMap fun
  | .scalar c => if c.toNat = 0x130 then [.scalar 'i', .scalar (Char.ofNat 0x307)] else [.scalar (lowerChar c)]
  | c => [c]

/-- `any(k in s.lower() for k in words)`. -/
def mentionsWord (words : List String) (s : PyStr) : Bool := words.any fun k => decide (PyStr.ofString k <:+: lower s)

/-- `wiring_keywords`. -/
def wiringKeywords : List String :=
  ["wire", "route", "endpoint", "api", "server", "fastapi", "router", "mount", "include_router"]

/-- The files that the keywords suggest. -/
def candidates : List PyStr := ["services/api/server.py", "app/server.py", "server.py", "main.py"].map PyStr.ofString

/-- `ANCHOR_PATTERNS`, each with what it matches. -/
def anchorPatterns : List (String × Regex Char) :=
  let word (w : String) := Regex.literal w.toList
  let call (r : Regex Char) : Regex Char := .seq r (.seq (.many isSpace) (.one (· = '(')))
  let assigned (v w : String) : Regex Char := .seq (word v) (.seq (.many isSpace) (.seq (word "=") (.seq (.many isSpace) (call (word w)))))
  let verbs : Regex Char := .seq (.alt (word "get") (.alt (word "post") (.alt (word "put") (.alt (word "delete") (word "patch"))))) (word "(")
  [("FastAPI\\s*\\(", call (word "FastAPI")), ("APIRouter\\s*\\(", call (word "APIRouter")),
    ("app\\s*=\\s*FastAPI\\s*\\(", assigned "app" "FastAPI"), ("router\\s*=\\s*APIRouter\\s*\\(", assigned "router" "APIRouter"),
    ("@app\\.(get|post|put|delete|patch)\\(", .seq (word "@app.") verbs),
    ("@router\\.(get|post|put|delete|patch)\\(", .seq (word "@router.") verbs),
    ("include_router\\s*\\(", call (word "include_router")), ("add_api_route\\s*\\(", call (word "add_api_route"))]

/-- A hit of an anchor pattern. -/
structure Anchor where
  line : ℕ
  pattern : String
  snippet : PyStr

/-- `find_anchors_in_file`. -/
def findAnchorsInFile (s : σ) (path : P) : List Anchor :=
  match H.read s path with
  | none => []
  | some bytes =>
    let hits := ((splitlinesL [] (readText bytes)).zipIdx 1).flatMap fun (line, i) =>
      (anchorPatterns.filter fun pat => pat.2.search line).map fun pat => ⟨i, pat.1, (PyStr.strip (ofChars line)).take 200⟩
    hits.take 12

/-- What `suggest_for_steps` returns. -/
structure Suggestions where
  anchors : List (PyStr × List Anchor)
  missingSteps : List String

/-- What the turns of a loop add, or `none` when one raises. -/
def gather {α β : Type} (f : α → Option (List β)) : List α → Option (List β)
  | [] => some []
  | a :: as => (f a).bind fun bs => (gather f as).map (bs ++ ·)

/-- The path of a file that a step mentions, if it is there. -/
def mentionedPath (s : σ) (rel : PyStr) : Option (List P) :=
  (H.resolve s (H.join rel)).bind fun p =>
    if H.isUnderRepo s p then (H.there s p).map fun there => if there then [p] else [] else some []

/-- The path of a candidate, if it is there. -/
def candidatePath (s : σ) (rel : PyStr) : Option (List P) :=
  (H.there s (H.join rel)).bind fun there => if there then (H.resolve s (H.join rel)).map fun p => [p] else some []

/-- `mentioned_paths`. -/
def mentionedPaths (s : σ) (steps : List PyStr) : Option (List P) :=
  (gather (mentionedPath H s) (steps.flatMap (mentionsFrom 0))).bind fun mentioned =>
    if steps.any (mentionsWord wiringKeywords) then (gather (candidatePath H s) candidates).map (mentioned ++ ·) else some mentioned

section

variable [DecidableEq P]

/-- `suggest_for_steps`. -/
def suggestForSteps (s : σ) (steps : List PyStr) : Option Suggestions :=
  (mentionedPaths H s steps).bind fun mentioned =>
    (gather (fun p => (H.relative p).map fun rel => [(rel, findAnchorsInFile H s p)]) (firsts id [] mentioned)).map fun anchors =>
      ⟨anchors, if steps.any (mentionsWord ["test", "smoke"]) then [] else
        ["Consider adding a smoke test step (curl/script) to validate changes quickly."]⟩

end

/-! ### Patches -/

/-- A patch that is run as a command: whether it succeeds, and what it says. -/
def runPatch (s : σ) (cmd : List String) (diffText : PyStr) (output : Completed → PyStr) (tool : String) : σ × Option (Bool × PyStr) :=
  match H.subprocess s (argv cmd) (some diffText) 60 with
  | (s', .ok sp) => (s', some (decide (sp.returncode = 0), output sp))
  | (s', .error e) => (s', some (false, PyStr.ofString ("Exception running " ++ tool ++ ": ") ++ e))

/-- The start of a patch of another format. -/
def beginPatch : PyStr := PyStr.ofString "*** Begin Patch"

/-- `apply_unified_diff`. -/
def applyUnifiedDiff (s : σ) (diffText : PyStr) : σ × Option (Bool × PyStr) :=
  if beginPatch.isPrefixOf (diffText.dropWhile PyStr.isSpace) then
    (s, some (false, PyStr.ofString
      "Unsupported patch format (\"*** Begin Patch\"). Use a real unified diff (git diff style)."))
  else
    match hasGit H s with
    | none => (s, none)
    | some true =>
      runPatch H s ["git", "apply", "--whitespace=nowarn", "-"] diffText
        (fun sp => if sp.stderr = [] then sp.stdout else sp.stderr) "git apply"
    | some false =>
      if H.haveCmd s "patch" then
        runPatch H s ["patch", "-p1", "--forward", "--batch"] diffText
          (fun sp => PyStr.strip (sp.stdout ++ if sp.stderr = [] then [] else .scalar '\n' :: sp.stderr)) "patch"
      else (s, some (false, PyStr.ofString "No patch tool available (need git or patch)."))

/-! ### Edits -/

/-- An edit. -/
inductive Edit where
  | write (path content : PyStr)
  | patch (content : PyStr)
  | insertAfter (path pattern text : PyStr)
  | replaceRegex (path pattern repl flags : PyStr)

/-- The action of an edit. -/
inductive EditAction where
  | write | patch | insertAfter | replaceRegex
  deriving DecidableEq

/-- The action and the path of the entry of an edit. -/
def Edit.label : Edit → EditAction × PyStr
  | .write path _ => (.write, path)
  | .patch _ => (.patch, PyStr.ofString "(patch)")
  | .insertAfter path _ _ => (.insertAfter, path)
  | .replaceRegex path _ _ _ => (.replaceRegex, path)

/-- The edit that an element of `edits` stands for, if it has what it needs. -/
def parseEdit (e : List (String × PyStr)) : Option Edit :=
  let field (k : String) : PyStr := (e.lookup k).getD []
  let path := field "path"
  if e.lookup "action" = some (PyStr.ofString "patch") then some (.patch (field "content"))
  else if e.lookup "action" = some (PyStr.ofString "write") then
    if path = [] then none else some (.write path (field "content"))
  else if e.lookup "action" = some (PyStr.ofString "insert_after") then
    if path = [] ∨ field "pattern" = [] then none else some (.insertAfter path (field "pattern") (field "text"))
  else if e.lookup "action" = some (PyStr.ofString "replace_regex") then
    match e.lookup "pattern", e.lookup "repl" with
    | some pattern, some repl => if path = [] then none else some (.replaceRegex path pattern repl (field "flags"))
    | _, _ => none
  else none

/-- `parse_edits`. -/
def parseEdits (edits : List (List (String × PyStr))) : List Edit := edits.filterMap parseEdit

/-- An entry of `res["edits"]`. -/
structure Entry where
  action : EditAction
  path : PyStr
  applied : Bool
  error : Option PyStr
  info : Option PyStr
  output : Option PyStr
  preview : Option Preview

/-- An edit that is previewed, with what it does when the preview is ok: its entry, and the errors it adds. -/
def previewed (label : EditAction × PyStr) (s : σ) (preview : Option Preview) (apply : σ → σ × Option (Bool × PyStr)) :
    σ × Option (Entry × List PyStr) :=
  match preview with
  | none => (s, none)
  | some (.refused error) => (s, some (⟨label.1, label.2, false, some error, none, none, none⟩, [error]))
  | some pv => andThen (apply s) fun s' (ok, info) =>
    (s', some (⟨label.1, label.2, ok, none, some info, none, some pv⟩, if ok then [] else [info]))

/-- A turn of the loop over the edits. -/
def runEdit (s : σ) (ed : Edit) : σ × Option (Entry × List PyStr) :=
  match ed with
  | .write path content =>
    previewed ed.label s (previewWrite H.toRepository H.sha256 s path content) fun s =>
      doWrite H.toRepository (H.writeError s) s path content
  | .patch content => andThen (applyUnifiedDiff H s content) fun s' (ok, out) =>
    (s', some (⟨.patch, PyStr.ofString "(patch)", ok, none, none, some (out.take 8000), none⟩,
      if ok then [] else [PyStr.ofString "patch failed"]))
  | .insertAfter path pattern text =>
    previewed ed.label s (previewInsertAfter H.toRepository E s path pattern) fun s =>
      doInsertAfter H.toRepository E s path pattern text
  | .replaceRegex path pattern repl flags =>
    previewed ed.label s (previewReplaceRegex H.toRepository E s path pattern repl flags) fun s =>
      doReplaceRegex H.toRepository E s path pattern repl flags

/-- The loop over the edits. -/
def runEdits (s : σ) : List Edit → σ × Option (List (Entry × List PyStr))
  | [] => (s, some [])
  | ed :: eds => andThen (runEdit H E s ed) fun s' entry => andThen (runEdits s' eds) fun s'' entries => (s'', some (entry :: entries))

/-! ### Commands -/

/-- A command: a text for the shell, or the texts of a list. -/
inductive Command where
  | shell (c : PyStr)
  | list (xs : List PyStr)

/-- The arguments of a command; `none` when nothing is run. -/
def Command.argv : Command → Option (List (Option PyStr))
  | .shell c => some [some (PyStr.ofString "bash"), some (PyStr.ofString "-lc"), some c]
  | .list [] => none
  | .list xs => some (xs.map some)

/-- The loop over the commands; `timeout` is `none` when `int` raises. -/
def runCommands (timeout : Option ℤ) (s : σ) : List Command → σ × Option (List CmdResult)
  | [] => (s, some [])
  | c :: cs =>
    match c.argv, timeout with
    | none, _ => runCommands timeout s cs
    | some _, none => (s, none)
    | some cmd, some t =>
      let (s', result) := runCmd H s cmd t
      andThen (runCommands timeout s' cs) fun s'' results => (s'', some (result :: results))

/-! ### Jobs -/

/-- A job, as `run_job` reads it. -/
structure Job where
  /-- The texts of the steps, if they are a list. -/
  steps : List PyStr
  edits : List (List (String × PyStr))
  commands : List Command
  rgQueries : Queries
  /-- `int(job.get("command_timeout_sec", 300))`, of a number, a boolean or a text of digits; `none` when it raises. -/
  timeout : Option ℤ

/-- The status of a result. -/
inductive JobStatus where
  | done | needsAttention
  deriving DecidableEq

/-- What `run_job` returns. -/
structure Result where
  status : JobStatus
  suggestions : Option Suggestions
  preContext : Context
  edits : List Entry
  commandsRun : List CmdResult
  postContext : Context
  errors : List PyStr

variable [DecidableEq P]

/-- The suggestions of `run_job`: none without steps. -/
def suggested (s : σ) (steps : List PyStr) : σ × Option (Option Suggestions) :=
  (s, if steps = [] then some none else (suggestForSteps H s steps).map some)

/-- `run_job`. -/
def runJob (s : σ) (job : Job) : σ × Option Result :=
  andThen (collectContext H s job.rgQueries) fun s preContext =>
    andThen (suggested H s job.steps) fun s suggestions =>
      andThen (runEdits H E s (parseEdits job.edits)) fun s edits =>
        andThen (runCommands H job.timeout s job.commands) fun s commandsRun =>
          andThen (collectContext H s job.rgQueries) fun s postContext =>
            let errors := edits.flatMap (·.2)
            let failedCmds := commandsRun.filter (·.returncode ≠ 0)
            (s, some ⟨if errors ≠ [] ∨ failedCmds ≠ [] then .needsAttention else .done, suggestions, preContext, edits.map (·.1),
              commandsRun, postContext, errors⟩)

end Persona.Taskman
