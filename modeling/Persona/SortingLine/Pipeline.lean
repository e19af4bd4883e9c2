import Persona.Lib.Scan
import Persona.SortingLine.Promotion

/-!
# The sorting line

`services/api/sorting_line.py`: a file dropped in the inbox is read, classified into a
bin, embedded, added to the bin's provisional collection, and moved to `processed/`, or to
`failed/` when it cannot be read or is empty. `processInbox` is one pass over the inbox;
it takes `move=True` and no `on_event`, as its callers do.

A `Library` is what the code takes from Python and its libraries, the same for every
pass: decoding, the parsers, Unicode's character classes, and the cosine, computed in
floating point. A `Pass` is what a pass meets: which calls on the operating system fail,
which calls of the embedder raise, and what the store takes.
-/

namespace Persona.SortingLine

open Persona.Lib Persona.Rag Persona.TaskBoard

variable {β V : Type*}

/-- What the HTML parser reports. -/
inductive HtmlEvent where
  | starttag (tag : String)
  | endtag (tag : String)
  | data (text : String)

/-- Python and its libraries; `β` is the type of a file's bytes. -/
structure Library (β V : Type*) where
  /-- `SORTING_LINE_MAX_BYTES`. -/
  maxBytes : ℕ
  size : β → ℕ
  /-- `raw.decode(enc)`, unless it raises. -/
  decodes : String → β → Option String
  /-- `raw.decode("utf-8", errors="replace")`. -/
  replaces : β → String
  /-- `str.lower`. -/
  lower : String → String
  /-- `str.isalnum` of one character. -/
  isAlnum : Char → Bool
  /-- What `HTMLParser.feed` reports, or the text of what it raises. -/
  feed : String → Except String (List HtmlEvent)
  /-- `html.unescape`. -/
  unescape : String → String
  /-- The texts of a PDF's pages; there is none when `pypdf` is not installed. -/
  pdf : Option (β → Except String (List String))
  /-- The texts of a document's paragraphs, when `docx` is installed. -/
  docx : Option (β → Except String (List String))
  /-- `_cosine` of two vectors. -/
  cosine : V → V → ℚ

/-- What a pass meets, for the file of each name. -/
structure Pass (V : Type*) where
  /-- The text of the `OSError` that `stat` raises. -/
  statFails : String → Option String
  /-- The text of the `OSError` that reading raises. -/
  readFails : String → Option String
  /-- `embed` as `classify` calls it, and as `ingest_text` does; `none` when it raises. -/
  embedScore : String → String → Option V
  embedDoc : String → String → Option V
  /-- The bins' prototypes. -/
  prototypes : List (String × V)
  /-- `int(time.time())`. -/
  time : String → ℤ
  /-- Whether `store.add` stores the file's point. -/
  stores : String → Bool
  /-- The text of the `OSError` that moving the file raises. -/
  moveFails : String → Option String
  /-- `uuid4().hex[:8]`. -/
  tag : String → String

/-! ### Reading -/

/-- `_TEXT_EXTS`. -/
def textExts : List String :=
  [".txt", ".md", ".markdown", ".rst", ".log", ".csv", ".tsv", ".json", ".jsonl",
    ".yaml", ".yml", ".toml", ".ini", ".cfg", ".conf", ".env", ".tex",
    ".py", ".js", ".ts", ".jsx", ".tsx", ".go", ".rs", ".c", ".h", ".cpp", ".hpp",
    ".java", ".rb", ".php", ".sh", ".bash", ".zsh", ".sql", ".css", ".scss"]

/-- `_HTML_EXTS`. -/
def htmlExts : List String := [".html", ".htm", ".xhtml"]

/-- Where a name's last dot splits it, if it has one inside: `p.stem` and `p.suffix`. -/
def splitName (name : String) : String × String :=
  let cs := name.toList
  let n := cs.reverse.findIdx (· == '.')
  if 0 < n ∧ n + 1 < cs.length then
    (String.ofList (cs.take (cs.length - (n + 1))), String.ofList (cs.drop (cs.length - (n + 1))))
  else (name, "")

/-- `ReadResult`. -/
structure ReadResult where
  ok : Bool
  text : String
  fmt : String
  error : String
  nbytes : ℕ

/-- A `ReadResult` that is not ok. -/
def ReadResult.failed (error : String) (nbytes : ℕ) : ReadResult := ⟨false, "", "", error, nbytes⟩

/-- `_decode`. -/
def decode (L : Library β V) (raw : β) : String :=
  ((["utf-8", "utf-16", "latin-1"].findSome? fun enc => L.decodes enc raw)).getD (L.replaces raw)

/-- The chunks `_TextHTMLParser` collects, inside `skip` scripts and styles. -/
def chunks (skip : ℕ) : List HtmlEvent → List String
  | [] => []
  | .starttag tag :: es => chunks (if tag = "script" ∨ tag = "style" then skip + 1 else skip) es
  | .endtag tag :: es => chunks (if tag = "script" ∨ tag = "style" then skip - 1 else skip) es
  | .data text :: es =>
    if skip = 0 ∧ PyText.strip text ≠ "" then text :: chunks skip es else chunks skip es

/-- `s.split()`. -/
def words (s : String) : List String :=
  ((s.toList.splitOnP PyText.isSpace).filter (· ≠ [])).map String.ofList

/-- `_TextHTMLParser.text`. -/
def htmlText (L : Library β V) (es : List HtmlEvent) : String :=
  L.unescape (" ".intercalate (words (" ".intercalate (chunks 0 es))))

/-- Reading with a library that may be missing: the texts it finds, one on each line. -/
def readWith (parser : Option (β → Except String (List String))) (missing error fmt : String)
    (readFails : Option String) (body : β) (size : ℕ) : ReadResult :=
  match parser with
  | none => .failed missing size
  | some parse =>
    match readFails.elim (parse body) .error with
    | .error e => .failed (error ++ e) size
    | .ok texts => ⟨true, PyText.strip ("\n".intercalate texts), fmt, "", size⟩

/-- `read_document`. -/
def readDocument (L : Library β V) (P : Pass V) (name : String) (body : β) : ReadResult :=
  match P.statFails name with
  | some e => .failed ("stat_failed: " ++ e) 0
  | none =>
    let size := L.size body
    if L.maxBytes < size then
      .failed ("too_large (" ++ toString size ++ " > " ++ toString L.maxBytes ++ ")") size
    else
      let ext := L.lower (splitName name).2
      if ext ∈ textExts ∨ ext = "" then
        match P.readFails name with
        | some e => .failed ("read_failed: " ++ e) 0
        | none =>
          let text := decode L body
          if ext = "" ∧ '\x00' ∈ text.toList.take 1024 then .failed "binary_no_ext" size
          else
            let fmt := String.ofList (ext.toList.dropWhile (· = '.'))
            ⟨true, PyText.strip text, if fmt = "" then "text" else fmt, "", size⟩
      else if ext ∈ htmlExts then
        match (P.readFails name).elim (L.feed (decode L body)) .error with
        | .error e => .failed ("html_parse_failed: " ++ e) size
        | .ok es => ⟨true, PyText.strip (htmlText L es), "html", "", size⟩
      else if ext = ".pdf" then
        readWith L.pdf "pdf_unsupported (pip install pypdf)" "pdf_read_failed: " "pdf" (P.readFails name) body size
      else if ext = ".docx" then
        readWith L.docx "docx_unsupported (pip install python-docx)" "docx_read_failed: " "docx" (P.readFails name)
          body size
      else .failed ("unsupported_format (" ++ ext ++ ")") size

/-! ### Classifying -/

/-- `DEFAULT_BINS`. -/
def defaultBins : List (String × List String) :=
  [("code", ["def", "class", "import", "function", "const", "return", "git", "python",
      "javascript", "typescript", "compile", "stack trace", "exception", "</", "());"]),
    ("research", ["abstract", "hypothesis", "experiment", "method", "results", "conclusion",
      "figure", "dataset", "we propose", "this paper", "study", "benchmark"]),
    ("reference", ["documentation", "manual", "how to", "usage", "example",
      "parameter", "configure", "install", "api reference", "guide", "cheat sheet"]),
    ("personal", ["remember", "note to self", "todo", "to-do", "meeting", "reminder",
      "appointment", "my favorite", "i need to", "don't forget", "my birthday",
      "grocer", "i live", "i work at"]),
    ("finance", ["invoice", "payment", "receipt", "budget", "expense", "tax", "balance",
      "amount due", "subtotal", "$", "usd", "transaction"])]

/-- `DEFAULT_BIN`. -/
def defaultBin : String := "misc"

/-- Whether a word ends before the character `c`, and begins after it: `\b`. -/
def boundary (isWord : Char → Bool) (before after : Option Char) : Bool := before.any isWord != after.any isWord

/-- `re.search(r"\b" + re.escape(kw) + r"\b", low)`; `before` is the character before. -/
def hasWord (isWord : Char → Bool) (kw : List Char) (before : Option Char) : List Char → Bool
  | [] => false
  | c :: cs =>
    (kw.isPrefixOf (c :: cs) && boundary isWord before (some c) &&
      boundary isWord kw.getLast? ((c :: cs).drop kw.length).head?) || hasWord isWord kw (some c) cs

/-- `_kw_hit`. -/
def kwHit (L : Library β V) (low kw : String) : Bool :=
  if ' ' ∈ kw.toList ∨ kw = "" ∨ ¬ kw.toList.all L.isAlnum then low.toList.tails.any kw.toList.isPrefixOf
  else hasWord (fun c => L.isAlnum c || c == '_') kw.toList none low.toList

/-- `max(scores, key=...)`: the first of the best. -/
def bestOf : List (String × ℚ) → Option (String × ℚ)
  | [] => none
  | s :: ss => some (ss.foldl (fun b s => if b.2 < s.2 then s else b) s)

/-- `classify`; `vec` is the text's vector, if it was embedded. -/
def classify (L : Library β V) (prototypes : List (String × V)) (vec : Option V) (text : String) :
    String × List (String × ℚ) :=
  let low := L.lower text
  let scores := defaultBins.map fun (name, kws) =>
    let kw := (kws.filter fun kw => kwHit L low kw).length
    let sem := match vec, prototypes.lookup name with
      | some v, some p => L.cosine v p
      | _, _ => 0
    (name, (kw : ℚ) + 3 * max sem 0)
  match bestOf scores with
  | none => (defaultBin, scores)
  | some (best, score) => (if score ≤ 0 then defaultBin else best, scores)

/-! ### Ingesting -/

/-- What becomes of a file: the result of `ingest_path`. -/
inductive Ingested where
  | ok (docId : ℕ) (binName collection : String) (chars : ℕ) (source : String) (scores : List (String × ℚ))
  | failed (error fmt : String)

/-- `res.get("ok")`. -/
def Ingested.isOk : Ingested → Bool
  | .ok .. => true
  | .failed .. => false

/-- The metadata of a document. -/
def docMeta (source binName : String) (time : ℤ) (text fmt origin : String) (nbytes : ℕ) : Dict :=
  let meta₁ := ((((item "kind" (.str "inbox_doc")).insert "source" (.str source)).insert "bin" (.str binName)).insert
    "status" (.str "provisional")).insert "ingested_at" (.int time)
  (((meta₁.insert "chars" (.int text.length)).insert "fmt" (.str fmt)).insert "origin" (.str origin)).insert
    "nbytes" (.int nbytes)

/-- The bin of a text; without prototypes it is not embedded for that. -/
def binOf (L : Library β V) (P : Pass V) (name text : String) : String × List (String × ℚ) :=
  classify L P.prototypes (if P.prototypes.isEmpty then none else P.embedScore name text) text

/-- `ingest_path`, that is `read_document` and then `ingest_text`; `none` when the embedder
raises. -/
def ingestPath (L : Library β V) (P : Pass V) (source name : String) (body : β) (S : Store V) :
    Option Ingested × Store V :=
  let rr := readDocument L P name body
  if rr.ok = false then (some (.failed rr.error rr.fmt), S)
  else
    let text := PyText.strip rr.text
    if text = "" then (some (.failed "empty" ""), S)
    else
      let (binName, scores) := binOf L P name text
      let coll := provisionalCollection binName
      match P.embedDoc name text with
      | none => (none, S)
      | some vec =>
        (some (.ok (S.lastId + 1) binName coll text.length source scores),
          S.add (P.stores name) coll text vec (docMeta source binName (P.time name) text rr.fmt name rr.nbytes))

/-! ### A pass -/

/-- An entry of the inbox. -/
inductive Entry (β : Type*) where
  | dir
  | file (body : β)
  /-- Neither a directory nor a regular file. -/
  | special

/-- A file in `processed/` or `failed/`, with the name it was dropped under. -/
structure Filed (β : Type*) where
  name : String
  dropped : String
  body : β

/-- The inbox and the store. -/
structure World (β V : Type*) where
  inbox : AList fun _ : String => Entry β
  processed : List (Filed β)
  failed : List (Filed β)
  store : Store V

/-- A file's entry in the result of a pass. -/
structure Result where
  path : String
  ingested : Ingested
  /-- `moved_to`, or `move_error`. -/
  moved : Except String String

/-- `_RESERVED_SUBDIRS`. -/
def reservedSubdirs : List String := ["processed", "failed"]

/-- The files that a pass takes: regular ones without a dot, outside the subdirectories. -/
def eligible (w : World β V) (name : String) : Option β :=
  match w.inbox.lookup name with
  | some (.file body) => if name.toList.head? = some '.' ∨ name ∈ reservedSubdirs then none else some body
  | _ => none

/-- The name `_move_unique` gives: a new one when the name is taken. -/
def uniqueName (tag name : String) (dest : List (Filed β)) : String :=
  if name ∈ dest.map Filed.name then (splitName name).1 ++ "." ++ tag ++ (splitName name).2 else name

/-- `_move_unique` of a file into `processed/` or `failed/`, when it does not raise. -/
def moveFile (tag name : String) (body : β) (ok : Bool) (w : World β V) : String × World β V :=
  let dest := if ok then w.processed else w.failed
  let target := uniqueName tag name dest
  let dest := dest ++ [⟨target, name, body⟩]
  let inbox := w.inbox.erase name
  (target, if ok then { w with inbox := inbox, processed := dest } else { w with inbox := inbox, failed := dest })

/-- The path of a file in the inbox. -/
def pathOf (dir name : String) : String := dir ++ "/" ++ name

/-- The body of `process_inbox`'s loop; it raises when the embedder does. -/
def processFile (L : Library β V) (dir : String) (P : Pass V) (name : String) (w : World β V) :
    Except Unit (Option Result) × World β V :=
  match eligible w name with
  | none => (.ok none, w)
  | some body =>
    match ingestPath L P (pathOf dir name) name body w.store with
    | (none, S) => (.error (), { w with store := S })
    | (some res, S) =>
      let w := { w with store := S }
      match P.moveFails name with
      | some e => (.ok (some ⟨pathOf dir name, res, .error e⟩), w)
      | none =>
        let m := moveFile (P.tag name) name body res.isOk w
        (.ok (some ⟨pathOf dir name, res, .ok m.1⟩), m.2)

/-- `sorted(inbox.iterdir())`. -/
def names (w : World β V) : List String := w.inbox.keys.insertionSort (· ≤ ·)

/-- `process_inbox`. -/
def processInbox (L : Library β V) (dir : String) (P : Pass V) (w : World β V) : Except Unit (List Result) × World β V :=
  scan (processFile L dir P) (names w) w

end Persona.SortingLine
