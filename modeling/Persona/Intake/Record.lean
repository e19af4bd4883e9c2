import Persona.Lib.Binary64
import Persona.Lib.Markup
import Persona.TaskBoard.Store

/-!
# Memory records

`services/api/memory_intake.py`: what is made of a model's output. `parseIntake` finds
the records in it, `validateRecord` coerces one to the schema, and `parseConflict` finds
the indices of the facts a new one supersedes. The prompts are left out: a model may
answer anything.

Two of the functions are documented never to raise and do: `float(v)` overflows on an
integer that is too large, and `int(v)` fails on an infinity and on a text such as `--5`.
-/

namespace Persona.Intake

open Persona.Lib Persona.TaskBoard

/-- What `float(v)` does. -/
inductive Floated where
  | value (x : Binary64)
  /-- A `TypeError` or `ValueError`. -/
  | invalid
  /-- An `OverflowError`. -/
  | overflow

/-- Python's library. -/
structure Library extends Python, PyText.Unicode where
  /-- `float(s)` of a text; `none` is a `ValueError`. -/
  floatText : String → Option Binary64
  /-- The infinity or NaN that a float which is not finite stands for. -/
  nonfinite : {x : Binary64 // x.isFinite = false}

/-- All of them are NaN. -/
def onlyNan : {x : Binary64 // x.isFinite = false} := ⟨.nan, rfl⟩

/-- `float(v)`. -/
def Library.float (L : Library) : Json → Floated
  | .bool b => .value (.round b.toNat)
  | .int n =>
    match Binary64.round n with
    | .num d => .value (.num d)
    | _ => .overflow
  | .float (.fin q) => .value (.round q)
  | .float .nonfinite => .value L.nonfinite
  | .str s => (L.floatText s).elim .invalid .value
  | .null | .arr _ | .obj _ => .invalid

/-- `MEMORY_TYPES`. -/
def memoryTypes : List String :=
  ["preference", "identity", "fact", "event", "task", "relationship", "skill", "project", "other"]

/-- `_STATEMENT_MAX`. -/
def statementMax : ℕ := 200

/-- `_MAX_ENTITIES`. -/
def maxEntities : ℕ := 8

/-- `MemoryRecord`. -/
structure MemoryRecord where
  statement : String
  type : String
  entities : List String
  date : Option String
  source : String
  confidence : ℚ

variable (L : Library)

/-! ### Coercion -/

/-- The loop of `_coerce_entities`. -/
def addEntities (seen out : List String) : List String → List String
  | [] => out
  | s :: ss =>
    if s = "" ∨ L.lower s ∈ seen then addEntities seen out ss
    else if maxEntities ≤ out.length + 1 then out ++ [s]
    else addEntities (L.lower s :: seen) (out ++ [s]) ss

/-- `_coerce_entities`. -/
def coerceEntities (val : Json) : List String :=
  let parts := match val with
    | .str s => (s.toList.splitOnP fun c => c = ',' || c = ';').map fun cs => Json.str (String.ofList cs)
    | .arr xs => xs
    | _ => []
  addEntities L [] [] (parts.map fun p => PyText.strip (L.toStr p))

/-- The text has the form of a date, `d` standing for a digit. -/
def hasForm (form s : String) : Bool :=
  s.toList.length = form.toList.length &&
    (form.toList.zip s.toList).all fun fc => if fc.1 = 'd' then L.isDecimal fc.2 else fc.1 = fc.2

/-- `_coerce_date`. -/
def coerceDate (val : Json) : Option String :=
  if val.truthy then
    let s := PyText.strip (L.toStr val)
    if hasForm L "dddd-dd-dd" s || hasForm L "dddd-dd" s then some s else none
  else none

/-- The float `0.7`. -/
def defaultConfidence : ℚ := 3152519739159347 / 4503599627370496

/-- `_coerce_confidence`; `none` when it raises. -/
def coerceConfidence (val : Json) : Option ℚ :=
  match L.float val with
  | .value (.num d) => some (max 0 (min 1 d.value))
  | .value (.inf negative) => some (if negative then 0 else 1)
  -- `min(1.0, c)` keeps its first argument when the two do not compare
  | .value .nan => some 1
  | .invalid => some defaultConfidence
  | .overflow => none

/-- `re.sub(r"\s+", " ", s)`; `blank` says that the last character was one. -/
def collapse (blank : Bool) : List Char → List Char
  | [] => []
  | c :: cs =>
    if PyText.isSpace c then (if blank then collapse true cs else ' ' :: collapse true cs)
    else c :: collapse false cs

/-- `re.sub(r"^([-*•]\s+)+", "", s)`, blanks being single. -/
def dropBullets : List Char → List Char
  | c :: s :: cs => if c ∈ ['-', '*', '•'] ∧ PyText.isSpace s = true then dropBullets cs else c :: s :: cs
  | cs => cs

/-- `d.get(k)` of a value that is a dictionary. -/
def field (raw : Json) (k : String) : Json :=
  match raw with
  | .obj kvs => Json.get kvs k
  | _ => .null

/-- The `statement` of a record, up to its length. -/
def statementOf (raw : Json) : String :=
  let s := PyText.strip (L.toStr (((field raw "statement").or (field raw "fact")).or (.str "")))
  String.ofList (dropBullets (collapse false s.toList))

/-- `validate_record` on a dictionary: a record or what is missing, and with a record the
warnings; `none` when it raises. -/
def validateRecord (raw : Json) : Option (Except (List String) (MemoryRecord × List String)) :=
  match raw with
  | .obj _ =>
    let s := statementOf L raw
    if s = "" then some (.error ["missing_statement"])
    else
      let statement := if statementMax < s.toList.length then PyText.rstrip (String.ofList (s.toList.take statementMax)) else s
      let rtype := L.lower (PyText.strip (L.toStr ((field raw "type").or (.str "fact"))))
      let known := rtype ∈ memoryTypes
      (coerceConfidence L (field raw "confidence")).map fun confidence => .ok
        ({ statement
           type := if known then rtype else "other"
           entities := coerceEntities L (field raw "entities")
           date := coerceDate L (field raw "date")
           source := L.lower (PyText.strip (L.toStr ((field raw "source").or (.str "conversation"))))
           confidence },
          if known then [] else ["unknown_type:" ++ rtype ++ "->other"])
  | _ => some (.error ["not_an_object"])

/-- `record_to_text`. -/
def recordToText (rec : MemoryRecord) : String :=
  if rec.entities.isEmpty then rec.statement
  else rec.statement ++ " (re: " ++ ", ".intercalate rec.entities ++ ")"

/-- `record_to_meta`. -/
def recordToMeta (rec : MemoryRecord) (profile topic : String) (now : ℤ) : Dict :=
  [⟨"kind", .str "fact"⟩, ⟨"type", .str rec.type⟩, ⟨"entities", .str (", ".intercalate rec.entities)⟩,
    ⟨"date", rec.date.elim .null .str⟩, ⟨"source", .str rec.source⟩, ⟨"confidence", .float (.fin rec.confidence)⟩,
    ⟨"structured", .bool true⟩, ⟨"profile", .str profile⟩, ⟨"topic", .str topic⟩, ⟨"ts", .int now⟩].toAList

/-! ### The model's output -/

/-- `_strip_think`. -/
def stripThink (s : String) : String :=
  let s := PyText.strip (String.ofList (Markup.withoutBlocks Markup.sameLetter "<think>" "</think>" s.toList))
  PyText.strip (String.ofList (Markup.upTo Markup.sameLetter "<think>" s.toList))

/-- `re.search("[.*]")` for a pair of brackets: from the first opening to the last closing one. -/
def between (opening closing : Char) (cs : List Char) : Option (List Char) :=
  let inner := cs.dropWhile (· ≠ opening)
  let outer := (inner.reverse.dropWhile (· ≠ closing)).reverse
  if outer.isEmpty then none else some outer

/-- `_extract_json`. -/
def extractJson (s : String) : String :=
  match between '\x7b' '\x7d' s.toList with
  | some cs => String.ofList cs
  | none =>
    match between '[' ']' s.toList with
    | some cs => String.ofList cs
    | none => ""

/-- The value in a text: `json.loads`, of the text or of what `_extract_json` finds in it, and
once more of a text. -/
def loadsOutput (raw : String) : Except String Json := do
  let obj ← match L.loads raw with
    | some obj => .ok obj
    | none =>
      if extractJson raw = "" then .error "no_json"
      else
        match L.loads (extractJson raw) with
        | some obj => .ok obj
        | none => .error "json_parse_failed"
  match obj with
  | .str s =>
    match L.loads s with
    | some obj => .ok obj
    | none => .error "double_encoded_parse_failed"
  | obj => .ok obj

/-- The records among the items. -/
def rawRecords (items : List Json) : List Json :=
  items.filterMap fun
    | .str s => some (.obj [("statement", .str s)])
    | .obj kvs => some (.obj kvs)
    | _ => none

/-- `parse_intake`. -/
def parseIntake (text : String) : Except String (List Json) := do
  let raw := stripThink (PyText.strip text)
  if raw = "" then .error "empty"
  else
    let items ← match ← loadsOutput L raw with
      | .obj kvs =>
        let items := Json.get kvs "memories"
        .ok (if items.isNull then (kvs.lookup "facts").getD (.arr []) else items)
      | .arr xs => .ok (.arr xs)
      | _ => .error "json_not_object_or_list"
    match items with
    | .arr xs => .ok (rawRecords xs)
    | _ => .error "memories_not_list"

/-- An item of the list `supersede`: an index, or nothing when it is skipped; `none` when `int`
raises. -/
def conflictIndex (v : Json) : Option (Option ℤ) :=
  match v with
  | .bool _ => some none
  | .int n => some (some n)
  | .float x => (L.toInt (.float x)).map some
  | .str s =>
    let digits := (PyText.strip s).toList.dropWhile (· = '-')
    if digits ≠ [] ∧ digits.all L.isDigit = true then (L.int (PyText.strip s)).map some else some none
  | _ => some none

/-- `parse_conflict`, without the note; `none` when it raises. -/
def parseConflict (text : String) (n : ℕ) : Option (List ℕ) :=
  let raw := stripThink (PyText.strip text)
  if raw = "" then some []
  else
    match loadsOutput L raw with
    | .ok (.obj kvs) =>
      match (Json.get kvs "supersede").or (.arr []) with
      | .arr vs => (vs.mapM (conflictIndex L)).map fun is => (List.range n).filter fun i => some (i : ℤ) ∈ is
      | _ => some []
    | _ => some []

/-! ### What is parsed -/

variable {L} {text : String} {n : ℕ}

/-- The indices are those of candidates, in order, each once. -/
theorem parseConflict_sublist {is : List ℕ} (h : parseConflict L text n = some is) : is.Sublist (List.range n) := by
  unfold parseConflict at h
  dsimp only at h
  split_ifs at h
  · cases h
    exact List.nil_sublist _
  · split at h
    · split at h
      · obtain ⟨vs, -, rfl⟩ := Option.map_eq_some_iff.mp h
        exact List.filter_sublist
      · cases h
        exact List.nil_sublist _
    · cases h
      exact List.nil_sublist _

end Persona.Intake
