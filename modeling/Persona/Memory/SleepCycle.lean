import Persona.Lib.PyText
import Persona.Memory.Conversations

/-!
# The sleep cycle

`services/api/sleep_cycle.py`: `consolidate` goes through the selected conversations,
newest activity first. Between two awaits of the distiller it runs without
interruption: `enterRow` is what it does with a row up to the call of the distiller, and
`finishCall` what it does with the answer.

The store and the embedder are injected, and fail as the real ones do: `embed` may raise,
and `store.add` reports nothing, whether it has stored the point or not. Marking the turns is
one statement of the database, which may raise and then marks none. A `Reply` is
what they and the distiller do for one call. The ids of the points are fresh UUIDs, so
that adding a point never meets an old one; they are left out.
-/

namespace Persona.Memory

open Persona.Lib

/-- A point of the vector store, with its collection; its vector is of type `V`. -/
structure Point (V : Type*) where
  collection : String
  document : String
  vector : V
  /-- `meta["kind"]`. -/
  kind : String
  /-- `meta["source"]`. -/
  source : Option String
  /-- `meta["profile"]`. -/
  profile : Option String
  /-- `meta["conversation_id"]`. -/
  conversationId : String
  /-- `meta["ts"]`. -/
  ts : ℤ

/-- What the dependencies do for one call of the distiller. -/
structure Reply (V : Type*) where
  /-- The distiller's facts and summary; `none` when it raises. -/
  distilled : Option (List (Option String) × Option String)
  /-- `embed` of the `n`-th fact; `none` when it raises. -/
  embed : ℕ → String → Option V
  /-- Whether the `n`-th `store.add` of a fact stores it. -/
  stores : ℕ → Bool
  /-- What `store.query` finds for the `n`-th fact; `none` when it raises. -/
  hits : ℕ → Option (List String)
  /-- Whether `mark_distilled` returns: it raises for more turns than SQLite binds variables, for a summary
  that is not encodable, and when the database does. -/
  marking : Bool
  /-- `embed` of the insight entry. -/
  embedEntry : String → Option V
  /-- Whether the insight entry is stored. -/
  storesEntry : Bool
  /-- Whether `journal_write` returns. -/
  writes : Bool

/-- The other arguments of `consolidate`. -/
structure Settings where
  collectionFor : String → String
  insightCollection : Option String
  /-- There is a `journal_write`. -/
  hasJournal : Bool
  maxConvos : ℕ
  minTurns : ℕ
  linkK : ℤ
  /-- `int(now)`, and `now` as the journal prints it. -/
  now : ℤ
  stamp : String

/-- A conversation's entry in the result. -/
structure Consolidated where
  conversationId : String
  turns : ℕ
  facts : ℕ
  links : ℕ

/-- What a pass works on. -/
structure St (V : Type*) where
  db : Db
  points : List (Point V)
  journal : List String
  /-- `skip_cids`. -/
  skip : List String
  results : List Consolidated

/-- A call of the distiller. -/
structure Call where
  conversationId : String
  profile : String
  /-- The turns it is shown. -/
  turns : List Turn

/-! ### Texts -/

/-- `render_turns`. -/
def renderTurns (turns : List Turn) : String :=
  PyText.strip ("\n".intercalate ((turns.filter fun t => PyText.strip t.content ≠ "").map fun t =>
    "[" ++ t.role ++ "] " ++ PyText.strip t.content))

/-- `discover_links`, as the number of links. -/
def discoverLinks (k : ℤ) (hits : Option (List String)) (exclude : String) : ℕ :=
  if k ≤ 0 then 0 else (((hits.getD []).filter fun h => h ≠ "" ∧ h ≠ exclude).take k.toNat).length

/-- `build_insight`. -/
def buildInsight (stamp conversationId profile : String) (summary : Option String) (facts : List String)
    (links : ℕ) : String :=
  "\n".intercalate
    (["## " ++ stamp ++ " -- consolidated " ++ conversationId ++ " (profile " ++ profile ++ ")"] ++
    (match summary with
      | some s => if s = "" then [] else ["summary: " ++ s]
      | none => []) ++
    (if facts.isEmpty then [] else
      ["facts (" ++ toString facts.length ++ "):"] ++ facts.map fun f => "  - " ++ f) ++
    ["relationship links discovered: " ++ toString links])

/-- The facts that are not empty: `f = (f or "").strip()`, and `if not f: continue`. -/
def nonEmpty (facts : List (Option String)) : List String :=
  (facts.map fun f => PyText.strip (f.getD "")).filter (· ≠ "")

/-! ### A call -/

section

variable {V : Type*} (S : Settings)

/-- What becomes of a row: the pass ends, goes on, or calls the distiller. -/
inductive Entered where
  | stop
  | skip
  | call (c : Call)

/-- A row, up to the call of the distiller; `go` is `should_continue()`. -/
def enterRow (go : Bool) (skip : List String) (db : Db) (row : Db.Pending) : Entered :=
  if go = false then .stop
  else if row.conversationId ∈ skip then .skip
  else
    let turns := db.undistilledTurns row.conversationId
    if turns.length < S.minTurns then .skip
    else .call ⟨row.conversationId, row.profile.elim "default" fun p => if p = "" then "default" else p, turns⟩

/-- What the loop over the facts has done: the points it added, the facts it counts as
stored, the links, and whether `embed` raised. -/
structure Stored (V : Type*) where
  points : List (Point V)
  stored : List String
  links : ℕ
  raised : Bool

/-- The point of a fact. -/
def factPoint (c : Call) (f : String) (vec : V) : Point V :=
  ⟨S.collectionFor c.profile, f, vec, "fact", some "sleep_cycle", some c.profile, c.conversationId, S.now⟩

/-- The loop over the facts that are not empty, from the `n`-th on. -/
def storeFacts (R : Reply V) (c : Call) (n : ℕ) : List String → Stored V
  | [] => ⟨[], [], 0, false⟩
  | f :: fs =>
    match R.embed n f with
    | none => ⟨[], [], 0, true⟩
    | some vec =>
      let r := storeFacts R c (n + 1) fs
      { points := (if R.stores n then [factPoint S c f vec] else []) ++ r.points
        stored := f :: r.stored
        links := discoverLinks S.linkK (R.hits n) f + r.links
        raised := r.raised }

/-- The insight entry goes to the store and to the journal, unless that fails. -/
def recordInsight (R : Reply V) (c : Call) (entry : String) (s : St V) : St V :=
  { s with
    points := s.points ++
      match S.insightCollection, R.embedEntry entry with
      | some coll, some vec =>
        if coll ≠ "" ∧ R.storesEntry then [⟨coll, entry, vec, "insight", some "sleep_cycle", none, c.conversationId, S.now⟩]
        else []
      | _, _ => []
    journal := s.journal ++ if S.hasJournal ∧ R.writes then [entry] else [] }

/-- The rest of a row, after the distiller: whether the pass raises, and the state. -/
def finishCall (R : Reply V) (c : Call) (s : St V) : Bool × St V :=
  match R.distilled with
  | none => (false, s)
  | some (facts, summary) =>
    let r := storeFacts S R c 0 (nonEmpty facts)
    let s := { s with points := s.points ++ r.points }
    if r.raised then (true, s)
    else if r.stored.isEmpty ∧ PyText.strip (summary.getD "") = "" then
      (false, { s with skip := c.conversationId :: s.skip })
    else if R.marking = false then (true, s)
    else
      let s := { s with db := s.db.markDistilled (c.turns.map Turn.id) summary }
      let s := recordInsight S R c (buildInsight S.stamp c.conversationId c.profile summary r.stored r.links) s
      (false, { s with results := s.results ++ [⟨c.conversationId, c.turns.length, r.stored.length, r.links⟩] })

/-! ### A pass that is not interrupted -/

/-- The outcome of a pass: whether it raised, the state, and the calls of the distiller. -/
structure Pass (V : Type*) where
  raised : Bool
  st : St V
  calls : List Call

/-- The loop; `go cid` is `should_continue()` before the row of `cid`, and `reply` what
the dependencies do, given the conversation and the transcript. -/
def passRows (go : String → Bool) (reply : String → String → Reply V) : List Db.Pending → St V → Pass V
  | [], s => ⟨false, s, []⟩
  | row :: rows, s =>
    match enterRow S (go row.conversationId) s.skip s.db row with
    | .stop => ⟨false, s, []⟩
    | .skip => passRows go reply rows s
    | .call c =>
      match finishCall S (reply c.conversationId (renderTurns c.turns)) c s with
      | (true, s) => ⟨true, s, [c]⟩
      | (false, s) =>
        let r := passRows go reply rows s
        { r with calls := c :: r.calls }

/-- `consolidate`. -/
def consolidate (go : String → Bool) (reply : String → String → Reply V) (s : St V) : Pass V :=
  passRows S go reply (s.db.conversationsWithUndistilled S.minTurns S.maxConvos) s

end

end Persona.Memory
