import Persona.Intake.Record
import Persona.Rag.Memory
import Mathlib.Algebra.Order.BigOperators.Group.List

/-!
# Structured intake

`structured_intake` of `services/api/server.py`: for each record in a model's output the
nearest facts are looked up, those that a second answer of the model names are deleted,
and the record is added. Neither the deletion nor `memory_add` reports a failure, and the
counts that are returned are of what was attempted.

`Accounts` says what the counts and the deletions stand for, and `accounts_iff` exactly
when they do. That needs more than a store that works: a later record of the same batch
may supersede the one that replaced a fact.
-/

namespace Persona.Intake

open Persona.Lib Persona.Rag

variable {V : Type*} (L : Library)

/-- The settings and arguments of a call, and what it meets. A function of a number is
about the record in that place of the output. -/
structure Call (V : Type*) where
  config : Config
  backend : Backend
  /-- `MEMORY_INTAKE_RESOLVE_CONFLICTS`. -/
  resolveConflicts : Bool
  /-- `MEMORY_INTAKE_CONFLICT_K`. -/
  conflictK : ℤ
  profile : String
  topic : String
  /-- The model's output, or the exception of its call as it prints. -/
  output : Except String String
  /-- The query for the statement. -/
  lookup : ℕ → Lookup V
  /-- The model's answer on the conflicts; `none` when its call raises. -/
  answer : ℕ → Option String
  /-- Whether the deletion works. -/
  deletes : ℕ → Bool
  /-- `_embed` of the record's text; `none` when it raises. -/
  embedded : ℕ → Option V
  /-- Whether the store takes the record. -/
  stores : ℕ → Bool
  /-- `int(time.time())`. -/
  time : ℕ → ℤ

/-- What was done to the store for a record: the candidates the model had superseded, and
the store before, after the deletion, and after the addition. -/
structure Handled (V : Type*) where
  record : MemoryRecord
  superseded : List (Point V)
  before : Store V
  between : Store V
  after : Store V

/-- An entry of `records`. -/
inductive Entry where
  | skipped (errors : List String) (raw : Json)
  | stored (record : MemoryRecord) (warnings superseded relatedExisting : List String)

/-- What the loop works on; the `log` is kept for what is said of it below. -/
structure Progress (V : Type*) where
  store : Store V
  stored : ℕ
  totalSuperseded : ℕ
  records : List Entry
  log : List (Handled V)

/-- What `structured_intake` returns, if it does. -/
inductive Returned where
  | raised
  | error (message : String) (raw : Option String)
  | ok (extracted stored superseded : ℕ) (records : List Entry)

section

variable (C : Call V) (n : ℕ)

/-- The collection of the call. -/
def Call.collection : String := collectionName C.config (some C.profile)

/-- `cands`. -/
def candidates (S : Store V) : List (Point V) :=
  memoryQueryDetailed C.config (C.lookup n) C.conflictK ["fact"] (some C.profile) S

/-- The candidates that the model's answer names; `none` when it makes `parse_conflict` raise. -/
def supersededBy (cands : List (Point V)) : Option (List (Point V)) :=
  if C.resolveConflicts = false ∨ cands.isEmpty = true then some []
  else
    match C.answer n with
    | none => some []
    | some out => (parseConflict L out cands.length).map fun is => is.filterMap fun i => cands[i]?

/-- `_store.delete` of the superseded candidates, if there are any. -/
def deleteSuperseded (superseded : List (Point V)) (S : Store V) : Store V :=
  if superseded.isEmpty then S
  else (S.delete C.backend (C.deletes n) C.collection (superseded.map Point.id)).2

/-- `memory_add` of a record. -/
def addRecord (rec : MemoryRecord) (S : Store V) : Store V :=
  memoryAdd C.config L.toPython (C.embedded n) (C.stores n) (recordToText rec)
    (recordToMeta rec C.profile C.topic (C.time n)) (some C.profile) S

/-- The body of the loop: whether it raises, and what it leaves. -/
def intakeRecord (raw : Json) (s : Progress V) : Bool × Progress V :=
  match validateRecord L raw with
  | none => (true, s)
  | some (.error errs) => (false, { s with records := s.records ++ [.skipped errs raw] })
  | some (.ok (rec, errs)) =>
    let cands := candidates C n s.store
    match supersededBy L C n cands with
    | none => (true, s)
    | some superseded =>
      let between := deleteSuperseded C n superseded s.store
      let related := ((cands.filter fun c => c.id ∉ superseded.map Point.id).map Point.document).take 3
      let after := addRecord L C n rec between
      (false,
        { store := after
          stored := s.stored + 1
          totalSuperseded := s.totalSuperseded + superseded.length
          records := s.records ++ [.stored rec errs (superseded.map Point.document) related]
          log := s.log ++ [⟨rec, superseded, s.store, between, after⟩] })

end

variable (C : Call V)

/-- The loop, from the `n`-th record on. -/
def intakeRecords (n : ℕ) : List Json → Progress V → Bool × Progress V
  | [], s => (false, s)
  | raw :: raws, s =>
    match intakeRecord L C n raw s with
    | (true, s) => (true, s)
    | (false, s) => intakeRecords (n + 1) raws s

/-- `structured_intake`. -/
def structuredIntake (S : Store V) : Returned × Progress V :=
  let s : Progress V := ⟨S, 0, 0, [], []⟩
  if C.config.ragOk = false ∨ C.config.hasEmbedder = false then (.error "rag_unavailable" none, s)
  else
    match C.output with
    | .error e => (.error ("intake_call_failed: " ++ e) none, s)
    | .ok out =>
      match parseIntake L out with
      | .error e => (.error e (some (String.ofList (out.toList.take 400))), s)
      | .ok raws =>
        match intakeRecords L C 0 raws s with
        | (true, s) => (.raised, s)
        | (false, s) => (.ok raws.length s.stored s.totalSuperseded s.records, s)

/-! ### What the counts and deletions stand for -/

/-- The points that were deleted for a record. -/
def Handled.deleted (h : Handled V) : List (Point V) :=
  h.before.points.filter fun p => p.id ∉ h.between.points.map Point.id

/-- The points that were added for a record. -/
def Handled.added (h : Handled V) : List (Point V) :=
  h.after.points.filter fun p => p.id ∉ h.between.points.map Point.id

/-- The text is that of a point of the collection. -/
def Present (c text : String) (S : Store V) : Prop := ∃ p ∈ S.coll c, p.document = text

/-- A point is gone only if it was a fact that a record superseded whose own text is in the
collection, and the counts are of the points added and deleted. -/
structure Accounts (c : String) (S S' : Store V) (stored superseded : ℕ) (log : List (Handled V)) : Prop where
  complete : ∀ p ∈ S.points, p ∈ S'.points ∨ ∃ h ∈ log, p ∈ h.deleted
  facts : ∀ h ∈ log, ∀ p ∈ h.deleted, p ∈ h.superseded ∧ p.collection = c ∧ Store.hasKind ["fact"] p = true
  replaced : ∀ h ∈ log, h.deleted ≠ [] → Present c (recordToText h.record) S'
  stored_eq : stored = (log.map fun h => h.added.length).sum
  superseded_eq : superseded = (log.map fun h => h.deleted.length).sum

/-- A call that returns accounts for what it did. -/
def IntakeAccounts (S : Store V) : Prop :=
  ∀ extracted stored superseded records, (structuredIntake L C S).1 = .ok extracted stored superseded records →
    Accounts C.collection S (structuredIntake L C S).2.store stored superseded (structuredIntake L C S).2.log

/-- The texts of the records in the output that are valid. -/
def textsOf (raws : List Json) : List String :=
  raws.filterMap fun raw =>
    match validateRecord L raw with
    | some (.ok (rec, _)) => some (recordToText rec)
    | _ => none

/-- The texts owed after a record. -/
def owedAfter (owed : List String) (rec : MemoryRecord) (superseded : List (Point V)) : List String :=
  if superseded.isEmpty then owed else recordToText rec :: owed

/-- Each record is added, each deletion works, and no record supersedes the last copy of a
text that is `owed`, one that replaced a fact, unless the text is its own or that of a
record to come. -/
def CarefulFrom (n : ℕ) (owed : List String) : List Json → Store V → Prop
  | [], _ => True
  | raw :: raws, S =>
    match validateRecord L raw with
    | some (.ok (rec, _)) =>
      ∀ superseded, supersededBy L C n (candidates C n S) = some superseded →
        Adds C.config (C.embedded n) (C.stores n) ∧ (superseded ≠ [] → C.deletes n = true) ∧
          (∀ t ∈ owedAfter owed rec superseded, t = recordToText rec ∨ t ∈ textsOf L raws ∨
            ∃ p ∈ S.coll C.collection, p.document = t ∧ p.id ∉ superseded.map Point.id) ∧
          CarefulFrom (n + 1) (owedAfter owed rec superseded) raws
            (addRecord L C n rec (deleteSuperseded C n superseded S))
    | _ => CarefulFrom (n + 1) owed raws S

/-- The condition on a call. -/
def Careful (S : Store V) : Prop :=
  ∀ out raws, C.config.ragOk = true → C.config.hasEmbedder = true → C.output = .ok out → parseIntake L out = .ok raws →
    (intakeRecords L C 0 raws ⟨S, 0, 0, [], []⟩).1 = false → CarefulFrom L C 0 [] raws S

/-! ### A record -/

section

variable {L C} {n : ℕ} {S : Store V} {cands superseded : List (Point V)} {rec : MemoryRecord} {raw : Json}
  {s s' : Progress V} {h : Handled V} {t : String} {p : Point V}

theorem filterMap_range_getElem? {α : Type*} (l : List α) : ((List.range l.length).filterMap fun i => l[i]?) = l := by
  induction l with
  | nil => rfl
  | cons a l ih =>
    rw [List.length_cons, List.range_succ_eq_map, List.filterMap_cons, List.filterMap_map]
    simpa [Function.comp_def] using ih

/-- Candidates are superseded each at most once. -/
theorem supersededBy_sublist (h : supersededBy L C n cands = some superseded) : superseded.Sublist cands := by
  unfold supersededBy at h
  split_ifs at h
  · cases h
    exact List.nil_sublist _
  · cases ha : C.answer n with
    | none =>
      simp only [ha, Option.some.injEq] at h
      subst h
      exact List.nil_sublist _
    | some out =>
      simp only [ha] at h
      obtain ⟨is, his, rfl⟩ := Option.map_eq_some_iff.mp h
      have hsub := (parseConflict_sublist his).filterMap fun i => cands[i]?
      rwa [filterMap_range_getElem?] at hsub

/-- What the loop of the candidates may supersede: distinct facts of the collection. -/
structure Facts (C : Call V) (S : Store V) (superseded : List (Point V)) : Prop where
  nodup : (superseded.map Point.id).Nodup
  mem : ∀ p ∈ superseded, p ∈ S.points
  collection : ∀ p ∈ superseded, p.collection = C.collection
  kind : ∀ p ∈ superseded, Store.hasKind ["fact"] p = true

theorem facts_of_supersededBy (h : supersededBy L C n (candidates C n S) = some superseded) : Facts C S superseded := by
  have hsub := supersededBy_sublist h
  have hcands : (candidates C n S).Subperm (S.coll C.collection) := memoryQueryDetailed_subperm
  have hcoll : ∀ p ∈ superseded, p ∈ S.points ∧ p.collection = C.collection := fun p hp =>
    Store.mem_coll.mp (hcands.subset (hsub.subset hp))
  refine ⟨?_, fun p hp => (hcoll p hp).1, fun p hp => (hcoll p hp).2, fun p hp => ?_⟩
  · obtain ⟨l, hperm, hl⟩ := hcands
    have hnd : ((candidates C n S).map Point.id).Nodup :=
      (hperm.map _).nodup_iff.mp ((Store.nodup_coll C.collection).sublist (hl.map _))
    exact hnd.sublist (hsub.map _)
  · have hkinds : (Store.kinds ["fact"]).isEmpty = false := by decide
    exact hasKind_of_mem_memoryQueryDetailed hkinds (hsub.subset hp)

/-- What is done for a record. -/
def handle (L : Library) (C : Call V) (n : ℕ) (rec : MemoryRecord) (superseded : List (Point V)) (S : Store V) : Handled V :=
  ⟨rec, superseded, S, deleteSuperseded C n superseded S, addRecord L C n rec (deleteSuperseded C n superseded S)⟩

theorem mem_deleteSuperseded : p ∈ (deleteSuperseded C n superseded S).points ↔
    p ∈ S.points ∧ ¬ (C.deletes n = true ∧ p.collection = C.collection ∧ p.id ∈ superseded.map Point.id) := by
  unfold deleteSuperseded
  cases superseded with
  | nil => simp
  | cons q qs => simp only [List.isEmpty_cons, Bool.false_eq_true, if_false, Store.mem_delete]

/-- The points deleted for a record are those superseded, if the deletion works. -/
theorem deleted_handle (L : Library) (n : ℕ) (rec : MemoryRecord) (hf : Facts C S superseded) :
    (handle L C n rec superseded S).deleted.Perm (if C.deletes n then superseded else []) := by
  have hgone : (handle L C n rec superseded S).deleted =
      S.points.filter fun p => C.deletes n = true ∧ p.id ∈ superseded.map Point.id := by
    refine List.filter_congr fun p hp => ?_
    rw [decide_eq_decide]
    constructor
    · intro hgone
      by_contra hkept
      refine hgone (List.mem_map_of_mem (mem_deleteSuperseded.mpr ⟨hp, fun hdel => hkept ⟨hdel.1, hdel.2.2⟩⟩))
    · intro ⟨hdel, hid⟩ hstill
      obtain ⟨q, hq, hqp⟩ := List.mem_map.mp hstill
      obtain ⟨hqS, hkept⟩ := mem_deleteSuperseded.mp hq
      rw [Store.point_ext hqS hp hqp] at hkept
      obtain ⟨r, hr, hrp⟩ := List.mem_map.mp hid
      have hcoll := hf.collection r hr
      rw [Store.point_ext (hf.mem r hr) hp hrp] at hcoll
      exact hkept ⟨hdel, hcoll, hid⟩
  rw [hgone]
  cases C.deletes n with
  | false => simp
  | true => simpa using Store.filter_mem_perm hf.nodup hf.mem

/-- One point is added for a record, or none. -/
theorem added_handle : (handle L C n rec superseded S).added.length =
    if Adds C.config (C.embedded n) (C.stores n) then 1 else 0 := by
  have hold : ∀ T : Store V, T.points.filter (fun p => p.id ∉ T.points.map Point.id) = [] := by
    intro T
    refine List.filter_eq_nil_iff.mpr fun p hp => ?_
    simpa using ⟨p, hp, rfl⟩
  have hnew : ∀ T : Store V, T.lastId + 1 ∉ T.points.map Point.id := by
    intro T hmem
    obtain ⟨p, hp, hid⟩ := List.mem_map.mp hmem
    have hle := T.id_le_lastId p hp
    omega
  have hadded : (handle L C n rec superseded S).added =
      (addRecord L C n rec (deleteSuperseded C n superseded S)).points.filter fun p =>
        p.id ∉ (deleteSuperseded C n superseded S).points.map Point.id := rfl
  rw [hadded, addRecord]
  rcases points_memoryAdd C.config L.toPython (C.embedded n) (C.stores n) (recordToText rec)
    (recordToMeta rec C.profile C.topic (C.time n)) (some C.profile) (deleteSuperseded C n superseded S) with
    ⟨hadds, vec, hpoints⟩ | ⟨hdrops, hsame⟩
  · rw [hpoints, if_pos hadds, List.filter_append, hold, List.filter_cons_of_pos (by simpa using hnew _)]
    rfl
  · rw [hsame, hold, if_neg hdrops]
    rfl

/-- The counts are right for a record that is added, if what it supersedes is deleted. -/
theorem handle_exact_iff (hf : Facts C S superseded) :
    ((handle L C n rec superseded S).added.length = 1 ∧
        (handle L C n rec superseded S).deleted.length = superseded.length) ↔
      Adds C.config (C.embedded n) (C.stores n) ∧ (superseded ≠ [] → C.deletes n = true) := by
  rw [added_handle, (deleted_handle L n rec hf).length_eq]
  apply and_congr
  · split_ifs with hadds <;> simp [hadds]
  · cases C.deletes n <;> cases superseded <;> simp

/-- The texts that a working deletion leaves. -/
theorem present_deleteSuperseded (hdel : superseded ≠ [] → C.deletes n = true) :
    Present C.collection t (deleteSuperseded C n superseded S) ↔
      ∃ p ∈ S.coll C.collection, p.document = t ∧ p.id ∉ superseded.map Point.id := by
  have hkept : ∀ p : Point V, p.collection = C.collection →
      (¬ (C.deletes n = true ∧ p.collection = C.collection ∧ p.id ∈ superseded.map Point.id) ↔
        p.id ∉ superseded.map Point.id) := by
    intro p hp
    cases superseded with
    | nil => simp
    | cons q qs => simp [hdel (List.cons_ne_nil _ _), hp]
  constructor
  · intro ⟨p, hp, ht⟩
    obtain ⟨hmem, hcoll⟩ := Store.mem_coll.mp hp
    obtain ⟨hS, hk⟩ := mem_deleteSuperseded.mp hmem
    exact ⟨p, Store.mem_coll.mpr ⟨hS, hcoll⟩, ht, (hkept p hcoll).mp hk⟩
  · intro ⟨p, hp, ht, hid⟩
    obtain ⟨hS, hcoll⟩ := Store.mem_coll.mp hp
    exact ⟨p, Store.mem_coll.mpr ⟨mem_deleteSuperseded.mpr ⟨hS, (hkept p hcoll).mpr hid⟩, hcoll⟩, ht⟩

/-- The texts after a record that is added. -/
theorem present_addRecord (hadds : Adds C.config (C.embedded n) (C.stores n)) :
    Present C.collection t (addRecord L C n rec S) ↔ t = recordToText rec ∨ Present C.collection t S := by
  rcases points_memoryAdd C.config L.toPython (C.embedded n) (C.stores n) (recordToText rec)
    (recordToMeta rec C.profile C.topic (C.time n)) (some C.profile) S with ⟨-, vec, hpoints⟩ | ⟨hdrops, -⟩
  · simp only [Present, Store.mem_coll, addRecord, hpoints, List.mem_append, List.mem_singleton]
    constructor
    · rintro ⟨p, ⟨hp | rfl, hc⟩, ht⟩
      · exact .inr ⟨p, ⟨hp, hc⟩, ht⟩
      · exact .inl ht.symm
    · rintro (rfl | ⟨p, ⟨hp, hc⟩, ht⟩)
      · exact ⟨_, ⟨.inr rfl, rfl⟩, rfl⟩
      · exact ⟨p, ⟨.inl hp, hc⟩, ht⟩
  · exact absurd hadds hdrops

/-- A point that is there before a record is handled is there after it, unless it is deleted. -/
theorem mem_after_or_deleted (L : Library) (C : Call V) (n : ℕ) (rec : MemoryRecord) (superseded : List (Point V))
    (hp : p ∈ S.points) :
    p ∈ (handle L C n rec superseded S).after.points ∨ p ∈ (handle L C n rec superseded S).deleted := by
  by_cases hkept : p ∈ (deleteSuperseded C n superseded S).points
  · exact .inl (mem_memoryAdd_of_mem hkept)
  · right
    refine List.mem_filter.mpr ⟨hp, ?_⟩
    rw [decide_eq_true_eq]
    intro hid
    obtain ⟨q, hq, hqp⟩ := List.mem_map.mp hid
    rw [Store.point_ext (mem_deleteSuperseded.mp hq).1 hp hqp] at hq
    exact hkept hq

/-- **What the body of the loop does** when it does not raise: the record is skipped, or handled. -/
theorem intakeRecord_cases (h : intakeRecord L C n raw s = (false, s')) :
    ((∃ errs, validateRecord L raw = some (.error errs)) ∧ s'.store = s.store ∧ s'.stored = s.stored ∧
        s'.totalSuperseded = s.totalSuperseded ∧ s'.log = s.log) ∨
      ∃ rec errs superseded, validateRecord L raw = some (.ok (rec, errs)) ∧
        supersededBy L C n (candidates C n s.store) = some superseded ∧
        s'.store = (handle L C n rec superseded s.store).after ∧ s'.stored = s.stored + 1 ∧
        s'.totalSuperseded = s.totalSuperseded + superseded.length ∧
        s'.log = s.log ++ [handle L C n rec superseded s.store] := by
  unfold intakeRecord at h
  cases hv : validateRecord L raw with
  | none => simp [hv] at h
  | some v =>
    cases v with
    | error errs =>
      simp only [hv, Prod.mk.injEq, true_and] at h
      subst h
      exact .inl ⟨⟨errs, rfl⟩, rfl, rfl, rfl, rfl⟩
    | ok v =>
      obtain ⟨rec, errs⟩ := v
      cases hsup : supersededBy L C n (candidates C n s.store) with
      | none => simp [hv, hsup] at h
      | some superseded =>
        simp only [hv, hsup, Prod.mk.injEq, true_and] at h
        subst h
        exact .inr ⟨rec, errs, superseded, rfl, rfl, rfl, rfl, rfl, rfl⟩

/-! ### The loop -/

/-- The record was added, what it superseded was deleted, and its text is there in its place. -/
structure Good (c : String) (S' : Store V) (h : Handled V) : Prop where
  added : h.added.length = 1
  deleted : h.deleted.length = h.superseded.length
  present : h.superseded ≠ [] → Present c (recordToText h.record) S'

/-- What holds of each handling: at most what was attempted is done. -/
structure Attempted (c : String) (h : Handled V) : Prop where
  added_le : h.added.length ≤ 1
  deleted_le : h.deleted.length ≤ h.superseded.length
  facts : ∀ p ∈ h.deleted, p ∈ h.superseded ∧ p.collection = c ∧ Store.hasKind ["fact"] p = true

theorem attempted_handle (hf : Facts C S superseded) : Attempted C.collection (handle L C n rec superseded S) := by
  have hperm := deleted_handle L n rec hf
  have hsub : ∀ p ∈ (handle L C n rec superseded S).deleted, p ∈ superseded := by
    intro p hp
    have hp := hperm.mem_iff.mp hp
    split_ifs at hp
    · exact hp
    · cases hp
  refine ⟨?_, ?_, fun p hp => ⟨hsub p hp, hf.collection p (hsub p hp), hf.kind p (hsub p hp)⟩⟩
  · rw [added_handle]
    split_ifs <;> simp
  · rw [hperm.length_eq]
    show _ ≤ superseded.length
    split_ifs <;> simp

/-- What a run of the loop leaves, from one store to another with a log. -/
structure Ran (L : Library) (C : Call V) (n : ℕ) (raws : List Json) (S S' : Store V) (log : List (Handled V)) : Prop where
  attempted : ∀ h ∈ log, Attempted C.collection h
  complete : ∀ p ∈ S.points, p ∈ S'.points ∨ ∃ h ∈ log, p ∈ h.deleted
  /-- All is good, what is owed from before included, exactly when the run is careful. -/
  careful : ∀ owed, ((∀ h ∈ log, Good C.collection S' h) ∧ ∀ t ∈ owed, Present C.collection t S') ↔
    CarefulFrom L C n owed raws S ∧ ∀ t ∈ owed, Present C.collection t S ∨ t ∈ textsOf L raws

theorem Ran.nil : Ran L C n [] S S [] where
  attempted := by simp
  complete := fun p hp => .inl hp
  careful := by simp [CarefulFrom, textsOf]

theorem Ran.skip {raws : List Json} {S' : Store V} {log : List (Handled V)} {errs : List String}
    (hv : validateRecord L raw = some (.error errs)) (hrest : Ran L C (n + 1) raws S S' log) :
    Ran L C n (raw :: raws) S S' log where
  attempted := hrest.attempted
  complete := hrest.complete
  careful := by
    intro owed
    rw [hrest.careful owed]
    simp [CarefulFrom, textsOf, hv]

theorem mem_owedAfter {owed : List String} (ht : t ∈ owed) : t ∈ owedAfter owed rec superseded := by
  unfold owedAfter
  split_ifs
  · exact ht
  · exact List.mem_cons_of_mem _ ht

/-- The condition on a record that is handled. -/
theorem carefulFrom_handle {errs : List String} (owed : List String) (raws : List Json)
    (hv : validateRecord L raw = some (.ok (rec, errs)))
    (hsup : supersededBy L C n (candidates C n S) = some superseded) :
    CarefulFrom L C n owed (raw :: raws) S ↔
      Adds C.config (C.embedded n) (C.stores n) ∧ (superseded ≠ [] → C.deletes n = true) ∧
        (∀ t ∈ owedAfter owed rec superseded, t = recordToText rec ∨ t ∈ textsOf L raws ∨
          ∃ p ∈ S.coll C.collection, p.document = t ∧ p.id ∉ superseded.map Point.id) ∧
        CarefulFrom L C (n + 1) (owedAfter owed rec superseded) raws (handle L C n rec superseded S).after := by
  rw [CarefulFrom, hv]
  simp only [hsup, Option.some.injEq, forall_eq']
  exact Iff.rfl

/-- A record owes its text from then on, if it supersedes anything. -/
theorem forall_good_handle (L : Library) (C : Call V) (n : ℕ) (rec : MemoryRecord) (superseded : List (Point V))
    (S S' : Store V) (log : List (Handled V)) (owed : List String) :
    ((∀ h ∈ handle L C n rec superseded S :: log, Good C.collection S' h) ∧ ∀ t ∈ owed, Present C.collection t S') ↔
      ((handle L C n rec superseded S).added.length = 1 ∧
          (handle L C n rec superseded S).deleted.length = superseded.length) ∧
        (∀ h ∈ log, Good C.collection S' h) ∧ ∀ t ∈ owedAfter owed rec superseded, Present C.collection t S' := by
  have howed : (∀ t ∈ owedAfter owed rec superseded, Present C.collection t S') ↔
      (superseded ≠ [] → Present C.collection (recordToText rec) S') ∧ ∀ t ∈ owed, Present C.collection t S' := by
    unfold owedAfter
    cases superseded <;> simp
  rw [List.forall_mem_cons, howed]
  constructor
  · intro ⟨⟨hgood, hlog⟩, ht⟩
    exact ⟨⟨hgood.added, hgood.deleted⟩, hlog, hgood.present, ht⟩
  · intro ⟨⟨hadded, hdeleted⟩, hlog, hpresent, ht⟩
    exact ⟨⟨⟨hadded, hdeleted, hpresent⟩, hlog⟩, ht⟩

theorem Ran.handle {raws : List Json} {S' : Store V} {log : List (Handled V)} {errs : List String}
    (hv : validateRecord L raw = some (.ok (rec, errs)))
    (hsup : supersededBy L C n (candidates C n S) = some superseded)
    (hrest : Ran L C (n + 1) raws (handle L C n rec superseded S).after S' log) :
    Ran L C n (raw :: raws) S S' (handle L C n rec superseded S :: log) where
  attempted := by
    intro h hh
    rcases List.mem_cons.mp hh with rfl | hh
    · exact attempted_handle (facts_of_supersededBy hsup)
    · exact hrest.attempted h hh
  complete := by
    intro p hp
    rcases mem_after_or_deleted L C n rec superseded hp with hp | hp
    · rcases hrest.complete p hp with hp | ⟨h, hh, hp⟩
      · exact .inl hp
      · exact .inr ⟨h, List.mem_cons_of_mem _ hh, hp⟩
    · exact .inr ⟨_, List.mem_cons_self, hp⟩
  careful := by
    intro owed
    have hcases := carefulFrom_handle owed raws hv hsup
    have hgood := forall_good_handle L C n rec superseded S S' log owed
    have htexts : textsOf L (raw :: raws) = recordToText rec :: textsOf L raws := by simp [textsOf, hv]
    rw [hgood, hrest.careful, handle_exact_iff (facts_of_supersededBy hsup), hcases, htexts]
    constructor
    · intro ⟨⟨hadds, hdel⟩, hcareful, howed⟩
      have hspared : ∀ t ∈ owedAfter owed rec superseded, t = recordToText rec ∨ t ∈ textsOf L raws ∨
          ∃ p ∈ S.coll C.collection, p.document = t ∧ p.id ∉ superseded.map Point.id := by
        intro t ht
        rcases howed t ht with hnow | hlater
        · rcases (present_addRecord hadds).mp hnow with heq | hkept
          · exact .inl heq
          · exact .inr (.inr ((present_deleteSuperseded hdel).mp hkept))
        · exact .inr (.inl hlater)
      refine ⟨⟨hadds, hdel, hspared, hcareful⟩, fun t ht => ?_⟩
      rcases hspared t (mem_owedAfter ht) with rfl | hlater | ⟨p, hp, hdoc, -⟩
      · exact .inr List.mem_cons_self
      · exact .inr (List.mem_cons_of_mem _ hlater)
      · exact .inl ⟨p, hp, hdoc⟩
    · intro ⟨⟨hadds, hdel, hspared, hcareful⟩, _⟩
      refine ⟨⟨hadds, hdel⟩, hcareful, fun t ht => ?_⟩
      rcases hspared t ht with heq | hlater | hkept
      · exact .inl ((present_addRecord hadds).mpr (.inl heq))
      · exact .inr hlater
      · exact .inl ((present_addRecord hadds).mpr (.inr ((present_deleteSuperseded hdel).mpr hkept)))

theorem intakeRecords_ran {raws : List Json} (h : intakeRecords L C n raws s = (false, s')) :
    ∃ log, s'.log = s.log ++ log ∧ s'.stored = s.stored + log.length ∧
      s'.totalSuperseded = s.totalSuperseded + (log.map fun h => h.superseded.length).sum ∧
        Ran L C n raws s.store s'.store log := by
  induction raws generalizing n s with
  | nil =>
    simp only [intakeRecords, Prod.mk.injEq, true_and] at h
    subst h
    exact ⟨[], by simp, by simp, by simp, Ran.nil⟩
  | cons raw raws ih =>
    rw [intakeRecords] at h
    rcases hr : intakeRecord L C n raw s with ⟨_ | _, s₁⟩
    · rw [hr] at h
      obtain ⟨log, hlog, hstored, hsup, hran⟩ := ih h
      rcases intakeRecord_cases hr with ⟨⟨errs, hv⟩, hS, hst, hsu, hl⟩ | ⟨rec, errs, superseded, hv, hs, hS, hst, hsu, hl⟩
      · rw [hl] at hlog
        rw [hst] at hstored
        rw [hsu] at hsup
        rw [hS] at hran
        exact ⟨log, hlog, hstored, hsup, hran.skip hv⟩
      · rw [hS] at hran
        refine ⟨handle L C n rec superseded s.store :: log, ?_, ?_, ?_, hran.handle hv hs⟩
        · rw [hlog, hl, List.append_assoc]
          rfl
        · rw [hstored, hst, List.length_cons]
          omega
        · rw [hsup, hsu, List.map_cons, List.sum_cons, Nat.add_assoc]
          rfl
    · rw [hr] at h
      simp at h

/-- What is at most as much in each place is as much in all exactly when it is in each. -/
theorem sum_map_eq_iff {α : Type*} {l : List α} {f g : α → ℕ} (hle : ∀ a ∈ l, f a ≤ g a) :
    (l.map g).sum = (l.map f).sum ↔ ∀ a ∈ l, f a = g a := by
  induction l with
  | nil => simp
  | cons a l ih =>
    have hrest := ih fun b hb => hle b (List.mem_cons_of_mem _ hb)
    have ha := hle a List.mem_cons_self
    have hsum : (l.map f).sum ≤ (l.map g).sum := List.sum_le_sum fun b hb => hle b (List.mem_cons_of_mem _ hb)
    rw [List.forall_mem_cons, ← hrest, List.map_cons, List.map_cons, List.sum_cons, List.sum_cons]
    omega

/-- A run of the loop accounts for what it did exactly when all of it is good. -/
theorem Ran.accounts_iff {raws : List Json} {S' : Store V} {log : List (Handled V)} (hran : Ran L C n raws S S' log) :
    Accounts C.collection S S' log.length (log.map fun h => h.superseded.length).sum log ↔
      ∀ h ∈ log, Good C.collection S' h := by
  have hstored : log.length = (log.map fun h => h.added.length).sum ↔ ∀ h ∈ log, h.added.length = 1 := by
    rw [← sum_map_eq_iff (g := fun _ => 1) fun h hh => (hran.attempted h hh).added_le]
    simp
  have hsup := sum_map_eq_iff (f := fun h : Handled V => h.deleted.length) fun h hh => (hran.attempted h hh).deleted_le
  constructor
  · intro hacc h hh
    have hdel := hsup.mp hacc.superseded_eq h hh
    refine ⟨hstored.mp hacc.stored_eq h hh, hdel, fun hne => hacc.replaced h hh fun hnil => hne ?_⟩
    rw [hnil] at hdel
    exact List.eq_nil_of_length_eq_zero hdel.symm
  · intro hgood
    refine ⟨hran.complete, fun h hh => (hran.attempted h hh).facts, fun h hh hne => ?_,
      hstored.mpr fun h hh => (hgood h hh).added, hsup.mpr fun h hh => (hgood h hh).deleted⟩
    refine (hgood h hh).present fun hnil => hne ?_
    have hdel := (hgood h hh).deleted
    rw [hnil] at hdel
    exact List.eq_nil_of_length_eq_zero hdel

/-! ### The call -/

theorem structuredIntake_eq {out : String} {raws : List Json} (hok : C.config.ragOk = true)
    (hemb : C.config.hasEmbedder = true) (hout : C.output = .ok out) (hparse : parseIntake L out = .ok raws)
    (hloop : intakeRecords L C 0 raws ⟨S, 0, 0, [], []⟩ = (false, s)) :
    structuredIntake L C S = (.ok raws.length s.stored s.totalSuperseded s.records, s) := by
  simp [structuredIntake, hok, hemb, hout, hparse, hloop]

/-- A call returns counts only after its loop has ended. -/
theorem structuredIntake_cases {extracted stored total : ℕ} {records : List Entry}
    (h : (structuredIntake L C S).1 = .ok extracted stored total records) :
    ∃ out raws s, C.config.ragOk = true ∧ C.config.hasEmbedder = true ∧ C.output = .ok out ∧ parseIntake L out = .ok raws ∧
      intakeRecords L C 0 raws ⟨S, 0, 0, [], []⟩ = (false, s) ∧ stored = s.stored ∧ total = s.totalSuperseded ∧
        (structuredIntake L C S).2 = s := by
  have hunfold := h
  unfold structuredIntake at hunfold
  split_ifs at hunfold with hok
  push Not at hok
  obtain ⟨hrag, hemb⟩ : C.config.ragOk = true ∧ C.config.hasEmbedder = true := by simpa using hok
  cases hout : C.output with
  | error e => simp [hout] at hunfold
  | ok out =>
    cases hparse : parseIntake L out with
    | error e => simp [hout, hparse] at hunfold
    | ok raws =>
      rcases hloop : intakeRecords L C 0 raws ⟨S, 0, 0, [], []⟩ with ⟨_ | _, s⟩
      · have heq := structuredIntake_eq hrag hemb hout hparse hloop
        rw [heq] at h
        simp only [Returned.ok.injEq] at h
        exact ⟨out, raws, s, hrag, hemb, rfl, hparse, hloop, h.2.1.symm, h.2.2.1.symm, by rw [heq]⟩
      · simp [hout, hparse, hloop] at hunfold

/-- What is accounted for by a call whose loop ends. -/
theorem accounts_loop_iff {raws : List Json} (hloop : intakeRecords L C 0 raws ⟨S, 0, 0, [], []⟩ = (false, s)) :
    Accounts C.collection S s.store s.stored s.totalSuperseded s.log ↔ CarefulFrom L C 0 [] raws S := by
  obtain ⟨log, hlog, hstored, hsup, hran⟩ := intakeRecords_ran hloop
  have hcareful := hran.careful []
  rw [hlog, hstored, hsup, List.nil_append, Nat.zero_add, Nat.zero_add, hran.accounts_iff]
  simpa using hcareful

/-- **A fact is superseded only by a stored replacement**, and the counts are of what was done,
exactly when the call is careful. -/
theorem intakeAccounts_iff (L : Library) (C : Call V) (S : Store V) : IntakeAccounts L C S ↔ Careful L C S := by
  constructor
  · intro h out raws hok hemb hout hparse hends
    have hloop : intakeRecords L C 0 raws ⟨S, 0, 0, [], []⟩ = (false, (intakeRecords L C 0 raws ⟨S, 0, 0, [], []⟩).2) :=
      Prod.ext hends rfl
    have heq := structuredIntake_eq hok hemb hout hparse hloop
    have hacc := h _ _ _ _ (congrArg Prod.fst heq)
    rw [heq] at hacc
    exact (accounts_loop_iff hloop).mp hacc
  · intro h extracted stored total records hret
    obtain ⟨out, raws, s, hok, hemb, hout, hparse, hloop, rfl, rfl, hs⟩ := structuredIntake_cases hret
    rw [hs]
    exact (accounts_loop_iff hloop).mpr (h out raws hok hemb hout hparse (congrArg Prod.fst hloop))

end

/-- A library that reads two texts. -/
def twoTexts : Library where
  loads s :=
    if s = "\x7b\"memories\": [\"drinks tea\"]\x7d" then some (.obj [("memories", .arr [.str "drinks tea"])])
    else if s = "\x7b\"supersede\": [0]\x7d" then some (.obj [("supersede", .arr [.int 0])])
    else none
  str _ := ""
  int _ := none
  toUnicode := .ascii
  floatText _ := none
  nonfinite := onlyNan

/-- A collection with one fact. -/
def oneFact : Store ℕ := Store.empty.add true "global_memory" "drinks coffee" 0 (TaskBoard.item "kind" (.str "fact"))

/-- A call in which everything works but the store's `add`. -/
def dropping : Call ℕ where
  config := ⟨false, "global_memory", true, true, true⟩
  backend := .qdrant
  resolveConflicts := true
  conflictK := 5
  profile := "default"
  topic := "chat"
  output := .ok "\x7b\"memories\": [\"drinks tea\"]\x7d"
  lookup _ := ⟨some 0, ⟨fun _ ps => ps, fun _ _ => .refl _⟩, true⟩
  answer _ := some "\x7b\"supersede\": [0]\x7d"
  deletes _ := true
  embedded _ := some 0
  stores _ := false
  time _ := 0

/-- The fact is gone with nothing in its place, and both counts are 1. -/
theorem not_intakeAccounts : ¬ IntakeAccounts twoTexts dropping oneFact := by
  intro h
  have hstored : (structuredIntake twoTexts dropping oneFact).2.stored = 1 := by decide
  have hadded : ((structuredIntake twoTexts dropping oneFact).2.log.map fun h => h.added.length).sum = 0 := by decide
  have hends : (intakeRecords twoTexts dropping 0 [.obj [("statement", .str "drinks tea")]] ⟨oneFact, 0, 0, [], []⟩).1 = false := by
    decide
  have hret := structuredIntake_eq (L := twoTexts) (C := dropping) (S := oneFact) rfl rfl rfl rfl (Prod.ext hends rfl)
  have hacc := (h _ _ _ _ (congrArg Prod.fst hret)).stored_eq
  rw [hadded] at hacc
  rw [hret] at hstored
  exact absurd (hacc.symm.trans hstored) (by decide)

end Persona.Intake
