import Persona.Taskman.Job

/-!
# When a job is reported

`run_job` is asked to return for every job, with an entry for each edit, an error for each edit that is not applied,
and the status `done` just when there are no errors and every command returned 0.

Whatever it returns is as asked (`lists_of_runJob`); what may go wrong is that it raises. `NothingRaises` says of each
part of a run, in the state in which it is reached, when it does not.
-/

namespace Persona.Taskman

open Persona.Lib PyText TextFile

/-! ### What is asked of a result -/

/-- The error that is recorded for an edit that is not applied. -/
def Entry.why (e : Entry) : PyStr := (e.error.or e.info).getD (PyStr.ofString "patch failed")

/-- What is asked of the result of a job. -/
structure Result.Lists (job : Job) (result : Result) : Prop where
  /-- There is an entry for each edit, in their order. -/
  entries : result.edits.map (fun e => (e.action, e.path)) = (parseEdits job.edits).map Edit.label
  /-- The errors are those of the edits that are not applied. -/
  errors : result.errors = (result.edits.filter fun e => !e.applied).map Entry.why
  status : result.status = .done ↔ result.errors = [] ∧ ∀ c ∈ result.commandsRun, c.returncode = 0

/-- `run_job` reports: it returns, and its result is as asked. -/
def Reports {σ : Type} (job : Job) (r : σ × Option Result) : Prop := ∃ result, r.2 = some result ∧ result.Lists job

variable {σ P : Type} (H : Host σ P) (E : Engine PyChar)

/-! ### When nothing raises -/

/-- The context can be collected: whether there is a repository of git can be found out, and the queries are a list
unless `rg` is missing. -/
def ContextOk (s : σ) (extraRg : Queries) : Prop :=
  hasGit H s ≠ none ∧ (extraRg = .unsliceable → H.haveCmd (gitContext H s).1 "rg" = false)

/-- A path is one of those that suggestions are made for. -/
def Mentioned (s : σ) (steps : List PyStr) (p : P) : Prop :=
  (∃ rel ∈ steps.flatMap (mentionsFrom 0), H.resolve s (H.join rel) = some p ∧ H.isUnderRepo s p = true ∧ H.there s p = some true) ∨
    steps.any (mentionsWord wiringKeywords) = true ∧
      ∃ rel ∈ candidates, H.there s (H.join rel) = some true ∧ H.resolve s (H.join rel) = some p

/-- Suggestions can be made: the paths that are mentioned can be resolved and looked for, those of the candidates
too when a step is about wiring, and the paths of all that are there are in the repository. -/
structure SuggestOk (s : σ) (steps : List PyStr) : Prop where
  mentions : ∀ rel ∈ steps.flatMap (mentionsFrom 0),
    ∃ p, H.resolve s (H.join rel) = some p ∧ (H.isUnderRepo s p = true → H.there s p ≠ none)
  wiring : steps.any (mentionsWord wiringKeywords) = true → ∀ rel ∈ candidates,
    ∃ there, H.there s (H.join rel) = some there ∧ (there = true → H.resolve s (H.join rel) ≠ none)
  relative : ∀ p, Mentioned H s steps p → H.relative p ≠ none

/-- An edit does not raise. -/
def EditOk (s : σ) : Edit → Prop
  -- The path can be resolved and looked for, and what is there can be read.
  | .write path _ => ∃ p, H.resolve s (H.join path) = some p ∧
      (H.isUnderRepo s p = true → ∃ there, H.there s p = some there ∧ (there = true → H.read s p ≠ none))
  -- It is seen not to be one, or whether there is a repository of git can be found out.
  | .patch content => beginPatch.isPrefixOf (content.dropWhile PyStr.isSpace) = true ∨ hasGit H s ≠ none
  -- There is no file to edit; or it can be read, the pattern compiles, and if it is found the text can be written.
  | .insertAfter path pattern text => (∃ error, editTarget H.toRepository s path = some (.error error)) ∨
      ∃ t : Target H.toRepository E s path pattern ⟨false, false⟩, ∀ idx,
        (∃ line ∈ splitlinesL [] t.src, E.finds t.rx (ofChars line) = true) → firstFound E t.rx (keepends t.src) = some idx →
          (writeTextAtomic H.toRepository s t.path (insertedAfter (keepends t.src) idx (insertedText text))).2 = true
  -- The same, and the template is good if there is a match.
  | .replaceRegex path pattern repl flags => (∃ error, editTarget H.toRepository s path = some (.error error)) ∨
      ∃ t : Target H.toRepository E s path pattern (rxFlags flags), ∀ m, E.search t.rx (ofChars t.src) = some m →
        ∃ expand, E.template t.rx repl = some expand ∧
          (writeTextAtomic H.toRepository s t.path
            ((ofChars t.src).take m.start ++ (expand m.groups ++ (ofChars t.src).drop m.stop))).2 = true

/-- No edit raises, each in the state that those before it leave. -/
def EditsOk (s : σ) : List Edit → Prop
  | [] => True
  | ed :: eds => EditOk H E s ed ∧ EditsOk (runEdit H E s ed).1 eds

/-- Nothing is run, or the time limit is a number. -/
def CommandsOk (timeout : Option ℤ) (commands : List Command) : Prop := timeout ≠ none ∨ ∀ c ∈ commands, c.argv = none

/-- Nothing raises in the run of a job: not before the edits, not in the edits, and not after them. -/
structure NothingRaises (s : σ) (job : Job) : Prop where
  pre : ContextOk H s job.rgQueries
  suggestions : job.steps ≠ [] → SuggestOk H (collectContext H s job.rgQueries).1 job.steps
  edits : EditsOk H E (collectContext H s job.rgQueries).1 (parseEdits job.edits)
  commands : CommandsOk job.timeout job.commands
  post : ContextOk H
    (runCommands H job.timeout (runEdits H E (collectContext H s job.rgQueries).1 (parseEdits job.edits)).1 job.commands).1 job.rgQueries

variable {H E} {s s' : σ}

/-! ### One after the other -/

theorem andThen_eq_some_iff {α β : Type} {r : σ × Option α} {f : σ → α → σ × Option β} {b : β} :
    andThen r f = (s', some b) ↔ ∃ s a, r = (s, some a) ∧ f s a = (s', some b) := by
  obtain ⟨s, _ | a⟩ := r
  · simp [andThen]
  · constructor
    · exact fun h => ⟨s, a, rfl, h⟩
    · rintro ⟨s, a, heq, h⟩
      obtain ⟨rfl, ha⟩ := Prod.mk.inj heq
      obtain rfl := Option.some.inj ha
      exact h

/-- What comes after does not raise just when neither does. -/
theorem andThen_returns_iff {α β : Type} {r : σ × Option α} {f : σ → α → σ × Option β} (ok : σ → Prop)
    (hf : ∀ s a, (f s a).2 ≠ none ↔ ok s) : (andThen r f).2 ≠ none ↔ r.2 ≠ none ∧ ok r.1 := by
  obtain ⟨s, _ | a⟩ := r
  · simp [andThen]
  · simp [andThen, hf]

theorem andThen_returns_iff_true {α β : Type} {r : σ × Option α} {f : σ → α → σ × Option β} (hf : ∀ s a, (f s a).2 ≠ none) :
    (andThen r f).2 ≠ none ↔ r.2 ≠ none := by
  rw [andThen_returns_iff (fun _ => True) fun s a => iff_true_intro (hf s a), and_true]

/-! ### The context and the suggestions -/

theorem gitContext_returns_iff : (gitContext H s).2 ≠ none ↔ hasGit H s ≠ none := by
  rw [gitContext]
  cases hasGit H s with
  | none => simp
  | some there => cases there <;> simp

theorem collectContext_returns_iff {extraRg : Queries} : (collectContext H s extraRg).2 ≠ none ↔ ContextOk H s extraRg := by
  rw [collectContext, andThen_returns_iff fun s => extraRg = .unsliceable → H.haveCmd s "rg" = false, gitContext_returns_iff]
  · rfl
  · rintro s ⟨status, diff⟩
    cases extraRg with
    | list qs =>
      cases qs with
      | nil => simp
      | cons q qs =>
        dsimp only
        split_ifs <;> simp
    | unsliceable =>
      dsimp only
      split_ifs with hrg <;> simp [hrg]

theorem gather_returns_iff {α β : Type} {f : α → Option (List β)} {as : List α} :
    gather f as ≠ none ↔ ∀ a ∈ as, f a ≠ none := by
  induction as with
  | nil => simp [gather]
  | cons a as ih =>
    rw [gather, List.forall_mem_cons, ← ih]
    cases f a <;> simp

/-- What a loop gathers comes from its turns. -/
theorem mem_of_gather {α β : Type} {f : α → Option (List β)} {as : List α} {bs : List β} {b : β} (h : gather f as = some bs) :
    b ∈ bs ↔ ∃ a ∈ as, ∃ cs, f a = some cs ∧ b ∈ cs := by
  induction as generalizing bs with
  | nil =>
    obtain rfl := Option.some.inj h
    simp
  | cons a as ih =>
    obtain ⟨cs, hcs, hrest⟩ := Option.bind_eq_some_iff.mp h
    obtain ⟨ds, hds, rfl⟩ := Option.map_eq_some_iff.mp hrest
    rw [List.mem_append, ih hds]
    simp [hcs]

theorem mentionedPath_returns_iff {rel : PyStr} : mentionedPath H s rel ≠ none ↔
    ∃ p, H.resolve s (H.join rel) = some p ∧ (H.isUnderRepo s p = true → H.there s p ≠ none) := by
  rw [mentionedPath]
  cases H.resolve s (H.join rel) with
  | none => simp
  | some p =>
    rw [Option.bind_some]
    split_ifs with hunder <;> simp [hunder]

theorem mem_mentionedPath {rel : PyStr} {p : P} : (∃ ps, mentionedPath H s rel = some ps ∧ p ∈ ps) ↔
    H.resolve s (H.join rel) = some p ∧ H.isUnderRepo s p = true ∧ H.there s p = some true := by
  constructor
  · rintro ⟨ps, hps, hp⟩
    obtain ⟨q, hq, hps⟩ := Option.bind_eq_some_iff.mp hps
    split_ifs at hps with hunder
    · obtain ⟨there, hthere, rfl⟩ := Option.map_eq_some_iff.mp hps
      split_ifs at hp with hyes
      · obtain rfl := List.mem_singleton.mp hp
        exact ⟨hq, hunder, by rw [hthere, hyes]⟩
      · cases hp
    · obtain rfl := Option.some.inj hps
      cases hp
  · rintro ⟨hp, hunder, hthere⟩
    refine ⟨[p], ?_, List.mem_singleton_self p⟩
    rw [mentionedPath, hp, Option.bind_some, if_pos hunder, hthere]
    rfl

theorem candidatePath_returns_iff {rel : PyStr} : candidatePath H s rel ≠ none ↔
    ∃ there, H.there s (H.join rel) = some there ∧ (there = true → H.resolve s (H.join rel) ≠ none) := by
  rw [candidatePath]
  cases H.there s (H.join rel) with
  | none => simp
  | some there => cases there <;> simp

theorem mem_candidatePath {rel : PyStr} {p : P} : (∃ ps, candidatePath H s rel = some ps ∧ p ∈ ps) ↔
    H.there s (H.join rel) = some true ∧ H.resolve s (H.join rel) = some p := by
  constructor
  · rintro ⟨ps, hps, hp⟩
    obtain ⟨there, hthere, hps⟩ := Option.bind_eq_some_iff.mp hps
    split_ifs at hps with hyes
    · obtain ⟨q, hq, rfl⟩ := Option.map_eq_some_iff.mp hps
      obtain rfl := List.mem_singleton.mp hp
      exact ⟨by rw [hthere, hyes], hq⟩
    · obtain rfl := Option.some.inj hps
      cases hp
  · rintro ⟨hthere, hp⟩
    refine ⟨[p], ?_, List.mem_singleton_self p⟩
    rw [candidatePath, hthere, Option.bind_some, if_pos rfl, hp]
    rfl

/-- The paths that suggestions are made for can be found. -/
theorem mentionedPaths_returns_iff {steps : List PyStr} : mentionedPaths H s steps ≠ none ↔
    (∀ rel ∈ steps.flatMap (mentionsFrom 0), mentionedPath H s rel ≠ none) ∧
      (steps.any (mentionsWord wiringKeywords) = true → ∀ rel ∈ candidates, candidatePath H s rel ≠ none) := by
  rw [mentionedPaths, ← gather_returns_iff, ← gather_returns_iff]
  cases gather (mentionedPath H s) (steps.flatMap (mentionsFrom 0)) with
  | none => simp
  | some mentioned =>
    rw [Option.bind_some]
    split_ifs with hwiring
    · simp [hwiring]
    · simp [hwiring]

theorem mem_mentionedPaths {steps : List PyStr} {ps : List P} {p : P} (h : mentionedPaths H s steps = some ps) :
    p ∈ ps ↔ Mentioned H s steps p := by
  obtain ⟨mentioned, hmentioned, h⟩ := Option.bind_eq_some_iff.mp h
  have hfirst : p ∈ mentioned ↔ ∃ rel ∈ steps.flatMap (mentionsFrom 0),
      H.resolve s (H.join rel) = some p ∧ H.isUnderRepo s p = true ∧ H.there s p = some true := by
    simp only [mem_of_gather hmentioned, mem_mentionedPath]
  rw [Mentioned, ← hfirst]
  split_ifs at h with hwiring
  · obtain ⟨cs, hcs, rfl⟩ := Option.map_eq_some_iff.mp h
    have hsecond : p ∈ cs ↔ ∃ rel ∈ candidates, H.there s (H.join rel) = some true ∧ H.resolve s (H.join rel) = some p := by
      simp only [mem_of_gather hcs, mem_candidatePath]
    rw [List.mem_append, hsecond]
    simp [hwiring]
  · obtain rfl := Option.some.inj h
    simp [hwiring]

section

variable [DecidableEq P]

theorem suggestForSteps_returns_iff {steps : List PyStr} : suggestForSteps H s steps ≠ none ↔ SuggestOk H s steps := by
  constructor
  · intro h
    obtain ⟨suggestions, h⟩ := Option.ne_none_iff_exists'.mp h
    obtain ⟨ps, hps, h⟩ := Option.bind_eq_some_iff.mp h
    obtain ⟨anchors, hanchors, -⟩ := Option.map_eq_some_iff.mp h
    obtain ⟨hmentions, hwiring⟩ := mentionedPaths_returns_iff.mp (by rw [hps]; exact Option.some_ne_none ps)
    refine ⟨fun rel hrel => mentionedPath_returns_iff.mp (hmentions rel hrel),
      fun hw rel hrel => candidatePath_returns_iff.mp (hwiring hw rel hrel), fun p hp => ?_⟩
    have hmem : p ∈ firsts id [] ps := mem_firsts_id.mpr ⟨(mem_mentionedPaths hps).mpr hp, List.not_mem_nil⟩
    have hrelative := gather_returns_iff.mp (by rw [hanchors]; exact Option.some_ne_none anchors) p hmem
    exact fun hnone => hrelative (by rw [hnone]; rfl)
  · intro h
    have hpaths : mentionedPaths H s steps ≠ none := mentionedPaths_returns_iff.mpr
      ⟨fun rel hrel => mentionedPath_returns_iff.mpr (h.mentions rel hrel),
        fun hw rel hrel => candidatePath_returns_iff.mpr (h.wiring hw rel hrel)⟩
    obtain ⟨ps, hps⟩ := Option.ne_none_iff_exists'.mp hpaths
    have hanchors : gather (fun p => (H.relative p).map fun rel => [(rel, findAnchorsInFile H s p)]) (firsts id [] ps) ≠ none := by
      refine gather_returns_iff.mpr fun p hp => ?_
      have hrelative := h.relative p ((mem_mentionedPaths hps).mp (mem_firsts_id.mp hp).1)
      simpa using hrelative
    obtain ⟨anchors, hanchors⟩ := Option.ne_none_iff_exists'.mp hanchors
    rw [suggestForSteps, hps, Option.bind_some, hanchors]
    exact Option.some_ne_none _

theorem suggested_returns_iff {steps : List PyStr} : (suggested H s steps).2 ≠ none ↔ (steps ≠ [] → SuggestOk H s steps) := by
  rw [← suggestForSteps_returns_iff, suggested]
  dsimp only
  split_ifs with hsteps <;> simp [hsteps]

end

/-! ### The edits -/

/-- An edit whose preview is ok is done. -/
theorem previewed_ok {label : EditAction × PyStr} {pv : Preview} {apply : σ → σ × Option (Bool × PyStr)} (h : pv.ok = true) :
    previewed label s (some pv) apply = andThen (apply s) fun s' a =>
      (s', some (⟨label.1, label.2, a.1, none, some a.2, none, some pv⟩, if a.1 then [] else [a.2])) := by
  cases pv with
  | refused error => cases h
  | _ => rfl

theorem previewed_returns_iff {label : EditAction × PyStr} {preview : Option Preview} {apply : σ → σ × Option (Bool × PyStr)} :
    (previewed label s preview apply).2 ≠ none ↔
      preview ≠ none ∧ ∀ pv, preview = some pv → pv.ok = true → (apply s).2 ≠ none := by
  cases preview with
  | none => simp [previewed]
  | some pv =>
    by_cases hok : pv.ok = true
    · rw [previewed_ok hok, andThen_returns_iff_true fun s' a => Option.some_ne_none _]
      simp [hok]
    · cases pv with
      | refused error => simp [previewed, Preview.ok]
      | _ => exact absurd rfl hok

theorem previewWrite_returns_iff {relPath content : PyStr} : previewWrite H.toRepository H.sha256 s relPath content ≠ none ↔
    ∃ p, H.resolve s (H.join relPath) = some p ∧
      (H.isUnderRepo s p = true → ∃ there, H.there s p = some there ∧ (there = true → H.read s p ≠ none)) := by
  rw [previewWrite]
  cases H.resolve s (H.join relPath) with
  | none => simp
  | some p =>
    rw [Option.bind_some]
    split_ifs with hunder
    · cases hthere : H.there s p with
      | none => simp [hunder, hthere]
      | some there => cases there <;> simp [hunder, hthere]
    · simp [hunder]

/-- `do_write` does not raise where its preview does not. -/
theorem doWrite_returns {R : Repository σ P} {failed relPath content : PyStr} {p : P} (h : R.resolve s (R.join relPath) = some p) :
    (doWrite R failed s relPath content).2 ≠ none := by
  rw [doWrite, h]
  dsimp only
  split_ifs <;> exact Option.some_ne_none _

theorem opened_returns_iff {R : Repository σ P} {relPath pattern : PyStr} {flags : RegexFlags} :
    opened R E s relPath pattern flags ≠ none ↔
      (∃ error, editTarget R s relPath = some (.error error)) ∨ Nonempty (Target R E s relPath pattern flags) := by
  constructor
  · intro h
    obtain ⟨target, hopened⟩ := Option.ne_none_iff_exists'.mp h
    obtain ⟨found, hfound, hrest⟩ := Option.bind_eq_some_iff.mp hopened
    cases found with
    | error error => exact Or.inl ⟨error, hfound⟩
    | ok p =>
      obtain ⟨bytes, hread, hrest⟩ := Option.bind_eq_some_iff.mp hrest
      obtain ⟨rx, hrx, -⟩ := Option.map_eq_some_iff.mp hrest
      exact Or.inr ⟨⟨p, bytes, rx, hfound, hread, hrx⟩⟩
  · rintro (⟨error, herror⟩ | ⟨⟨t⟩⟩)
    · rw [opened, herror]
      exact Option.some_ne_none _
    · rw [t.opened]
      exact Option.some_ne_none _

theorem opened_of_error {R : Repository σ P} {relPath pattern error : PyStr} {flags : RegexFlags}
    (h : editTarget R s relPath = some (.error error)) : opened R E s relPath pattern flags = some (.error error) := by
  rw [opened, h]
  rfl

/-- `do_insert_after` does not raise when the text can be written, should the pattern be found. -/
theorem Target.doInsertAfter_returns_iff {R : Repository σ P} {relPath pattern text : PyStr}
    (t : Target R E s relPath pattern ⟨false, false⟩) : (Taskman.doInsertAfter R E s relPath pattern text).2 ≠ none ↔
      ∀ idx, firstFound E t.rx (keepends t.src) = some idx →
        (writeTextAtomic R s t.path (insertedAfter (keepends t.src) idx (insertedText text))).2 = true := by
  rw [t.doInsertAfter]
  cases firstFound E t.rx (keepends t.src) with
  | none => simp
  | some idx => simp

theorem Target.doReplaceRegex_returns_iff {R : Repository σ P} {relPath pattern repl flags : PyStr}
    (t : Target R E s relPath pattern (rxFlags flags)) : (Taskman.doReplaceRegex R E s relPath pattern repl flags).2 ≠ none ↔
      ∀ m, E.search t.rx (ofChars t.src) = some m → ∃ expand, E.template t.rx repl = some expand ∧
        (writeTextAtomic R s t.path ((ofChars t.src).take m.start ++ (expand m.groups ++ (ofChars t.src).drop m.stop))).2 = true := by
  rw [t.doReplaceRegex]
  cases E.search t.rx (ofChars t.src) with
  | none => simp
  | some m => cases E.template t.rx repl <;> simp

/-- The edits that look for a pattern raise in the same way. -/
theorem previewed_target_returns_iff {R : Repository σ P} {label : EditAction × PyStr} {relPath pattern : PyStr} {flags : RegexFlags}
    {preview : Option Preview} {apply : σ → σ × Option (Bool × PyStr)} {ok : Target R E s relPath pattern flags → Prop}
    (hraises : opened R E s relPath pattern flags = none → preview = none)
    (herror : ∀ error, opened R E s relPath pattern flags = some (.error error) → preview = some (.refused error))
    (htarget : ∀ t : Target R E s relPath pattern flags,
      (preview ≠ none ∧ ∀ pv, preview = some pv → pv.ok = true → (apply s).2 ≠ none) ↔ ok t) :
    (previewed label s preview apply).2 ≠ none ↔ (∃ error, editTarget R s relPath = some (.error error)) ∨ ∃ t, ok t := by
  rw [previewed_returns_iff]
  constructor
  · intro h
    have hopened : opened R E s relPath pattern flags ≠ none := fun hnone => h.1 (hraises hnone)
    rcases opened_returns_iff.mp hopened with herror | ⟨⟨t⟩⟩
    · exact Or.inl herror
    · exact Or.inr ⟨t, (htarget t).mp h⟩
  · rintro (⟨error, he⟩ | ⟨t, ht⟩)
    · rw [herror error (opened_of_error he)]
      refine ⟨Option.some_ne_none _, fun pv hpv hok => ?_⟩
      obtain rfl := Option.some.inj hpv
      cases hok
    · exact (htarget t).mpr ht

theorem runPatch_returns {cmd : List String} {diffText : PyStr} {output : Completed → PyStr} {tool : String} :
    (runPatch H s cmd diffText output tool).2 ≠ none := by
  rw [runPatch]
  split <;> exact Option.some_ne_none _

theorem applyUnifiedDiff_returns_iff {diffText : PyStr} : (applyUnifiedDiff H s diffText).2 ≠ none ↔
    beginPatch.isPrefixOf (diffText.dropWhile PyStr.isSpace) = true ∨ hasGit H s ≠ none := by
  rw [applyUnifiedDiff]
  by_cases hbegin : beginPatch.isPrefixOf (diffText.dropWhile PyStr.isSpace) = true
  · simp [hbegin]
  · rw [if_neg hbegin]
    cases hasGit H s with
    | none => simp [hbegin]
    | some there =>
      cases there with
      | true => simp [runPatch_returns]
      | false =>
        dsimp only
        split_ifs <;> simp [runPatch_returns]

/-- An insertion raises when the pattern is found and the text cannot be written. -/
theorem Target.insert_returns_iff {R : Repository σ P} {relPath pattern text : PyStr}
    (t : Target R E s relPath pattern ⟨false, false⟩) :
    (Taskman.previewInsertAfter R E s relPath pattern ≠ none ∧ ∀ pv, Taskman.previewInsertAfter R E s relPath pattern = some pv →
      pv.ok = true → (Taskman.doInsertAfter R E s relPath pattern text).2 ≠ none) ↔
    ∀ idx, (∃ line ∈ splitlinesL [] t.src, E.finds t.rx (ofChars line) = true) → firstFound E t.rx (keepends t.src) = some idx →
      (writeTextAtomic R s t.path (insertedAfter (keepends t.src) idx (insertedText text))).2 = true := by
  rw [t.doInsertAfter_returns_iff, t.previewInsertAfter]
  cases hbare : firstFound E t.rx (splitlinesL [] t.src) with
  | none =>
    have hnone : ¬ ∃ line ∈ splitlinesL [] t.src, E.finds t.rx (ofChars line) = true := by
      rintro ⟨line, hline, hfound⟩
      have hno := List.findIdx?_eq_none_iff.mp hbare line hline
      rw [hfound] at hno
      cases hno
    simp [hnone, Preview.ok]
  | some i =>
    have hsome : ∃ line ∈ splitlinesL [] t.src, E.finds t.rx (ofChars line) = true := by
      obtain ⟨line, hline, hfound⟩ := firstFound_spec hbare
      exact ⟨line, List.mem_of_getElem? hline, hfound⟩
    simp [hsome, Preview.ok]

/-- A replacement raises when there is a match, and the template is bad or the text cannot be written. -/
theorem Target.replace_returns_iff {R : Repository σ P} {relPath pattern repl flags : PyStr}
    (t : Target R E s relPath pattern (rxFlags flags)) :
    (Taskman.previewReplaceRegex R E s relPath pattern repl flags ≠ none ∧
      ∀ pv, Taskman.previewReplaceRegex R E s relPath pattern repl flags = some pv → pv.ok = true →
        (Taskman.doReplaceRegex R E s relPath pattern repl flags).2 ≠ none) ↔
    ∀ m, E.search t.rx (ofChars t.src) = some m → ∃ expand, E.template t.rx repl = some expand ∧
      (writeTextAtomic R s t.path ((ofChars t.src).take m.start ++ (expand m.groups ++ (ofChars t.src).drop m.stop))).2 = true := by
  rw [t.doReplaceRegex_returns_iff, t.previewReplaceRegex]
  cases E.search t.rx (ofChars t.src) with
  | none => simp
  | some m => cases E.template t.rx repl <;> simp [Preview.ok]

theorem runEdit_returns_iff {ed : Edit} : (runEdit H E s ed).2 ≠ none ↔ EditOk H E s ed := by
  cases ed with
  | write path content =>
    rw [runEdit, previewed_returns_iff, previewWrite_returns_iff, EditOk]
    refine ⟨fun h => h.1, fun h => ⟨h, fun pv _ _ => ?_⟩⟩
    obtain ⟨p, hp, -⟩ := h
    exact doWrite_returns hp
  | patch content =>
    rw [runEdit, andThen_returns_iff_true fun s' a => Option.some_ne_none _, applyUnifiedDiff_returns_iff, EditOk]
  | insertAfter path pattern text =>
    rw [runEdit, EditOk]
    refine previewed_target_returns_iff (fun h => ?_) (fun error h => ?_) fun t => t.insert_returns_iff
    · rw [previewInsertAfter, h]
      rfl
    · rw [previewInsertAfter, h]
      rfl
  | replaceRegex path pattern repl flags =>
    rw [runEdit, EditOk]
    refine previewed_target_returns_iff (fun h => ?_) (fun error h => ?_) fun t => t.replace_returns_iff
    · rw [previewReplaceRegex, h]
      rfl
    · rw [previewReplaceRegex, h]
      rfl

theorem runEdits_returns_iff {eds : List Edit} : (runEdits H E s eds).2 ≠ none ↔ EditsOk H E s eds := by
  induction eds generalizing s with
  | nil => simp [runEdits, EditsOk]
  | cons ed eds ih =>
    rw [runEdits, EditsOk, ← runEdit_returns_iff, andThen_returns_iff fun s => EditsOk H E s eds]
    intro s' entry
    rw [andThen_returns_iff_true fun s'' entries => Option.some_ne_none _, ih]

/-! ### The run -/

theorem runCommands_returns_iff {timeout : Option ℤ} {commands : List Command} :
    (runCommands H timeout s commands).2 ≠ none ↔ CommandsOk timeout commands := by
  rw [CommandsOk]
  induction commands generalizing s with
  | nil => simp [runCommands]
  | cons c cs ih =>
    rw [runCommands.eq_def]
    dsimp only
    cases hargv : c.argv with
    | none => simp [ih, hargv]
    | some cmd =>
      cases timeout with
      | none => simp [hargv]
      | some t =>
        dsimp only
        rw [andThen_returns_iff_true fun s'' results => Option.some_ne_none _, ih]
        simp

section

variable [DecidableEq P]

theorem runJob_returns_iff {job : Job} : (runJob H E s job).2 ≠ none ↔ NothingRaises H E s job := by
  -- What has to go well from each part on, in the state in which it is reached.
  let fromPost (s : σ) := (collectContext H s job.rgQueries).2 ≠ none
  let fromCommands (s : σ) := (runCommands H job.timeout s job.commands).2 ≠ none ∧ fromPost (runCommands H job.timeout s job.commands).1
  let fromEdits (s : σ) := (runEdits H E s (parseEdits job.edits)).2 ≠ none ∧ fromCommands (runEdits H E s (parseEdits job.edits)).1
  let fromSuggestions (s : σ) := (suggested H s job.steps).2 ≠ none ∧ fromEdits s
  have hreturns : (runJob H E s job).2 ≠ none ↔
      (collectContext H s job.rgQueries).2 ≠ none ∧ fromSuggestions (collectContext H s job.rgQueries).1 := by
    refine andThen_returns_iff fromSuggestions fun s preContext => andThen_returns_iff fromEdits fun s suggestions =>
      andThen_returns_iff fromCommands fun s edits => andThen_returns_iff fromPost fun s commandsRun => ?_
    exact andThen_returns_iff_true fun s postContext => Option.some_ne_none _
  rw [hreturns]
  simp only [fromSuggestions, fromEdits, fromCommands, fromPost, collectContext_returns_iff, suggested_returns_iff,
    runEdits_returns_iff, runCommands_returns_iff]
  constructor
  · rintro ⟨hpre, hsuggestions, hedits, hcommands, hpost⟩
    exact ⟨hpre, hsuggestions, hedits, hcommands, hpost⟩
  · rintro ⟨hpre, hsuggestions, hedits, hcommands, hpost⟩
    exact ⟨hpre, hsuggestions, hedits, hcommands, hpost⟩

end

/-! ### What is returned -/

/-- An entry that an edit leaves, and the errors it adds. -/
structure Entry.Of (label : EditAction × PyStr) (entry : Entry) (errors : List PyStr) : Prop where
  label : (entry.action, entry.path) = label
  errors : errors = if entry.applied then [] else [entry.why]

theorem of_previewed {label : EditAction × PyStr} {preview : Option Preview} {apply : σ → σ × Option (Bool × PyStr)} {entry : Entry}
    {errors : List PyStr} (h : previewed label s preview apply = (s', some (entry, errors))) : entry.Of label errors := by
  cases preview with
  | none => cases h
  | some pv =>
    by_cases hok : pv.ok = true
    · rw [previewed_ok hok] at h
      obtain ⟨s₁, ⟨ok, info⟩, -, heq⟩ := andThen_eq_some_iff.mp h
      obtain ⟨rfl, rfl⟩ := Prod.mk.inj (Option.some.inj (Prod.mk.inj heq).2)
      exact ⟨rfl, rfl⟩
    · cases pv with
      | refused error =>
        obtain ⟨rfl, rfl⟩ := Prod.mk.inj (Option.some.inj (Prod.mk.inj h).2)
        exact ⟨rfl, rfl⟩
      | _ => exact absurd rfl hok

theorem of_runEdit {ed : Edit} {entry : Entry} {errors : List PyStr} (h : runEdit H E s ed = (s', some (entry, errors))) :
    entry.Of ed.label errors := by
  cases ed with
  | patch content =>
    rw [runEdit] at h
    obtain ⟨s₁, ⟨ok, out⟩, -, heq⟩ := andThen_eq_some_iff.mp h
    obtain ⟨rfl, rfl⟩ := Prod.mk.inj (Option.some.inj (Prod.mk.inj heq).2)
    exact ⟨rfl, rfl⟩
  | _ =>
    rw [runEdit] at h
    exact of_previewed h

/-- The entries and the errors of a run of edits. -/
theorem of_runEdits {eds : List Edit} {entries : List (Entry × List PyStr)} (h : runEdits H E s eds = (s', some entries)) :
    (entries.map (·.1)).map (fun e => (e.action, e.path)) = eds.map Edit.label ∧
      entries.flatMap (·.2) = ((entries.map (·.1)).filter fun e => !e.applied).map Entry.why := by
  induction eds generalizing s entries with
  | nil =>
    obtain rfl := Option.some.inj (Prod.mk.inj h).2
    exact ⟨rfl, rfl⟩
  | cons ed eds ih =>
    rw [runEdits] at h
    obtain ⟨s₁, ⟨entry, errors⟩, hedit, hrest⟩ := andThen_eq_some_iff.mp h
    obtain ⟨s₂, rest, hrun, heq⟩ := andThen_eq_some_iff.mp hrest
    obtain ⟨rfl, hentries⟩ := Prod.mk.inj heq
    obtain rfl := Option.some.inj hentries
    obtain ⟨hlabels, herrors⟩ := ih hrun
    have hof := of_runEdit hedit
    constructor
    · rw [List.map_cons, List.map_cons, List.map_cons, hlabels, hof.label]
    · rw [List.flatMap_cons, herrors, hof.errors, List.map_cons]
      cases happlied : entry.applied <;> simp [happlied]

section

variable [DecidableEq P]

/-- Whatever `run_job` returns is as asked. -/
theorem lists_of_runJob {job : Job} {result : Result} (h : (runJob H E s job).2 = some result) : result.Lists job := by
  have hrun : runJob H E s job = ((runJob H E s job).1, some result) := Prod.ext rfl h
  rw [runJob] at hrun
  obtain ⟨s₁, preContext, -, hrun⟩ := andThen_eq_some_iff.mp hrun
  obtain ⟨s₂, suggestions, -, hrun⟩ := andThen_eq_some_iff.mp hrun
  obtain ⟨s₃, entries, hedits, hrun⟩ := andThen_eq_some_iff.mp hrun
  obtain ⟨s₄, commandsRun, -, hrun⟩ := andThen_eq_some_iff.mp hrun
  obtain ⟨s₅, postContext, -, hrun⟩ := andThen_eq_some_iff.mp hrun
  obtain rfl := Option.some.inj (Prod.mk.inj hrun).2
  obtain ⟨hlabels, herrors⟩ := of_runEdits hedits
  refine ⟨hlabels, herrors, ?_⟩
  dsimp only
  by_cases hbad : entries.flatMap (·.2) ≠ [] ∨ commandsRun.filter (·.returncode ≠ 0) ≠ []
  · rw [if_pos hbad]
    simp only [reduceCtorEq, false_iff]
    rintro ⟨hnoErrors, hzero⟩
    refine hbad.elim (fun h => h hnoErrors) fun h => h (List.filter_eq_nil_iff.mpr fun c hc => ?_)
    simp [hzero c hc]
  · rw [if_neg hbad]
    obtain ⟨hnoErrors, hnoFailed⟩ := not_or.mp hbad
    refine iff_of_true rfl ⟨not_not.mp hnoErrors, fun c hc => ?_⟩
    simpa using List.filter_eq_nil_iff.mp (not_not.mp hnoFailed) c hc

/-- **`run_job` reports** just when nothing raises. -/
theorem runJob_reports_iff (H : Host σ P) (E : Engine PyChar) (s : σ) (job : Job) :
    Reports job (runJob H E s job) ↔ NothingRaises H E s job := by
  rw [← runJob_returns_iff]
  constructor
  · rintro ⟨result, hresult, -⟩
    rw [hresult]
    exact Option.some_ne_none result
  · intro h
    obtain ⟨result, hresult⟩ := Option.ne_none_iff_exists'.mp h
    exact ⟨result, hresult, lists_of_runJob hresult⟩

end

/-- A host without commands, whose repository is one file. -/
def oneFileHost : Host (List UInt8) Unit where
  toRepository := oneFile
  relative _ := some []
  haveCmd _ _ := false
  subprocess s _ _ _ := (s, .error [])
  writeError _ := []
  sha256 _ := ""

/-- A pattern with a parenthesis that is not closed ends the run, with the edit before it made. -/
theorem not_reports_parenthesis :
    let E := Engine.literal fun pattern => decide (pattern = [.scalar '('])
    let job : Job := ⟨[],
      [[("action", PyStr.ofString "write"), ("path", PyStr.ofString "a.txt"), ("content", PyStr.ofString "b")],
        [("action", PyStr.ofString "insert_after"), ("path", PyStr.ofString "a.txt"), ("pattern", PyStr.ofString "("),
          ("text", PyStr.ofString "x")]],
      [], .list [], some 300⟩
    (runJob oneFileHost E (utf8 ['a']) job).1 = utf8 ['b'] ∧ ¬ Reports job (runJob oneFileHost E (utf8 ['a']) job) := by
  intro E job
  refine ⟨rfl, ?_⟩
  rintro ⟨result, hresult, -⟩
  have hraised : (runJob oneFileHost E (utf8 ['a']) job).2 = none := rfl
  rw [hraised] at hresult
  cases hresult

end Persona.Taskman
