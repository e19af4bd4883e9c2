import Persona.SortingLine.Pipeline

/-!
# A pass over the inbox

What a pass of `process_inbox` does, file by file. `effect` is what the pass adds to
`processed/`, to `failed/` and to the store for one file, and whether the file leaves the
inbox: it depends on that file alone (`processFile_effect`), so that the pass does this
for each file up to one on which the embedder raises (`processInbox_effects`).

A pass treats every file, and files the ones that failed in `failed/`, exactly when the
embedder raises on none, the store takes the points of the others, and no move fails
(`drains_iff`): nothing guards the call of the embedder, and what the store drops counts
as ingested.
-/

namespace Persona.SortingLine

open Persona.Lib Persona.Rag Persona.TaskBoard

variable {β V : Type*}

/-! ### One file -/

/-- A file in a subdirectory, by the name it was dropped under. -/
def Filed.key (f : Filed β) : String × β := (f.dropped, f.body)

/-- A point but for its id. -/
def content (p : Point V) : String × String × Option V × Dict := (p.collection, p.document, p.vector, p.metadata)

/-- The text of a file that is to be embedded, if it can be read and has one. -/
def toEmbed (L : Library β V) (P : Pass V) (name : String) (body : β) : Option String :=
  let rr := readDocument L P name body
  if rr.ok = false then none
  else if PyText.strip rr.text = "" then none else some (PyText.strip rr.text)

/-- What a pass does for a file. -/
structure Effect (β V : Type*) where
  raises : Bool
  processed : List (String × β)
  failed : List (String × β)
  points : List (String × String × Option V × Dict)
  /-- It leaves the inbox. -/
  leaves : Bool

/-- The effect of no file. -/
def Effect.idle : Effect β V := ⟨false, [], [], [], false⟩

/-- What the point of a file says. -/
def pointOf (L : Library β V) (dir : String) (P : Pass V) (name : String) (body : β) (text : String) (vec : V) :
    String × String × Option V × Dict :=
  let binName := (binOf L P name text).1
  let rr := readDocument L P name body
  (provisionalCollection binName, text, some vec,
    docMeta (pathOf dir name) binName (P.time name) text rr.fmt name rr.nbytes)

/-- What a pass does for a file of the inbox. -/
def effect (L : Library β V) (dir : String) (P : Pass V) (name : String) (body : β) : Effect β V :=
  let moves := (P.moveFails name).isNone
  match toEmbed L P name body with
  | none => ⟨false, [], if moves then [(name, body)] else [], [], moves⟩
  | some text =>
    match P.embedDoc name text with
    | none => ⟨true, [], [], [], false⟩
    | some vec =>
      ⟨false, if moves then [(name, body)] else [], [],
        if P.stores name then [pointOf L dir P name body text vec] else [], moves⟩

/-- What a pass does for the entry of a name. -/
def effectAt (L : Library β V) (dir : String) (P : Pass V) (w : World β V) (name : String) : Effect β V :=
  (eligible w name).elim Effect.idle (effect L dir P name)

variable {L : Library β V} {dir : String} {P : Pass V} {w w₀ : World β V} {name : String} {body : β} {S : Store V}

theorem toEmbed_eq_none (h : toEmbed L P name body = none) :
    (readDocument L P name body).ok = false ∨ PyText.strip (readDocument L P name body).text = "" := by
  by_contra hne
  rw [not_or] at hne
  simp [toEmbed, hne.1, hne.2] at h

theorem toEmbed_eq_some {text : String} (h : toEmbed L P name body = some text) :
    (readDocument L P name body).ok = true ∧ PyText.strip (readDocument L P name body).text = text ∧ text ≠ "" := by
  simp only [toEmbed] at h
  cases hok : (readDocument L P name body).ok with
  | false => simp [hok] at h
  | true =>
    simp only [hok, Bool.true_eq_false, if_false] at h
    by_cases hnil : PyText.strip (readDocument L P name body).text = ""
    · simp [hnil] at h
    · rw [if_neg hnil, Option.some.injEq] at h
      exact ⟨rfl, h, h ▸ hnil⟩

theorem ingestPath_none (dir : String) (S : Store V) (h : toEmbed L P name body = none) :
    ∃ e fmt, ingestPath L P (pathOf dir name) name body S = (some (.failed e fmt), S) := by
  rw [ingestPath]
  cases hok : (readDocument L P name body).ok with
  | false => exact ⟨_, _, rfl⟩
  | true =>
    have hnil := (toEmbed_eq_none h).resolve_left (by simp [hok])
    exact ⟨"empty", "", by simp [hnil]⟩

theorem ingestPath_some {text : String} (h : toEmbed L P name body = some text) :
    ingestPath L P (pathOf dir name) name body S = match P.embedDoc name text with
      | none => (none, S)
      | some vec =>
        let p := pointOf L dir P name body text vec
        (some (.ok (S.lastId + 1) (binOf L P name text).1 p.1 text.length (pathOf dir name) (binOf L P name text).2),
          S.add (P.stores name) p.1 text vec p.2.2.2) := by
  obtain ⟨hok, htext, hne⟩ := toEmbed_eq_some h
  simp only [ingestPath, hok, htext, hne, Bool.true_eq_false, if_false]
  rfl

theorem effect_none (dir : String) (h : toEmbed L P name body = none) : effect L dir P name body =
    ⟨false, [], if (P.moveFails name).isNone then [(name, body)] else [], [], (P.moveFails name).isNone⟩ := by
  simp only [effect, h]

theorem effect_raises (dir : String) {text : String} (h : toEmbed L P name body = some text)
    (hv : P.embedDoc name text = none) : effect L dir P name body = ⟨true, [], [], [], false⟩ := by
  simp only [effect, h, hv]

theorem effect_some (dir : String) {text : String} {vec : V} (h : toEmbed L P name body = some text)
    (hv : P.embedDoc name text = some vec) : effect L dir P name body =
    ⟨false, if (P.moveFails name).isNone then [(name, body)] else [], [],
      if P.stores name then [pointOf L dir P name body text vec] else [], (P.moveFails name).isNone⟩ := by
  simp only [effect, h, hv]

theorem key_moveFile (tag name : String) (body : β) (ok : Bool) (w : World β V) :
    (moveFile tag name body ok w).2.processed.map Filed.key =
        w.processed.map Filed.key ++ (if ok then [(name, body)] else []) ∧
      (moveFile tag name body ok w).2.failed.map Filed.key =
        w.failed.map Filed.key ++ (if ok then [] else [(name, body)]) ∧
      (moveFile tag name body ok w).2.inbox = w.inbox.erase name ∧
      (moveFile tag name body ok w).2.store = w.store := by
  cases ok <;> simp [moveFile, Filed.key]

/-- **What a pass does for one entry** depends on the entry alone. -/
theorem processFile_effect (L : Library β V) (dir : String) (P : Pass V) (name : String) (w : World β V) :
    let e := effectAt L dir P w name
    let r := processFile L dir P name w
    r.1.isOk = !e.raises ∧ r.2.processed.map Filed.key = w.processed.map Filed.key ++ e.processed ∧
      r.2.failed.map Filed.key = w.failed.map Filed.key ++ e.failed ∧
      r.2.store.points.map content = w.store.points.map content ++ e.points ∧
      r.2.inbox = if e.leaves then w.inbox.erase name else w.inbox := by
  dsimp only
  rw [processFile, effectAt]
  cases he : eligible w name with
  | none => simp [Effect.idle, Except.isOk, Except.toBool]
  | some body =>
    dsimp only [Option.elim_some]
    cases ht : toEmbed L P name body with
    | none =>
      obtain ⟨e, fmt, hi⟩ := ingestPath_none dir w.store ht
      simp only [hi, effect_none dir ht]
      cases hm : P.moveFails name with
      | some err => simp [Except.isOk, Except.toBool]
      | none =>
        obtain ⟨h₁, h₂, h₃, h₄⟩ := key_moveFile (P.tag name) name body false w
        simp [Except.isOk, Except.toBool, Ingested.isOk, h₁, h₂, h₃, h₄]
    | some text =>
      rw [ingestPath_some ht]
      cases hv : P.embedDoc name text with
      | none => simp [effect_raises dir ht hv, Except.isOk, Except.toBool]
      | some vec =>
        simp only [effect_some dir ht hv]
        have hpoints : (w.store.add (P.stores name) (pointOf L dir P name body text vec).1 text vec
            (pointOf L dir P name body text vec).2.2.2).points.map content =
            w.store.points.map content ++ if P.stores name then [pointOf L dir P name body text vec] else [] := by
          rw [Store.points_add, List.map_append]
          cases P.stores name <;> rfl
        cases hm : P.moveFails name with
        | some err => simpa [Except.isOk, Except.toBool] using hpoints
        | none =>
          dsimp only
          obtain ⟨h₁, h₂, h₃, h₄⟩ := key_moveFile (P.tag name) name body true
            ⟨w.inbox, w.processed, w.failed, w.store.add (P.stores name) (pointOf L dir P name body text vec).1 text vec
              (pointOf L dir P name body text vec).2.2.2⟩
          simp only [Ingested.isOk, h₁, h₂, h₃, h₄]
          simpa [Except.isOk, Except.toBool] using hpoints

/-! ### A whole pass -/

/-- The entry is as it was in `w₀`. -/
def SameEntry (w₀ : World β V) (name : String) (w : World β V) : Prop := w.inbox.lookup name = w₀.inbox.lookup name

/-- The embedder raises on the file of this name. -/
def raisesAt (L : Library β V) (dir : String) (P : Pass V) (w₀ : World β V) (name : String) : Bool :=
  (effectAt L dir P w₀ name).raises

theorem eligible_congr (h : SameEntry w₀ name w) : eligible w name = eligible w₀ name := by
  rw [eligible, eligible, h]

theorem effectAt_congr (h : SameEntry w₀ name w) : effectAt L dir P w name = effectAt L dir P w₀ name := by
  rw [effectAt, effectAt, eligible_congr h]

/-- Each file's treatment concerns that file alone. -/
theorem processFile_local (L : Library β V) (dir : String) (P : Pass V) (w₀ : World β V) :
    Local id (SameEntry w₀) (raisesAt L dir P w₀) (processFile L dir P) where
  raises_iff name w h := by
    rw [(processFile_effect L dir P name w).1, effectAt_congr h, raisesAt]
  frame name name' w hne h := by
    have hinbox := (processFile_effect L dir P name w).2.2.2.2
    have hne' : name' ≠ name := fun he => hne he.symm
    rw [SameEntry, hinbox]
    split_ifs
    · rw [AList.lookup_erase_ne hne']
      exact h
    · exact h

theorem nodup_names (w : World β V) : (names w).Nodup :=
  (List.perm_insertionSort _ _).nodup_iff.mpr w.inbox.keys_nodup

theorem mem_names : name ∈ names w ↔ name ∈ w.inbox := by
  rw [names, List.mem_insertionSort]
  exact AList.mem_keys.symm

/-- The names a pass gets to. -/
def reached (L : Library β V) (dir : String) (P : Pass V) (w : World β V) : List String :=
  visited (raisesAt L dir P w) (names w)

/-- What a pass adds to a log, given what one file adds. -/
theorem log_processInbox {γ : Type*} (log : World β V → List γ) (part : Effect β V → List γ)
    (h : ∀ n s, log (processFile L dir P n s).2 = log s ++ part (effectAt L dir P s n)) (w : World β V) :
    log (processInbox L dir P w).2 = log w ++ (reached L dir P w).flatMap fun n => part (effectAt L dir P w n) := by
  refine log_scan (processFile_local L dir P w) (fun n s hs => ?_) (by simpa using nodup_names w) fun _ _ => rfl
  rw [h, effectAt_congr hs]

/-- **What a pass does** is what it does for each file it gets to. -/
theorem processInbox_effects (L : Library β V) (dir : String) (P : Pass V) (w : World β V) :
    let r := processInbox L dir P w
    let ns := reached L dir P w
    r.1.isOk = !(names w).any (raisesAt L dir P w) ∧
      r.2.processed.map Filed.key = w.processed.map Filed.key ++ ns.flatMap (fun n => (effectAt L dir P w n).processed) ∧
      r.2.failed.map Filed.key = w.failed.map Filed.key ++ ns.flatMap (fun n => (effectAt L dir P w n).failed) ∧
      r.2.store.points.map content =
        w.store.points.map content ++ ns.flatMap (fun n => (effectAt L dir P w n).points) := by
  refine ⟨?_, ?_, ?_, ?_⟩
  · exact scan_isOk (processFile_local L dir P w) (by simpa using nodup_names w) fun _ _ => rfl
  · exact log_processInbox (fun s => s.processed.map Filed.key) _ (fun n s => (processFile_effect L dir P n s).2.1) w
  · exact log_processInbox (fun s => s.failed.map Filed.key) _ (fun n s => (processFile_effect L dir P n s).2.2.1) w
  · exact log_processInbox (fun s => s.store.points.map content) _
      (fun n s => (processFile_effect L dir P n s).2.2.2.1) w

/-- A file that a pass gets to stays in the inbox exactly when its effect says so. -/
theorem lookup_processInbox (h : name ∈ reached L dir P w) :
    (processInbox L dir P w).2.inbox.lookup name =
      if (effectAt L dir P w name).leaves then none else w.inbox.lookup name := by
  have hother : ∀ n s, id n ≠ id name → (processFile L dir P n s).2.inbox.lookup name = s.inbox.lookup name := by
    intro n s hne
    rw [(processFile_effect L dir P n s).2.2.2.2]
    split_ifs
    · exact AList.lookup_erase_ne (Ne.symm hne)
    · rfl
  obtain ⟨s, hs, -, hfinal⟩ := scan_at (fun s : World β V => s.inbox.lookup name) (processFile_local L dir P w) hother
    (by simpa using nodup_names w) (fun _ _ => rfl) h
  rw [processInbox, hfinal, (processFile_effect L dir P name s).2.2.2.2, effectAt_congr hs]
  split_ifs
  · exact AList.lookup_erase _ _
  · exact hs

/-- The files a pass takes, in its order. -/
def files (w : World β V) : List (String × β) := (names w).filterMap fun n => (eligible w n).map (n, ·)

theorem mem_files : (name, body) ∈ files w ↔ eligible w name = some body := by
  rw [files, List.mem_filterMap]
  constructor
  · rintro ⟨n, -, h⟩
    obtain ⟨b, hb, heq⟩ := Option.map_eq_some_iff.mp h
    cases heq
    exact hb
  · intro h
    refine ⟨name, ?_, by rw [h]; rfl⟩
    rw [mem_names]
    by_contra hno
    rw [eligible, AList.lookup_eq_none.mpr hno] at h
    cases h

theorem path_processFile {b : Option Result} (h : (processFile L dir P name w).1 = .ok b) :
    b.toList.map Result.path = (eligible w name).toList.map fun _ => pathOf dir name := by
  rw [processFile] at h
  cases he : eligible w name with
  | none =>
    simp only [he, Except.ok.injEq] at h
    subst h
    rfl
  | some body =>
    simp only [he] at h
    rcases hi : ingestPath L P (pathOf dir name) name body w.store with ⟨_ | res, S⟩
    · simp [hi] at h
    · simp only [hi] at h
      cases hm : P.moveFails name <;> simp only [hm, Except.ok.injEq] at h <;> subst h <;> rfl

/-- A pass that is not ended has a result for each file. -/
theorem paths_processInbox {rs : List Result} (h : (processInbox L dir P w).1 = .ok rs) :
    rs.map Result.path = (files w).map fun f => pathOf dir f.1 := by
  have hout : ∀ n s b, SameEntry w n s → (processFile L dir P n s).1 = .ok b →
      b.toList.map Result.path = (eligible w n).toList.map fun _ => pathOf dir n := by
    intro n s b hs hb
    rw [path_processFile hb, eligible_congr hs]
  rw [scan_map (processFile_local L dir P w) Result.path _ hout (by simpa using nodup_names w) (fun _ _ => rfl) h,
    files, List.map_filterMap, List.filterMap_eq_flatMap_toList]
  refine List.flatMap_congr fun n _ => ?_
  cases eligible w n <;> rfl

/-! ### No file blocks the others -/

/-- Reading, embedding or storing the file fails. -/
def fails (L : Library β V) (P : Pass V) (f : String × β) : Bool :=
  match toEmbed L P f.1 f.2 with
  | none => true
  | some text => !((P.embedDoc f.1 text).isSome && P.stores f.1)

/-- The points of a file that does not fail. -/
def pointsOf (L : Library β V) (dir : String) (P : Pass V) (f : String × β) : List (String × String × Option V × Dict) :=
  match toEmbed L P f.1 f.2 with
  | none => []
  | some text => ((P.embedDoc f.1 text).map (pointOf L dir P f.1 f.2 text)).toList

/-- The pass returns a result for each file, takes each out of the inbox, files those that
fail in `failed/` and the others in `processed/`, and stores the points of these. -/
structure Drains (L : Library β V) (dir : String) (P : Pass V) (w : World β V) : Prop where
  results : ∃ rs, (processInbox L dir P w).1 = .ok rs ∧ rs.map Result.path = (files w).map fun f => pathOf dir f.1
  drained : ∀ f ∈ files w, f.1 ∉ (processInbox L dir P w).2.inbox
  failed : (processInbox L dir P w).2.failed.map Filed.key =
    w.failed.map Filed.key ++ (files w).filter (fails L P)
  processed : (processInbox L dir P w).2.processed.map Filed.key =
    w.processed.map Filed.key ++ (files w).filter (!fails L P ·)
  points : (processInbox L dir P w).2.store.points.map content =
    w.store.points.map content ++ ((files w).filter (!fails L P ·)).flatMap (pointsOf L dir P)

/-- The embedder does not raise on the file, the store takes its point, and it can be moved. -/
def Unhindered (L : Library β V) (P : Pass V) (f : String × β) : Prop :=
  (∀ text, toEmbed L P f.1 f.2 = some text → (P.embedDoc f.1 text).isSome ∧ P.stores f.1 = true) ∧
    P.moveFails f.1 = none

/-- The effect on a file that nothing hinders. -/
theorem effect_unhindered {f : String × β} (dir : String) (h : Unhindered L P f) : effect L dir P f.1 f.2 =
    ⟨false, [f].filter (!fails L P ·), [f].filter (fails L P),
      ([f].filter (!fails L P ·)).flatMap (pointsOf L dir P), true⟩ := by
  obtain ⟨hembed, hmove⟩ := h
  cases ht : toEmbed L P f.1 f.2 with
  | none =>
    have hfails : fails L P f = true := by simp [fails, ht]
    simp [effect_none dir ht, hmove, hfails]
  | some text =>
    obtain ⟨hv, hst⟩ := hembed text ht
    obtain ⟨vec, hv⟩ := Option.isSome_iff_exists.mp hv
    have hfails : fails L P f = false := by simp [fails, ht, hv, hst]
    simp [effect_some dir ht hv, hmove, hst, hfails, pointsOf, ht, hv]

theorem flatMap_files {γ : Type*} (w : World β V) (g : String × β → List γ) :
    (names w).flatMap (fun n => (eligible w n).elim [] fun b => g (n, b)) = (files w).flatMap g := by
  rw [files, List.filterMap_eq_flatMap_toList, List.flatMap_assoc]
  refine List.flatMap_congr fun n _ => ?_
  cases eligible w n <;> simp

theorem flatMap_filter_singleton {γ : Type*} (p : γ → Bool) (l : List γ) :
    l.flatMap (fun a => [a].filter p) = l.filter p := by
  induction l with
  | nil => rfl
  | cons a l ih =>
    rw [List.flatMap_cons, ih, List.filter_cons, List.filter_cons]
    split_ifs <;> rfl

theorem mem_names_of_mem_files {f : String × β} (h : f ∈ files w) : f.1 ∈ names w := by
  have hel : eligible w f.1 = some f.2 := mem_files.mp h
  rw [mem_names]
  by_contra hno
  rw [eligible, AList.lookup_eq_none.mpr hno] at hel
  cases hel

theorem effectAt_of_mem_files {f : String × β} (h : f ∈ files w) :
    effectAt L dir P w f.1 = effect L dir P f.1 f.2 := by
  rw [effectAt, mem_files.mp h]
  rfl

/-- Only files that cannot be read are filed as failed. -/
theorem toEmbed_of_mem_failed {f : String × β} (h : f ∈ (effectAt L dir P w name).failed) :
    toEmbed L P f.1 f.2 = none := by
  rw [effectAt] at h
  cases he : eligible w name with
  | none =>
    rw [he] at h
    cases h
  | some body =>
    rw [he] at h
    dsimp only [Option.elim_some] at h
    cases ht : toEmbed L P name body with
    | none =>
      rw [effect_none dir ht] at h
      dsimp only at h
      split_ifs at h
      · rw [List.mem_singleton.mp h, ht]
      · cases h
    | some text =>
      cases hv : P.embedDoc name text with
      | none =>
        rw [effect_raises dir ht hv] at h
        cases h
      | some vec =>
        rw [effect_some dir ht hv] at h
        cases h

/-- A pass that ends without an exception gets to every file. -/
theorem reached_of_isOk (h : (processInbox L dir P w).1.isOk = true) :
    (∀ n ∈ names w, raisesAt L dir P w n = false) ∧ reached L dir P w = names w := by
  rw [(processInbox_effects L dir P w).1] at h
  have hall : ∀ n ∈ names w, raisesAt L dir P w n = false := by simpa using h
  exact ⟨hall, visited_eq_self hall⟩

/-- Nothing hinders the files of a pass that drains the inbox. -/
theorem unhindered_of_drains (h : Drains L dir P w) {f : String × β} (hf : f ∈ files w) : Unhindered L P f := by
  obtain ⟨rs, hrs, -⟩ := h.results
  obtain ⟨hall, hreach⟩ := reached_of_isOk (show (processInbox L dir P w).1.isOk = true by rw [hrs]; rfl)
  have hmem := mem_names_of_mem_files hf
  have heff : effectAt L dir P w f.1 = effect L dir P f.1 f.2 := effectAt_of_mem_files hf
  have hleaves : (effect L dir P f.1 f.2).leaves = true := by
    by_contra hstays
    have hlook := lookup_processInbox (hreach ▸ hmem : f.1 ∈ reached L dir P w)
    rw [heff, if_neg hstays] at hlook
    refine h.drained f hf (AList.lookup_isSome.mp ?_)
    rw [hlook]
    exact AList.lookup_isSome.mpr (mem_names.mp hmem)
  have hembeds : ∀ text, toEmbed L P f.1 f.2 = some text → (P.embedDoc f.1 text).isSome := by
    intro text ht
    by_contra hnot
    have hraise := hall f.1 hmem
    rw [raisesAt, heff, effect_raises dir ht (by simpa using hnot)] at hraise
    cases hraise
  refine ⟨fun text ht => ⟨hembeds text ht, ?_⟩, ?_⟩
  · -- a file whose point is dropped would have to be in `failed/`
    by_contra hst
    rw [Bool.not_eq_true] at hst
    have hfails : fails L P f = true := by simp [fails, ht, hst]
    have hin : f ∈ (names w).flatMap fun n => (effectAt L dir P w n).failed := by
      have heq := h.failed
      rw [(processInbox_effects L dir P w).2.2.1, hreach, List.append_cancel_left_eq] at heq
      rw [heq]
      exact List.mem_filter.mpr ⟨hf, hfails⟩
    obtain ⟨n, -, hn⟩ := List.mem_flatMap.mp hin
    rw [toEmbed_of_mem_failed hn] at ht
    cases ht
  · cases ht : toEmbed L P f.1 f.2 with
    | none => simpa [effect_none dir ht] using hleaves
    | some text =>
      obtain ⟨vec, hv⟩ := Option.isSome_iff_exists.mp (hembeds text ht)
      simpa [effect_some dir ht hv] using hleaves

/-- The effect on the entry of a name, when nothing hinders the files. -/
theorem effectAt_unhindered (dir : String) (h : ∀ f ∈ files w, Unhindered L P f) (n : String) :
    effectAt L dir P w n = (eligible w n).elim Effect.idle fun b =>
      ⟨false, [(n, b)].filter (!fails L P ·), [(n, b)].filter (fails L P),
        ([(n, b)].filter (!fails L P ·)).flatMap (pointsOf L dir P), true⟩ := by
  rw [effectAt]
  cases he : eligible w n with
  | none => rfl
  | some b => exact effect_unhindered dir (h (n, b) (mem_files.mpr he))

/-- What a pass adds, when nothing hinders the files. -/
theorem flatMap_part {γ : Type*} (dir : String) (h : ∀ f ∈ files w, Unhindered L P f) (part : Effect β V → List γ)
    (g : String × β → List γ) (hidle : part Effect.idle = [])
    (hpart : ∀ f, part ⟨false, [f].filter (!fails L P ·), [f].filter (fails L P),
      ([f].filter (!fails L P ·)).flatMap (pointsOf L dir P), true⟩ = g f) :
    ((names w).flatMap fun n => part (effectAt L dir P w n)) = (files w).flatMap g := by
  rw [← flatMap_files]
  refine List.flatMap_congr fun n _ => ?_
  rw [effectAt_unhindered dir h]
  cases eligible w n with
  | none => exact hidle
  | some b => exact hpart (n, b)

/-- A pass on files that nothing hinders drains the inbox. -/
theorem drains_of_unhindered (dir : String) (h : ∀ f ∈ files w, Unhindered L P f) : Drains L dir P w := by
  obtain ⟨hok, hprocessed, hfailed, hpoints⟩ := processInbox_effects L dir P w
  have hall : ∀ n ∈ names w, raisesAt L dir P w n = false := by
    intro n _
    rw [raisesAt, effectAt_unhindered dir h]
    cases eligible w n <;> rfl
  have hisOk : (processInbox L dir P w).1.isOk = true := by
    rw [hok]
    simpa using hall
  obtain ⟨-, hreach⟩ := reached_of_isOk hisOk
  rw [hreach] at hprocessed hfailed hpoints
  refine ⟨?_, ?_, ?_, ?_, ?_⟩
  · cases hr : (processInbox L dir P w).1 with
    | error e => simp [hr, Except.isOk, Except.toBool] at hisOk
    | ok rs => exact ⟨rs, rfl, paths_processInbox hr⟩
  · intro f hf
    have hlook := lookup_processInbox (hreach ▸ mem_names_of_mem_files hf : f.1 ∈ reached L dir P w)
    rw [effectAt_of_mem_files hf, effect_unhindered dir (h f hf), if_pos rfl] at hlook
    exact AList.lookup_eq_none.mp hlook
  · rw [hfailed, ← flatMap_filter_singleton, flatMap_part dir h Effect.failed _ rfl fun _ => rfl]
  · rw [hprocessed, ← flatMap_filter_singleton, flatMap_part dir h Effect.processed _ rfl fun _ => rfl]
  · rw [hpoints, ← flatMap_filter_singleton, List.flatMap_assoc,
      flatMap_part dir h Effect.points _ rfl fun _ => rfl]

/-- **No file blocks the others**, and every file that fails is filed as failed, exactly
when the embedder raises on none of the files, the store takes the points of those that
can be read, and all can be moved. -/
theorem drains_iff (L : Library β V) (dir : String) (P : Pass V) (w : World β V) :
    Drains L dir P w ↔ ∀ f ∈ files w, Unhindered L P f :=
  ⟨fun h _ hf => unhindered_of_drains h hf, drains_of_unhindered dir⟩

/-- A library that takes a file's text for its bytes. -/
def plainLibrary : Library String ℕ where
  maxBytes := 8388608
  size := String.length
  decodes _ raw := some raw
  replaces := id
  lower := id
  isAlnum := Char.isAlphanum
  feed s := .ok [.data s]
  unescape := id
  pdf := none
  docx := none
  cosine _ _ := 0

/-- An inbox with two files. -/
def twoFiles : World String ℕ := ⟨(AList.singleton "a.txt" (.file "one")).insert "b.txt" (.file "two"), [], [], .empty⟩

/-- A pass in which the embedder raises on the first file. -/
def stuck : Pass ℕ where
  statFails _ := none
  readFails _ := none
  embedScore _ _ := none
  embedDoc name _ := if name = "a.txt" then none else some 0
  prototypes := []
  time _ := 0
  stores _ := true
  moveFails _ := none
  tag _ := ""

/-- The first file ends the pass. -/
theorem not_drains : ¬ Drains plainLibrary "inbox" stuck twoFiles := by
  intro h
  obtain ⟨rs, hrs, -⟩ := h.results
  have hends : (processInbox plainLibrary "inbox" stuck twoFiles).1.isOk = false := by decide
  rw [hrs] at hends
  cases hends

end Persona.SortingLine
