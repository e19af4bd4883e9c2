import Persona.SortingLine.Inbox
import Mathlib.Data.List.Flatten

/-!
# Files are ingested once

Passes over the inbox, with files dropped between them. That a file was ingested shows in
nothing but where it is, while its point is stored before it is moved, and both may fail.

`ExactlyOnce` compares the points in the store with the files in `processed/`: they are
the same up to order, a file being known by the path it was dropped at and its text. A
file in the inbox or in `failed/` has then no point of its own.
-/

namespace Persona.SortingLine

open Persona.Lib Persona.Rag Persona.TaskBoard

variable {β V : Type*}

/-- A pass that nothing goes wrong in, as far as reading is concerned. -/
def calm : Pass V where
  statFails _ := none
  readFails _ := none
  embedScore _ _ := none
  embedDoc _ _ := none
  prototypes := []
  time _ := 0
  stores _ := true
  moveFails _ := none
  tag _ := ""

/-- The text of a file, if it has one. -/
def fileText (L : Library β V) (name : String) (body : β) : Option String := toEmbed L calm name body

/-- What a file is known by: the path it was dropped at, and its text. -/
def fileKey (L : Library β V) (dir : String) (f : String × β) : Option (String × String) :=
  (fileText L f.1 f.2).map fun text => (pathOf dir f.1, text)

/-- What the point of a file is known by. -/
def docKey (c : String × String × Option V × Dict) : Option (String × String) :=
  match c.2.2.2.lookup "kind", c.2.2.2.lookup "source" with
  | some (.str kind), some (.str source) => if kind = "inbox_doc" then some (source, c.2.1) else none
  | _, _ => none

/-- The points of the inbox's documents are those of the files in `processed/`, one for each. -/
def ExactlyOnce (L : Library β V) (dir : String) (w : World β V) : Prop :=
  ((w.store.points.map content).filterMap docKey).Perm ((w.processed.map Filed.key).filterMap (fileKey L dir))

/-- What happens to the inbox: an entry is dropped in it, under a name that is free, or a
pass goes over it. -/
inductive Ev (β V : Type*) where
  | drop (name : String) (entry : Entry β)
  | pass (P : Pass V)

/-- A step. -/
def step (L : Library β V) (dir : String) (w : World β V) : Ev β V → World β V
  | .drop name entry => if name ∈ w.inbox then w else { w with inbox := w.inbox.insert name entry }
  | .pass P => (processInbox L dir P w).2

/-- A run. -/
def runs (L : Library β V) (dir : String) (es : List (Ev β V)) (w : World β V) : World β V :=
  es.foldl (step L dir) w

/-- Of the files that a pass gets to and can embed, it stores the points of just those
that it can move. -/
def Settles (L : Library β V) (dir : String) (P : Pass V) (w : World β V) : Prop :=
  ∀ name ∈ reached L dir P w, ∀ body text, eligible w name = some body → toEmbed L P name body = some text →
    (P.embedDoc name text).isSome → P.stores name = (P.moveFails name).isNone

/-- Every pass of a run settles. -/
def SettledRun (L : Library β V) (dir : String) : List (Ev β V) → World β V → Prop
  | [], _ => True
  | .drop name entry :: es, w => SettledRun L dir es (step L dir w (.drop name entry))
  | .pass P :: es, w => Settles L dir P w ∧ SettledRun L dir es (step L dir w (.pass P))

variable {L : Library β V} {dir : String} {P : Pass V} {w : World β V} {name text : String} {body : β} {vec : V}

theorem readWith_fails {parser : Option (β → Except String (List String))} {missing error fmt e : String} {size : ℕ} :
    (readWith parser missing error fmt (some e) body size).ok = false := by
  cases parser <;> rfl

/-- A file is read only if no call on the operating system fails. -/
theorem readDocument_ok (h : (readDocument L P name body).ok = true) :
    P.statFails name = none ∧ P.readFails name = none := by
  unfold readDocument at h
  cases hstat : P.statFails name with
  | some e => simp [hstat, ReadResult.failed] at h
  | none =>
    cases hread : P.readFails name with
    | none => exact ⟨rfl, rfl⟩
    | some e =>
      simp only [hstat, hread] at h
      split_ifs at h
      · simp [ReadResult.failed] at h
      · simp [ReadResult.failed] at h
      · simp [ReadResult.failed] at h
      · simp [readWith_fails] at h
      · simp [readWith_fails] at h
      · simp [ReadResult.failed] at h

/-- What is read is the file's own text. -/
theorem fileText_of_toEmbed (h : toEmbed L P name body = some text) : fileText L name body = some text := by
  obtain ⟨hok, htext, hne⟩ := toEmbed_eq_some h
  obtain ⟨hstat, hread⟩ := readDocument_ok hok
  have heq : readDocument L (calm : Pass V) name body = readDocument L P name body := by
    unfold readDocument
    rw [hstat, hread]
    rfl
  rw [fileText, toEmbed, heq, hok, htext]
  simp [hne]

theorem docKey_pointOf : docKey (pointOf L dir P name body text vec) = some (pathOf dir name, text) := rfl

theorem pathOf_injective (dir : String) : Function.Injective (pathOf dir) := by
  intro a b h
  have hlist := congrArg String.toList h
  simp only [pathOf, String.toList_append, List.append_cancel_left_eq] at hlist
  exact String.toList_inj.mp hlist

/-! ### A pass -/

/-- What a file that a pass can embed is known by. -/
def keyAt (L : Library β V) (dir : String) (P : Pass V) (w : World β V) (name : String) : Option (String × String) :=
  (eligible w name).bind fun body => (toEmbed L P name body).bind fun text =>
    (P.embedDoc name text).map fun _ => (pathOf dir name, text)

theorem keyAt_eq_some {k : String × String} (h : keyAt L dir P w name = some k) : ∃ body text vec,
    eligible w name = some body ∧ toEmbed L P name body = some text ∧ P.embedDoc name text = some vec ∧
      k = (pathOf dir name, text) := by
  obtain ⟨body, hb, h⟩ := Option.bind_eq_some_iff.mp h
  obtain ⟨text, ht, h⟩ := Option.bind_eq_some_iff.mp h
  obtain ⟨vec, hv, h⟩ := Option.map_eq_some_iff.mp h
  exact ⟨body, text, vec, hb, ht, hv, h.symm⟩

/-- The keys that a pass adds for a name: to the store's, and to those of `processed/`. -/
theorem keys_effectAt (L : Library β V) (dir : String) (P : Pass V) (w : World β V) (name : String) :
    (effectAt L dir P w name).points.filterMap docKey = (if P.stores name then (keyAt L dir P w name).toList else []) ∧
      (effectAt L dir P w name).processed.filterMap (fileKey L dir) =
        if (P.moveFails name).isNone then (keyAt L dir P w name).toList else [] := by
  rw [effectAt, keyAt]
  cases eligible w name with
  | none => simp [Effect.idle]
  | some body =>
    dsimp only [Option.elim_some, Option.bind_some]
    cases ht : toEmbed L P name body with
    | none => simp [effect_none dir ht]
    | some text =>
      dsimp only [Option.bind_some]
      cases hv : P.embedDoc name text with
      | none => simp [effect_raises dir ht hv]
      | some vec =>
        rw [effect_some dir ht hv]
        constructor
        · cases P.stores name <;> simp [docKey_pointOf]
        · cases P.moveFails name <;> simp [fileKey, fileText_of_toEmbed ht]

/-- Two selections from a list of distinct keys are the same up to order exactly when they
select the same. -/
theorem flatMap_perm_iff {α κ : Type*} {l : List α} {key : α → Option κ}
    (hkey : ∀ a b k, key a = some k → key b = some k → a = b) (p q : α → Bool) :
    (l.flatMap fun a => if p a then (key a).toList else []).Perm (l.flatMap fun a => if q a then (key a).toList else []) ↔
      ∀ a ∈ l, (key a).isSome → p a = q a := by
  have hmem : ∀ (r : α → Bool) a k, a ∈ l → key a = some k →
      (k ∈ (l.flatMap fun a => if r a then (key a).toList else []) ↔ r a = true) := by
    intro r a k ha hk
    rw [List.mem_flatMap]
    constructor
    · intro ⟨b, _, hb⟩
      split_ifs at hb with hr
      · rwa [hkey a b k hk (Option.mem_toList.mp hb)]
      · cases hb
    · intro hr
      exact ⟨a, ha, by simp [hr, hk]⟩
  constructor
  · intro h a ha hsome
    obtain ⟨k, hk⟩ := Option.isSome_iff_exists.mp hsome
    rw [Bool.eq_iff_iff, ← hmem p a k ha hk, ← hmem q a k ha hk]
    exact h.mem_iff
  · intro h
    refine List.Perm.of_eq (List.flatMap_congr fun a ha => ?_)
    cases hk : key a with
    | none => simp
    | some k => rw [h a ha (by simp [hk])]

/-- **A pass keeps to it** exactly when it settles. -/
theorem exactlyOnce_pass_iff (h : ExactlyOnce L dir w) :
    ExactlyOnce L dir (processInbox L dir P w).2 ↔ Settles L dir P w := by
  obtain ⟨-, hprocessed, -, hpoints⟩ := processInbox_effects L dir P w
  have hkey : ∀ n m k, keyAt L dir P w n = some k → keyAt L dir P w m = some k → n = m := by
    intro n m k hn hm
    obtain ⟨_, t, _, _, _, _, rfl⟩ := keyAt_eq_some hn
    obtain ⟨_, t', _, _, _, _, heq⟩ := keyAt_eq_some hm
    exact pathOf_injective dir (Prod.ext_iff.mp heq).1
  have hstored : (reached L dir P w).flatMap (fun n => (effectAt L dir P w n).points.filterMap docKey) =
      (reached L dir P w).flatMap fun n => if P.stores n then (keyAt L dir P w n).toList else [] :=
    List.flatMap_congr fun n _ => (keys_effectAt L dir P w n).1
  have hmoved : (reached L dir P w).flatMap (fun n => (effectAt L dir P w n).processed.filterMap (fileKey L dir)) =
      (reached L dir P w).flatMap fun n => if (P.moveFails n).isNone then (keyAt L dir P w n).toList else [] :=
    List.flatMap_congr fun n _ => (keys_effectAt L dir P w n).2
  have hold : ∀ new moved : List (String × String),
      (((w.store.points.map content).filterMap docKey ++ new).Perm
        ((w.processed.map Filed.key).filterMap (fileKey L dir) ++ moved) ↔ new.Perm moved) := by
    intro new moved
    constructor
    · intro hp
      exact (List.perm_append_left_iff _).mp ((List.Perm.append_right new h).symm.trans hp)
    · intro hp
      exact (List.Perm.append_right new h).trans ((List.perm_append_left_iff _).mpr hp)
  rw [ExactlyOnce, hpoints, hprocessed, List.filterMap_append, List.filterMap_append, List.filterMap_flatMap,
    List.filterMap_flatMap, hstored, hmoved, hold, flatMap_perm_iff hkey, Settles]
  constructor
  · intro hall n hn body text hb ht hv
    obtain ⟨vec, hv⟩ := Option.isSome_iff_exists.mp hv
    exact hall n hn (by simp [keyAt, hb, ht, hv])
  · intro hall n hn hsome
    obtain ⟨k, hk⟩ := Option.isSome_iff_exists.mp hsome
    obtain ⟨body, text, vec, hb, ht, hv, -⟩ := keyAt_eq_some hk
    exact hall n hn body text hb ht (by simp [hv])

/-! ### Runs -/

theorem exactlyOnce_drop (h : ExactlyOnce L dir w) (entry : Entry β) :
    ExactlyOnce L dir (step L dir w (.drop name entry)) := by
  rw [step]
  split_ifs
  · exact h
  · exact h

/-- **Each dropped file is ingested exactly once**, at every boundary of every run, exactly
when of the files that a pass gets to and can embed it stores the points of just those
that it can move. -/
theorem exactlyOnce_run_iff (es : List (Ev β V)) (h : ExactlyOnce L dir w) :
    (∀ n ≤ es.length, ExactlyOnce L dir (runs L dir (es.take n) w)) ↔ SettledRun L dir es w := by
  induction es generalizing w with
  | nil => simpa [SettledRun, runs] using h
  | cons e es ih =>
    have hsplit : (∀ n ≤ (e :: es).length, ExactlyOnce L dir (runs L dir ((e :: es).take n) w)) ↔
        ∀ n ≤ es.length, ExactlyOnce L dir (runs L dir (es.take n) (step L dir w e)) := by
      constructor
      · intro hall n hn
        simpa [runs] using hall (n + 1) (by simpa using hn)
      · intro hall n hn
        cases n with
        | zero => simpa [runs] using h
        | succ n => simpa [runs] using hall n (by simpa using hn)
    rw [hsplit]
    cases e with
    | drop name entry => rw [SettledRun, ih (exactlyOnce_drop h entry)]
    | pass P =>
      rw [SettledRun, ← exactlyOnce_pass_iff h]
      constructor
      · intro hall
        have hfirst : ExactlyOnce L dir (step L dir w (.pass P)) := by simpa [runs] using hall 0 (Nat.zero_le _)
        exact ⟨hfirst, (ih hfirst).mp hall⟩
      · intro ⟨hfirst, hrest⟩
        exact (ih hfirst).mpr hrest

/-- An inbox before anything is dropped. -/
def emptyInbox : World String ℕ := ⟨∅, [], [], .empty⟩

/-- A pass in which nothing fails but, perhaps, the store. -/
def working (stores : Bool) : Pass ℕ := { calm with embedDoc := fun _ _ => some 0, stores := fun _ => stores }

/-- A file is dropped, and a pass goes over it. -/
def oneFile (stores : Bool) : List (Ev String ℕ) := [.drop "a.txt" (.file "one"), .pass (working stores)]

theorem exactlyOnce_run_oneFile :
    ExactlyOnce plainLibrary "inbox" (runs plainLibrary "inbox" ((oneFile true).take 1) emptyInbox) ∧
      ExactlyOnce plainLibrary "inbox" (runs plainLibrary "inbox" (oneFile true) emptyInbox) := by
  have hsettled : SettledRun plainLibrary "inbox" (oneFile true) emptyInbox :=
    ⟨fun _ _ _ _ _ _ _ => rfl, trivial⟩
  have hstart : ExactlyOnce plainLibrary "inbox" emptyInbox := List.Perm.refl []
  have hall := (exactlyOnce_run_iff (oneFile true) hstart).mpr hsettled
  exact ⟨hall 1 (by decide), hall 2 le_rfl⟩

/-- A file whose point the store drops is in `processed/` all the same. -/
theorem not_exactlyOnce_run : ¬ ∀ n ≤ 2,
    ExactlyOnce plainLibrary "inbox" (runs plainLibrary "inbox" ((oneFile false).take n) emptyInbox) := by
  intro h
  exact absurd (h 2 le_rfl).length_eq (by decide)

end Persona.SortingLine
