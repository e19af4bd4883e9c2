import Persona.Intake.Blanks
import Persona.Intake.Chatter
import Persona.Lib.Firsts

/-!
# The facts that are kept

What `parse_facts` of `services/api/memory_distiller.py` returns of a model's answer: at most three texts
that `_cleanup_fact` has cleaned. `Sound` says what the cleaning is for.

`_cleanup_fact` takes away one bullet, where `validate_record` takes away all, so that `- - x` is left as
`- x`; and it looks for the words `next actions` before it cuts the text, although a cut can end a word
after them. `sound_iff` says that a fact is as it should be but for these.
-/

namespace Persona.Intake

open Persona.Lib

variable (L : Library)

/-- The list `facts` of the JSON in a text; empty where there is none. -/
def factsList (text : String) : List Json :=
  let raw := stripThink (PyText.strip text)
  if raw = "" then []
  else
    match loadsFacts L raw with
    | .ok (.obj kvs) =>
      match lookupFirst kvs ["facts", "\"facts\"", "\\\"facts\\\""] with
      | some (.arr xs) => xs
      | _ => []
    | _ => []

/-- The texts of a list. -/
def strings (xs : List Json) : List String :=
  xs.filterMap fun
    | .str f => some f
    | _ => none

/-- The cleaned texts, those that are empty left out. -/
def cleaned (fs : List String) : List String := (fs.map (cleanupFact L)).filter (· ≠ "")

/-- The facts that `parse_facts` returns; none with an error. -/
def returnedFacts (text : String) : List String :=
  match parseFacts L text with
  | .ok facts => facts
  | .error _ => []

/-- A text without its blanks and its first bullet. -/
def bare (f : String) : List Char := dropBullet (collapse false (PyText.strip f).toList)

/-- What is asked of a fact. -/
structure Clean (f : String) : Prop where
  length : 1 ≤ f.toList.length ∧ f.toList.length ≤ 140
  neat : Neat f.toList
  bullet : ¬ Bulleted f.toList
  actions : (nextActions L).search f.toList = false
  fixed : cleanupFact L f = f

/-- What is asked of the facts of a text: each is the first text of its list that is cleaned to it, up to
case, and they stand in the order of these. -/
structure Sound (text : String) : Prop where
  count : (returnedFacts L text).length ≤ 3
  clean : ∀ f ∈ returnedFacts L text, Clean L f
  distinct : ((returnedFacts L text).map L.lower).Nodup
  first : ∀ f ∈ returnedFacts L text,
    ((cleaned L (strings (factsList L text))).find? fun g => L.lower g = L.lower f) = some f
  ordered : (returnedFacts L text).Pairwise fun f g =>
    ((cleaned L (strings (factsList L text))).findIdx fun h => L.lower h = L.lower f) <
      (cleaned L (strings (factsList L text))).findIdx fun h => L.lower h = L.lower g

/-- A text that becomes a fact: what it is cleaned to is not empty and new, and fewer than three others
came before it. -/
structure Taken (pre : List String) (f : String) : Prop where
  ne_empty : cleanupFact L f ≠ ""
  new : L.lower (cleanupFact L f) ∉ (cleaned L pre).map L.lower
  room : ((cleaned L pre).map L.lower).toFinset.card < 3

/-- No second bullet follows the first, and the words do not appear where the text is cut. -/
structure Tidy (f : String) : Prop where
  bullet : ¬ Bulleted (bare f)
  cut : (nextActions L).search (PyText.rstripL ((bare f).take 140)) = false

variable {L} {text f : String} {cs : List Char} {seen fs pre : List String} {xs : List Json}

/-! ### Cleaning -/

theorem Neat.dropBullet (h : Neat cs) : Neat (dropBullet cs) := by
  fun_cases Intake.dropBullet cs with
  | case1 b s cs hb => exact h.of_bullet hb.2
  | case2 b s cs hb => exact h
  | case3 cs hcs => exact h

theorem dropBullet_eq_self (h : ¬ Bulleted cs) : dropBullet cs = cs := by
  fun_cases Intake.dropBullet cs with
  | case1 b s cs hb => exact absurd ⟨b, s, cs, rfl, hb⟩ h
  | case2 b s cs hb => rfl
  | case3 cs hcs => rfl

theorem neat_bare : Neat (bare f) := by
  refine Neat.dropBullet (neat_collapse ?_ ?_) <;> rw [PyText.strip, String.toList_ofList]
  · exact PyText.head?_strip
  · exact PyText.getLast?_rstripL

/-- `_cleanup_fact`, once blanks and bullet are gone. -/
theorem cleanupFact_eq : cleanupFact L f =
    if (nextActions L).search (bare f) then "" else String.ofList (PyText.rstripL ((bare f).take 140)) := by
  have hstrip : PyText.strip (String.ofList (bare f)) = String.ofList (bare f) := by
    rw [PyText.strip_ofList, neat_bare.strip]
  have hdef : cleanupFact L f = if (nextActions L).search (PyText.strip (String.ofList (bare f))).toList then ""
      else if 140 < (PyText.strip (String.ofList (bare f))).toList.length then
        PyText.rstrip (String.ofList ((PyText.strip (String.ofList (bare f))).toList.take 140))
      else PyText.strip (String.ofList (bare f)) := rfl
  rw [hdef, hstrip, String.toList_ofList]
  split_ifs with hsearch hlong
  · rfl
  · rw [PyText.rstrip, String.toList_ofList]
  · rw [List.take_of_length_le (not_lt.mp hlong), PyText.rstripL_eq_self neat_bare.last]

/-- A neat text without a bullet is cleaned already. -/
theorem bare_eq_self (h : Neat f.toList) (hbullet : ¬ Bulleted f.toList) : bare f = f.toList := by
  rw [bare, PyText.strip, String.toList_ofList, h.strip, h.collapse, dropBullet_eq_self hbullet]

/-- What stands after a bullet is not cut. -/
theorem Neat.bulleted_take (h : Neat cs) (hbullet : Bulleted cs) : Bulleted (PyText.rstripL (cs.take 140)) := by
  obtain ⟨b, s, rest, rfl, hb, hs⟩ := hbullet
  have hrest := h.of_bullet hs
  cases rest with
  | nil =>
    have hlast := h.last s rfl
    rw [hs] at hlast
    cases hlast
  | cons c rest =>
    have hc : PyText.isSpace c = false := hrest.first c rfl
    have htake : (b :: s :: c :: rest).take 140 = [b, s, c] ++ rest.take 137 := rfl
    rw [htake, PyText.rstripL_append (by simpa using hc) (by simp)]
    exact ⟨b, s, c :: PyText.rstripL (rest.take 137), rfl, hb, hs⟩

/-- **A text that is cleaned to something** is cleaned well exactly if it was tidy. -/
theorem clean_iff (hne : cleanupFact L f ≠ "") : Clean L (cleanupFact L f) ↔ Tidy L f := by
  rw [cleanupFact_eq] at hne ⊢
  split_ifs at hne ⊢ with hsearch
  · exact absurd rfl hne
  · have hbare : bare f ≠ [] := by
      intro hnil
      rw [hnil] at hne
      exact hne rfl
    have hneat := (neat_bare (f := f)).take 140
    have hlist := @String.toList_ofList (PyText.rstripL ((bare f).take 140))
    constructor
    · intro h
      have hbullet := h.bullet
      have hactions := h.actions
      rw [hlist] at hbullet hactions
      exact ⟨fun hb => hbullet (neat_bare.bulleted_take hb), hactions⟩
    · rintro ⟨hbullet, hcut⟩
      have hnot : ¬ Bulleted (PyText.rstripL ((bare f).take 140)) :=
        not_bulleted_of_prefix hbullet ((PyText.rstripL_prefix _).trans (List.take_prefix _ _))
      have hlength := length_take_le (bare f) 140
      refine ⟨?_, ?_, ?_, ?_, ?_⟩
      · rw [hlist]
        exact ⟨List.length_pos_iff.mpr (neat_bare.take_ne_nil hbare (by decide)), hlength⟩
      · rwa [hlist]
      · rwa [hlist]
      · rwa [hlist]
      · rw [cleanupFact_eq, bare_eq_self (by rwa [hlist]) (by rwa [hlist]), hlist, if_neg (by simp [hcut]),
          List.take_of_length_le hlength, PyText.rstripL_eq_self hneat.last]

/-! ### Collecting -/

theorem collectFacts_eq : collectFacts L seen xs = firsts L.lower seen (cleaned L (strings xs)) := by
  induction xs generalizing seen with
  | nil => rfl
  | cons x xs ih =>
    cases x with
    | str f =>
      have hstrings : strings (.str f :: xs) = f :: strings xs := rfl
      rw [collectFacts, hstrings, cleaned, List.map_cons]
      by_cases hempty : cleanupFact L f = ""
      · rw [if_pos (.inl hempty), List.filter_cons_of_neg (by simpa using hempty)]
        exact ih
      · rw [List.filter_cons_of_pos (by simpa using hempty), firsts_cons]
        by_cases hseen : L.lower (cleanupFact L f) ∈ seen
        · rw [if_pos (.inr hseen), if_pos hseen]
          exact ih
        · rw [if_neg (not_or.mpr ⟨hempty, hseen⟩), if_neg hseen]
          exact congrArg _ ih
    | _ => exact ih

theorem returnedFacts_eq : returnedFacts L text = (firsts L.lower [] (cleaned L (strings (factsList L text)))).take 3 := by
  rw [← collectFacts_eq]
  unfold returnedFacts parseFacts factsList
  generalize stripThink (PyText.strip text) = raw
  by_cases hraw : raw = ""
  · simp only [if_pos hraw]
    rfl
  · simp only [if_neg hraw, bind, Except.bind]
    cases loadsFacts L raw with
    | error e => rfl
    | ok v =>
      cases v with
      | obj kvs =>
        dsimp only
        generalize lookupFirst kvs ["facts", "\"facts\"", "\\\"facts\\\""] = found
        cases found with
        | none => rfl
        | some v => cases v <;> rfl
      | _ => rfl

/-- The cleaned texts before one of them are those of the texts before it. -/
theorem cleaned_eq_append {c : String} {pre' post' : List String} : cleaned L fs = pre' ++ c :: post' ↔ ∃ pre f post,
    fs = pre ++ f :: post ∧ cleaned L pre = pre' ∧ cleanupFact L f = c ∧ c ≠ "" ∧ cleaned L post = post' := by
  have hmap : ∀ gs, cleaned L gs = gs.filterMap fun g => if cleanupFact L g = "" then none else some (cleanupFact L g) := by
    intro gs
    induction gs with
    | nil => rfl
    | cons g gs ih =>
      rw [cleaned] at ih
      by_cases hg : cleanupFact L g = "" <;> simpa [cleaned, hg] using ih
  simp only [hmap, List.filterMap_eq_append_iff, List.filterMap_eq_cons_iff]
  constructor
  · rintro ⟨pre, _, rfl, hpre, skipped, f, post, rfl, hskipped, hf, hpost⟩
    split_ifs at hf with hne
    obtain rfl := Option.some.inj hf
    refine ⟨pre ++ skipped, f, post, by simp, ?_, rfl, hne, hpost⟩
    rw [List.filterMap_append, hpre, List.filterMap_eq_nil_iff.mpr hskipped, List.append_nil]
  · rintro ⟨pre, f, post, rfl, hpre, rfl, hne, hpost⟩
    exact ⟨pre, f :: post, rfl, hpre, [], f, post, rfl, by simp, if_neg hne, hpost⟩

/-- A fact is what a text that is taken is cleaned to. -/
theorem mem_returnedFacts {c : String} : c ∈ returnedFacts L text ↔ ∃ pre f post,
    strings (factsList L text) = pre ++ f :: post ∧ Taken L pre f ∧ cleanupFact L f = c := by
  have hcard : ∀ ks : List String, (ks.toFinset \ ([] : List String).toFinset).card = ks.toFinset.card := by simp
  simp only [returnedFacts_eq, mem_take_firsts, hcard, cleaned_eq_append]
  constructor
  · rintro ⟨_, _, ⟨pre, f, post, hfs, rfl, rfl, hne, rfl⟩, -, hnew, hroom⟩
    exact ⟨pre, f, post, hfs, ⟨hne, hnew, hroom⟩, rfl⟩
  · rintro ⟨pre, f, post, hfs, htaken, rfl⟩
    exact ⟨_, _, ⟨pre, f, post, hfs, rfl, rfl, htaken.ne_empty, rfl⟩, List.not_mem_nil, htaken.new, htaken.room⟩

/-- **Exactly when the facts are as they should be**: each text that is taken for one is tidy. -/
theorem sound_iff : Sound L text ↔ ∀ pre f post, strings (factsList L text) = pre ++ f :: post → Taken L pre f → Tidy L f := by
  constructor
  · intro h pre f post hfs htaken
    exact (clean_iff htaken.ne_empty).mp (h.clean _ (mem_returnedFacts.mpr ⟨pre, f, post, hfs, htaken, rfl⟩))
  · intro h
    have hall : ∀ c ∈ returnedFacts L text, Clean L c := by
      intro c hc
      obtain ⟨pre, f, post, hfs, htaken, rfl⟩ := mem_returnedFacts.mp hc
      exact (clean_iff htaken.ne_empty).mpr (h pre f post hfs htaken)
    have hsub : (returnedFacts L text).Sublist (firsts L.lower [] (cleaned L (strings (factsList L text)))) := by
      rw [returnedFacts_eq]
      exact List.take_sublist _ _
    refine ⟨?_, hall, nodup_firsts.sublist (hsub.map L.lower), ?_, pairwise_findIdx_firsts.sublist hsub⟩
    · rw [returnedFacts_eq]
      exact List.length_take_le _ _
    · exact fun f hf => find?_firsts (hsub.subset hf)

/-- The answer with a text behind two bullets. -/
def twoBullets : String := "\x7b\"facts\": [\"- - tea\"]\x7d"

/-- A library that reads it. -/
def twoBulletsLibrary : Library where
  toPython := Python.ofTable [(twoBullets, .obj [("facts", .arr [.str "- - tea"])])]
  toUnicode := .ascii
  floatText _ := none
  nonfinite := onlyNan

/-- The second bullet is kept. -/
theorem not_sound : ¬ Sound twoBulletsLibrary twoBullets := by
  intro h
  have hmem : "- tea" ∈ returnedFacts twoBulletsLibrary twoBullets := by decide
  exact (h.clean _ hmem).bullet ⟨'-', ' ', "tea".toList, rfl, by decide, rfl⟩

end Persona.Intake
