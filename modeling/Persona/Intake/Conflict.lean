import Persona.Intake.Chatter

/-!
# The facts that are superseded

`parse_conflict` of `services/api/memory_intake.py` is documented never to raise, and its indices select
facts that are deleted. `Exact` says which they should be: an element of the list `supersede` denotes an
index when it is that number, or a text that is a literal of it (`Denotes`).

`int(v)` is called on every float, and on every text whose characters are digits once minus signs are gone:
it raises on an infinity and on `--5`, and it drops the fraction of `0.5`. And what `_strip_think` removes
may stand within a text of the JSON. `exact_iff` says that nothing else goes wrong.
-/

namespace Persona.Intake

open Persona.Lib

/-- What the code relies on: how characters are classified, what `int` returns, and that blanks around an
object are skipped. The values of the decimal digits are `decimal`. -/
structure Library.Reads (L : Library) (decimal : Char → Option ℕ) : Prop where
  digit : ∀ c, (decimal c).isSome → L.isDigit c = true
  sign : ∀ c ∈ ['-', '+', '_'], L.isDigit c = false
  int : ∀ s i, L.int s = some i → PyText.int decimal s = some i
  loads_strip : ∀ s kvs, L.loads s = some (.obj kvs) → L.loads (PyText.strip s) = some (.obj kvs)
  loads_empty : L.loads "" = none

variable (L : Library) (decimal : Char → Option ℕ)

/-- The list `supersede` that the code reads in a text; empty where there is none. -/
def conflictList (text : String) : List Json :=
  let raw := stripThink (PyText.strip text)
  if raw = "" then []
  else
    match loadsOutput L raw with
    | .ok (.obj kvs) =>
      match (Json.get kvs "supersede").or (.arr []) with
      | .arr vs => vs
      | _ => []
    | _ => []

/-- The element denotes the index. -/
def Denotes : Json → ℕ → Prop
  | .int m, i => m = i
  | .float (.fin q), i => q = i
  | .str s, i => PyText.IsLiteral decimal (PyText.strip s).toList i
  | _, _ => False

/-- The element is a number that is cut to the index: its fraction is dropped. -/
def CutTo : Json → ℕ → Prop
  | .float (.fin q), i => (if 0 ≤ q then ⌊q⌋ else ⌈q⌉) = (i : ℤ)
  | _, _ => False

/-- `int` takes the element, if it is called: an infinity and NaN are no integers, and of the texts of
digits after minus signs it takes only some. -/
def Converts : Json → Prop
  | .float x => x ≠ .nonfinite
  | .str s =>
    let ds := (PyText.strip s).toList.dropWhile (· = '-')
    ds ≠ [] → ds.all L.isDigit = true → L.int (PyText.strip s) ≠ none
  | _ => True

/-- `parse_conflict` does not raise, and of an object with a list it returns the indices that the elements
denote, sorted and each once. -/
def Exact (text : String) (n : ℕ) : Prop :=
  ∃ is, parseConflict L text n = some is ∧ ∀ kvs vs, L.loads text = some (.obj kvs) → Json.get kvs "supersede" = .arr vs →
    is.Pairwise (· < ·) ∧ ∀ i, i ∈ is ↔ i < n ∧ ∃ v ∈ vs, Denotes decimal v i

variable {L decimal} {text : String} {n i : ℕ} {v : Json}

/-! ### Conversion -/

theorem conflictIndex_eq_none : conflictIndex L v = none ↔ ¬ Converts L v := by
  cases v with
  | float x => cases x <;> simp [conflictIndex, Converts, Python.toInt]
  | str s =>
    rw [conflictIndex, Converts]
    split_ifs with h
    · rw [Option.map_eq_none_iff]
      exact ⟨fun hnone hint => hint h.1 h.2 hnone, fun hint => by_contra fun hnone => hint fun _ _ => hnone⟩
    · constructor
      · intro hsome
        cases hsome
      · exact fun hint => absurd (fun hne hall => absurd ⟨hne, hall⟩ h) hint
  | _ => simp [conflictIndex, Converts]

/-- A text of digits, after minus signs, has no other signs. -/
theorem sign_notMem (hL : L.Reads decimal) {cs : List Char} (hall : (cs.dropWhile (· = '-')).all L.isDigit = true) :
    ∀ c ∈ ['+', '_'], c ∉ cs := by
  intro c hc hmem
  have hne : c ≠ '-' := by
    rintro rfl
    exact absurd hc (by decide)
  rw [← List.takeWhile_append_dropWhile (p := (· = '-')) (l := cs)] at hmem
  rcases List.mem_append.mp hmem with h | h
  · exact hne (by simpa using List.mem_takeWhile_imp h)
  · have hdigit := List.all_eq_true.mp hall c h
    rw [hL.sign c (List.mem_cons_of_mem _ hc)] at hdigit
    cases hdigit

theorem decimal_sign (hL : L.Reads decimal) : ∀ c ∈ ['-', '+', '_'], decimal c = none := by
  intro c hc
  by_contra hsome
  have hdigit := hL.digit c (Option.isSome_iff_ne_none.mpr hsome)
  rw [hL.sign c hc] at hdigit
  cases hdigit

theorem isSome_of_mapM {α β : Type*} {f : α → Option β} {l : List α} {bs : List β} (h : l.mapM f = some bs) :
    ∀ a ∈ l, (f a).isSome := by
  induction l generalizing bs with
  | nil => simp
  | cons a l ih =>
    rw [List.mapM_cons] at h
    obtain ⟨b, hb, hrest⟩ := Option.bind_eq_some_iff.mp h
    obtain ⟨bs', hbs, -⟩ := Option.bind_eq_some_iff.mp hrest
    exact List.forall_mem_cons.mpr ⟨by simp [hb], ih hbs⟩

/-- A literal is made of digits, after a minus sign or none. -/
theorem digits_of_literal (hL : L.Reads decimal) {cs : List Char} {j : ℤ} (h : PyText.IsLiteral decimal cs j) :
    cs.dropWhile (· = '-') ≠ [] ∧ (cs.dropWhile (· = '-')).all L.isDigit = true := by
  obtain ⟨ds, m, hne, hds, hcs⟩ := h
  have hall : ∀ c ∈ ds, (decimal c).isSome := by
    obtain ⟨ns, hns, -⟩ := Option.map_eq_some_iff.mp hds
    exact isSome_of_mapM hns
  have hdrop : ds.dropWhile (· = '-') = ds := by
    obtain ⟨c, ds, rfl⟩ := List.exists_cons_of_ne_nil hne
    refine List.dropWhile_cons_of_neg ?_
    rw [decide_eq_true_eq]
    rintro rfl
    have hminus := hall '-' List.mem_cons_self
    rw [decimal_sign hL '-' List.mem_cons_self] at hminus
    cases hminus
  have hcs : cs.dropWhile (· = '-') = ds := by
    rcases hcs with ⟨rfl, -⟩ | ⟨rfl, -⟩
    · exact hdrop
    · rw [List.dropWhile_cons_of_pos (by simp), hdrop]
  rw [hcs]
  exact ⟨hne, List.all_eq_true.mpr fun c hc => hL.digit c (hall c hc)⟩

/-- **What an element is converted to**: an index that it denotes, or to which it is cut. -/
theorem conflictIndex_eq_some (hL : L.Reads decimal) (hv : Converts L v) :
    conflictIndex L v = some (some (i : ℤ)) ↔ Denotes decimal v i ∨ CutTo v i := by
  cases v with
  | int m => simp [conflictIndex, Denotes, CutTo]
  | float x =>
    cases x with
    | fin q =>
      simp only [conflictIndex, Python.toInt, Option.map_some, Option.some.injEq, Denotes, CutTo]
      refine ⟨.inr, ?_⟩
      rintro (rfl | hcut)
      · simp
      · exact hcut
    | nonfinite => exact absurd rfl hv
  | str s =>
    have hstrip : PyText.strip (PyText.strip s) = PyText.strip s := PyText.strip_strip s
    have hiff : ∀ j : ℤ, (PyText.strip s).toList.dropWhile (· = '-') ≠ [] →
        ((PyText.strip s).toList.dropWhile (· = '-')).all L.isDigit = true →
          (L.int (PyText.strip s) = some j ↔ PyText.IsLiteral decimal (PyText.strip s).toList j) := by
      intro j hne hall
      have hsign := sign_notMem hL hall
      have hint := @PyText.int_eq_some_iff decimal j (PyText.strip s)
      rw [hstrip] at hint
      rw [← hint (hsign '+' (by simp)) (hsign '_' (by simp)) (decimal_sign hL '-' (by simp))]
      obtain ⟨k, hk⟩ := Option.ne_none_iff_exists'.mp (hv hne hall)
      rw [hk, hL.int _ _ hk]
    simp only [conflictIndex, Denotes, CutTo, or_false]
    split_ifs with h
    · rw [Option.map_eq_some_iff]
      simp [hiff _ h.1 h.2]
    · constructor
      · intro hsome
        cases hsome
      · exact fun hlit => absurd (digits_of_literal hL hlit) h
  | _ => simp [conflictIndex, Denotes, CutTo]

/-! ### What is read -/

theorem parseConflict_eq : parseConflict L text n =
    ((conflictList L text).mapM (conflictIndex L)).map fun is : List (Option ℤ) =>
      (List.range n).filter fun i : ℕ => some (i : ℤ) ∈ is := by
  unfold parseConflict conflictList
  generalize stripThink (PyText.strip text) = raw
  by_cases hraw : raw = ""
  · simp [if_pos hraw]
  · simp only [if_neg hraw]
    cases loadsOutput L raw with
    | error e => simp
    | ok v =>
      cases v with
      | obj kvs =>
        dsimp only
        generalize (Json.get kvs "supersede").or (.arr []) = found
        cases found <;> simp
      | _ => simp

theorem noTag_of_append {xs ys zs : List Char} (h : Markup.indexOf Markup.sameLetter "<think>".toList (xs ++ (ys ++ zs)) = none) :
    Markup.indexOf Markup.sameLetter "<think>".toList ys = none :=
  (Markup.indexOf_none_of_append (Markup.indexOf_none_of_append h).2).1

theorem stripThink_eq_self (h : ¬ HasTag "<think>" text) : stripThink (PyText.strip text) = PyText.strip text := by
  have hnone : Markup.indexOf Markup.sameLetter "<think>".toList (PyText.strip text).toList = none := by
    have hlist : (PyText.strip text).toList = PyText.rstripL (PyText.lstripL text.toList) := String.toList_ofList
    obtain ⟨xs, hxs⟩ : PyText.lstripL text.toList <:+ text.toList := List.dropWhile_suffix _
    obtain ⟨ys, hys⟩ := PyText.rstripL_prefix (PyText.lstripL text.toList)
    refine @noTag_of_append xs _ ys ?_
    rw [hlist, hys, hxs]
    exact not_not.mp h
  unfold stripThink
  dsimp only
  rw [Markup.withoutBlocks_of_none _ hnone, String.ofList_toList, PyText.strip_strip, Markup.upTo_of_none hnone,
    String.ofList_toList, PyText.strip_strip]

/-- Without a tag the list is that of the text. -/
theorem conflictList_eq (hL : L.Reads decimal) {kvs : List (String × Json)} {vs : List Json} (htag : ¬ HasTag "<think>" text)
    (hloads : L.loads text = some (.obj kvs)) (hget : Json.get kvs "supersede" = .arr vs) : conflictList L text = vs := by
  have hobj := hL.loads_strip text kvs hloads
  have hne : PyText.strip text ≠ "" := by
    intro hempty
    rw [hempty, hL.loads_empty] at hobj
    cases hobj
  have hor : (Json.arr vs).or (.arr []) = .arr vs := by
    cases vs <;> rfl
  unfold conflictList
  dsimp only
  rw [stripThink_eq_self htag, if_neg hne, loadsOutput_of_loads hobj trivial]
  dsimp only
  rw [hget, hor]

/-! ### What is returned -/

theorem mapM_ne_none_iff {α β : Type*} {f : α → Option β} {l : List α} : l.mapM f ≠ none ↔ ∀ a ∈ l, f a ≠ none := by
  induction l with
  | nil => simp
  | cons a l ih =>
    rw [List.mapM_cons, List.forall_mem_cons, ← ih]
    cases f a <;> cases l.mapM f <;> simp

theorem mem_of_mapM {α β : Type*} {f : α → Option β} {l : List α} {bs : List β} (h : l.mapM f = some bs) {b : β} :
    b ∈ bs ↔ ∃ a ∈ l, f a = some b := by
  induction l generalizing bs with
  | nil =>
    obtain rfl : [] = bs := Option.some.inj h
    simp
  | cons a l ih =>
    rw [List.mapM_cons] at h
    obtain ⟨c, hc, hrest⟩ := Option.bind_eq_some_iff.mp h
    obtain ⟨cs, hcs, hbs⟩ := Option.bind_eq_some_iff.mp hrest
    obtain rfl : c :: cs = bs := Option.some.inj hbs
    simp [hc, ih hcs, eq_comm]

theorem parseConflict_ne_none : parseConflict L text n ≠ none ↔ ∀ v ∈ conflictList L text, Converts L v := by
  rw [parseConflict_eq, ne_eq, Option.map_eq_none_iff, ← ne_eq, mapM_ne_none_iff]
  simp only [ne_eq, conflictIndex_eq_none, not_not]

/-- The indices are those that the elements of the list that is read denote, or are cut to. -/
theorem parseConflict_spec (hL : L.Reads decimal) {is : List ℕ} (h : parseConflict L text n = some is) :
    is.Pairwise (· < ·) ∧ ∀ i, i ∈ is ↔ i < n ∧ ∃ v ∈ conflictList L text, Denotes decimal v i ∨ CutTo v i := by
  have hall : ∀ v ∈ conflictList L text, Converts L v := by
    rw [← parseConflict_ne_none, h]
    simp
  rw [parseConflict_eq] at h
  obtain ⟨ms, hms, rfl⟩ := Option.map_eq_some_iff.mp h
  refine ⟨List.pairwise_lt_range.sublist List.filter_sublist, fun i => ?_⟩
  rw [List.mem_filter, List.mem_range, decide_eq_true_eq, mem_of_mapM hms]
  refine and_congr_right fun _ => exists_congr fun v => and_congr_right fun hv => ?_
  exact conflictIndex_eq_some hL (hall v hv)

/-- The elements are converted, and no fraction adds an index; where a tag stands in the text, the list that
is read has the indices that the one of the text has. -/
def ReadWell (L : Library) (decimal : Char → Option ℕ) (text : String) (n : ℕ) : Prop :=
  (∀ v ∈ conflictList L text, Converts L v) ∧
    ∀ kvs vs, L.loads text = some (.obj kvs) → Json.get kvs "supersede" = .arr vs →
      (¬ HasTag "<think>" text → ∀ v ∈ vs, ∀ i < n, CutTo v i → ∃ w ∈ vs, Denotes decimal w i) ∧
      (HasTag "<think>" text → ∀ i < n,
        (∃ v ∈ conflictList L text, Denotes decimal v i ∨ CutTo v i) ↔ ∃ v ∈ vs, Denotes decimal v i)

/-- **Exactly when the indices are right.** -/
theorem exact_iff (hL : L.Reads decimal) : Exact L decimal text n ↔ ReadWell L decimal text n := by
  unfold Exact ReadWell
  rw [← parseConflict_ne_none (n := n)]
  constructor
  · rintro ⟨is, his, h⟩
    refine ⟨by simp [his], fun kvs vs hloads hget => ?_⟩
    obtain ⟨-, hmem⟩ := h kvs vs hloads hget
    obtain ⟨-, hspec⟩ := parseConflict_spec hL his
    have hsame : ∀ i < n, (∃ v ∈ conflictList L text, Denotes decimal v i ∨ CutTo v i) ↔ ∃ v ∈ vs, Denotes decimal v i := by
      intro i hi
      have hiff := (hspec i).symm.trans (hmem i)
      simpa only [hi, true_and] using hiff
    refine ⟨fun htag v hv i hi hcut => (hsame i hi).mp ⟨v, ?_, .inr hcut⟩, fun _ => hsame⟩
    rwa [conflictList_eq hL htag hloads hget]
  · rintro ⟨hsome, h⟩
    obtain ⟨is, his⟩ := Option.ne_none_iff_exists'.mp hsome
    refine ⟨is, his, fun kvs vs hloads hget => ?_⟩
    obtain ⟨hsorted, hspec⟩ := parseConflict_spec hL his
    obtain ⟨hplain, htagged⟩ := h kvs vs hloads hget
    refine ⟨hsorted, fun i => (hspec i).trans (and_congr_right fun hi => ?_)⟩
    by_cases htag : HasTag "<think>" text
    · exact htagged htag i hi
    · rw [conflictList_eq hL htag hloads hget]
      constructor
      · rintro ⟨v, hv, hdenotes | hcut⟩
        · exact ⟨v, hv, hdenotes⟩
        · exact hplain htag v hv i hi hcut
      · exact fun ⟨v, hv, hdenotes⟩ => ⟨v, hv, .inl hdenotes⟩

/-- A text with two minus signs, one half, and the index 1 as a text and as a number. -/
def minusMinus : String := "\x7b\"supersede\": [\"--5\"]\x7d"

def half : String := "\x7b\"supersede\": [0.5]\x7d"

def one : String := "\x7b\"supersede\": [\" 1\", 1]\x7d"

/-- A library that reads these texts, and ASCII digits. -/
def numbered : Library where
  loads s :=
    if s = minusMinus then some (.obj [("supersede", .arr [.str "--5"])])
    else if s = half then some (.obj [("supersede", .arr [.float (.fin (1 / 2))])])
    else if s = one then some (.obj [("supersede", .arr [.str " 1", .int 1])])
    else none
  str _ := ""
  int := PyText.int PyText.asciiDecimal
  toUnicode := .ascii
  floatText _ := none
  nonfinite := onlyNan

theorem reads_numbered : numbered.Reads PyText.asciiDecimal where
  digit c hc := by
    unfold PyText.asciiDecimal at hc
    split_ifs at hc with h
    · exact h
    · cases hc
  sign := by decide
  int s i := by
    unfold numbered
    exact id
  loads_strip s kvs h := by
    have hall : ∀ t ∈ [minusMinus, half, one], PyText.strip t = t := by decide
    have hstrip : PyText.strip s = s := by
      by_contra hne
      have hnot : ∀ t ∈ [minusMinus, half, one], s ≠ t := by
        rintro t ht rfl
        exact hne (hall s ht)
      simp only [List.forall_mem_cons] at hnot
      simp [numbered, hnot] at h
    rwa [hstrip]
  loads_empty := by decide

/-- `--5` raises, and `0.5` is taken for 0. -/
theorem not_exact : ¬ Exact numbered PyText.asciiDecimal minusMinus 6 ∧ ¬ Exact numbered PyText.asciiDecimal half 1 := by
  constructor
  · rintro ⟨is, his, -⟩
    have hnone : parseConflict numbered minusMinus 6 = none := by decide
    rw [hnone] at his
    cases his
  · rintro ⟨is, his, h⟩
    have hsome : parseConflict numbered half 1 = some [0] := by decide +kernel
    rw [hsome] at his
    obtain rfl := Option.some.inj his
    obtain ⟨-, hmem⟩ := h [("supersede", .arr [.float (.fin (1 / 2))])] _ rfl rfl
    obtain ⟨-, v, hv, hdenotes⟩ := (hmem 0).mp List.mem_cons_self
    obtain rfl := List.mem_singleton.mp hv
    have hzero : (1 / 2 : ℚ) = (0 : ℕ) := hdenotes
    norm_num at hzero

/-- The index 1, named twice, is returned once. -/
theorem exact_one : Exact numbered PyText.asciiDecimal one 2 := by
  have htag : ¬ HasTag "<think>" one := by
    rw [HasTag, not_not]
    decide
  refine (exact_iff reads_numbered).mpr ⟨?_, fun kvs vs hloads hget => ?_⟩
  · have hlist : conflictList numbered one = [.str " 1", .int 1] := conflictList_eq reads_numbered htag rfl rfl
    rw [hlist]
    simp only [List.forall_mem_cons, List.not_mem_nil, false_implies, implies_true, and_true, Converts]
    decide
  · have hkvs : some (Json.obj [("supersede", .arr [.str " 1", .int 1])]) = some (.obj kvs) := hloads
    obtain rfl := Json.obj.inj (Option.some.inj hkvs)
    obtain rfl : [.str " 1", .int 1] = vs := Json.arr.inj hget
    refine ⟨fun _ v hv i _ hcut => ?_, fun h => absurd h htag⟩
    rcases List.mem_cons.mp hv with rfl | hv
    · exact hcut.elim
    · obtain rfl := List.mem_singleton.mp hv
      exact hcut.elim

end Persona.Intake
