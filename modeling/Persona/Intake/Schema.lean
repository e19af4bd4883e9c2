import Persona.Intake.Blanks

/-!
# The schema of a record

`validate_record` of `services/api/memory_intake.py` promises a typed record for whatever a model wrote:
only the statement is required, and everything else is coerced to a default that is safe. `Schema` says
what a record has to satisfy, one field at a time, and each coercion has a lemma about its own field.

Two coercions fall short. `float(val)` raises an `OverflowError` on an integer that is too large, and only
`TypeError` and `ValueError` are caught; and a date is tested for its digits and dashes alone, so that
`2026-13-45` is taken for a full ISO date. `validates_iff` says that nothing else does.
-/

namespace Persona.Intake

open Persona.Lib

/-! ### Dates -/

/-- The value of ASCII digits. -/
def digits (cs : List Char) : Option ℕ := PyText.ofDigits PyText.asciiDecimal cs

/-- A leap year of the Gregorian calendar. -/
def isLeap (y : ℕ) : Bool := y % 4 = 0 && (y % 100 ≠ 0 || y % 400 = 0)

/-- The number of days of a month. -/
def daysIn (y m : ℕ) : ℕ :=
  if m = 2 then (if isLeap y then 29 else 28)
  else if m ∈ [4, 6, 9, 11] then 30
  else 31

/-- A day of the calendar as `YYYY-MM-DD`, or a month as `YYYY-MM`, in ASCII digits. -/
def isDate (s : String) : Bool :=
  match s.toList with
  | [y₁, y₂, y₃, y₄, '-', m₁, m₂] => isMonth [y₁, y₂, y₃, y₄] [m₁, m₂]
  | [y₁, y₂, y₃, y₄, '-', m₁, m₂, '-', d₁, d₂] =>
    isMonth [y₁, y₂, y₃, y₄] [m₁, m₂] &&
      match digits [y₁, y₂, y₃, y₄], digits [m₁, m₂], digits [d₁, d₂] with
      | some y, some m, some d => 1 ≤ d && d ≤ daysIn y m
      | _, _, _ => false
  | _ => false
where
  /-- The digits of a year and of one of its months. -/
  isMonth (ys ms : List Char) : Bool :=
    match digits ys, digits ms with
    | some y, some m => 1 ≤ y && 1 ≤ m && m ≤ 12
    | _, _ => false

example : isDate "2024-02-29" = true ∧ isDate "2023-02-29" = false ∧ isDate "2026-12" = true ∧ isDate "2026-13-45" = false := by
  decide

/-! ### Records -/

/-- What the schema asks of a record. -/
structure MemoryRecord.Schema (L : Library) (rec : MemoryRecord) : Prop where
  statement_length : 1 ≤ rec.statement.toList.length ∧ rec.statement.toList.length ≤ 200
  statement_trimmed : PyText.strip rec.statement = rec.statement
  statement_line : ∀ c ∈ rec.statement.toList, PyText.isLineBreak c = false
  statement_bullet : ¬ Bulleted rec.statement.toList
  type : rec.type ∈ memoryTypes
  entities_length : rec.entities.length ≤ 8
  entities_trimmed : ∀ e ∈ rec.entities, e ≠ "" ∧ PyText.strip e = e
  entities_distinct : (rec.entities.map L.lower).Nodup
  date : ∀ d ∈ rec.date, isDate d = true
  confidence : 0 ≤ rec.confidence ∧ rec.confidence ≤ 1

section

variable {L : Library} {raw val : Json} {rec : MemoryRecord} {ws : List String}

/-- No line ends in a text whose blanks are spaces. -/
theorem Neat.line {cs : List Char} (h : Neat cs) : ∀ c ∈ cs, PyText.isLineBreak c = false := by
  intro c hc
  by_contra hbreak
  obtain rfl := h.blank c hc (PyText.isSpace_of_isLineBreak (by simpa using hbreak))
  exact hbreak (by decide)

theorem neat_statementOf : Neat (statementOf L raw).toList := by
  rw [statementOf, String.toList_ofList]
  refine Neat.dropBullets (neat_collapse ?_ ?_) <;> rw [PyText.strip, String.toList_ofList]
  · exact PyText.head?_strip
  · exact PyText.getLast?_rstripL

theorem not_bulleted_statementOf : ¬ Bulleted (statementOf L raw).toList := by
  rw [statementOf, String.toList_ofList]
  exact not_bulleted_dropBullets

/-- A statement that is cut is as good as the whole one. -/
theorem statement_spec {s t : String} (hneat : Neat s.toList) (hbullet : ¬ Bulleted s.toList) (hne : s ≠ "")
    (ht : (if statementMax < s.toList.length then PyText.rstrip (String.ofList (s.toList.take statementMax)) else s) = t) :
    (1 ≤ t.toList.length ∧ t.toList.length ≤ 200) ∧ Neat t.toList ∧ ¬ Bulleted t.toList := by
  have hlist : s.toList ≠ [] := fun hnil => hne (String.toList_eq_nil_iff.mp hnil)
  rw [← ht]
  split_ifs with hlong
  · rw [PyText.rstrip, String.toList_ofList, String.toList_ofList]
    have hleft := hneat.take_ne_nil hlist (by decide : 0 < statementMax)
    exact ⟨⟨List.length_pos_iff.mpr hleft, length_take_le _ _⟩, hneat.take _,
      not_bulleted_of_prefix hbullet ((PyText.rstripL_prefix _).trans (List.take_prefix _ _))⟩
  · exact ⟨⟨List.length_pos_iff.mpr hlist, not_lt.mp hlong⟩, hneat, hbullet⟩

/-! ### Entities -/

variable {seen out ss : List String}

theorem addEntities_spec (hroom : out.length < maxEntities) (htrimmed : ∀ e ∈ out, e ≠ "" ∧ PyText.strip e = e)
    (hdistinct : (out.map L.lower).Nodup) (hseen : ∀ e ∈ out, L.lower e ∈ seen) (hss : ∀ s ∈ ss, PyText.strip s = s) :
    let es := addEntities L seen out ss
    es.length ≤ maxEntities ∧ (∀ e ∈ es, e ≠ "" ∧ PyText.strip e = e) ∧ (es.map L.lower).Nodup := by
  induction ss generalizing seen out with
  | nil => exact ⟨hroom.le, htrimmed, hdistinct⟩
  | cons s ss ih =>
    obtain ⟨hs, hrest⟩ := List.forall_mem_cons.mp hss
    rw [addEntities]
    split_ifs with hskip hfull
    · exact ih hroom htrimmed hdistinct hseen hrest
    all_goals
      rw [not_or] at hskip
      have htrimmed' : ∀ e ∈ out ++ [s], e ≠ "" ∧ PyText.strip e = e :=
        List.forall_mem_append.mpr ⟨htrimmed, by simpa using ⟨hskip.1, hs⟩⟩
      have hdistinct' : ((out ++ [s]).map L.lower).Nodup := by
        rw [List.map_append, List.map_singleton, List.nodup_append_comm, List.singleton_append, List.nodup_cons]
        refine ⟨fun hmem => hskip.2 ?_, hdistinct⟩
        obtain ⟨e, he, heq⟩ := List.mem_map.mp hmem
        exact heq ▸ hseen e he
    · exact ⟨by simpa [Nat.succ_le_iff] using hroom, htrimmed', hdistinct'⟩
    · refine ih (by simpa using hfull) htrimmed' hdistinct' ?_ hrest
      exact List.forall_mem_append.mpr ⟨fun e he => List.mem_cons_of_mem _ (hseen e he), by simp⟩

theorem coerceEntities_spec : (coerceEntities L val).length ≤ 8 ∧
    (∀ e ∈ coerceEntities L val, e ≠ "" ∧ PyText.strip e = e) ∧ ((coerceEntities L val).map L.lower).Nodup := by
  refine addEntities_spec (by decide) (by simp) (by simp) (by simp) ?_
  simpa using fun p _ => PyText.strip_strip (L.toStr p)

/-! ### Dates and confidence -/

/-- The date is not one that only looks like a date: a text of that form is a date. -/
def DateReal (L : Library) (val : Json) : Prop :=
  let s := PyText.strip (L.toStr val)
  val.truthy = true → (hasForm L "dddd-dd-dd" s || hasForm L "dddd-dd" s) = true → isDate s = true

theorem coerceDate_spec : (∀ d ∈ coerceDate L val, isDate d = true) ↔ DateReal L val := by
  unfold coerceDate DateReal
  dsimp only
  split_ifs <;> simp_all

/-- An integer is too large for a float from `limit` on; nothing else overflows. -/
theorem float_eq_overflow_iff : L.float val = .overflow ↔ ∃ n : ℤ, val = .int n ∧ limit ≤ |(n : ℚ)| := by
  cases val with
  | int n =>
    rw [Library.float]
    by_cases h : |(n : ℚ)| < limit
    · obtain ⟨d, hd, -⟩ := Binary64.round_of_lt h
      rw [hd]
      refine iff_of_false nofun ?_
      rintro ⟨m, hm, hle⟩
      obtain rfl := Json.int.inj hm
      exact absurd h (not_lt.mpr hle)
    · rw [Binary64.round_of_le (not_lt.mp h)]
      exact iff_of_true rfl ⟨n, rfl, not_lt.mp h⟩
  | float x => cases x <;> exact iff_of_false nofun nofun
  | str s =>
    refine iff_of_false ?_ nofun
    rw [Library.float]
    cases L.floatText s <;> nofun
  | _ => exact iff_of_false nofun nofun

theorem coerceConfidence_eq_none : coerceConfidence L val = none ↔ L.float val = .overflow := by
  unfold coerceConfidence
  split <;> simp_all

theorem coerceConfidence_spec {q : ℚ} (h : coerceConfidence L val = some q) : 0 ≤ q ∧ q ≤ 1 := by
  unfold coerceConfidence at h
  split at h <;> simp only [Option.some.injEq, reduceCtorEq] at h <;> rw [← h]
  · exact ⟨le_max_left _ _, max_le zero_le_one (min_le_left _ _)⟩
  · split_ifs <;> norm_num
  · norm_num
  · norm_num [defaultConfidence]

/-! ### What is validated -/

/-- `validate_record` does not raise, and a record that it returns is one of the schema. -/
def Validates (L : Library) (raw : Json) : Prop :=
  ∃ r, validateRecord L raw = some r ∧ ∀ rec ws, r = .ok (rec, ws) → rec.Schema L

theorem validates_not_obj (h : ∀ kvs, raw ≠ .obj kvs) : Validates L raw := by
  refine ⟨.error ["not_an_object"], ?_, fun rec ws heq => by cases heq⟩
  cases raw with
  | obj kvs => exact absurd rfl (h kvs)
  | _ => rfl

theorem validates_no_statement {kvs : List (String × Json)} (h : statementOf L (.obj kvs) = "") : Validates L (.obj kvs) := by
  refine ⟨.error ["missing_statement"], ?_, fun rec ws heq => by cases heq⟩
  rw [validateRecord, if_pos h]

/-- With a statement, it is left to the confidence and the date. -/
theorem validates_obj_iff {kvs : List (String × Json)} (hne : statementOf L (.obj kvs) ≠ "") :
    Validates L (.obj kvs) ↔ coerceConfidence L (field (.obj kvs) "confidence") ≠ none ∧
      ∀ d ∈ coerceDate L (field (.obj kvs) "date"), isDate d = true := by
  obtain ⟨hcount, htrimmed, hdistinct⟩ := @coerceEntities_spec L (field (.obj kvs) "entities")
  cases hc : coerceConfidence L (field (.obj kvs) "confidence") with
  | none => simp [Validates, validateRecord, hne, hc]
  | some c =>
    simp only [Validates, validateRecord, if_neg hne, hc, Option.map_some, Option.some.injEq, exists_eq_left', Except.ok.injEq,
      Prod.mk.injEq, ne_eq, reduceCtorEq, not_false_eq_true, true_and]
    generalize hstatement : (if statementMax < _ then _ else _) = statement
    obtain ⟨hlength, hneat, hbullet⟩ := statement_spec neat_statementOf not_bulleted_statementOf hne hstatement
    constructor
    · intro h
      exact (h _ _ ⟨rfl, rfl⟩).date
    · rintro hdate rec ws ⟨rfl, rfl⟩
      refine ⟨hlength, ?_, hneat.line, hbullet, ?_, hcount, htrimmed, hdistinct, hdate, coerceConfidence_spec hc⟩
      · rw [PyText.strip, hneat.strip, String.ofList_toList]
      · dsimp only
        split_ifs with hknown
        · exact hknown
        · decide

/-- **Exactly when what is validated satisfies the schema**: the confidence is no integer too large for a
float, and a date that has the form of one is one. -/
theorem validates_iff : Validates L raw ↔ ∀ kvs, raw = .obj kvs → statementOf L raw ≠ "" →
    (∀ n : ℤ, field raw "confidence" = .int n → |(n : ℚ)| < limit) ∧ DateReal L (field raw "date") := by
  have hfloat : ∀ val, coerceConfidence L val ≠ none ↔ ∀ n : ℤ, val = .int n → |(n : ℚ)| < limit := by
    intro val
    rw [Ne, coerceConfidence_eq_none, float_eq_overflow_iff, not_exists]
    exact forall_congr' fun n => by rw [not_and, not_le]
  constructor
  · rintro h kvs rfl hne
    obtain ⟨hconfidence, hdate⟩ := (validates_obj_iff hne).mp h
    exact ⟨(hfloat _).mp hconfidence, coerceDate_spec.mp hdate⟩
  · intro h
    by_cases hobj : ∃ kvs, raw = .obj kvs
    · obtain ⟨kvs, rfl⟩ := hobj
      by_cases hne : statementOf L (.obj kvs) = ""
      · exact validates_no_statement hne
      · obtain ⟨hless, hdate⟩ := h kvs rfl hne
        exact (validates_obj_iff hne).mpr ⟨(hfloat _).mpr hless, coerceDate_spec.mpr hdate⟩
    · exact validates_not_obj fun kvs heq => hobj ⟨kvs, heq⟩

end

/-- A library that knows ASCII. -/
def floating : Library where
  toPython := Python.ofTable []
  toUnicode := .ascii
  floatText _ := none
  nonfinite := onlyNan

/-- An integer of 401 digits for the confidence raises, and the thirteenth month is accepted. -/
theorem not_validates : ¬ Validates floating (.obj [("statement", .str "likes tea"), ("confidence", .int (10 ^ 400))]) ∧
    ¬ Validates floating (.obj [("statement", .str "likes tea"), ("date", .str "2026-13-45")]) := by
  constructor <;> rw [validates_obj_iff (by decide)]
  · have hlarge : limit ≤ |((10 ^ 400 : ℤ) : ℚ)| := by
      have hbits : limit ≤ (2 ^ 64 : ℚ) ^ 16 := by
        have hpower : (2 : ℚ) ^ (970 : ℤ) = 2 ^ 970 := zpow_natCast 2 970
        rw [limit, hpower, ← pow_mul, show 64 * 16 = 54 + 970 from rfl, pow_add]
        exact mul_le_mul_of_nonneg_right (by norm_num) (by positivity)
      have hdigits : (2 ^ 64 : ℚ) ^ 16 ≤ (10 ^ 25) ^ 16 := pow_le_pow_left₀ (by norm_num) (by norm_num) 16
      have hcast : ((10 ^ 400 : ℤ) : ℚ) = (10 ^ 25) ^ 16 := by
        rw [← pow_mul, Int.cast_pow, Int.cast_ofNat]
      rw [hcast, abs_of_nonneg (by positivity)]
      exact hbits.trans hdigits
    exact fun h => h.1 (coerceConfidence_eq_none.mpr (float_eq_overflow_iff.mpr ⟨_, rfl, hlarge⟩))
  · exact fun h => absurd (h.2 "2026-13-45" (by decide)) (by decide)

end Persona.Intake
