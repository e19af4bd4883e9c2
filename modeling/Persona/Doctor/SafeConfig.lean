import Persona.Lib.Regex
import Mathlib.Data.Int.Notation

/-!
# The safe-config gate

`manage.py doctor` holds the configuration of the default profile against the safe-config schema:
only the local model, no cloud failover, no tools that reach out. `validate_safe_config` reads the
structure with PyYAML; where that is not installed, `validate_safe_config_regex` looks for lines.

`yaml.safe_load` is a parameter, any function of the text; what it gives is `Yaml`, with the
operations of Python on it that the validator uses. Where these raise, the validator has no result.

The two do not look for the same: a line counts wherever it stands (`Mentions`), while the
structure has to hold at its place (`Conforms`), and there is no line for the key and for the
auxiliary models. `fallback_implies_iff` says when the gate that passes without PyYAML passes with it.
-/

namespace Persona.Doctor

open Persona.Lib

/-- A text. -/
abbrev Text := List Char

/-- `SAFE_CONFIG_EGRESS_TOOLS`, sorted. -/
def egressTools : List Text := ["web_crawl".toList, "web_extract".toList, "web_search".toList]

/-! ### The lines -/

/-- `[ \t]`. -/
def isBlank (c : Char) : Bool := c = ' ' || c = '\t'

/-- `^` of a pattern over lines. -/
def lineStart : Regex Char := .look fun before _ => before = none || before = some '\n'

/-- `([ \t]|$)`. -/
def blankOrEnd : Regex Char := .alt (.one isBlank) (.look fun _ after => after = none || after = some '\n')

/-- `^[ \t]*provider:[ \t]*custom`. -/
def providerRegex : Regex Char :=
  .seq lineStart (.seq (.many isBlank) (.seq (.literal "provider:".toList) (.seq (.many isBlank) (.literal "custom".toList))))

/-- `base_url:[ \t]*http://(127\.0\.0\.1|localhost):`. -/
def baseUrlRegex : Regex Char :=
  .seq (.literal "base_url:".toList) (.seq (.many isBlank) (.seq (.literal "http://".toList)
    (.seq (.alt (.literal "127.0.0.1".toList) (.literal "localhost".toList)) (.literal ":".toList))))

/-- `fallback_model:[ \t]*\{\}`. -/
def fallbackRegex : Regex Char :=
  .seq (.literal "fallback_model:".toList) (.seq (.many isBlank) (.literal "\x7b\x7d".toList))

/-- `^[ \t]*-[ \t]*`. -/
def dashRegex (r : Regex Char) : Regex Char :=
  .seq lineStart (.seq (.many isBlank) (.seq (.literal "-".toList) (.seq (.many isBlank) r)))

def toolRegex (tool : Text) : Regex Char := dashRegex (.seq (.literal tool) blankOrEnd)

def browserRegex : Regex Char := dashRegex (.literal "browser".toList)

/-- `validate_safe_config_regex`, on the text of the file. -/
def validateSafeConfigRegex (text : Text) : Bool × List Text :=
  let errors :=
    (if providerRegex.search text then [] else ["model.provider: custom not found (regex fallback)".toList]) ++
    (if baseUrlRegex.search text then [] else ["local base_url not found (regex fallback)".toList]) ++
    (if fallbackRegex.search text then [] else ["empty fallback_model not found (regex fallback)".toList]) ++
    egressTools.flatMap (fun tool =>
      if (toolRegex tool).search text then []
      else ["tools.disabled missing ".toList ++ (tool ++ " (regex fallback)".toList)]) ++
    (if browserRegex.search text then [] else ["tools.disabled missing browser_* tools (regex fallback)".toList])
  (errors.isEmpty, errors)

/-! ### The structure -/

/-- What `yaml.safe_load` gives. The mapping has its items in order. -/
inductive Yaml where
  | null
  | bool (b : Bool)
  | int (n : ℤ)
  /-- A float or a date, by its `str`, and whether it is zero. -/
  | other (text : Text) (zero : Bool)
  | str (s : Text)
  | seq (xs : List Yaml)
  | map (items : List (Yaml × Yaml))

namespace Yaml

/-- `x in (None, {}, "", [], False)`: so are the values that count as false. -/
def empty : Yaml → Bool
  | .null => true
  | .bool b => !b
  | .int n => n = 0
  | .other _ zero => zero
  | .str s => s.isEmpty
  | .seq xs => xs.isEmpty
  | .map items => items.isEmpty

/-- `x or y`. -/
def orElse (x y : Yaml) : Yaml := if x.empty then y else x

/-- The value is this string. -/
def isStr (s : Text) : Yaml → Bool
  | .str t => t = s
  | _ => false

/-- The value under a key. -/
def entry (items : List (Yaml × Yaml)) (key : Text) : Yaml :=
  match items.find? fun x => x.1.isStr key with
  | some x => x.2
  | none => .null

/-- `x.get(key)`; `none` when there is no such method. -/
def get (x : Yaml) (key : Text) : Option Yaml :=
  match x with
  | .map items => some (entry items key)
  | _ => none

/-- `str(x)`; `inside` is what stands after the bracket of a list or a mapping. -/
def pyStr (inside : Yaml → Text) : Yaml → Text
  | .null => "None".toList
  | .bool b => if b then "True".toList else "False".toList
  | .int n => (toString n).toList
  | .other text _ => text
  | .str s => s
  | .seq xs => '[' :: inside (.seq xs)
  | .map items => '\x7b' :: inside (.map items)

/-- The value can be in a set. -/
def hashable : Yaml → Bool
  | .seq _ => false
  | .map _ => false
  | _ => true

/-- `set(x)`; `none` when it raises. -/
def members : Yaml → Option (List Yaml)
  | .seq xs => if xs.all hashable then some xs else none
  | .map items => some (items.map Prod.fst)
  | .str s => some (s.map fun c => .str [c])
  | _ => none

end Yaml

open Yaml

variable (inside : Yaml → Text)

/-- The checks of the mapping `model`. -/
def modelErrors (model : Yaml) : Option (List Text) := do
  let provider ← model.get "provider".toList
  let baseUrl ← model.get "base_url".toList
  let apiKey ← model.get "api_key".toList
  let base := (baseUrl.orElse (.str [])).pyStr inside
  let key := (apiKey.orElse (.str [])).pyStr inside
  return (if provider.isStr "custom".toList then [] else ["model.provider must be 'custom'".toList]) ++
    (if "http://127.0.0.1:".toList.isPrefixOf base || "http://localhost:".toList.isPrefixOf base then []
      else ["model.base_url must be a local endpoint".toList]) ++
    (if key ≠ [] ∧ key ∉ ["not-needed".toList, "local".toList, "local-key".toList] ∧ ¬ "$\x7b".toList.isPrefixOf key then
      ["model.api_key looks like a real secret".toList]
    else [])

/-- The checks of the auxiliary models. -/
def auxiliaryErrors : List (Yaml × Yaml) → Option (List Text)
  | [] => some []
  | (name, spec) :: aux => do
    let provider ← (spec.orElse (.map [])).get "provider".toList
    let errors ← auxiliaryErrors aux
    return (if provider.isStr "main".toList then []
      else ["auxiliary.".toList ++ (name.pyStr inside ++ ".provider must be 'main'".toList)]) ++ errors

/-- `x.items()`. -/
def items : Yaml → Option (List (Yaml × Yaml))
  | .map items => some items
  | _ => none

/-- The checks of the tools that are disabled. -/
def toolErrors (disabled : List Yaml) : List Text :=
  let missing := egressTools.filter fun tool => !disabled.any (·.isStr tool)
  (if missing.isEmpty then []
    else ["tools.disabled missing egress tools: ".toList ++ [','].intercalate missing]) ++
  (if disabled.any fun t => "browser".toList.isPrefixOf (t.pyStr inside) then []
    else ["tools.disabled must disable browser_* tools".toList])

/-- The errors of a configuration; `none` when a value has not the type that is expected. -/
def safeConfigErrors (data : Yaml) : Option (List Text) := do
  let modelEntry ← data.get "model".toList
  let model ← modelErrors inside (modelEntry.orElse (.map []))
  let fallback ← data.get "fallback_model".toList
  let auxEntry ← data.get "auxiliary".toList
  let auxItems ← items (auxEntry.orElse (.map []))
  let aux ← auxiliaryErrors inside auxItems
  let toolsEntry ← data.get "tools".toList
  let disabledEntry ← (toolsEntry.orElse (.map [])).get "disabled".toList
  let disabled ← (disabledEntry.orElse (.seq [])).members
  return model ++ (if fallback.empty then [] else ["fallback_model must be empty (no cloud failover)".toList]) ++ aux ++
    toolErrors inside disabled

/-- `validate_safe_config`, on the text of the file, with PyYAML or without. `none` when it raises. The
text of the error of `safe_load` is left out. -/
def validateSafeConfig (safeLoad : Option (Text → Option Yaml)) (text : Text) : Option (Bool × List Text) :=
  match safeLoad with
  | none => some (validateSafeConfigRegex text)
  | some safeLoad =>
    match safeLoad text with
    | none => some (false, ["could not parse config.yaml".toList])
    | some data => (safeConfigErrors inside (data.orElse (.map []))).map fun errors => (errors.isEmpty, errors)

/-- The gate of `doctor`. -/
inductive Gate where
  | pass
  | fail
  deriving DecidableEq

/-- The T1 gate of `cmd_doctor`, if the file is there or not; `none` when the validator raises. -/
def t1Gate (safeLoad : Option (Text → Option Yaml)) (file : Option Text) : Option Gate :=
  match file with
  | none => some .fail
  | some text => (validateSafeConfig inside safeLoad text).map fun (passed, _) => if passed then .pass else .fail

/-! ### The lines that count -/

/-- Before a line stands nothing, or the end of another one. -/
def LineStart (pre : Text) : Prop := pre = [] ∨ pre.getLast? = some '\n'

def Blanks (ws : Text) : Prop := ∀ c ∈ ws, isBlank c = true

/-- After a name stands a blank, the end of the line or nothing. -/
def NameEnd (rest : Text) : Prop := (∃ c after, rest = c :: after ∧ isBlank c = true) ∨ rest = [] ∨ rest.head? = some '\n'

/-- A line is an item of a list, and the item begins with `w`. -/
def HasItem (text w : Text) (P : Text → Prop) : Prop :=
  ∃ pre ws ws' rest, text = pre ++ (ws ++ ('-' :: (ws' ++ (w ++ rest)))) ∧ LineStart pre ∧ Blanks ws ∧ Blanks ws' ∧ P rest

/-- What the fallback looks for. Nothing is said of where it stands: a comment, another section or a
longer value will do. -/
structure Mentions (text : Text) : Prop where
  provider : ∃ pre ws ws' rest, text = pre ++ (ws ++ ("provider:".toList ++ (ws' ++ ("custom".toList ++ rest)))) ∧
    LineStart pre ∧ Blanks ws ∧ Blanks ws'
  baseUrl : ∃ pre ws host rest, text = pre ++ ("base_url:".toList ++ (ws ++ ("http://".toList ++ (host ++ (':' :: rest))))) ∧
    Blanks ws ∧ (host = "127.0.0.1".toList ∨ host = "localhost".toList)
  fallback : ∃ pre ws rest, text = pre ++ ("fallback_model:".toList ++ (ws ++ ("\x7b\x7d".toList ++ rest))) ∧ Blanks ws
  tools : ∀ tool ∈ egressTools, HasItem text tool NameEnd
  browser : HasItem text "browser".toList fun _ => True

section Lines

open Regex

variable {text : Text}

theorem lineStart_iff {pre : Text} :
    (decide (pre.getLast? = none) || decide (pre.getLast? = some '\n')) = true ↔ LineStart pre := by
  simp [LineStart]

theorem search_providerRegex : providerRegex.search text = true ↔
    ∃ pre ws ws' rest, text = pre ++ (ws ++ ("provider:".toList ++ (ws' ++ ("custom".toList ++ rest)))) ∧
      LineStart pre ∧ Blanks ws ∧ Blanks ws' := by
  simp only [search_iff, providerRegex, lineStart, exists_ends_seq, exists_ends_look, exists_ends_many, exists_ends_literal,
    lineStart_iff]
  constructor
  · rintro ⟨pre, _, rfl, hpre, ws, _, rfl, hws, _, rfl, ws', _, rfl, hws', rest, rfl, -⟩
    exact ⟨pre, ws, ws', rest, rfl, hpre, hws, hws'⟩
  · rintro ⟨pre, ws, ws', rest, rfl, hpre, hws, hws'⟩
    exact ⟨pre, _, rfl, hpre, ws, _, rfl, hws, _, rfl, ws', _, rfl, hws', rest, rfl, trivial⟩

theorem search_baseUrlRegex : baseUrlRegex.search text = true ↔
    ∃ pre ws host rest, text = pre ++ ("base_url:".toList ++ (ws ++ ("http://".toList ++ (host ++ (':' :: rest))))) ∧
      Blanks ws ∧ (host = "127.0.0.1".toList ∨ host = "localhost".toList) := by
  simp only [search_iff, baseUrlRegex, exists_ends_seq, exists_ends_alt, exists_ends_many, exists_ends_literal]
  constructor
  · rintro ⟨pre, _, rfl, _, rfl, ws, _, rfl, hws, _, rfl, ⟨_, rfl, rest, rfl, -⟩ | ⟨_, rfl, rest, rfl, -⟩⟩
    · exact ⟨pre, ws, _, rest, rfl, hws, .inl rfl⟩
    · exact ⟨pre, ws, _, rest, rfl, hws, .inr rfl⟩
  · rintro ⟨pre, ws, host, rest, rfl, hws, rfl | rfl⟩
    · exact ⟨pre, _, rfl, _, rfl, ws, _, rfl, hws, _, rfl, .inl ⟨_, rfl, rest, rfl, trivial⟩⟩
    · exact ⟨pre, _, rfl, _, rfl, ws, _, rfl, hws, _, rfl, .inr ⟨_, rfl, rest, rfl, trivial⟩⟩

theorem search_fallbackRegex : fallbackRegex.search text = true ↔
    ∃ pre ws rest, text = pre ++ ("fallback_model:".toList ++ (ws ++ ("\x7b\x7d".toList ++ rest))) ∧ Blanks ws := by
  simp only [search_iff, fallbackRegex, exists_ends_seq, exists_ends_many, exists_ends_literal]
  constructor
  · rintro ⟨pre, _, rfl, _, rfl, ws, _, rfl, hws, rest, rfl, -⟩
    exact ⟨pre, ws, rest, rfl, hws⟩
  · rintro ⟨pre, ws, rest, rfl, hws⟩
    exact ⟨pre, _, rfl, _, rfl, ws, _, rfl, hws, rest, rfl, trivial⟩

/-- The pattern of an item finds those that begin as the pattern inside says. -/
theorem search_dashRegex {w : Text} {r : Regex Char} {P : Text → Prop}
    (h : ∀ x : Option Char × Text, (∃ y ∈ ends r x, True) ↔ ∃ rest, x.2 = w ++ rest ∧ P rest) :
    (dashRegex r).search text = true ↔ HasItem text w P := by
  simp only [search_iff, dashRegex, lineStart, exists_ends_seq, exists_ends_look, exists_ends_many, exists_ends_literal, h,
    lineStart_iff]
  constructor
  · rintro ⟨pre, _, rfl, hpre, ws, _, rfl, hws, _, rfl, ws', _, rfl, hws', rest, rfl, hrest⟩
    exact ⟨pre, ws, ws', rest, rfl, hpre, hws, hws', hrest⟩
  · rintro ⟨pre, ws, ws', rest, rfl, hpre, hws, hws', hrest⟩
    exact ⟨pre, _, rfl, hpre, ws, _, rfl, hws, _, rfl, ws', _, rfl, hws', rest, rfl, hrest⟩

theorem search_toolRegex {tool : Text} : (toolRegex tool).search text = true ↔ HasItem text tool NameEnd := by
  refine search_dashRegex fun x => ?_
  simp only [exists_ends_seq, exists_ends_literal, blankOrEnd, exists_ends_alt, exists_ends_one, exists_ends_look, NameEnd]
  simp

theorem search_browserRegex : browserRegex.search text = true ↔ HasItem text "browser".toList fun _ => True :=
  search_dashRegex fun _ => exists_ends_literal

/-- The fallback accepts a file that has all the lines. -/
theorem validateSafeConfigRegex_iff : (validateSafeConfigRegex text).1 = true ↔ Mentions text := by
  have hite : ∀ {b : Bool} {e : Text}, (if b = true then [] else [e]) = [] ↔ b = true := by
    intro b e
    cases b <;> simp
  simp only [validateSafeConfigRegex, List.isEmpty_iff, List.append_eq_nil_iff, List.flatMap_eq_nil_iff, hite, search_providerRegex,
    search_baseUrlRegex, search_fallbackRegex, search_toolRegex, search_browserRegex]
  constructor
  · rintro ⟨⟨⟨⟨hprovider, hbase⟩, hfallback⟩, htools⟩, hbrowser⟩
    exact ⟨hprovider, hbase, hfallback, htools, hbrowser⟩
  · rintro ⟨hprovider, hbase, hfallback, htools, hbrowser⟩
    exact ⟨⟨⟨⟨hprovider, hbase⟩, hfallback⟩, htools⟩, hbrowser⟩

end Lines

/-! ### The structure that holds -/

/-- The endpoint is one of this machine. -/
def LocalUrl (base : Text) : Prop := "http://127.0.0.1:".toList <+: base ∨ "http://localhost:".toList <+: base

/-- The key is none, a placeholder or a reference to the environment. -/
def HarmlessKey (key : Text) : Prop :=
  key = [] ∨ key ∈ ["not-needed".toList, "local".toList, "local-key".toList] ∨ "$\x7b".toList <+: key

/-- The schema of a configuration, by its items. -/
structure Conforms (config : List (Yaml × Yaml)) : Prop where
  model : ∃ model, entry config "model".toList = .map model ∧ (entry model "provider".toList).isStr "custom".toList = true ∧
    LocalUrl (((entry model "base_url".toList).orElse (.str [])).pyStr inside) ∧
    HarmlessKey (((entry model "api_key".toList).orElse (.str [])).pyStr inside)
  fallback : (entry config "fallback_model".toList).empty = true
  auxiliary : (entry config "auxiliary".toList).empty = true ∨ ∃ aux, entry config "auxiliary".toList = .map aux ∧
    ∀ x ∈ aux, ∃ spec, x.2 = .map spec ∧ (entry spec "provider".toList).isStr "main".toList = true
  tools : ∃ tools disabled, entry config "tools".toList = .map tools ∧ (entry tools "disabled".toList).members = some disabled ∧
    (∀ tool ∈ egressTools, ∃ t ∈ disabled, t.isStr tool = true) ∧ ∃ t ∈ disabled, "browser".toList <+: t.pyStr inside

section Structure

variable {inside : Yaml → Text} {x : Yaml} {fields : List (Yaml × Yaml)}

theorem ite_nil_iff {P : Prop} [Decidable P] {e : Text} : (if P then [] else [e]) = [] ↔ P := by
  split_ifs with h <;> simp [h]

theorem orElse_eq_map : x.orElse (.map []) = .map fields ↔ x = .map fields ∨ (fields = [] ∧ x.empty = true) := by
  unfold orElse
  split_ifs with h
  · constructor
    · intro heq
      exact .inr ⟨(Yaml.map.inj heq).symm, h⟩
    · rintro (rfl | ⟨rfl, -⟩)
      · rw [List.isEmpty_iff.mp h]
      · rfl
  · simp [h]

theorem get_eq_some {key : Text} {v : Yaml} : x.get key = some v ↔ ∃ fields, x = .map fields ∧ entry fields key = v := by
  cases x <;> simp [Yaml.get]

/-- What a mapping that may be missing has under a key is not there when the mapping is missing. -/
theorem get_orElse {key : Text} {v : Yaml} :
    (x.orElse (.map [])).get key = some v ↔
      (∃ fields, x = .map fields ∧ entry fields key = v) ∨ (x.empty = true ∧ v = .null) := by
  rw [get_eq_some]
  constructor
  · rintro ⟨fields, hx, rfl⟩
    rcases orElse_eq_map.mp hx with rfl | ⟨rfl, hempty⟩
    · exact .inl ⟨fields, rfl, rfl⟩
    · exact .inr ⟨hempty, rfl⟩
  · rintro (⟨fields, rfl, rfl⟩ | ⟨hx, rfl⟩)
    · exact ⟨fields, orElse_eq_map.mpr (.inl rfl), rfl⟩
    · exact ⟨[], orElse_eq_map.mpr (.inr ⟨rfl, hx⟩), rfl⟩

theorem ite_cons_iff {P : Prop} [Decidable P] {e : Text} : (if P then [e] else []) = [] ↔ ¬ P := by
  split_ifs with h <;> simp [h]

theorem modelErrors_map : modelErrors inside (.map fields) = some [] ↔
    (entry fields "provider".toList).isStr "custom".toList = true ∧
      LocalUrl (((entry fields "base_url".toList).orElse (.str [])).pyStr inside) ∧
      HarmlessKey (((entry fields "api_key".toList).orElse (.str [])).pyStr inside) := by
  simp only [modelErrors, Yaml.get, Option.bind_eq_bind, Option.bind_some, Option.pure_def, Option.some.injEq,
    List.append_eq_nil_iff, ite_nil_iff, ite_cons_iff, Bool.or_eq_true, List.isPrefixOf_iff_prefix, and_assoc]
  refine and_congr_right fun _ => and_congr_right fun _ => ?_
  generalize ((entry fields "api_key".toList).orElse (.str [])).pyStr inside = key
  rw [HarmlessKey, not_and_or, not_and_or, not_not, not_not, not_not]

theorem modelErrors_eq_nil : modelErrors inside (x.orElse (.map [])) = some [] ↔
    ∃ model, x = .map model ∧ (entry model "provider".toList).isStr "custom".toList = true ∧
      LocalUrl (((entry model "base_url".toList).orElse (.str [])).pyStr inside) ∧
      HarmlessKey (((entry model "api_key".toList).orElse (.str [])).pyStr inside) := by
  constructor
  · intro h
    obtain ⟨model, hmodel⟩ : ∃ model, x.orElse (.map []) = .map model := by
      generalize x.orElse (.map []) = y at h
      obtain ⟨provider, hprovider, -⟩ := Option.bind_eq_some_iff.mp h
      obtain ⟨model, hmodel, -⟩ := get_eq_some.mp hprovider
      exact ⟨model, hmodel⟩
    rw [hmodel, modelErrors_map] at h
    rcases orElse_eq_map.mp hmodel with rfl | ⟨rfl, -⟩
    · exact ⟨model, rfl, h⟩
    · exact absurd h.1 Bool.false_ne_true
  · rintro ⟨model, rfl, h⟩
    rw [orElse_eq_map.mpr (.inl rfl), modelErrors_map]
    exact h

theorem auxiliaryErrors_eq_nil {aux : List (Yaml × Yaml)} : auxiliaryErrors inside aux = some [] ↔
    ∀ x ∈ aux, ∃ spec, x.2 = .map spec ∧ (entry spec "provider".toList).isStr "main".toList = true := by
  induction aux with
  | nil => simp [auxiliaryErrors]
  | cons x aux ih =>
    obtain ⟨name, spec⟩ := x
    have hstep : auxiliaryErrors inside ((name, spec) :: aux) = some [] ↔
        (∃ provider, (spec.orElse (.map [])).get "provider".toList = some provider ∧ provider.isStr "main".toList = true) ∧
          auxiliaryErrors inside aux = some [] := by
      simp only [auxiliaryErrors, Option.bind_eq_bind, Option.pure_def, Option.bind_eq_some_iff, Option.some.injEq,
        List.append_eq_nil_iff, ite_nil_iff]
      constructor
      · rintro ⟨provider, hget, errors, herrors, hmain, rfl⟩
        exact ⟨⟨provider, hget, hmain⟩, herrors⟩
      · rintro ⟨⟨provider, hget, hmain⟩, herrors⟩
        exact ⟨provider, hget, [], herrors, hmain, rfl⟩
    rw [hstep, ih, List.forall_mem_cons]
    refine and_congr_left fun _ => ⟨?_, ?_⟩
    · rintro ⟨provider, hget, hmain⟩
      rcases get_orElse.mp hget with ⟨fields, rfl, rfl⟩ | ⟨-, rfl⟩
      · exact ⟨fields, rfl, hmain⟩
      · exact absurd hmain Bool.false_ne_true
    · rintro ⟨fields, rfl, hmain⟩
      exact ⟨_, get_orElse.mpr (.inl ⟨fields, rfl, rfl⟩), hmain⟩

theorem toolErrors_eq_nil {disabled : List Yaml} : toolErrors inside disabled = [] ↔
    (∀ tool ∈ egressTools, ∃ t ∈ disabled, t.isStr tool = true) ∧ ∃ t ∈ disabled, "browser".toList <+: t.pyStr inside := by
  simp only [toolErrors, List.append_eq_nil_iff, ite_nil_iff, List.isEmpty_iff, List.filter_eq_nil_iff, Bool.not_eq_true',
    Bool.not_eq_false, List.any_eq_true, List.isPrefixOf_iff_prefix]

theorem items_orElse {aux : List (Yaml × Yaml)} :
    items (x.orElse (.map [])) = some aux ↔ x = .map aux ∨ (aux = [] ∧ x.empty = true) := by
  rw [← orElse_eq_map]
  cases x.orElse (.map []) <;> simp [items]

theorem members_of_empty {members : List Yaml} (h : x.empty = true) (hm : x.members = some members) : members = [] := by
  cases x with
  | null => cases hm
  | bool => cases hm
  | int => cases hm
  | other => cases hm
  | str s =>
    obtain rfl := List.isEmpty_iff.mp h
    exact (Option.some.inj hm).symm
  | seq xs =>
    obtain rfl := List.isEmpty_iff.mp h
    exact (Option.some.inj hm).symm
  | map items =>
    obtain rfl := List.isEmpty_iff.mp h
    exact (Option.some.inj hm).symm

theorem members_orElse {members : List Yaml} (hne : members ≠ []) :
    (x.orElse (.seq [])).members = some members ↔ x.members = some members := by
  unfold orElse
  split_ifs with h
  · constructor
    · intro hm
      exact absurd (Option.some.inj hm).symm hne
    · intro hm
      exact absurd (members_of_empty h hm) hne
  · rfl

/-- A structure has no errors when it conforms. -/
theorem safeConfigErrors_eq_nil :
    safeConfigErrors inside (x.orElse (.map [])) = some [] ↔ ∃ config, x = .map config ∧ Conforms inside config := by
  simp only [safeConfigErrors, Option.bind_eq_bind, Option.pure_def, Option.bind_eq_some_iff, Option.some.injEq,
    List.append_eq_nil_iff, ite_nil_iff]
  constructor
  · rintro ⟨m, hm, modelErrs, hmodel, fallback, hfallback, aux, haux, auxItems, hitems, auxErrs, hauxErrs, tools, htools,
      entries, hentries, disabled, hdisabled, ⟨⟨rfl, hempty⟩, rfl⟩, htoolErrs⟩
    have hmodel := modelErrors_eq_nil.mp hmodel
    have hlisted := toolErrors_eq_nil.mp htoolErrs
    have hne : disabled ≠ [] := by
      obtain ⟨t, ht, -⟩ := hlisted.2
      exact List.ne_nil_of_mem ht
    obtain ⟨config, rfl, rfl⟩ : ∃ config, x = .map config ∧ entry config "model".toList = m := by
      rcases get_orElse.mp hm with h | ⟨-, rfl⟩
      · exact h
      · obtain ⟨model, hnull, -⟩ := hmodel
        exact Yaml.noConfusion hnull
    have hget : ∀ {key : Text} {v : Yaml}, ((Yaml.map config).orElse (.map [])).get key = some v → entry config key = v := by
      intro key v h
      rcases get_orElse.mp h with ⟨fields, heq, rfl⟩ | ⟨hnil, rfl⟩
      · rw [Yaml.map.inj heq]
      · rw [List.isEmpty_iff.mp hnil]
        rfl
    obtain rfl := hget hfallback
    obtain rfl := hget haux
    obtain rfl := hget htools
    refine ⟨config, rfl, ⟨hmodel, hempty, ?_, ?_⟩⟩
    · rcases items_orElse.mp hitems with h | ⟨-, h⟩
      · exact .inr ⟨auxItems, h, auxiliaryErrors_eq_nil.mp hauxErrs⟩
      · exact .inl h
    · rw [members_orElse hne] at hdisabled
      rcases get_orElse.mp hentries with ⟨fields, hfields, rfl⟩ | ⟨-, rfl⟩
      · exact ⟨fields, disabled, hfields, hdisabled, hlisted⟩
      · exact absurd hdisabled (by simp [members])
  · rintro ⟨config, rfl, hmodel, hempty, haux, tools, disabled, htools, hdisabled, hlisted⟩
    have hget : ∀ key, ((Yaml.map config).orElse (.map [])).get key = some (entry config key) := fun key =>
      get_orElse.mpr (.inl ⟨config, rfl, rfl⟩)
    have hne : disabled ≠ [] := by
      obtain ⟨t, ht, -⟩ := hlisted.2
      exact List.ne_nil_of_mem ht
    obtain ⟨auxItems, hitems, hauxErrs⟩ : ∃ auxItems, items ((entry config "auxiliary".toList).orElse (.map [])) = some auxItems ∧
        auxiliaryErrors inside auxItems = some [] := by
      rcases haux with h | ⟨aux, h, hmain⟩
      · exact ⟨[], items_orElse.mpr (.inr ⟨rfl, h⟩), rfl⟩
      · exact ⟨aux, items_orElse.mpr (.inl h), auxiliaryErrors_eq_nil.mpr hmain⟩
    exact ⟨_, hget _, [], modelErrors_eq_nil.mpr hmodel, _, hget _, _, hget _, auxItems, hitems, [], hauxErrs, _, hget _, _,
      get_orElse.mpr (.inl ⟨tools, htools, rfl⟩), disabled, (members_orElse hne).mpr hdisabled, ⟨⟨rfl, hempty⟩, rfl⟩,
      toolErrors_eq_nil.mpr hlisted⟩

/-- With PyYAML a file is accepted when it can be read and what it holds conforms. -/
theorem validateSafeConfig_iff {safeLoad : Text → Option Yaml} {text : Text} :
    (∃ errors, validateSafeConfig inside (some safeLoad) text = some (true, errors)) ↔
      ∃ config, safeLoad text = some (.map config) ∧ Conforms inside config := by
  simp only [validateSafeConfig]
  cases hload : safeLoad text with
  | none => simp
  | some data =>
    simp only [Option.map_eq_some_iff, Prod.mk.injEq, List.isEmpty_iff, Option.some.injEq]
    rw [← safeConfigErrors_eq_nil]
    constructor
    · rintro ⟨_, errors, herrors, rfl, -⟩
      exact herrors
    · intro h
      exact ⟨[], [], h, rfl, rfl⟩

end Structure

/-- **The fallback is no more permissive**, and its gate does not pass what the other gate fails, exactly
for the files that do not have all its lines and for those whose structure conforms. -/
theorem fallback_implies_iff (safeLoad : Text → Option Yaml) (text : Text) :
    (((validateSafeConfigRegex text).1 = true → ∃ errors, validateSafeConfig inside (some safeLoad) text = some (true, errors)) ∧
      (t1Gate inside none (some text) = some .pass → t1Gate inside (some safeLoad) (some text) ≠ some .fail)) ↔
    (Mentions text → ∃ config, safeLoad text = some (.map config) ∧ Conforms inside config) := by
  rw [← validateSafeConfigRegex_iff, ← validateSafeConfig_iff, and_iff_left_iff_imp]
  intro himp hpass
  have haccept : (validateSafeConfigRegex text).1 = true := by
    cases h : (validateSafeConfigRegex text).1 with
    | true => rfl
    | false => simp [t1Gate, validateSafeConfig, h] at hpass
  obtain ⟨errors, herrors⟩ := himp haccept
  simp [t1Gate, herrors]

/-- A file whose model is in the cloud; an auxiliary one has the lines of the local model. -/
def cloudYaml : Text :=
  "model:\n  provider: openai\nauxiliary:\n  vision:\n    provider: custom\n    base_url: http://127.0.0.1:8080/v1\nfallback_model: \x7b\x7d\ntools:\n  disabled:\n  - web_crawl\n  - web_extract\n  - web_search\n  - browser_click\n".toList

/-- What `yaml.safe_load` gives for `cloudYaml`. -/
def cloudConfig : Yaml :=
  let name (s : String) : Yaml := .str s.toList
  .map [(name "model", .map [(name "provider", name "openai")]),
    (name "auxiliary", .map [(name "vision", .map [(name "provider", name "custom"),
      (name "base_url", name "http://127.0.0.1:8080/v1")])]),
    (name "fallback_model", .map []),
    (name "tools", .map [(name "disabled", .seq [name "web_crawl", name "web_extract", name "web_search", name "browser_click"])])]

set_option maxRecDepth 4000 in
/-- The patterns run over the characters, not over the text that has to be decoded. -/
theorem exists_chars_cloudYaml : ∃ chars, cloudYaml = chars ∧ (validateSafeConfigRegex chars).1 = true :=
  ⟨_, String.toList_ofList, by decide⟩

theorem not_fallback_implies_cloudYaml :
    (validateSafeConfigRegex cloudYaml).1 = true ∧
      (validateSafeConfig (fun _ => []) (some fun _ => some cloudConfig) cloudYaml).map Prod.fst = some false ∧
      t1Gate (fun _ => []) none (some cloudYaml) = some .pass ∧
      t1Gate (fun _ => []) (some fun _ => some cloudConfig) (some cloudYaml) = some .fail := by
  obtain ⟨chars, hchars, hlines⟩ := exists_chars_cloudYaml
  have hregex : (validateSafeConfigRegex cloudYaml).1 = true := by
    rw [hchars]
    exact hlines
  have hyaml : (safeConfigErrors (fun _ => []) (cloudConfig.orElse (.map []))).map List.isEmpty = some false := by decide
  obtain ⟨errors, herrors, hne⟩ := Option.map_eq_some_iff.mp hyaml
  have hstructure : validateSafeConfig (fun _ => []) (some fun _ => some cloudConfig) cloudYaml = some (false, errors) := by
    simp only [validateSafeConfig, herrors, hne, Option.map_some]
  refine ⟨hregex, ?_, ?_, ?_⟩
  · rw [hstructure]
    rfl
  · simp only [t1Gate, validateSafeConfig, hregex, Option.map_some, if_true]
  · simp only [t1Gate, hstructure, Option.map_some]
    rfl

end Persona.Doctor
