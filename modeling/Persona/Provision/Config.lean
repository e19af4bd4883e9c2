import Persona.Provision.Wire
import Mathlib.Logic.Function.Basic

/-!
# Reading the configuration

`load_config` of `manage.py` flattens the tables `[base]`, `[runtime]` and `[<os>]` of
`run/config.toml` into settings by key, later tables over earlier ones, and then those of a
file for the host, `run/config.<host>.toml`. Without a `run/config.toml` that can be read, the
settings are those of three `.env` files, and the file of the host is not read.

The texts of the files are what is modelled of the disk. A file in which `base`, `runtime` or the
system's name stands for something other than a table is not covered: reading it raises.
-/

namespace Persona.Provision

open Persona.Lib Persona.TomlText

/-- The settings, by key. -/
abbrev Config := Text → Option Text

/-- The operating system; any that is not Windows counts as Linux. -/
inductive Os where
  | linux
  | windows
  deriving DecidableEq

/-- `os_tag`. -/
def osTag : Os → Text
  | .linux => "linux".toList
  | .windows => "windows".toList

theorem bare_osTag (os : Os) : Bare (osTag os) := by
  cases os <;> decide

/-- The texts of the files under `run/` that are there. -/
structure RunFiles where
  /-- `config.toml`. -/
  config : Option Text
  /-- `config.<host>.toml`. -/
  host : Option Text
  /-- `llama-servers.env`. -/
  servers : Option Text
  /-- `llama-servers.<os>.env`. -/
  serversOs : Option Text
  /-- `config.env`. -/
  configEnv : Option Text

/-! ### Reading `.env` files -/

/-- The setting of a line of an `.env` file. -/
def envEntry (raw : Text) : Option (Text × Text) :=
  let line := strip raw
  if line = [] ∨ line.head? = some '#' then none
  else
    let line := if (line.take 7).map PyText.lowerChar = "export ".toList then strip (line.drop 7) else line
    if '=' ∉ line then none
    else
      let key := strip (line.takeWhile (· ≠ '='))
      let val := stripChar '\'' (stripChar '"' (strip (line.dropWhile (· ≠ '=')).tail))
      if key = [] then none else some (key, val)

/-- `load_env_file`. -/
def loadEnvFile (file : Option Text) (target : Config) : Config :=
  match file with
  | none => target
  | some text =>
    (PyText.splitlinesL [] text).foldl (fun target raw =>
      match envEntry raw with
      | some (key, val) => Function.update target key (some val)
      | none => target) target

/-- The settings of the `.env` files. -/
def envConfig (files : RunFiles) : Config :=
  loadEnvFile files.configEnv (loadEnvFile files.serversOs (loadEnvFile files.servers fun _ => none))

/-! ### Reading TOML files -/

section

variable {V : Type*} (others : Text → Option (V × Text)) (otherText : V → Option Text) (os : Os)

/-- What `_merge_flat` makes of a value. For one that is no string, integer or boolean that is
`otherText`: nothing for a table. -/
def flat : Value V → Option Text
  | .str s => some s
  | .int n => some (JsonText.dumpInt n)
  | .bool b => some (if b then "True".toList else "False".toList)
  | .other v => otherText v

/-- `_merge_flat`. -/
def mergeFlat (cfg : Config) (table : List (Text × Value V)) : Config :=
  table.foldl (fun cfg x =>
    match flat otherText x.2 with
    | some t => Function.update cfg x.1 (some t)
    | none => cfg) cfg

/-- `data.get(name, {})`, without the tables in it. -/
def tableOf (name : Text) (is : List (Item V)) : List (Text × Value V) :=
  is.filterMap fun i =>
    match i with
    | .value path key value => if path = [name] then some (key, value) else none
    | .table _ => none

/-- The tables of a file over settings. -/
def mergeTables (cfg : Config) (is : List (Item V)) : Config :=
  mergeFlat otherText (mergeFlat otherText (mergeFlat otherText cfg (tableOf "base".toList is))
    (tableOf "runtime".toList is)) (tableOf (osTag os) is)

/-- `load_config_toml`. -/
def loadConfigToml (text : Text) : Option Config := (parse others text).map (mergeTables otherText os fun _ => none)

/-- `_merge_host_overrides`. -/
def mergeHostOverrides (host : Option Text) (cfg : Config) : Config :=
  match host.bind (parse others) with
  | some is => mergeTables otherText os cfg is
  | none => cfg

/-- `load_config`. -/
def loadConfig (files : RunFiles) : Config :=
  match files.config.bind (loadConfigToml others otherText os) with
  | some cfg => mergeHostOverrides others otherText os files.host cfg
  | none => envConfig files

/-! ### Settings over a table -/

variable {others otherText os} {cfg : Config} {table table' : List (Text × Value V)} {k : Text} {v : Value V}

theorem mergeFlat_cons {x : Text × Value V} : mergeFlat otherText cfg (x :: table) =
    mergeFlat otherText (match flat otherText x.2 with
      | some t => Function.update cfg x.1 (some t)
      | none => cfg) table := rfl

theorem mergeFlat_of_notMem (h : k ∉ table.map Prod.fst) : mergeFlat otherText cfg table k = cfg k := by
  induction table generalizing cfg with
  | nil => rfl
  | cons x table ih =>
    rw [List.map_cons, List.mem_cons, not_or] at h
    rw [mergeFlat_cons, ih h.2]
    cases flat otherText x.2 with
    | none => rfl
    | some t => exact Function.update_of_ne h.1 ..

/-- A key of the table has its value, if it has a text. -/
theorem mergeFlat_of_mem (hnodup : (table.map Prod.fst).Nodup) (h : (k, v) ∈ table) :
    mergeFlat otherText cfg table k = (flat otherText v).or (cfg k) := by
  induction table generalizing cfg with
  | nil => cases h
  | cons x table ih =>
    rw [List.map_cons, List.nodup_cons] at hnodup
    rw [mergeFlat_cons]
    rcases List.mem_cons.mp h with rfl | h
    · rw [mergeFlat_of_notMem hnodup.1]
      cases flat otherText v with
      | none => rfl
      | some t => exact Function.update_self ..
    · have hne : k ≠ x.1 := by
        rintro rfl
        exact hnodup.1 (Assoc.mem_keys_of_mem h)
      rw [ih hnodup.2 h]
      cases flat otherText x.2 with
      | none => rfl
      | some t => exact congrArg _ (Function.update_of_ne hne ..)

/-- A table with the same entries gives the same. -/
theorem mergeFlat_congr (hnodup : (table.map Prod.fst).Nodup) (hnodup' : (table'.map Prod.fst).Nodup)
    (h : ∀ v, (k, v) ∈ table ↔ (k, v) ∈ table') : mergeFlat otherText cfg table k = mergeFlat otherText cfg table' k := by
  by_cases hk : k ∈ table.map Prod.fst
  · obtain ⟨⟨k, v⟩, hv, rfl⟩ := List.mem_map.mp hk
    rw [mergeFlat_of_mem hnodup hv, mergeFlat_of_mem hnodup' ((h v).mp hv)]
  · have hk' : k ∉ table'.map Prod.fst := by
      intro hmem
      obtain ⟨⟨k, v⟩, hv, rfl⟩ := List.mem_map.mp hmem
      exact hk (Assoc.mem_keys_of_mem ((h v).mpr hv))
    rw [mergeFlat_of_notMem hk, mergeFlat_of_notMem hk']

variable {name : Text} {is is' : List (Item V)}

theorem mem_tableOf : (k, v) ∈ tableOf name is ↔ .value [name] k v ∈ is := by
  rw [tableOf, List.mem_filterMap]
  constructor
  · rintro ⟨i, hi, heq⟩
    cases i with
    | table => cases heq
    | value path key value =>
      dsimp only at heq
      split_ifs at heq with hpath
      obtain ⟨rfl, rfl⟩ := Prod.mk.inj (Option.some.inj heq)
      exact hpath ▸ hi
  · exact fun h => ⟨_, h, if_pos rfl⟩

theorem nodup_tableOf (h : Valid is) (name : Text) : ((tableOf name is).map Prod.fst).Nodup := by
  have hvalues := h.values
  rw [List.Nodup, List.pairwise_filterMap] at hvalues
  rw [tableOf, List.map_filterMap, List.Nodup, List.pairwise_filterMap]
  refine hvalues.imp fun {i j} hij k hk k' hk' heq => ?_
  have hpath : ∀ {i : Item V} {k : Text}, (match i with
      | .value path key value => if path = [name] then some (key, value) else none
      | .table _ => none).map Prod.fst = some k → i.valuePath = some [name, k] := by
    intro i k hk
    cases i with
    | table => cases hk
    | value path key value =>
      dsimp only at hk
      split_ifs at hk with hname
      · obtain rfl := Option.some.inj hk
        rw [hname]
        rfl
      · cases hk
  exact hij _ (hpath hk) _ (hpath hk') (by rw [heq])

/-! ### Settings that are wired -/

/-- The settings in place of those with their keys. -/
def setAll (kv : List (Text × Setting)) (cfg : Config) : Config := fun k =>
  match kv.lookup k with
  | some s => some s.pyStr
  | none => cfg k

theorem flat_value (s : Setting) : flat otherText s.value = some s.pyStr := by
  cases s <;> rfl

theorem mergeFlat_of_overrides {path : List Text} {kvs : List (Text × Value V)} (hover : Overrides path kvs is is')
    (hvalid : Valid is) (hvalid' : Valid is') (hname : [name] ≠ path) :
    mergeFlat otherText cfg (tableOf name is') = mergeFlat otherText cfg (tableOf name is) := by
  funext k
  refine mergeFlat_congr (nodup_tableOf hvalid' name) (nodup_tableOf hvalid name) fun v => ?_
  rw [mem_tableOf, mem_tableOf, hover.values, if_neg fun h => hname h.1]

/-- The tables with new entries give the settings with the new ones. -/
theorem mergeTables_overrides {kv : List (Text × Setting)} (hvalid : Valid is)
    (hvalid' : Valid is') (hover : Overrides [osTag os] (settingEntries kv) is is') :
    mergeTables otherText os cfg is' = setAll kv (mergeTables otherText os cfg is) := by
  have hbase : ["base".toList] ≠ [osTag os] := by cases os <;> decide
  have hruntime : ["runtime".toList] ≠ [osTag os] := by cases os <;> decide
  funext k
  rw [mergeTables, mergeTables, mergeFlat_of_overrides hover hvalid hvalid' hbase,
    mergeFlat_of_overrides hover hvalid hvalid' hruntime, setAll]
  cases hlookup : kv.lookup k with
  | some s =>
    have hmem := Assoc.mem_of_lookup hlookup
    have hkey : k ∈ (settingEntries kv : List (Text × Value V)).map Prod.fst := by
      rw [map_fst_settingEntries]
      exact Assoc.mem_keys_of_mem hmem
    have hentry : (k, s.value) ∈ tableOf (osTag os) is' := by
      rw [mem_tableOf, hover.values, if_pos ⟨rfl, hkey⟩]
      exact List.mem_map_of_mem (f := fun s : Text × Setting => (s.1, s.2.value)) hmem
    rw [mergeFlat_of_mem (nodup_tableOf hvalid' _) hentry, flat_value]
    rfl
  | none =>
    refine mergeFlat_congr (nodup_tableOf hvalid' _) (nodup_tableOf hvalid _) fun v => ?_
    have hkey : ¬ ([osTag os] = [osTag os] ∧ k ∈ (settingEntries kv : List (Text × Value V)).map Prod.fst) := by
      rw [map_fst_settingEntries]
      exact fun h => Assoc.lookup_eq_none_iff.mp hlookup h.2
    rw [mem_tableOf, mem_tableOf, hover.values, if_neg hkey]

/-- The keys that a pick is wired under. -/
def wiredKeys : List Text :=
  ["PERSONA_MODEL".toList, "PERSONA_CTX".toList, "MMPROJ_PATH".toList, "VISION_ENABLED".toList]

/-- A tidy file: the headers begin in the first column and those of the section stand alone, no
key that is wired is in quotes, and none of the names is used for something else. -/
structure Tidy (others : Text → Option (V × Text)) (os : Os) (text : Text) (is : List (Item V)) : Prop where
  parse_eq : parse others text = some is
  breaks : parseLines others (PyText.splitlinesL [] text) = parse others text
  header : .table [osTag os] ∈ is → ∃ ln ∈ PyText.splitlinesL [] text, strip ln = sectionOf (osTag os)
  notValue : ∀ name ∈ ["base".toList, "runtime".toList, osTag os], ∀ v, .value [] name v ∉ is
  notTable : ∀ k ∈ wiredKeys, ¬ HasTable is [osTag os, k]
  nextHeader : ownLines others (osTag os) (PyText.splitlinesL [] text) = sectionBody (osTag os) (PyText.splitlinesL [] text)
  unquoted : ∀ k ∈ wiredKeys, ∀ ln ∈ ownLines others (osTag os) (PyText.splitlinesL [] text), ¬ HasKey others true k ln

/-- A missing file is tidy. -/
theorem tidy_nil : Tidy others os [] [] where
  parse_eq := rfl
  breaks := rfl
  header h := by cases h
  notValue _ _ _ h := by cases h
  notTable _ _ := by
    rintro ⟨q, hq, -⟩
    cases hq
  nextHeader := rfl
  unquoted _ _ _ h := by cases h

theorem bare_of_mem_wiredKeys (h : k ∈ wiredKeys) : Bare k := by
  have hall : ∀ k ∈ wiredKeys, Bare k := by decide
  exact hall k h

theorem Tidy.overridden {text : Text} {kv : List (Text × Setting)} (otherText : V → Option Text) (cfg : Config)
    (h : Tidy others os text is)
    (hkeys : ∀ s ∈ kv, s.1 ∈ wiredKeys) (hplain : ∀ s ∈ kv, s.2.Plain) (hnodup : (kv.map Prod.fst).Nodup) :
    ∃ is', parse others (wireConfig text (osTag os) kv).text = some is' ∧
      mergeTables otherText os cfg is' = setAll kv (mergeTables otherText os cfg is) := by
  have hvalid : ∀ {text} {is : List (Item V)}, parse others text = some is → Valid is := by
    intro text is hparse
    obtain ⟨-, -, -, hvalid⟩ := parseLines_eq_some.mp hparse
    exact hvalid
  have heditable : Editable others text (osTag os) kv is :=
    ⟨h.breaks, hplain, h.header, h.notValue _ (by simp), fun s hs => h.notTable _ (hkeys s hs),
      fun s hs => .inr ⟨h.nextHeader, h.unquoted _ (hkeys s hs)⟩⟩
  obtain ⟨is', hparse, hover⟩ := overridden_of_editable (bare_osTag os) (fun s hs => bare_of_mem_wiredKeys (hkeys s hs))
    hnodup h.parse_eq heditable
  exact ⟨is', hparse, mergeTables_overrides (hvalid h.parse_eq) (hvalid hparse) hover⟩

/-! ### Wiring the files -/

/-- A file that can be written. -/
inductive Target where
  | config
  | host

/-- `target_config_path`. -/
def targetConfigPath (files : RunFiles) : Target := if files.host.isSome then .host else .config

/-- The files after `wire_config` has written its target. -/
def wireFiles (files : RunFiles) (os : Os) (kv : List (Text × Setting)) : RunFiles :=
  match targetConfigPath files with
  | .host => { files with host := some (wireConfig (files.host.getD []) (osTag os) kv).text }
  | .config => { files with config := some (wireConfig (files.config.getD []) (osTag os) kv).text }

/-- The file that is written is not read: there is one for the host, and no `config.toml`. -/
def Unread (files : RunFiles) : Prop := files.host.isSome ∧ files.config = none

instance (files : RunFiles) : Decidable (Unread files) := inferInstanceAs (Decidable (_ ∧ _))

/-- The settings of the TOML files, with nothing in a `config.toml` that is not there. -/
def tomlConfig (others : Text → Option (V × Text)) (otherText : V → Option Text) (os : Os) (files : RunFiles) : Config :=
  mergeHostOverrides others otherText os files.host
    (((files.config.bind (parse others)).map (mergeTables otherText os fun _ => none)).getD fun _ => none)

variable {files : RunFiles} {kv : List (Text × Setting)}

theorem loadConfig_of_unread (h : Unread files) :
    loadConfig others otherText os (wireFiles files os kv) = envConfig files := by
  rw [wireFiles, targetConfigPath, if_pos h.1]
  simp [loadConfig, h.2, envConfig]

/-- **What is written is read**, if it is read at all. -/
theorem loadConfig_wireFiles (hconfig : ∀ text ∈ files.config, ∃ is, Tidy others os text is)
    (hhost : ∀ text ∈ files.host, ∃ is, Tidy others os text is) (hkeys : ∀ s ∈ kv, s.1 ∈ wiredKeys)
    (hplain : ∀ s ∈ kv, s.2.Plain) (hnodup : (kv.map Prod.fst).Nodup) (hread : ¬ Unread files) :
    loadConfig others otherText os (wireFiles files os kv) = setAll kv (tomlConfig others otherText os files) := by
  cases hhostFile : files.host with
  | some text =>
    obtain ⟨is, htidy⟩ := hhost text hhostFile
    obtain ⟨config, hconfigFile⟩ : ∃ config, files.config = some config := by
      rw [← Option.ne_none_iff_exists']
      exact fun hnone => hread ⟨by rw [hhostFile]; rfl, hnone⟩
    obtain ⟨is₀, htidy₀⟩ := hconfig config hconfigFile
    obtain ⟨is', hparse, hmerge⟩ := htidy.overridden otherText (mergeTables otherText os (fun _ => none) is₀)
      hkeys hplain hnodup
    simp [wireFiles, targetConfigPath, loadConfig, loadConfigToml, mergeHostOverrides, tomlConfig, hhostFile, hconfigFile,
      htidy₀.parse_eq, htidy.parse_eq, hparse, hmerge]
  | none =>
    obtain ⟨is, htidy, hsettings⟩ : ∃ is, Tidy others os (files.config.getD []) is ∧
        tomlConfig others otherText os files = mergeTables otherText os (fun _ => none) is := by
      cases hconfigFile : files.config with
      | some config =>
        obtain ⟨is, htidy⟩ := hconfig config hconfigFile
        exact ⟨is, htidy, by simp [tomlConfig, mergeHostOverrides, hhostFile, hconfigFile, htidy.parse_eq]⟩
      | none => exact ⟨[], tidy_nil, by simp [tomlConfig, mergeHostOverrides, hhostFile, hconfigFile]; rfl⟩
    obtain ⟨is', hparse, hmerge⟩ := htidy.overridden otherText (fun _ => none) hkeys hplain hnodup
    simp [wireFiles, targetConfigPath, loadConfig, loadConfigToml, mergeHostOverrides, hhostFile, hparse, hmerge, hsettings]

end

end Persona.Provision
