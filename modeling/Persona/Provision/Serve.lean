import Persona.Provision.Config

/-!
# What is provisioned is what is served

A pick is wired into the configuration (`config_kv`, `target_config_path`, `wire_config`), and the
arguments of `llama-server` are built from the configuration that is read afterwards
(`load_config`, `llama_argv`). `Served` says that they are those of the pick.

They are not always: a file for the host is written but not read when there is no `config.toml`
(`Unread`), and a pick without a projector leaves the settings of an earlier one in place. `Fits`
is what it takes, and `provision_served` that it is enough, and that otherwise a pick is only
served by luck, if another argument names its projector (`NamedElsewhere`).

Of `llama_argv` the environment that it returns is left out, and of its errors their texts.
-/

namespace Persona.Provision

open Persona.Lib Persona.TomlText

/-! ### The pick and its settings -/

/-- What of a pick is wired. -/
structure Pick where
  file : Text
  ctx : ℤ
  vision : Bool
  mmproj : Option Text
  visionEnabled : Bool
  /-- Vision is only enabled for a model that has it. -/
  vision_of_enabled : visionEnabled = true → vision = true

/-- The projector that is fetched: `pick.get("vision") and pick.get("mmproj")`. -/
def Pick.projector (pick : Pick) : Option Text := if pick.vision then pick.mmproj.filter (· ≠ []) else none

/-- `resolve_ctx`; `toInt` is `int` of a text, and an existing value is given by its text. -/
def resolveCtx (toInt : Text → Option ℤ) (pickCtx : ℤ) (existingCtx : Option Text) (ggufCtx : Option ℤ) : ℤ :=
  match existingCtx.bind fun t => if strip t ≠ [] then toInt t else none with
  | some existing =>
    match ggufCtx.filter (· ≠ 0) with
    | some gguf => min existing gguf
    | none => existing
  | none => (ggufCtx.filter (· ≠ 0)).getD pickCtx

/-- The settings of a pick with this context. -/
def settingsOf (pick : Pick) (ctx : ℤ) : List (Text × Setting) :=
  [("PERSONA_MODEL".toList, .str pick.file), ("PERSONA_CTX".toList, .int ctx)] ++
    match pick.projector with
    | some mmproj =>
      [("MMPROJ_PATH".toList, .str mmproj), ("VISION_ENABLED".toList, .int (if pick.visionEnabled then 1 else 0))]
    | none => []

/-- `config_kv`. -/
def configKv (toInt : Text → Option ℤ) (pick : Pick) (existingCtx : Option Text) (ggufCtx : Option ℤ) : List (Text × Setting) :=
  settingsOf pick (resolveCtx toInt pick.ctx existingCtx ggufCtx)

/-! ### Words of a shell -/

/-- Where `shlex` is in a text. -/
inductive Shlex where
  | between
  | word
  | quote (q : Char)
  /-- After a backslash, in a word or in quotes. -/
  | escape (quote : Option Char)

/-- The rest of `shlex.split`: the word so far, and whether a part of it was in quotes. `none` when a
quote or a backslash is left open. -/
def shlexFrom : Shlex → Text → Bool → Text → Option (List Text)
  | .between, _, _, [] => some []
  | .between, _, _, c :: cs =>
    if c = ' ' ∨ c = '\t' ∨ c = '\r' ∨ c = '\n' then shlexFrom .between [] false cs
    else if c = '\\' then shlexFrom (.escape none) [] false cs
    else if c = '"' ∨ c = '\'' then shlexFrom (.quote c) [] false cs
    else shlexFrom .word [c] false cs
  | .word, token, quoted, [] => some (if token = [] ∧ quoted = false then [] else [token])
  | .word, token, quoted, c :: cs =>
    if c = ' ' ∨ c = '\t' ∨ c = '\r' ∨ c = '\n' then
      if token = [] ∧ quoted = false then shlexFrom .between [] false cs
      else (shlexFrom .between [] false cs).map (token :: ·)
    else if c = '"' ∨ c = '\'' then shlexFrom (.quote c) token quoted cs
    else if c = '\\' then shlexFrom (.escape none) token quoted cs
    else shlexFrom .word (token ++ [c]) quoted cs
  | .quote _, _, _, [] => none
  | .quote q, token, _, c :: cs =>
    if c = q then shlexFrom .word token true cs
    else if c = '\\' ∧ q = '"' then shlexFrom (.escape (some q)) token true cs
    else shlexFrom (.quote q) (token ++ [c]) true cs
  | .escape _, _, _, [] => none
  | .escape none, token, quoted, c :: cs => shlexFrom .word (token ++ [c]) quoted cs
  | .escape (some q), token, quoted, c :: cs =>
    shlexFrom (.quote q) (token ++ if c ≠ '\\' ∧ c ≠ q then ['\\', c] else [c]) quoted cs

/-- `shlex.split`. -/
def shlexSplit (cs : Text) : Option (List Text) := shlexFrom .between [] false cs

/-! ### The arguments -/

/-- What `llama_argv` sees of the host. -/
structure FileSystem where
  isFile : Text → Bool
  /-- `llama_binary(root)`. -/
  binary : Text
  /-- `root / "models" / name`; a name that is an absolute path stands for itself. -/
  modelPath : Text → Text
  /-- The names of the `.gguf` files in `models/`, sorted. -/
  ggufs : List Text
  /-- `os.cpu_count() or 8`. -/
  cpuCount : ℕ
  /-- The root is an absolute path. -/
  modelPath_absolute : ∀ name, (modelPath name).head? ≠ some '-'

/-- `cfg.get(key, default)`. -/
def Config.get (cfg : Config) (key default : String) : Text := (cfg key.toList).getD default.toList

/-- `resolve_model`. -/
def resolveModel (fs : FileSystem) (cfg : Config) : Option Text :=
  if cfg.get "PERSONA_MODEL" "" ≠ [] ∧ fs.isFile (fs.modelPath (cfg.get "PERSONA_MODEL" "")) then
    some (fs.modelPath (cfg.get "PERSONA_MODEL" ""))
  else
    match fs.ggufs with
    | [present] => some (fs.modelPath present)
    | _ => none

/-- `_truthy`. -/
def truthy (v : Option Text) : Bool :=
  match v with
  | none => false
  | some v => ["1".toList, "true".toList, "yes".toList, "on".toList].contains ((strip v).map PyText.lowerChar)

/-- `_mmproj_args`. -/
def mmprojArgs (fs : FileSystem) (cfg : Config) : List Text :=
  let mm := strip (cfg.get "MMPROJ_PATH" "")
  if truthy (cfg "VISION_ENABLED".toList) = true ∧ mm ≠ [] ∧ fs.isFile (fs.modelPath mm) then
    ["--mmproj".toList, fs.modelPath mm]
  else []

def gpuArgs (cfg : Config) : List Text :=
  let ngl := (strip (cfg.get "GPU_LAYERS_PERSONA" "auto")).map PyText.lowerChar
  if ngl ≠ [] ∧ ngl ≠ "auto".toList then ["--n-gpu-layers".toList, ngl] else []

def deviceArgs (os : Os) (cfg : Config) : List Text :=
  let backend :=
    if cfg.get "LLAMA_BACKEND" "" ≠ [] then cfg.get "LLAMA_BACKEND" ""
    else if os = .windows then "vulkan".toList else []
  if (strip backend).map PyText.lowerChar = "vulkan".toList then ["--device".toList, "Vulkan0".toList] else []

/-- The extra arguments of the host. -/
def extraArgs (cfg : Config) : Option (List Text) :=
  let extra := strip (cfg.get "PERSONA_LLAMA_EXTRA_ARGS" "")
  if extra ≠ [] then shlexSplit extra else some []

def threads (fs : FileSystem) (cfg : Config) : Text :=
  if cfg.get "THREADS" "0" = "0".toList then JsonText.dumpInt fs.cpuCount else cfg.get "THREADS" "0"

def addressArgs (cfg : Config) : List Text :=
  ["--host".toList, cfg.get "HOST" "127.0.0.1", "--port".toList, cfg.get "PERSONA_PORT" "8090"]

def tuningArgs (fs : FileSystem) (cfg : Config) : List Text :=
  ["--threads".toList, threads fs cfg,
    "--batch-size".toList, cfg.get "BATCH_SIZE" "512", "--ubatch-size".toList, cfg.get "UBATCH_SIZE" "512",
    "--cache-type-k".toList, cfg.get "CACHE_TYPE_K" "q8_0", "--cache-type-v".toList, cfg.get "CACHE_TYPE_V" "q8_0",
    "--parallel".toList, cfg.get "PERSONA_PARALLEL" "4", "--cont-batching".toList, "--jinja".toList]

/-- The arguments after the program. -/
def arguments (fs : FileSystem) (os : Os) (cfg : Config) (model : Text) (extra : List Text) : List Text :=
  ["--model".toList, model] ++ (addressArgs cfg ++ (["--ctx-size".toList, cfg.get "PERSONA_CTX" "32768"] ++
    (tuningArgs fs cfg ++ (gpuArgs cfg ++ (mmprojArgs fs cfg ++ (deviceArgs os cfg ++ extra))))))

/-- Why there are no arguments. -/
inductive LaunchError where
  | binaryNotFound
  | modelNotFound
  | extraArgs

/-- `llama_argv`. -/
def llamaArgv (fs : FileSystem) (os : Os) (cfg : Config) : Except LaunchError (List Text) :=
  if !fs.isFile fs.binary then .error .binaryNotFound
  else
    match resolveModel fs cfg with
    | none => .error .modelNotFound
    | some model =>
      match extraArgs cfg with
      | none => .error .extraArgs
      | some extra => .ok (fs.binary :: arguments fs os cfg model extra)

/-! ### What they say -/

/-- What follows the flag, each time that it is there. -/
def values (flag : Text) : List Text → List (Option Text)
  | [] => []
  | a :: as => if a = flag then as.head? :: values flag as else values flag as

def flags : List Text := ["--model".toList, "--ctx-size".toList, "--mmproj".toList]

/-- **The pick is served**: the arguments name its model, its context and, if vision is enabled for
it, its projector, and no other ones. -/
def Served (fs : FileSystem) (os : Os) (cfg : Config) (pick : Pick) (ctx : ℤ) : Prop :=
  ∃ args, llamaArgv fs os cfg = .ok (fs.binary :: args) ∧
    values "--model".toList args = [some (fs.modelPath pick.file)] ∧
    values "--ctx-size".toList args = [some (JsonText.dumpInt ctx)] ∧
    if pick.visionEnabled then ∃ mmproj, pick.projector = some mmproj ∧
      values "--mmproj".toList args = [some (fs.modelPath mmproj)]
    else values "--mmproj".toList args = []

/-- The arguments besides the model, the context and the projector. -/
def otherArgs (fs : FileSystem) (os : Os) (cfg : Config) (extra : List Text) : List Text :=
  addressArgs cfg ++ (tuningArgs fs cfg ++ (gpuArgs cfg ++ (deviceArgs os cfg ++ extra)))

section

variable {flag a b : Text} {xs ys : List Text}

theorem values_of_notMem (h : flag ∉ xs) : values flag (xs ++ ys) = values flag ys := by
  induction xs with
  | nil => rfl
  | cons x xs ih =>
    rw [List.mem_cons, not_or] at h
    rw [List.cons_append, values, if_neg (Ne.symm h.1), ih h.2]

theorem values_eq_nil_iff : values flag xs = [] ↔ flag ∉ xs := by
  induction xs with
  | nil => simp [values]
  | cons x xs ih =>
    rw [values, List.mem_cons, not_or]
    by_cases hx : x = flag
    · simp [hx]
    · rw [if_neg hx, ih]
      exact ⟨fun h => ⟨Ne.symm hx, h⟩, fun h => h.2⟩

theorem length_values : (values flag xs).length = xs.count flag := by
  induction xs with
  | nil => rfl
  | cons x xs ih =>
    rw [values, List.count_cons]
    by_cases hx : x = flag
    · simp [hx, ih]
    · simp [hx, ih]

/-- A flag is given once, with this value. -/
theorem values_eq_singleton_iff : values flag (xs ++ flag :: a :: ys) = [some b] ↔
    b = a ∧ flag ∉ xs ∧ flag ∉ a :: ys := by
  have hvalues : values flag (flag :: a :: ys) = some a :: values flag (a :: ys) := by
    rw [values, if_pos rfl]
    rfl
  constructor
  · intro h
    have hlen := congrArg List.length h
    rw [length_values, List.count_append, List.count_cons_self] at hlen
    have hxs : flag ∉ xs := List.count_eq_zero.mp (by simp at hlen; omega)
    have hys : flag ∉ a :: ys := List.count_eq_zero.mp (by simp at hlen; omega)
    rw [values_of_notMem hxs, hvalues] at h
    exact ⟨(Option.some.inj (List.cons.inj h).1).symm, hxs, hys⟩
  · rintro ⟨rfl, hxs, hys⟩
    rw [values_of_notMem hxs, hvalues, values_eq_nil_iff.mpr hys]

variable {fs : FileSystem} {os : Os} {cfg : Config} {model : Text} {extra : List Text}

theorem modelPath_notMem_flags (name : Text) : fs.modelPath name ∉ flags := by
  have hall : ∀ flag ∈ flags, flag.head? = some '-' := by decide
  exact fun h => fs.modelPath_absolute name (hall _ h)

theorem dumpInt_notMem_flags (n : ℤ) : JsonText.dumpInt n ∉ flags := by
  have hall : ∀ flag ∈ flags, ∃ c ∈ flag, c ≠ '-' ∧ c.isDigit = false := by decide
  intro h
  obtain ⟨c, hc, hdash, hdigit⟩ := hall _ h
  rcases mem_dumpInt hc with rfl | htrue
  · exact hdash rfl
  · rw [htrue] at hdigit
    cases hdigit

theorem resolveModel_eq (h : resolveModel fs cfg = some model) : ∃ name, model = fs.modelPath name := by
  rw [resolveModel] at h
  split_ifs at h
  · exact ⟨_, (Option.some.inj h).symm⟩
  · split at h
    · exact ⟨_, (Option.some.inj h).symm⟩
    · cases h

theorem mmprojArgs_cases (fs : FileSystem) (cfg : Config) :
    mmprojArgs fs cfg = [] ∨ ∃ name, mmprojArgs fs cfg = ["--mmproj".toList, fs.modelPath name] := by
  rw [mmprojArgs]
  split_ifs
  · exact .inr ⟨_, rfl⟩
  · exact .inl rfl

theorem eq_of_mem_mmprojArgs (hflag : flag ∈ flags) (h : flag ∈ mmprojArgs fs cfg) : flag = "--mmproj".toList := by
  rcases mmprojArgs_cases fs cfg with heq | ⟨name, heq⟩
  · rw [heq] at h
    cases h
  · rw [heq] at h
    rcases List.mem_cons.mp h with h | h
    · exact h
    · exact absurd (List.mem_singleton.mp h ▸ hflag) (modelPath_notMem_flags name)

/-- When the model is the one that is named. -/
theorem values_model (hmodel : model ∉ flags) (hctx : cfg.get "PERSONA_CTX" "32768" ∉ flags) :
    values "--model".toList (arguments fs os cfg model extra) = [some b] ↔
      b = model ∧ "--model".toList ∉ otherArgs fs os cfg extra := by
  have hmem : "--model".toList ∈ flags := by decide
  have hneModel : "--model".toList ≠ model := fun h => hmodel (h ▸ hmem)
  have hneCtx : "--model".toList ≠ cfg.get "PERSONA_CTX" "32768" := fun h => hctx (h ▸ hmem)
  have hneFlag : "--model".toList ≠ "--ctx-size".toList := by decide
  have hmm : "--model".toList ∉ mmprojArgs fs cfg := fun h => absurd (eq_of_mem_mmprojArgs hmem h) (by decide)
  have hshape : arguments fs os cfg model extra = [] ++ "--model".toList :: model :: (addressArgs cfg ++
      (["--ctx-size".toList, cfg.get "PERSONA_CTX" "32768"] ++
        (tuningArgs fs cfg ++ (gpuArgs cfg ++ (mmprojArgs fs cfg ++ (deviceArgs os cfg ++ extra)))))) := rfl
  rw [hshape, values_eq_singleton_iff]
  simp only [otherArgs, List.mem_append, List.mem_cons, List.not_mem_nil, hneModel, hneCtx, hneFlag, hmm, false_or,
    not_false_eq_true, true_and]

/-- When the context is the one that is given. -/
theorem values_ctx (hmodel : model ∉ flags) :
    values "--ctx-size".toList (arguments fs os cfg model extra) = [some b] ↔
      b = cfg.get "PERSONA_CTX" "32768" ∧ cfg.get "PERSONA_CTX" "32768" ≠ "--ctx-size".toList ∧
        "--ctx-size".toList ∉ otherArgs fs os cfg extra := by
  have hmem : "--ctx-size".toList ∈ flags := by decide
  have hneModel : "--ctx-size".toList ≠ model := fun h => hmodel (h ▸ hmem)
  have hneFlag : "--ctx-size".toList ≠ "--model".toList := by decide
  have hmm : "--ctx-size".toList ∉ mmprojArgs fs cfg := fun h => absurd (eq_of_mem_mmprojArgs hmem h) (by decide)
  have hshape : arguments fs os cfg model extra = (["--model".toList, model] ++ addressArgs cfg) ++
      "--ctx-size".toList :: cfg.get "PERSONA_CTX" "32768" ::
        (tuningArgs fs cfg ++ (gpuArgs cfg ++ (mmprojArgs fs cfg ++ (deviceArgs os cfg ++ extra)))) := rfl
  rw [hshape, values_eq_singleton_iff]
  simp only [otherArgs, List.mem_append, List.mem_cons, List.not_mem_nil, hneModel, hneFlag, hmm, false_or, not_or]
  constructor
  · rintro ⟨hb, haddress, hne, hrest⟩
    exact ⟨hb, Ne.symm hne, haddress, hrest⟩
  · rintro ⟨hb, hne, haddress, hrest⟩
    exact ⟨hb, haddress, Ne.symm hne, hrest⟩

/-- If no other argument is the flag, it is there with the projector. -/
theorem values_mmproj (hmodel : model ∉ flags) (hctx : cfg.get "PERSONA_CTX" "32768" ∉ flags)
    (hother : "--mmproj".toList ∉ otherArgs fs os cfg extra) :
    values "--mmproj".toList (arguments fs os cfg model extra) = (mmprojArgs fs cfg).tail.map some := by
  have hmem : "--mmproj".toList ∈ flags := by decide
  have hneModel : "--mmproj".toList ≠ model := fun h => hmodel (h ▸ hmem)
  have hneCtx : "--mmproj".toList ≠ cfg.get "PERSONA_CTX" "32768" := fun h => hctx (h ▸ hmem)
  have hneFlag : "--mmproj".toList ≠ "--model".toList := by decide
  have hneFlag' : "--mmproj".toList ≠ "--ctx-size".toList := by decide
  simp only [otherArgs, List.mem_append, not_or] at hother
  obtain ⟨haddress, htuning, hgpu, hdevice, hextra⟩ := hother
  have hbefore : "--mmproj".toList ∉ ["--model".toList, model] ++ addressArgs cfg ++
      ["--ctx-size".toList, cfg.get "PERSONA_CTX" "32768"] ++ tuningArgs fs cfg ++ gpuArgs cfg := by
    simp only [List.mem_append, List.mem_cons, List.not_mem_nil, hneModel, hneCtx, hneFlag, hneFlag', haddress, htuning,
      hgpu, or_false, not_false_eq_true]
  have hshape : arguments fs os cfg model extra = (["--model".toList, model] ++ addressArgs cfg ++
      ["--ctx-size".toList, cfg.get "PERSONA_CTX" "32768"] ++ tuningArgs fs cfg ++ gpuArgs cfg) ++
        (mmprojArgs fs cfg ++ (deviceArgs os cfg ++ extra)) := by
    simp only [arguments, List.append_assoc]
  have hafter : "--mmproj".toList ∉ deviceArgs os cfg ++ extra := by
    simp only [List.mem_append, hdevice, hextra, or_false, not_false_eq_true]
  rw [hshape, values_of_notMem hbefore]
  rcases mmprojArgs_cases fs cfg with heq | ⟨name, heq⟩
  · rw [heq]
    exact values_eq_nil_iff.mpr hafter
  · have hname : "--mmproj".toList ≠ fs.modelPath name := fun h => modelPath_notMem_flags name (h ▸ hmem)
    rw [heq]
    have hsingle : values "--mmproj".toList ([] ++ "--mmproj".toList :: fs.modelPath name :: (deviceArgs os cfg ++ extra)) =
        [some (fs.modelPath name)] :=
      values_eq_singleton_iff.mpr ⟨rfl, List.not_mem_nil, List.not_mem_cons_of_ne_of_not_mem hname hafter⟩
    exact hsingle

theorem notMem_otherArgs (h : "--mmproj".toList ∉ arguments fs os cfg model extra) :
    "--mmproj".toList ∉ otherArgs fs os cfg extra := by
  simp only [arguments, List.mem_append, not_or] at h
  obtain ⟨-, haddress, -, htuning, hgpu, -, hdevice, hextra⟩ := h
  simp only [otherArgs, List.mem_append, not_or]
  exact ⟨haddress, htuning, hgpu, hdevice, hextra⟩

/-! ### When the arguments are those of the pick -/

/-- The arguments for the projector of the pick. -/
def Pick.mmprojArgs (pick : Pick) (fs : FileSystem) : List Text :=
  if pick.visionEnabled then
    match pick.projector with
    | some mmproj => ["--mmproj".toList, fs.modelPath mmproj]
    | none => []
  else []

variable {pick : Pick} {ctx : ℤ}

theorem served_of (hbinary : fs.isFile fs.binary = true) (hmodel : resolveModel fs cfg = some (fs.modelPath pick.file))
    (hctx : cfg.get "PERSONA_CTX" "32768" = JsonText.dumpInt ctx) (hextra : extraArgs cfg = some extra)
    (hother : ∀ flag ∈ flags, flag ∉ otherArgs fs os cfg extra) (hmmproj : mmprojArgs fs cfg = pick.mmprojArgs fs)
    (henabled : pick.visionEnabled = true → pick.projector.isSome) : Served fs os cfg pick ctx := by
  have hnotModel : fs.modelPath pick.file ∉ flags := modelPath_notMem_flags pick.file
  have hnotCtx : cfg.get "PERSONA_CTX" "32768" ∉ flags := hctx ▸ dumpInt_notMem_flags ctx
  have hmm : values "--mmproj".toList (arguments fs os cfg (fs.modelPath pick.file) extra) = (mmprojArgs fs cfg).tail.map some :=
    values_mmproj hnotModel hnotCtx (hother _ (by decide))
  rw [hmmproj] at hmm
  refine ⟨arguments fs os cfg (fs.modelPath pick.file) extra, by simp [llamaArgv, hbinary, hmodel, hextra],
    (values_model hnotModel hnotCtx).mpr ⟨rfl, hother _ (by decide)⟩,
    (values_ctx hnotModel).mpr ⟨hctx.symm, fun h => hnotCtx (h ▸ by decide), hother _ (by decide)⟩, ?_⟩
  rw [Pick.mmprojArgs] at hmm
  split_ifs at hmm ⊢ with hvision
  · obtain ⟨mmproj, hprojector⟩ := Option.isSome_iff_exists.mp (henabled hvision)
    rw [hprojector] at hmm
    exact ⟨mmproj, hprojector, hmm⟩
  · exact hmm

/-- What holds of a pick that is served, unless its projector is named by another argument. -/
theorem of_served (h : Served fs os cfg pick ctx) :
    resolveModel fs cfg = some (fs.modelPath pick.file) ∧ cfg.get "PERSONA_CTX" "32768" = JsonText.dumpInt ctx ∧
      ∃ extra, extraArgs cfg = some extra ∧ (pick.visionEnabled = true ∧ "--mmproj".toList ∈ otherArgs fs os cfg extra ∨
        (∀ flag ∈ flags, flag ∉ otherArgs fs os cfg extra) ∧ mmprojArgs fs cfg = pick.mmprojArgs fs ∧
          (pick.visionEnabled = true → pick.projector.isSome)) := by
  obtain ⟨args, hargv, hmodel, hctx, hmm⟩ := h
  rw [llamaArgv] at hargv
  split_ifs at hargv
  split at hargv
  · cases hargv
  · rename_i model hresolve
    split at hargv
    · cases hargv
    · rename_i extra hextra
      obtain rfl : arguments fs os cfg model extra = args := (List.cons.inj (Except.ok.inj hargv)).2
      obtain ⟨name, rfl⟩ := resolveModel_eq hresolve
      have hnotModel : fs.modelPath name ∉ flags := modelPath_notMem_flags name
      obtain ⟨hctx, -, hotherCtx⟩ := (values_ctx hnotModel).mp hctx
      have hnotCtx : cfg.get "PERSONA_CTX" "32768" ∉ flags := hctx ▸ dumpInt_notMem_flags ctx
      obtain ⟨hname, hotherModel⟩ := (values_model hnotModel hnotCtx).mp hmodel
      refine ⟨hname ▸ hresolve, hctx.symm, extra, hextra, ?_⟩
      by_cases hother : "--mmproj".toList ∈ otherArgs fs os cfg extra
      · refine .inl ⟨?_, hother⟩
        by_contra hvision
        rw [if_neg hvision] at hmm
        exact notMem_otherArgs (values_eq_nil_iff.mp hmm) hother
      · refine .inr ⟨?_, ?_⟩
        · simp only [flags, List.forall_mem_cons]
          exact ⟨hotherModel, hotherCtx, hother, by simp⟩
        · have hcases := mmprojArgs_cases fs cfg
          rw [values_mmproj hnotModel hnotCtx hother] at hmm
          rw [Pick.mmprojArgs]
          split_ifs at hmm ⊢ with hvision
          · obtain ⟨mmproj, hprojector, hmm⟩ := hmm
            rw [hprojector]
            refine ⟨?_, fun _ => rfl⟩
            rcases hcases with heq | ⟨other, heq⟩
            · rw [heq] at hmm
              cases hmm
            · rw [heq] at hmm ⊢
              exact congrArg (["--mmproj".toList, ·]) (Option.some.inj (List.cons.inj hmm).1)
          · refine ⟨?_, fun h => absurd h hvision⟩
            rcases hcases with heq | ⟨other, heq⟩
            · exact heq
            · rw [heq] at hmm
              cases hmm

/-! ### The settings after the pick is wired -/

theorem keys_settingsOf (pick : Pick) (ctx : ℤ) :
    (∀ s ∈ settingsOf pick ctx, s.1 ∈ wiredKeys) ∧ ((settingsOf pick ctx).map Prod.fst).Nodup := by
  rw [settingsOf]
  cases pick.projector with
  | none => exact ⟨by simp [wiredKeys], by simp⟩
  | some mmproj => exact ⟨by simp [wiredKeys], by simp⟩

/-- Other settings stay. -/
theorem get_setAll (pick : Pick) (ctx : ℤ) (cfg : Config) {key : String} (hkey : key.toList ∉ wiredKeys) (default : String) :
    (setAll (settingsOf pick ctx) cfg).get key default = cfg.get key default := by
  have hnone : (settingsOf pick ctx).lookup key.toList = none := by
    rw [Assoc.lookup_eq_none_iff]
    intro hmem
    obtain ⟨s, hs, heq⟩ := List.mem_map.mp hmem
    exact hkey (heq ▸ (keys_settingsOf pick ctx).1 s hs)
  rw [Config.get, Config.get, setAll, hnone]

theorem otherArgs_setAll (fs : FileSystem) (os : Os) (cfg : Config) (extra : List Text) (pick : Pick) (ctx : ℤ) :
    extraArgs (setAll (settingsOf pick ctx) cfg) = extraArgs cfg ∧
      otherArgs fs os (setAll (settingsOf pick ctx) cfg) extra = otherArgs fs os cfg extra := by
  have hkeys : ∀ key ∈ ["HOST", "PERSONA_PORT", "THREADS", "BATCH_SIZE", "UBATCH_SIZE", "CACHE_TYPE_K", "CACHE_TYPE_V",
      "PERSONA_PARALLEL", "GPU_LAYERS_PERSONA", "LLAMA_BACKEND", "PERSONA_LLAMA_EXTRA_ARGS"], key.toList ∉ wiredKeys := by
    decide
  have hget := fun key hkey => get_setAll pick ctx cfg (hkeys key hkey)
  simp only [List.forall_mem_cons] at hget
  simp only [extraArgs, otherArgs, addressArgs, tuningArgs, threads, gpuArgs, deviceArgs, hget, and_self]

/-- What the settings of the pick make of the projector. -/
theorem mmprojArgs_setAll (pick : Pick) (ctx : ℤ) : mmprojArgs fs (setAll (settingsOf pick ctx) cfg) =
    match pick.projector with
    | some mmproj =>
      if pick.visionEnabled = true ∧ strip mmproj ≠ [] ∧ fs.isFile (fs.modelPath (strip mmproj)) = true then
        ["--mmproj".toList, fs.modelPath (strip mmproj)]
      else []
    | none => mmprojArgs fs cfg := by
  cases hprojector : pick.projector with
  | none =>
    have hpath : setAll (settingsOf pick ctx) cfg "MMPROJ_PATH".toList = cfg "MMPROJ_PATH".toList := by
      simp only [setAll, settingsOf, hprojector]
      rfl
    have hvision : setAll (settingsOf pick ctx) cfg "VISION_ENABLED".toList = cfg "VISION_ENABLED".toList := by
      simp only [setAll, settingsOf, hprojector]
      rfl
    rw [mmprojArgs, mmprojArgs, Config.get, Config.get, hpath, hvision]
  | some mmproj =>
    have hpath : setAll (settingsOf pick ctx) cfg "MMPROJ_PATH".toList = some mmproj := by
      simp only [setAll, settingsOf, hprojector]
      rfl
    have hvision : setAll (settingsOf pick ctx) cfg "VISION_ENABLED".toList =
        some (JsonText.dumpInt (if pick.visionEnabled then 1 else 0)) := by
      simp only [setAll, settingsOf, hprojector]
      rfl
    have htruthy : truthy (some (JsonText.dumpInt (if pick.visionEnabled then 1 else 0))) = pick.visionEnabled := by
      cases pick.visionEnabled <;> decide
    simp only [mmprojArgs, Config.get, hpath, hvision, htruthy, Option.getD_some]

theorem get_model_setAll (pick : Pick) (ctx : ℤ) (cfg : Config) :
    (setAll (settingsOf pick ctx) cfg).get "PERSONA_MODEL" "" = pick.file := rfl

theorem get_ctx_setAll (pick : Pick) (ctx : ℤ) (cfg : Config) :
    (setAll (settingsOf pick ctx) cfg).get "PERSONA_CTX" "32768" = JsonText.dumpInt ctx := rfl

/-! ### When a pick is served -/

/-- The files of the pick are on disk. -/
structure OnDisk (fs : FileSystem) (pick : Pick) : Prop where
  file_ne : pick.file ≠ []
  file : fs.isFile (fs.modelPath pick.file) = true
  projector : ∀ mmproj ∈ pick.projector, fs.isFile (fs.modelPath mmproj) = true

variable {V : Type*} (others : Text → Option (V × Text)) (otherText : V → Option Text)

/-- The settings that stay: those of the `.env` files, if what is written is not read. -/
def oldConfig (os : Os) (files : RunFiles) : Config :=
  if Unread files then envConfig files else tomlConfig others otherText os files

/-- What it takes to serve a pick. -/
structure Fits (fs : FileSystem) (os : Os) (files : RunFiles) (pick : Pick) (ctx : ℤ) : Prop where
  /-- If what is written is not read, the `.env` files have the settings already. -/
  unread : Unread files → resolveModel fs (envConfig files) = some (fs.modelPath pick.file) ∧
    (envConfig files).get "PERSONA_CTX" "32768" = JsonText.dumpInt ctx ∧ mmprojArgs fs (envConfig files) = pick.mmprojArgs fs
  /-- A pick with vision has a projector, whose name does not begin or end with a space. -/
  vision : pick.visionEnabled = true → ∃ mmproj, pick.projector = some mmproj ∧
    (¬ Unread files → strip mmproj ≠ [] ∧ fs.modelPath (strip mmproj) = fs.modelPath mmproj)
  /-- If the pick has no projector, there is none left of an earlier one. -/
  noProjector : ¬ Unread files → pick.projector = none → mmprojArgs fs (tomlConfig others otherText os files) = []
  /-- No other argument is one of the flags. -/
  other : ∃ extra, extraArgs (oldConfig others otherText os files) = some extra ∧
    ∀ flag ∈ flags, flag ∉ otherArgs fs os (oldConfig others otherText os files) extra

/-- Vision is enabled for the pick, and another argument is `--mmproj` already. -/
def NamedElsewhere (fs : FileSystem) (os : Os) (files : RunFiles) (pick : Pick) : Prop :=
  pick.visionEnabled = true ∧ ∃ extra, extraArgs (oldConfig others otherText os files) = some extra ∧
    "--mmproj".toList ∈ otherArgs fs os (oldConfig others otherText os files) extra

variable {others otherText} {files : RunFiles}

theorem plain_settingsOf (hfile : TomlText.Plain pick.file) (hprojector : ∀ mmproj ∈ pick.projector, TomlText.Plain mmproj)
    (ctx : ℤ) : ∀ s ∈ settingsOf pick ctx, s.2.Plain := by
  intro s hs
  rw [settingsOf] at hs
  cases hmmproj : pick.projector with
  | none =>
    rw [hmmproj] at hs
    simp only [List.append_nil, List.mem_cons, List.not_mem_nil, or_false] at hs
    rcases hs with rfl | rfl
    · exact hfile
    · trivial
  | some mmproj =>
    rw [hmmproj] at hs
    simp only [List.cons_append, List.nil_append, List.mem_cons, List.not_mem_nil, or_false] at hs
    rcases hs with rfl | rfl | rfl | rfl
    · exact hfile
    · trivial
    · exact hprojector mmproj hmmproj
    · trivial

/-- The model of a pick on disk is found. -/
theorem resolveModel_setAll (hdisk : OnDisk fs pick) (ctx : ℤ) (cfg : Config) :
    resolveModel fs (setAll (settingsOf pick ctx) cfg) = some (fs.modelPath pick.file) := by
  rw [resolveModel, get_model_setAll, if_pos ⟨hdisk.file_ne, hdisk.file⟩]

/-- The projector arguments are right if and only if the name is, or nothing is left behind. -/
theorem mmprojArgs_setAll_eq_iff (hdisk : OnDisk fs pick) (ctx : ℤ) (cfg : Config)
    (henabled : pick.visionEnabled = true → pick.projector.isSome) :
    mmprojArgs fs (setAll (settingsOf pick ctx) cfg) = pick.mmprojArgs fs ↔
      (∀ mmproj, pick.visionEnabled = true → pick.projector = some mmproj →
        strip mmproj ≠ [] ∧ fs.modelPath (strip mmproj) = fs.modelPath mmproj) ∧
      (pick.projector = none → mmprojArgs fs cfg = []) := by
  rw [mmprojArgs_setAll, Pick.mmprojArgs]
  cases hprojector : pick.projector with
  | none =>
    have hvision : ¬ pick.visionEnabled = true := fun h => by simpa [hprojector] using henabled h
    simp [hvision]
  | some mmproj =>
    by_cases hvision : pick.visionEnabled = true
    · have hfile := hdisk.projector mmproj hprojector
      constructor
      · intro h
        refine ⟨fun other _ heq => ?_, fun heq => by cases heq⟩
        obtain rfl := Option.some.inj heq
        dsimp only at h
        split_ifs at h with hcond
        exact ⟨hcond.2.1, by simpa using h⟩
      · rintro ⟨hname, -⟩
        obtain ⟨hne, hpath⟩ := hname mmproj hvision rfl
        dsimp only
        rw [if_pos ⟨hvision, hne, by rw [hpath]; exact hfile⟩, if_pos hvision, hpath]
    · simp [hvision]

theorem Fits.isSome_projector {ctx : ℤ} (h : Fits others otherText fs os files pick ctx) (hvision : pick.visionEnabled = true) :
    pick.projector.isSome := by
  obtain ⟨mmproj, hmmproj, -⟩ := h.vision hvision
  rw [hmmproj, Option.isSome_some]

/-- **When what is provisioned is served**: if the pick fits; a pick that does not is served only by
luck, because another argument names its projector. -/
theorem provision_served (hbinary : fs.isFile fs.binary = true) (hdisk : OnDisk fs pick)
    (hfile : TomlText.Plain pick.file) (hprojector : ∀ mmproj ∈ pick.projector, TomlText.Plain mmproj)
    (hconfig : ∀ text ∈ files.config, ∃ is, Tidy others os text is)
    (hhost : ∀ text ∈ files.host, ∃ is, Tidy others os text is)
    (toInt : Text → Option ℤ) (existingCtx : Option Text) (ggufCtx : Option ℤ) :
    (Fits others otherText fs os files pick (resolveCtx toInt pick.ctx existingCtx ggufCtx) →
      Served fs os (loadConfig others otherText os (wireFiles files os (configKv toInt pick existingCtx ggufCtx))) pick
        (resolveCtx toInt pick.ctx existingCtx ggufCtx)) ∧
    (Served fs os (loadConfig others otherText os (wireFiles files os (configKv toInt pick existingCtx ggufCtx))) pick
        (resolveCtx toInt pick.ctx existingCtx ggufCtx) →
      Fits others otherText fs os files pick (resolveCtx toInt pick.ctx existingCtx ggufCtx) ∨
        NamedElsewhere others otherText fs os files pick) := by
  rw [configKv]
  generalize resolveCtx toInt pick.ctx existingCtx ggufCtx = ctx
  by_cases hunread : Unread files
  · have hold : oldConfig others otherText os files = envConfig files := if_pos hunread
    rw [loadConfig_of_unread hunread]
    constructor
    · intro h
      obtain ⟨hmodel, hctx, hmmproj⟩ := h.unread hunread
      obtain ⟨extra, hextra, hother⟩ := h.other
      rw [hold] at hextra hother
      exact served_of hbinary hmodel hctx hextra hother hmmproj h.isSome_projector
    · intro h
      obtain ⟨hmodel, hctx, extra, hextra, hcases⟩ := of_served h
      rcases hcases with ⟨hvision, hmem⟩ | ⟨hother, hmmproj, henabled⟩
      · exact .inr ⟨hvision, extra, by rw [hold]; exact hextra, by rw [hold]; exact hmem⟩
      · refine .inl ⟨fun _ => ⟨hmodel, hctx, hmmproj⟩, fun hvision => ?_, fun h => absurd hunread h,
          extra, by rw [hold]; exact hextra, by rw [hold]; exact hother⟩
        obtain ⟨mmproj, hsome⟩ := Option.isSome_iff_exists.mp (henabled hvision)
        exact ⟨mmproj, hsome, fun h => absurd hunread h⟩
  · have hold : oldConfig others otherText os files = tomlConfig others otherText os files := if_neg hunread
    obtain ⟨hkeys, hnodup⟩ := keys_settingsOf pick ctx
    rw [loadConfig_wireFiles hconfig hhost hkeys (plain_settingsOf hfile hprojector ctx) hnodup hunread]
    constructor
    · intro h
      obtain ⟨extra, hextra, hother⟩ := h.other
      rw [hold] at hextra hother
      obtain ⟨hsameExtra, hsame⟩ := otherArgs_setAll fs os (tomlConfig others otherText os files) extra pick ctx
      refine served_of hbinary (resolveModel_setAll hdisk ctx _) (get_ctx_setAll pick ctx _) (hsameExtra.trans hextra)
        (by rw [hsame]; exact hother)
        ((mmprojArgs_setAll_eq_iff hdisk ctx _ h.isSome_projector).mpr ⟨?_, h.noProjector hunread⟩) h.isSome_projector
      intro mmproj hvision hsome
      obtain ⟨other, hother, hname⟩ := h.vision hvision
      obtain rfl := Option.some.inj (hsome.symm.trans hother)
      exact hname hunread
    · intro h
      obtain ⟨-, -, extra, hextra, hcases⟩ := of_served h
      obtain ⟨hsameExtra, hsame⟩ := otherArgs_setAll fs os (tomlConfig others otherText os files) extra pick ctx
      rw [hsame] at hcases
      rw [hsameExtra] at hextra
      rcases hcases with ⟨hvision, hmem⟩ | ⟨hother, hmmproj, henabled⟩
      · exact .inr ⟨hvision, extra, by rw [hold]; exact hextra, by rw [hold]; exact hmem⟩
      · obtain ⟨hname, hnone⟩ := (mmprojArgs_setAll_eq_iff hdisk ctx _ henabled).mp hmmproj
        refine .inl ⟨fun h => absurd h hunread, fun hvision => ?_, fun _ => hnone,
          extra, by rw [hold]; exact hextra, by rw [hold]; exact hother⟩
        obtain ⟨mmproj, hsome⟩ := Option.isSome_iff_exists.mp (henabled hvision)
        exact ⟨mmproj, hsome, fun _ => hname mmproj hvision hsome⟩

end

/-! ### Two picks without vision -/

/-- A host with three models and a projector. -/
def smallHost : FileSystem where
  isFile path := ["/p/llama-server".toList, "/p/models/old.gguf".toList, "/p/models/new.gguf".toList,
    "/p/models/old-mmproj.gguf".toList].contains path
  binary := "/p/llama-server".toList
  modelPath name := if name.head? = some '/' then name else "/p/models/".toList ++ name
  ggufs := ["new.gguf".toList, "old-mmproj.gguf".toList, "old.gguf".toList]
  cpuCount := 8
  modelPath_absolute name := by
    split_ifs with h
    · rw [h]
      decide
    · rw [List.head?_append_of_ne_nil _ (by decide)]
      decide

def textPick : Pick where
  file := "new.gguf".toList
  ctx := 8192
  vision := false
  mmproj := none
  visionEnabled := false
  vision_of_enabled := by decide

def noOtherText : Empty → Option Text := fun v => nomatch v

/-- The files with this `config.toml` only. -/
def onlyConfig (text : String) : RunFiles := ⟨some text.toList, none, none, none, none⟩

def textConfig : String := "[base]\nHOST = \"127.0.0.1\"\n\n[linux]\nPERSONA_MODEL = \"old.gguf\"\nPERSONA_CTX = 4096\n"

def visionConfig : String :=
  "[linux]\nPERSONA_MODEL = \"old.gguf\"\nMMPROJ_PATH = \"old-mmproj.gguf\"\nVISION_ENABLED = 1\n"

theorem onDisk_textPick : OnDisk smallHost textPick :=
  ⟨by decide, by decide, fun mmproj h => by cases h⟩

theorem tidy_textConfig : ∃ is, Tidy noOthers .linux textConfig.toList is := by
  rw [textConfig, String.toList_ofList]
  refine ⟨[.table ["base".toList], .value ["base".toList] "HOST".toList (.str "127.0.0.1".toList), .table ["linux".toList],
    .value ["linux".toList] "PERSONA_MODEL".toList (.str "old.gguf".toList),
    .value ["linux".toList] "PERSONA_CTX".toList (.int 4096)], by decide, by decide,
    fun _ => by decide, fun name _ v h => ?_, fun k hk => ?_, by decide, by decide⟩
  · simp at h
  · rintro ⟨q, hq, hprefix⟩
    have hlen := hprefix.length_le
    simp only [List.mem_cons, Item.table.injEq, reduceCtorEq, false_or, or_false, List.not_mem_nil] at hq
    rcases hq with rfl | rfl <;> simp at hlen

theorem fits_textConfig : Fits noOthers noOtherText smallHost .linux (onlyConfig textConfig) textPick 8192 := by
  have hread : ¬ Unread (onlyConfig textConfig) := by decide
  have hvision : ¬ textPick.visionEnabled = true := by decide
  rw [onlyConfig, textConfig, String.toList_ofList] at hread ⊢
  exact ⟨fun h => absurd h hread, fun h => absurd h hvision, fun _ _ => by decide, [], by decide,
    by decide⟩

/-- A pick without vision after another one. -/
theorem served_textPick : Served smallHost .linux
    (loadConfig noOthers noOtherText .linux (wireFiles (onlyConfig textConfig) .linux (configKv (fun _ => none) textPick none none)))
    textPick 8192 :=
  (provision_served (by decide) onDisk_textPick (by decide) (fun mmproj h => by cases h)
    (fun text h => by obtain rfl := Option.some.inj h; exact tidy_textConfig) (fun text h => by cases h)
    (fun _ => none) none none).1 fits_textConfig

theorem tidy_visionConfig : ∃ is, Tidy noOthers .linux visionConfig.toList is := by
  rw [visionConfig, String.toList_ofList]
  refine ⟨[.table ["linux".toList], .value ["linux".toList] "PERSONA_MODEL".toList (.str "old.gguf".toList),
    .value ["linux".toList] "MMPROJ_PATH".toList (.str "old-mmproj.gguf".toList),
    .value ["linux".toList] "VISION_ENABLED".toList (.int 1)], by decide, by decide,
    fun _ => by decide, fun name _ v h => ?_, fun k hk => ?_, by decide, by decide⟩
  · simp at h
  · rintro ⟨q, hq, hprefix⟩
    have hlen := hprefix.length_le
    simp only [List.mem_cons, Item.table.injEq, reduceCtorEq, or_false, List.not_mem_nil] at hq
    rcases hq with rfl
    simp at hlen

/-- After a pick with vision, one without it is served with the projector of the other. -/
theorem not_served_textPick : ∃ (fs : FileSystem) (os : Os) (files : RunFiles) (pick : Pick),
    fs.isFile fs.binary = true ∧ OnDisk fs pick ∧ TomlText.Plain pick.file ∧ pick.projector = none ∧
      (∀ text ∈ files.config, ∃ is, Tidy noOthers os text is) ∧ files.host = none ∧
      ¬ Served fs os (loadConfig noOthers noOtherText os (wireFiles files os (configKv (fun _ => none) pick none none))) pick
        (resolveCtx (fun _ => none) pick.ctx none none) := by
  refine ⟨smallHost, .linux, onlyConfig visionConfig, textPick, by decide, onDisk_textPick, by decide, rfl,
    fun text h => ?_, rfl, fun hserved => ?_⟩
  · obtain rfl := Option.some.inj h
    exact tidy_visionConfig
  · have hold : mmprojArgs smallHost (loadConfig noOthers noOtherText .linux
        (wireFiles (onlyConfig visionConfig) .linux (configKv (fun _ => none) textPick none none))) =
        ["--mmproj".toList, "/p/models/old-mmproj.gguf".toList] := by
      rw [onlyConfig, visionConfig, String.toList_ofList]
      decide
    obtain ⟨-, -, extra, -, ⟨hvision, -⟩ | ⟨-, hmmproj, -⟩⟩ := of_served hserved
    · cases hvision
    · rw [hold] at hmmproj
      cases hmmproj

end Persona.Provision
