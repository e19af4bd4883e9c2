import Persona.Provision.Fetch

/-!
# The first run

`manage.py up` on a host without a model that can be served: `_maybe_first_run` provisions one, if the
operator agrees, and reads the configuration again before `start_llama` looks for the model.

`firstRun_serves` says what `up` goes on with: with the configuration and the disk as they were, if a
model was there, and otherwise with a pick that is on disk and wired. The model of the pick is then
found, unless what was wired is not read (`Unread`), and the arguments are those of the pick if it fits.
-/

namespace Persona.Provision

open Persona.Lib Persona.TomlText

/-! ### The disk as `llama_argv` sees it -/

/-- The names of the `.gguf` files of a directory, sorted. -/
def ggufs (models : Path.Directory) (disk : Disk) : List String :=
  ((disk.files.map Prod.fst).dedup.filterMap fun p =>
    p.getLast?.filter fun name => p.dropLast = models.names ∧ ".gguf".toList <:+ name.toList).mergeSort (· ≤ ·)

/-- What `llama_argv` sees of the host. -/
def fileSystem (H : Node) (binary : Text) (cpuCount : ℕ) (disk : Disk) : FileSystem where
  isFile path := disk.isFile (Path.parts (String.ofList path))
  binary
  modelPath name := Path.text (under H.models (String.ofList name))
  ggufs := (ggufs H.models disk).map String.toList
  cpuCount
  modelPath_absolute _ := by simp [Path.text]

/-! ### Whether a model can be served -/

/-- `model_resolvable`. -/
def modelResolvable (fs : FileSystem) (configured : Text) : Bool :=
  configured ≠ [] && fs.isFile (fs.modelPath configured) || fs.ggufs.length = 1

/-- It tells whether `resolve_model` finds one. -/
theorem modelResolvable_eq (fs : FileSystem) (cfg : Config) :
    modelResolvable fs (cfg.get "PERSONA_MODEL" "") = (resolveModel fs cfg).isSome := by
  rw [modelResolvable, resolveModel]
  split_ifs with hfile
  · simp [hfile.1, hfile.2]
  · rw [not_and_or] at hfile
    have hnot : (cfg.get "PERSONA_MODEL" "" ≠ [] && fs.isFile (fs.modelPath (cfg.get "PERSONA_MODEL" ""))) = false := by
      rcases hfile with hname | hfile
      · simp [not_not.mp hname]
      · simp [hfile]
    rw [hnot, Bool.false_or]
    rcases fs.ggufs with _ | ⟨name, _ | ⟨other, rest⟩⟩ <;> rfl

/-! ### The command -/

/-- The arguments of `up`. -/
structure UpArgs where
  yes : Bool
  hfToken : Option String

/-- How `_maybe_first_run` ends. -/
inductive Start where
  /-- With a configuration to go on with. -/
  | goOn (cfg : Config)
  | abort
  | raised

/-- The arguments that the first run provisions with. -/
def UpArgs.provision (args : UpArgs) : Args := ⟨true, true, false, false, none, args.hfToken⟩

section

variable {V : Type*} (others : Text → Option (V × Text)) (otherText : V → Option Text) (H : Node) (binary : Text) (cpuCount : ℕ)

/-- `_maybe_first_run`; `answer` is what the operator answers, `none` at the end of the input. -/
def maybeFirstRun (args : UpArgs) (answer : Option String) (cfg : Config) (s : Site) : Start × Site :=
  if modelResolvable (fileSystem H binary cpuCount s.disk) (cfg.get "PERSONA_MODEL" "") then (.goOn cfg, s)
  else if !args.yes && ["n".toList, "no".toList].contains ((strip (answer.getD "n").toList).map PyText.lowerChar) then (.abort, s)
  else
    let o := cmdProvision H args.provision cfg s
    match o.exit with
    | none => (.raised, o.site)
    | some 0 => (.goOn (loadConfig others otherText H.os o.site.files), o.site)
    | some _ => (.abort, o.site)

end

/-! ### What `up` goes on with -/

section

variable {V : Type*} {others : Text → Option (V × Text)} {otherText : V → Option Text} {H : Node} {binary : Text} {cpuCount : ℕ}
  {args : UpArgs} {answer : Option String} {cfg cfg' : Config} {s s' : Site} {p : Matcher.Selected} {disk : Disk}

/-- A file of the models is there for `llama_argv` if it is on disk. -/
theorem isFile_modelPath (name : String) : (fileSystem H binary cpuCount disk).isFile
    ((fileSystem H binary cpuCount disk).modelPath name.toList) = disk.isFile (under H.models name) := by
  have hparts : ∀ c ∈ under H.models name, Path.IsPart c := by
    intro c hc
    rcases List.mem_append.mp hc with hc | hc
    · rw [Path.Directory.start] at hc
      split_ifs at hc
      · cases hc
      · exact H.models_parts c hc
    · exact Path.isPart_of_mem_parts hc
  show disk.isFile (Path.parts (String.ofList (Path.text (under H.models (String.ofList name.toList))))) = _
  rw [String.ofList_toList, Path.parts_text hparts]

/-- The projector of a pick is in the plan. -/
theorem exists_projector {mmproj : Text} (models : Path.Directory) (disk : Disk) (h : mmproj ∈ (pickOf p).projector) :
    ∃ f ∈ buildPlan p models disk, mmproj = f.filename.toList ∧ f.dest = under models f.filename := by
  rw [Pick.projector] at h
  split_ifs at h with hvision
  · have hvision : p.vision = true := hvision
    obtain ⟨hmem, hne⟩ := Option.filter_eq_some_iff.mp h
    obtain ⟨name, hname, rfl⟩ := Option.map_eq_some_iff.mp hmem
    have hplan : (if p.vision then p.mmproj.filter (· ≠ "") else none) = some name := by
      rw [if_pos hvision, Option.filter_eq_some_iff]
      exact ⟨hname, by simpa using hne⟩
    refine ⟨⟨p.repo, name, under models name, .mmproj, none, disk.isFile (under models name)⟩, ?_, rfl, rfl⟩
    rw [buildPlan, planOf, hplan]
    exact List.mem_cons_of_mem _ List.mem_cons_self
  · cases h

/-- What has landed is on disk for `llama_argv`. -/
theorem onDisk_of_landed {before : Disk} (hfile : p.file ≠ "") (h : Landed H p before disk) :
    OnDisk (fileSystem H binary cpuCount disk) (pickOf p) where
  file_ne := by simpa [pickOf] using hfile
  file := by
    obtain ⟨f, hf, hdest, -⟩ := exists_weights p H.models before
    exact (isFile_modelPath p.file).trans (hdest ▸ (h f hf).1)
  projector mmproj hmmproj := by
    obtain ⟨f, hf, rfl, hdest⟩ := exists_projector H.models before hmmproj
    exact (isFile_modelPath f.filename).trans (hdest ▸ (h f hf).1)

/-- A pick is there to be served: it is on disk and wired, and the configuration is read again. -/
structure Provisioned (others : Text → Option (V × Text)) (otherText : V → Option Text) (H : Node) (binary : Text) (cpuCount : ℕ)
    (cfg : Config) (s : Site) (p : Matcher.Selected) (cfg' : Config) (s' : Site) : Prop where
  landed : Landed H p s.disk s'.disk
  wired : ∃ post, ggufCtxOn H cfg s'.disk p = some post ∧ s'.files = wired H cfg p post s.files
  reads : cfg' = loadConfig others otherText H.os s'.files
  /-- The model of the pick is found, unless what was wired is not read. -/
  found : ¬ Unread s.files → resolveModel (fileSystem H binary cpuCount s'.disk) cfg' =
    some ((fileSystem H binary cpuCount s'.disk).modelPath p.file.toList)
  /-- If the pick fits, it is what llama-server is started with. -/
  served : ∀ post, ggufCtxOn H cfg s'.disk p = some post →
    (fileSystem H binary cpuCount s'.disk).isFile binary = true →
    Fits others otherText (fileSystem H binary cpuCount s'.disk) H.os s.files (pickOf p)
      (resolveCtx H.toInt p.ctx (cfg "PERSONA_CTX".toList) post) →
    Served (fileSystem H binary cpuCount s'.disk) H.os cfg' (pickOf p)
      (resolveCtx H.toInt p.ctx (cfg "PERSONA_CTX".toList) post)

/-- What `up` goes on with. -/
structure Serves (others : Text → Option (V × Text)) (otherText : V → Option Text) (H : Node) (binary : Text) (cpuCount : ℕ)
    (args : UpArgs) (cfg : Config) (s : Site) (r : Start × Site) : Prop where
  /-- If a model can be served nothing changes. -/
  kept : modelResolvable (fileSystem H binary cpuCount s.disk) (cfg.get "PERSONA_MODEL" "") = true → r = (.goOn cfg, s)
  /-- If none can, `up` goes on with a pick only. -/
  provisioned : modelResolvable (fileSystem H binary cpuCount s.disk) (cfg.get "PERSONA_MODEL" "") = false → ∀ cfg',
    r.1 = .goOn cfg' → ∃ p, pick? H args.provision = some p ∧ Provisioned others otherText H binary cpuCount cfg s p cfg' r.2
  /-- If it does not go on the configuration is as it was. -/
  files : (∀ cfg', r.1 ≠ .goOn cfg') → r.2.files = s.files

/-- A pick that was wired is there to be served. -/
theorem provisioned_of_wired (hfetchable : Fetchable p) (hplain : TomlText.Plain p.file.toList)
    (hprojector : ∀ mmproj ∈ (pickOf p).projector, TomlText.Plain mmproj)
    (hconfig : ∀ text ∈ s.files.config, ∃ is, Tidy others H.os text is)
    (hhost : ∀ text ∈ s.files.host, ∃ is, Tidy others H.os text is) (hlanded : Landed H p s.disk s'.disk) {post : Option ℤ}
    (hpost : ggufCtxOn H cfg s'.disk p = some post) (hfiles : s'.files = wired H cfg p post s.files) :
    Provisioned others otherText H binary cpuCount cfg s p (loadConfig others otherText H.os s'.files) s' := by
  have hname : p.file ≠ "" := by
    intro hempty
    have hpart : Path.IsPart p.file := Path.isPart_of_mem_parts (s := p.file) (by rw [hfetchable.file.parts]; simp)
    exact hpart.ne_empty hempty
  have hdisk : OnDisk (fileSystem H binary cpuCount s'.disk) (pickOf p) := onDisk_of_landed hname hlanded
  refine ⟨hlanded, ⟨post, hpost, hfiles⟩, rfl, fun hread => ?_, fun post' hpost' hbinary hfits => ?_⟩
  · obtain ⟨hkeys, hnodup⟩ := keys_settingsOf (pickOf p) (resolveCtx H.toInt p.ctx (cfg "PERSONA_CTX".toList) post)
    have hload : loadConfig others otherText H.os (wired H cfg p post s.files) = setAll _ (tomlConfig others otherText H.os s.files) :=
      loadConfig_wireFiles hconfig hhost hkeys (plain_settingsOf hplain hprojector _) hnodup hread
    rw [hfiles, hload]
    exact resolveModel_setAll hdisk _ _
  · obtain rfl : post = post' := Option.some.inj (hpost.symm.trans hpost')
    rw [hfiles]
    exact (provision_served hbinary hdisk hplain hprojector hconfig hhost H.toInt (cfg "PERSONA_CTX".toList) post).1 hfits

/-- **What the first run serves**: `up` goes on only with a model that was there, or with a pick that is on
disk and wired, which is then found and served. -/
theorem firstRun_serves (others : Text → Option (V × Text)) (otherText : V → Option Text) (H : Node) (binary : Text)
    (cpuCount : ℕ) (args : UpArgs) (answer : Option String) (cfg : Config) (s : Site) (hub_lawful : H.hub.Lawful)
    (hnames : ∀ p, pick? H args.provision = some p → Fetchable p ∧ TomlText.Plain p.file.toList ∧
      ∀ mmproj ∈ (pickOf p).projector, TomlText.Plain mmproj)
    (hconfig : ∀ text ∈ s.files.config, ∃ is, Tidy others H.os text is)
    (hhost : ∀ text ∈ s.files.host, ∃ is, Tidy others H.os text is) :
    Serves others otherText H binary cpuCount args cfg s
      (maybeFirstRun others otherText H binary cpuCount args answer cfg s) := by
  have hsound := cmdProvision_sound H args.provision cfg s hub_lawful fun p hp => (hnames p hp).1
  have hunchanged : (cmdProvision H args.provision cfg s).exit ≠ some 0 → (cmdProvision H args.provision cfg s).site.files = s.files :=
    fun hexit => hsound.files.resolve_right fun h => hexit h.1
  rw [maybeFirstRun]
  split_ifs with hresolvable hdeclined
  · exact ⟨fun _ => rfl, fun hnot => absurd hresolvable (by rw [hnot]; decide), fun h => absurd rfl (h cfg)⟩
  · exact ⟨fun h => absurd h hresolvable, fun _ _ => nofun, fun _ => rfl⟩
  · dsimp only
    split
    · next hexit =>
      exact ⟨fun h => absurd h hresolvable, fun _ _ => nofun, fun _ => hunchanged (by rw [hexit]; decide)⟩
    · next hexit =>
      refine ⟨fun h => absurd h hresolvable, fun _ cfg' h => ?_, fun h => absurd rfl (h _)⟩
      obtain rfl := Start.goOn.inj h
      -- what is asked for is done: neither is it a dry run nor does the operator decline
      obtain ⟨p, hp, hallowed⟩ := ((hsound.zero hexit).resolve_left (by simp [UpArgs.provision])).resolve_left (by simp [consents, UpArgs.provision])
      obtain ⟨hlanded, hwires⟩ := hsound.done p hp hallowed hexit
      obtain ⟨post, hpost, hfiles⟩ := hwires rfl
      obtain ⟨hfetchable, hplain, hprojector⟩ := hnames p hp
      exact ⟨p, hp, provisioned_of_wired hfetchable hplain hprojector hconfig hhost hlanded hpost hfiles⟩
    · next code hne hexit =>
      have hfailed : (cmdProvision H args.provision cfg s).exit ≠ some 0 := fun h => hne (Option.some.inj (hexit.symm.trans h))
      exact ⟨fun h => absurd h hresolvable, fun _ _ => nofun, fun _ => hunchanged hfailed⟩

end

/-- `up --yes` on a host with an empty disk and no configuration. -/
theorem firstRun_serves_fresh : Serves noOthers noOtherText (freshNode (storingHub [0])) "/p/llama-server".toList 8 ⟨true, none⟩
    (fun _ => none) freshSite
    (maybeFirstRun noOthers noOtherText (freshNode (storingHub [0])) "/p/llama-server".toList 8 ⟨true, none⟩ none (fun _ => none)
      freshSite) := by
  refine firstRun_serves _ _ _ _ _ ⟨true, none⟩ none _ _ (lawful_storingHub [0]) (fun p hp => ?_) nofun nofun
  have hpick := pick_freshNode (storingHub [0])
  have hfresh : pick? (freshNode (storingHub [0])) yesArgs = some p := hp
  rw [hfresh, Option.map_some, Option.some.injEq, Prod.mk.injEq] at hpick
  refine ⟨fetchable_freshNode _ p hfresh, by rw [hpick.1]; decide, fun mmproj hmmproj => ?_⟩
  rw [Pick.projector, pickOf, hpick.2] at hmmproj
  split_ifs at hmmproj <;> cases hmmproj

end Persona.Provision
