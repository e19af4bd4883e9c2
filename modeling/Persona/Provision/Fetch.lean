import Persona.Lib.Path
import Persona.Provision.Context

/-!
# Fetching and wiring a pick

`cmd_provision` of `manage.py`, with `build_plan`, `license_gate`, `preflight_disk`, `download` and
`verify_download` of `scripts/provision_fetch.py`: a model is matched to the host, its files that are
not on disk yet are downloaded, if the license, the disk and the operator allow it, and the pick is
wired into the configuration. Sizes are rational numbers of MiB.

`hf_hub_download` is a function of the host, of which `Lawful` says that it puts a file where it says.
`cmdProvision_sound` says what a run may change and when. A file that is on disk is not verified:
after a download that failed the check, the next run wires what was downloaded (`cmdProvision_again`).

Of the command's output only the exit code is modelled.
-/

namespace Persona.Provision

open Persona.Lib Persona.TomlText

/-! ### Files -/

/-- A path, by its parts from the root. -/
abbrev Place := List String

/-- The regular files, by their paths in normal form. -/
structure Disk where
  files : List (Place × List UInt8)

/-- `Path(p).is_file()` and what is in it. -/
def Disk.read (disk : Disk) (p : Place) : Option (List UInt8) := disk.files.lookup (Path.normalise p)

def Disk.isFile (disk : Disk) (p : Place) : Bool := (disk.read p).isSome

/-- `dir / name`. -/
def under (dir : Path.Directory) (name : String) : Place := dir.start (Path.isAbsolute name) ++ Path.parts name

/-- The name of a file, and nothing else. -/
structure PlainName (name : String) : Prop where
  relative : Path.isAbsolute name = false
  parts : Path.parts name = [name]
  notUp : name ≠ ".."

theorem under_plain {models : Path.Directory} {name : String} (h : PlainName name) : under models name = models.names ++ [name] := by
  rw [under, h.relative, h.parts]
  rfl

theorem normalise_under {models : Path.Directory} {name : String} (h : PlainName name) :
    Path.normalise (under models name) = models.names ++ [name] := by
  rw [under_plain h]
  refine Path.normalise_of_plain fun hmem => ?_
  rcases List.mem_append.mp hmem with hmem | hmem
  · exact models.plain hmem
  · exact h.notUp (List.mem_singleton.mp hmem).symm

/-! ### The plan -/

inductive Role where
  | weights | mmproj
  deriving DecidableEq

/-- A file of the plan. -/
structure Planned where
  repo : Option String
  filename : String
  dest : Place
  role : Role
  sizeMb : Option ℚ
  present : Bool

/-- `build_plan`, before it looks which files are there. -/
def planOf (p : Matcher.Selected) (models : Path.Directory) : List Planned :=
  ⟨p.repo, p.file, under models p.file, .weights, some p.sizeMb, false⟩ ::
    match if p.vision then p.mmproj.filter (· ≠ "") else none with
    | some mmproj => [⟨p.repo, mmproj, under models mmproj, .mmproj, none, false⟩]
    | none => []

/-- `build_plan`. -/
def buildPlan (p : Matcher.Selected) (models : Path.Directory) (disk : Disk) : List Planned :=
  (planOf p models).map fun f => { f with present := disk.isFile f.dest }

/-- `download_mb`. -/
def downloadMb (plan : List Planned) : ℚ := ((plan.filter fun f => !f.present).map fun f => f.sizeMb.getD 0).sum

/-! ### The gates -/

/-- `OPEN_LICENSES`. -/
def openLicenses : List Text := ["apache-2.0".toList, "mit".toList, "bsd-3-clause".toList, "bsd-2-clause".toList]

/-- `license_gate`: whether it is allowed. -/
def licenseGate (p : Matcher.Selected) (hfToken : Option String) : Bool :=
  let lic := (strip (p.license.getD "").toList).map PyText.lowerChar
  openLicenses.contains lic || hfToken.any (· ≠ "")

/-- `disk_free_mb`, of the parts of the path from the last one on. -/
def diskFreeMb (isThere : Place → Bool) (freeMb : Place → ℚ) : List String → ℚ
  | [] => freeMb []
  | c :: cs => if isThere (c :: cs).reverse then freeMb (c :: cs).reverse else diskFreeMb isThere freeMb cs

/-- `preflight_disk`: whether it is ok. -/
def preflightDisk (free sizeMb : ℚ) : Bool := sizeMb * (1 + 1 / 5) ≤ free

/-! ### Downloading -/

/-- What the download of a file comes to. -/
inductive Status where
  | present
  /-- The download raised. -/
  | error
  | ok
  | verifyFailed
  deriving DecidableEq

/-- `hf_hub_download` into a directory, when it is called for the `n`-th time: the disk afterwards, and
the path of the file unless it raises. -/
abbrev Hub := ℕ → Option String → String → Place → Option String → Disk → Disk × Option Place

/-- The least size, in MiB. -/
def Role.minMb : Role → ℚ
  | .weights => 50
  | .mmproj => 1

/-- `verify_download`: whether it is ok. -/
def verifyDownload (disk : Disk) (p : Place) (minMb : ℚ) : Bool :=
  match disk.read p with
  | none => false
  | some bytes => minMb ≤ (bytes.length : ℚ) / (1024 * 1024)

/-- What `download` leaves. -/
structure Download where
  disk : Disk
  /-- The files of the plan that it came to. -/
  results : List (Planned × Status)
  /-- A directory could not be made. -/
  raised : Bool

def Download.cons (r : Planned × Status) (d : Download) : Download := { d with results := r :: d.results }

/-- `ok_all`. -/
def Download.okAll (d : Download) : Bool := d.results.all fun r => r.2 = .present || r.2 = .ok

/-- The loop of `download`, from the `n`-th call of the hub on. -/
def download (hub : Hub) (mkdir : Place → Bool) (token : Option String) : ℕ → List Planned → Disk → Download
  | _, [], disk => ⟨disk, [], false⟩
  | n, f :: fs, disk =>
    if f.present then (download hub mkdir token n fs disk).cons (f, .present)
    else if !mkdir f.dest.dropLast then ⟨disk, [], true⟩
    else
      match hub n f.repo f.filename f.dest.dropLast token disk with
      | (disk, none) => (download hub mkdir token (n + 1) fs disk).cons (f, .error)
      | (disk, some p) =>
        (download hub mkdir token (n + 1) fs disk).cons
          (f, if verifyDownload disk p f.role.minMb then .ok else .verifyFailed)

/-! ### The command -/

/-- What `detect_host` says of the host. -/
structure Caps where
  /-- Whether an accelerator is usable for a language model, for each one. -/
  accelPresent : List Bool
  memoryModel : Option String
  ramMb : Option ℚ
  vramMb : Option ℚ
  cameraPresent : Bool

/-- `envelope_from_caps`. -/
def envelopeFromCaps (caps : Caps) : Matcher.Envelope where
  ramMb := some (caps.ramMb.getD 0)
  vramMb := some (caps.vramMb.getD 0)
  memoryModel := (caps.memoryModel.filter (· ≠ "")).getD (if caps.accelPresent.any id then "discrete" else "cpu")
  cameraPresent := caps.cameraPresent
  hasGpu := caps.accelPresent.any id

/-- The arguments of the command. -/
structure Args where
  yes : Bool
  writeConfig : Bool
  dryRun : Bool
  textOnly : Bool
  model : Option String
  hfToken : Option String

/-- The host that the command runs on. -/
structure Node where
  caps : Caps
  os : Os
  /-- The model playbook; `none` when it cannot be read. -/
  playbook : Option Matcher.Playbook
  /-- `root / "models"`. -/
  models : Path.Directory
  /-- The parts of its path. -/
  models_parts : ∀ c ∈ models.names, Path.IsPart c
  isThere : Place → Bool
  freeMb : Place → ℚ
  /-- `HF_TOKEN` of the environment. -/
  environToken : Option String
  /-- What the operator answers; `none` at the end of the input. -/
  answer : Option String
  /-- `huggingface_hub` can be imported. -/
  hubInstalled : Bool
  /-- A directory can be made. -/
  mkdir : Place → Bool
  hub : Hub
  /-- `int` of a text. -/
  toInt : Text → Option ℤ
  objects : Gguf.Objects
  /-- How deep values may be nested in a header. -/
  depth : ℕ

/-- What the command changes. -/
structure Site where
  disk : Disk
  files : RunFiles

/-- What a run comes to. -/
structure Outcome where
  /-- The exit code, unless it raises. -/
  exit : Option ℕ
  site : Site
  /-- The files of the plan that the download came to. -/
  results : List (Planned × Status)

/-- `_filter_playbook`. -/
def filterPlaybook (playbook : Matcher.Playbook) (modelId : Option String) (textOnly : Bool) : Matcher.Playbook :=
  let models := match modelId.filter (· ≠ "") with
    | some id => playbook.models.filter (·.id = id)
    | none => playbook.models
  { playbook with models := if textOnly then models.filter (!·.vision) else models }

/-- What of a pick is wired. -/
def pickOf (p : Matcher.Selected) : Pick where
  file := p.file.toList
  ctx := p.ctx
  vision := p.vision
  mmproj := p.mmproj.map String.toList
  visionEnabled := p.vision && p.visionEnabled
  vision_of_enabled h := by
    rw [Bool.and_eq_true] at h
    exact h.1

section

variable (H : Node) (args : Args) (cfg : Config)

/-- `_gguf_ctx_for` in the present state of the disk; `none` when it raises. -/
def ggufCtxOn (disk : Disk) (p : Matcher.Selected) : Option (Option ℤ) :=
  match disk.read (under H.models p.file) with
  | none => some none
  | some bytes => (Gguf.readGgufMeta H.objects H.depth bytes).map fun m => ggufCtxFor m p cfg

/-- The report on the context raises: it takes `int` of the existing one. -/
def reportRaises (gguf : Option ℤ) : Bool :=
  gguf.isSome && (cfg "PERSONA_CTX".toList).any fun t => t ≠ [] && (H.toInt t).isNone

/-- The token of the command or of the environment. -/
def token : Option String := (args.hfToken.filter (· ≠ "")).or H.environToken

/-- The operator agrees to the download. -/
def consents : Bool :=
  args.yes || ["y".toList, "yes".toList].contains ((strip (H.answer.getD "n").toList).map PyText.lowerChar)

/-- The pick of the command. -/
def pick? : Option Matcher.Selected :=
  H.playbook.bind fun playbook =>
    Matcher.matchPlaybook (envelopeFromCaps H.caps) (filterPlaybook playbook args.model args.textOnly)

/-- The files of the configuration with the pick in them. -/
def wired (p : Matcher.Selected) (gguf : Option ℤ) (files : RunFiles) : RunFiles :=
  wireFiles files H.os (configKv H.toInt (pickOf p) (cfg "PERSONA_CTX".toList) gguf)

/-- What comes before the download: it stops with an exit code or raises, or goes on with the context
that was found. -/
def gates (p : Matcher.Selected) (disk : Disk) : Except (Option ℕ) (Option ℤ) :=
  match ggufCtxOn H cfg disk p with
  | none => .error none
  | some gguf =>
    if reportRaises H cfg gguf then .error none
    else if !licenseGate p (token H args) then .error (some 2)
    else if args.dryRun then .error (some 0)
    else if !preflightDisk (diskFreeMb H.isThere H.freeMb H.models.names.reverse) (downloadMb (buildPlan p H.models disk)) then
      .error (some 3)
    else if !consents H args then .error (some 0)
    else .ok gguf

/-- The download of the pick's files. -/
def fetched (p : Matcher.Selected) (disk : Disk) : Download :=
  download H.hub H.mkdir (token H args) 0 (buildPlan p H.models disk) disk

/-- The download and what comes after it. -/
def fetch (p : Matcher.Selected) (gguf : Option ℤ) (s : Site) : Outcome :=
  if !H.hubInstalled then ⟨some 4, s, []⟩
  else
    let d := fetched H args p s.disk
    let s := { s with disk := d.disk }
    if d.raised then ⟨none, s, d.results⟩
    else if !d.okAll then ⟨some 4, s, d.results⟩
    else
      -- the weights are on disk now, and say what context fits
      match ggufCtxOn H cfg d.disk p with
      | none => ⟨none, s, d.results⟩
      | some post =>
        if args.writeConfig || args.yes then ⟨some 0, { s with files := wired H cfg p (post.or gguf) s.files }, d.results⟩
        else ⟨some 0, s, d.results⟩

/-- `cmd_provision`. -/
def cmdProvision (s : Site) : Outcome :=
  match pick? H args with
  | none => ⟨some 1, s, []⟩
  | some p =>
    match gates H args cfg p s.disk with
    | .error exit => ⟨exit, s, []⟩
    | .ok gguf => fetch H args cfg p gguf s

end

/-! ### What the hub does -/

/-- The path is one of the hub's own files about a directory. -/
def InCache (dir : List String) (q : Place) : Prop := ∃ c, dir ++ [".cache", c] <+: Path.normalise q

/-- What is promised of `hf_hub_download`: the file is where it says, in the directory by its name, and
besides the file only its cache is changed. -/
structure Hub.Lawful (hub : Hub) : Prop where
  lands : ∀ {n repo name dir token disk disk' p}, hub n repo name dir token disk = (disk', some p) →
    p = dir ++ Path.parts name ∧ disk'.isFile p = true
  keeps : ∀ {n repo name dir token disk q}, Path.normalise q ≠ Path.normalise (dir ++ Path.parts name) →
    ¬ InCache (Path.normalise dir) q → (hub n repo name dir token disk).1.read q = disk.read q

/-- A plan whose files have different plain names, in the directory of the models. -/
structure Tame (models : Path.Directory) (plan : List Planned) : Prop where
  plain : ∀ f ∈ plan, PlainName f.filename
  dest : ∀ f ∈ plan, f.dest = under models f.filename
  nodup : (plan.map Planned.filename).Nodup

/-- A path that is neither in the cache nor one of the files of the plan that are missing. -/
structure Apart (models : Path.Directory) (plan : List Planned) (q : Place) : Prop where
  cache : ¬ InCache models.names q
  other : ∀ f ∈ plan, f.present = false → Path.normalise q ≠ Path.normalise f.dest

section Download

variable {models : Path.Directory} {plan : List Planned} {f : Planned} {q : Place} {hub : Hub} {mkdir : Place → Bool}
  {token : Option String} {n : ℕ} {disk : Disk}

theorem Tame.tail (h : Tame models (f :: plan)) : Tame models plan :=
  ⟨fun g hg => h.plain g (List.mem_cons_of_mem _ hg), fun g hg => h.dest g (List.mem_cons_of_mem _ hg),
    (List.nodup_cons.mp h.nodup).2⟩

theorem Apart.tail (h : Apart models (f :: plan) q) : Apart models plan q :=
  ⟨h.cache, fun g hg => h.other g (List.mem_cons_of_mem _ hg)⟩

/-- The directory and the path of a file of the plan. -/
theorem Tame.head (h : Tame models (f :: plan)) : f.dest.dropLast = models.names ∧
    f.dest = models.names ++ [f.filename] ∧ Path.normalise f.dest = models.names ++ [f.filename] := by
  have hplain := h.plain f List.mem_cons_self
  have hdest := h.dest f List.mem_cons_self
  have hunder : f.dest = models.names ++ [f.filename] := hdest.trans (under_plain hplain)
  exact ⟨by rw [hunder, List.dropLast_concat], hunder, hdest ▸ normalise_under hplain⟩

/-- The first file is apart from the others. -/
theorem Tame.apart_head (h : Tame models (f :: plan)) : Apart models plan f.dest := by
  have hnorm := h.head.2.2
  refine ⟨?_, fun g hg _ heq => ?_⟩
  · rintro ⟨c, hcache⟩
    rw [hnorm, List.prefix_append_right_inj] at hcache
    exact absurd hcache.length_le (by simp)
  · rw [hnorm, h.tail.dest g hg, normalise_under (h.tail.plain g hg)] at heq
    have hname : f.filename = g.filename := by simpa using heq
    exact (List.nodup_cons.mp h.nodup).1 (hname ▸ List.mem_map_of_mem hg)

theorem read_congr {p : Place} (h : Path.normalise p = Path.normalise q) : disk.read p = disk.read q := by
  rw [Disk.read, Disk.read, h]

/-- A call of the hub for a file of the plan: it changes nothing else, and the file is there if it returns. -/
theorem Tame.hub_head (h : Tame models (f :: plan)) (hub_lawful : hub.Lawful) {disk' : Disk} {r : Option Place}
    (hcall : hub n f.repo f.filename f.dest.dropLast token disk = (disk', r)) :
    (∀ q, ¬ InCache models.names q → Path.normalise q ≠ Path.normalise f.dest → disk'.read q = disk.read q) ∧
      ∀ p, r = some p → p = f.dest ∧ disk'.isFile f.dest = true := by
  obtain ⟨hdir, hdest, hnorm⟩ := h.head
  have hparts : f.dest.dropLast ++ Path.parts f.filename = f.dest := by
    rw [hdir, (h.plain f List.mem_cons_self).parts, hdest]
  constructor
  · intro q hcache hne
    have hkeeps : Path.normalise q ≠ Path.normalise (f.dest.dropLast ++ Path.parts f.filename) →
        ¬ InCache (Path.normalise f.dest.dropLast) q →
        (hub n f.repo f.filename f.dest.dropLast token disk).1.read q = disk.read q := hub_lawful.keeps
    rw [hparts, hdir, Path.normalise_of_plain models.plain, ← hdir, hcall] at hkeeps
    exact hkeeps hne (hdir ▸ hcache)
  · rintro p rfl
    obtain ⟨rfl, hfile⟩ := hub_lawful.lands hcall
    rw [hparts] at hfile ⊢
    exact ⟨rfl, hfile⟩

/-- The loop at a file. -/
theorem download_cons (hub : Hub) (mkdir : Place → Bool) (token : Option String) (n : ℕ) (f : Planned) (plan : List Planned)
    (disk : Disk) : download hub mkdir token n (f :: plan) disk =
      if f.present then (download hub mkdir token n plan disk).cons (f, .present)
      else if !mkdir f.dest.dropLast then ⟨disk, [], true⟩
      else
        match hub n f.repo f.filename f.dest.dropLast token disk with
        | (disk, none) => (download hub mkdir token (n + 1) plan disk).cons (f, .error)
        | (disk, some p) =>
          (download hub mkdir token (n + 1) plan disk).cons
            (f, if verifyDownload disk p f.role.minMb then .ok else .verifyFailed) := rfl

/-- The status of a file that was not present says what is on the disk. -/
structure Tells (disk : Disk) (f : Planned) (st : Status) : Prop where
  notPresent : st ≠ .present
  landed : st ≠ .error → disk.isFile f.dest = true
  verified : st ≠ .error → (st = .ok ↔ verifyDownload disk f.dest f.role.minMb = true)

/-- What the loop does at a file: it passes over one that is present, stops, or calls the hub. -/
theorem Tame.download_cases (h : Tame models (f :: plan)) (hub_lawful : hub.Lawful) (mkdir : Place → Bool)
    (token : Option String) (n : ℕ) (disk : Disk) :
    (f.present = true ∧
        download hub mkdir token n (f :: plan) disk = (download hub mkdir token n plan disk).cons (f, .present)) ∨
      f.present = false ∧ (download hub mkdir token n (f :: plan) disk = ⟨disk, [], true⟩ ∨
        ∃ disk' st, download hub mkdir token n (f :: plan) disk = (download hub mkdir token (n + 1) plan disk').cons (f, st) ∧
          Tells disk' f st ∧ ∀ q, ¬ InCache models.names q → Path.normalise q ≠ Path.normalise f.dest → disk'.read q = disk.read q) := by
  rw [download_cons]
  split_ifs with hpresent hmkdir
  · exact .inl ⟨hpresent, rfl⟩
  · exact .inr ⟨Bool.eq_false_iff.mpr hpresent, .inl rfl⟩
  · refine .inr ⟨Bool.eq_false_iff.mpr hpresent, .inr ?_⟩
    rcases hcall : hub n f.repo f.filename f.dest.dropLast token disk with ⟨disk', _ | p⟩
    · obtain ⟨hkeeps, -⟩ := h.hub_head hub_lawful hcall
      exact ⟨disk', .error, rfl, ⟨by decide, fun hne => absurd rfl hne, fun hne => absurd rfl hne⟩, hkeeps⟩
    · obtain ⟨hkeeps, hlands⟩ := h.hub_head hub_lawful hcall
      obtain ⟨rfl, hfile⟩ := hlands p rfl
      refine ⟨disk', _, rfl, ⟨?_, fun _ => hfile, fun _ => ?_⟩, hkeeps⟩
      · split_ifs <;> decide
      · split_ifs with hverify <;> simp [hverify]

/-- Besides the missing files of the plan the loop changes nothing. -/
theorem Tame.read_download (h : Tame models plan) (hub_lawful : hub.Lawful) (hq : Apart models plan q) :
    (download hub mkdir token n plan disk).disk.read q = disk.read q := by
  induction plan generalizing n disk with
  | nil => rfl
  | cons f plan ih =>
    rcases h.download_cases hub_lawful mkdir token n disk with ⟨-, heq⟩ | ⟨hmissing, heq | ⟨disk', st, heq, -, hkeeps⟩⟩
    · rw [heq]
      exact ih h.tail hq.tail
    · rw [heq]
    · rw [heq]
      exact (ih h.tail hq.tail).trans (hkeeps q hq.cache (hq.other f List.mem_cons_self hmissing))

/-- What the results say of the disk at the end. -/
theorem Tame.results_download (h : Tame models plan) (hub_lawful : hub.Lawful) :
    ∀ r ∈ (download hub mkdir token n plan disk).results, r.1 ∈ plan ∧ (r.1.present = true → r.2 = .present) ∧
      (r.1.present = false → Tells (download hub mkdir token n plan disk).disk r.1 r.2) := by
  induction plan generalizing n disk with
  | nil =>
    intro r hr
    cases hr
  | cons f plan ih =>
    have htail : ∀ {n disk}, ∀ r ∈ (download hub mkdir token n plan disk).results, r.1 ∈ f :: plan ∧ _ := fun r hr =>
      ⟨List.mem_cons_of_mem _ (ih h.tail r hr).1, (ih h.tail r hr).2⟩
    rcases h.download_cases hub_lawful mkdir token n disk with
      ⟨hpresent, heq⟩ | ⟨hmissing, heq | ⟨disk', st, heq, htells, -⟩⟩
    · rw [heq]
      intro r hr
      rcases List.mem_cons.mp hr with rfl | hr
      · exact ⟨List.mem_cons_self, fun _ => rfl, fun hf => absurd hpresent (by rw [hf]; decide)⟩
      · exact htail r hr
    · rw [heq]
      intro r hr
      cases hr
    · rw [heq]
      intro r hr
      rcases List.mem_cons.mp hr with rfl | hr
      · -- the files that come after leave this one as it is
        have hread : (download hub mkdir token (n + 1) plan disk').disk.read f.dest = disk'.read f.dest :=
          h.tail.read_download hub_lawful h.apart_head
        refine ⟨List.mem_cons_self, fun ht => absurd hmissing (by rw [ht]; decide), fun _ => ⟨htells.notPresent, fun hne => ?_,
          fun hne => ?_⟩⟩
        · exact (congrArg Option.isSome hread).trans (htells.landed hne)
        · have hverified := htells.verified hne
          rw [verifyDownload, ← hread] at hverified
          exact hverified
      · exact htail r hr

/-- Unless it stops, the loop comes to all files. -/
theorem Tame.map_results (h : Tame models plan) (hub_lawful : hub.Lawful)
    (hraised : (download hub mkdir token n plan disk).raised = false) :
    (download hub mkdir token n plan disk).results.map Prod.fst = plan := by
  induction plan generalizing n disk with
  | nil => rfl
  | cons f plan ih =>
    rcases h.download_cases hub_lawful mkdir token n disk with ⟨-, heq⟩ | ⟨-, heq | ⟨disk', st, heq, -, -⟩⟩
    · rw [heq] at hraised ⊢
      exact congrArg (f :: ·) (ih h.tail hraised)
    · rw [heq] at hraised
      cases hraised
    · rw [heq] at hraised ⊢
      exact congrArg (f :: ·) (ih h.tail hraised)

/-- A plan whose files are all there. -/
theorem download_of_present (hub : Hub) (mkdir : Place → Bool) (token : Option String) (n : ℕ) (disk : Disk)
    (h : ∀ f ∈ plan, f.present = true) : download hub mkdir token n plan disk = ⟨disk, plan.map (·, .present), false⟩ := by
  induction plan with
  | nil => rfl
  | cons f plan ih =>
    rw [download_cons, if_pos (h f List.mem_cons_self), ih fun g hg => h g (List.mem_cons_of_mem _ hg)]
    rfl

end Download

/-! ### What a run may change -/

section Run

variable (H : Node) (args : Args) (cfg : Config)

/-- The names of the pick's files are plain, and different. -/
structure Fetchable (p : Matcher.Selected) : Prop where
  file : PlainName p.file
  mmproj : ∀ mmproj ∈ p.mmproj, mmproj ≠ "" → PlainName mmproj ∧ mmproj ≠ p.file

/-- The license, the operator and the disk allow the download of a pick. -/
structure Allowed (p : Matcher.Selected) (disk : Disk) : Prop where
  license : licenseGate p (token H args) = true
  wetRun : args.dryRun = false
  room : preflightDisk (diskFreeMb H.isThere H.freeMb H.models.names.reverse) (downloadMb (buildPlan p H.models disk)) = true
  consent : consents H args = true

/-- The files of a pick are on disk, and those that were not there before passed the check. -/
def Landed (p : Matcher.Selected) (before after : Disk) : Prop :=
  ∀ f ∈ buildPlan p H.models before, after.isFile f.dest = true ∧
    (f.present = false → verifyDownload after f.dest f.role.minMb = true)

/-- What a run may change, and when. -/
structure Sound (s : Site) (o : Outcome) : Prop where
  /-- Without a pick that may be downloaded nothing changes. -/
  allowed : (∀ p, pick? H args = some p → ¬ Allowed H args p s.disk) → o.site = s ∧ o.results = []
  /-- Of the disk only the pick's missing files are changed, and the hub's cache. -/
  frame : ∀ q, (∀ p, pick? H args = some p → Apart H.models (buildPlan p H.models s.disk) q) →
    o.site.disk.read q = s.disk.read q
  /-- If the configuration changes, a pick is wired that is on disk, with the context that its weights are good for. -/
  files : o.site.files = s.files ∨
    o.exit = some 0 ∧ (args.writeConfig || args.yes) = true ∧ ∃ p post, pick? H args = some p ∧
      Landed H p s.disk o.site.disk ∧ ggufCtxOn H cfg o.site.disk p = some post ∧ o.site.files = wired H cfg p post s.files
  /-- With exit code zero there is a pick that may be downloaded, unless nothing was to be done. -/
  zero : o.exit = some 0 → args.dryRun = true ∨ consents H args = false ∨ ∃ p, pick? H args = some p ∧ Allowed H args p s.disk
  /-- It is on disk then, and wired if that is asked for. -/
  done : ∀ p, pick? H args = some p → Allowed H args p s.disk → o.exit = some 0 → Landed H p s.disk o.site.disk ∧
    ((args.writeConfig || args.yes) = true →
      ∃ post, ggufCtxOn H cfg o.site.disk p = some post ∧ o.site.files = wired H cfg p post s.files)

variable {H args cfg} {p : Matcher.Selected} {disk : Disk} {gguf : Option ℤ} {s : Site}

/-- What comes before the download raises, or says whether the download is allowed. -/
theorem gates_cases (H : Node) (args : Args) (cfg : Config) (p : Matcher.Selected) (disk : Disk) :
    gates H args cfg p disk = .error none ∨
      (∃ code, gates H args cfg p disk = .error (some code) ∧ code ∈ [0, 2, 3] ∧
        (code = 0 → args.dryRun = true ∨ consents H args = false) ∧ ¬ Allowed H args p disk) ∨
      ∃ gguf, gates H args cfg p disk = .ok gguf ∧ ggufCtxOn H cfg disk p = some gguf ∧ Allowed H args p disk := by
  unfold gates
  split
  · exact .inl rfl
  · next gguf hgguf =>
    split_ifs with hraises hlicense hdry hroom hconsent
    · exact .inl rfl
    · refine .inr (.inl ⟨2, rfl, by decide, fun hzero => absurd hzero (by decide), fun h => ?_⟩)
      rw [h.license] at hlicense
      cases hlicense
    · refine .inr (.inl ⟨0, rfl, by decide, fun _ => .inl hdry, fun h => ?_⟩)
      rw [h.wetRun] at hdry
      cases hdry
    · refine .inr (.inl ⟨3, rfl, by decide, fun hzero => absurd hzero (by decide), fun h => ?_⟩)
      rw [h.room] at hroom
      cases hroom
    · refine .inr (.inl ⟨0, rfl, by decide, fun _ => .inr (by simpa using hconsent), fun h => ?_⟩)
      rw [h.consent] at hconsent
      cases hconsent
    · exact .inr (.inr ⟨gguf, rfl, hgguf, by simpa using hlicense, by simpa using hdry, by simpa using hroom, by simpa using hconsent⟩)

/-- The plan of a pick whose files have plain names. -/
theorem Fetchable.tame (h : Fetchable p) (models : Path.Directory) (disk : Disk) : Tame models (buildPlan p models disk) := by
  unfold buildPlan planOf
  split
  · next mmproj hmmproj =>
    obtain ⟨hplain, hne⟩ : PlainName mmproj ∧ mmproj ≠ p.file := by
      split_ifs at hmmproj
      obtain ⟨hmem, hnonempty⟩ := Option.filter_eq_some_iff.mp hmmproj
      exact h.mmproj mmproj hmem (by simpa using hnonempty)
    refine ⟨?_, ?_, ?_⟩
    · simp only [List.map_cons, List.map_nil, List.forall_mem_cons, List.not_mem_nil]
      exact ⟨h.file, hplain, by simp⟩
    · simp
    · simpa using hne.symm
  · refine ⟨?_, by simp, by simp⟩
    simpa using h.file

/-- The first file of the plan is that of the weights. -/
theorem exists_weights (p : Matcher.Selected) (models : Path.Directory) (disk : Disk) :
    ∃ f ∈ buildPlan p models disk, f.dest = under models p.file ∧ f.filename = p.file ∧ f.present = disk.isFile (under models p.file) :=
  ⟨_, List.mem_cons_self, rfl, rfl, rfl⟩

theorem present_of_mem {f : Planned} {models : Path.Directory} (h : f ∈ buildPlan p models disk) :
    f.present = disk.isFile f.dest := by
  obtain ⟨g, -, rfl⟩ := List.mem_map.mp h
  rfl

/-- A file of the plan that is there is apart from those that are missing. -/
theorem Tame.apart_of_present {models : Path.Directory} (h : Tame models (buildPlan p models disk)) {f : Planned}
    (hf : f ∈ buildPlan p models disk) (hpresent : f.present = true) : Apart models (buildPlan p models disk) f.dest := by
  have hnorm : ∀ g ∈ buildPlan p models disk, Path.normalise g.dest = models.names ++ [g.filename] := fun g hg => by
    rw [h.dest g hg, normalise_under (h.plain g hg)]
  refine ⟨?_, fun g hg hmissing heq => ?_⟩
  · rintro ⟨c, hcache⟩
    rw [hnorm f hf, List.prefix_append_right_inj] at hcache
    exact absurd hcache.length_le (by simp)
  · -- the paths are the same, so that the one is there if the other is
    have hread : disk.read f.dest = disk.read g.dest := read_congr heq
    rw [present_of_mem hf, Disk.isFile, hread] at hpresent
    rw [present_of_mem hg, Disk.isFile, hpresent] at hmissing
    cases hmissing

/-- The context that the weights are good for is known before the download if they are there. -/
theorem post_or {post : Option ℤ} {d : Disk} (h : Tame H.models (buildPlan p H.models disk))
    (hkeeps : ∀ q, Apart H.models (buildPlan p H.models disk) q → d.read q = disk.read q)
    (hpre : ggufCtxOn H cfg disk p = some gguf) (hpost : ggufCtxOn H cfg d p = some post) : post.or gguf = post := by
  obtain ⟨f, hf, hdest, -, hpresent⟩ := exists_weights p H.models disk
  cases hthere : disk.isFile (under H.models p.file) with
  | false =>
    rw [Disk.isFile, Option.isSome_eq_false_iff, Option.isNone_iff_eq_none] at hthere
    rw [ggufCtxOn, hthere] at hpre
    obtain rfl : none = gguf := Option.some.inj hpre
    exact Option.or_none
  | true =>
    have hread : d.read (under H.models p.file) = disk.read (under H.models p.file) := by
      rw [← hdest]
      exact hkeeps _ (h.apart_of_present hf (hpresent.trans hthere))
    rw [ggufCtxOn, hread, ← ggufCtxOn, hpre] at hpost
    obtain rfl := Option.some.inj hpost
    exact Option.or_self

/-- After a download that is ok the files of the plan are there. -/
theorem landed_of_okAll (h : Tame H.models (buildPlan p H.models disk)) (hub_lawful : H.hub.Lawful) {n : ℕ} {t : Option String}
    (hraised : (download H.hub H.mkdir t n (buildPlan p H.models disk) disk).raised = false)
    (hok : (download H.hub H.mkdir t n (buildPlan p H.models disk) disk).okAll = true) :
    Landed H p disk (download H.hub H.mkdir t n (buildPlan p H.models disk) disk).disk := by
  intro f hf
  obtain ⟨r, hr, rfl⟩ : ∃ r ∈ (download H.hub H.mkdir t n (buildPlan p H.models disk) disk).results, r.1 = f := by
    rw [← List.mem_map, h.map_results hub_lawful hraised]
    exact hf
  have hstatus : r.2 = .present ∨ r.2 = .ok := by
    have hr := List.all_eq_true.mp hok r hr
    simpa using hr
  obtain ⟨-, -, htells⟩ := h.results_download hub_lawful r hr
  cases hpresent : r.1.present with
  | true =>
    refine ⟨?_, fun hmissing => by cases hmissing⟩
    rw [Disk.isFile, h.read_download hub_lawful (h.apart_of_present hf hpresent), ← Disk.isFile, ← present_of_mem hf, hpresent]
  | false =>
    have htells := htells hpresent
    have hst : r.2 = .ok := hstatus.resolve_left htells.notPresent
    exact ⟨htells.landed (by rw [hst]; decide), fun _ => (htells.verified (by rw [hst]; decide)).mp hst⟩

/-- What the download comes to: it does not begin, it raises or fails, or it is ok. -/
theorem fetch_cases (H : Node) (args : Args) (cfg : Config) (p : Matcher.Selected) (gguf : Option ℤ) (s : Site) :
    (H.hubInstalled = false ∧ fetch H args cfg p gguf s = ⟨some 4, s, []⟩) ∨
      H.hubInstalled = true ∧ ∃ exit files,
        fetch H args cfg p gguf s = ⟨exit, ⟨(fetched H args p s.disk).disk, files⟩, (fetched H args p s.disk).results⟩ ∧
        (files = s.files ∧
            (exit = none ∧ ((fetched H args p s.disk).raised = true ∨ ggufCtxOn H cfg (fetched H args p s.disk).disk p = none) ∨
              exit = some 4 ∧ (fetched H args p s.disk).raised = false ∧ (fetched H args p s.disk).okAll = false) ∨
          (fetched H args p s.disk).raised = false ∧ (fetched H args p s.disk).okAll = true ∧ exit = some 0 ∧
            ∃ post, ggufCtxOn H cfg (fetched H args p s.disk).disk p = some post ∧
              files = if args.writeConfig || args.yes then wired H cfg p (post.or gguf) s.files else s.files) := by
  rw [fetch]
  dsimp only
  generalize fetched H args p s.disk = d
  by_cases hinstalled : H.hubInstalled = true
  · refine .inr ⟨hinstalled, ?_⟩
    rw [if_neg (by simp [hinstalled])]
    by_cases hraised : d.raised = true
    · rw [if_pos hraised]
      exact ⟨_, _, rfl, .inl ⟨rfl, .inl ⟨rfl, .inl hraised⟩⟩⟩
    · rw [if_neg hraised]
      rw [Bool.not_eq_true] at hraised
      by_cases hok : d.okAll = true
      · rw [if_neg (by simp [hok])]
        cases hpost : ggufCtxOn H cfg d.disk p with
        | none => exact ⟨_, _, rfl, .inl ⟨rfl, .inl ⟨rfl, .inr rfl⟩⟩⟩
        | some post =>
          refine ⟨some 0, if args.writeConfig || args.yes then wired H cfg p (post.or gguf) s.files else s.files, ?_,
            .inr ⟨hraised, hok, rfl, post, rfl, rfl⟩⟩
          dsimp only
          split_ifs <;> rfl
      · rw [Bool.not_eq_true] at hok
        rw [if_pos (by simp [hok])]
        exact ⟨_, _, rfl, .inl ⟨rfl, .inr ⟨rfl, hraised, hok⟩⟩⟩
  · rw [Bool.not_eq_true] at hinstalled
    exact .inl ⟨hinstalled, if_pos (by simp [hinstalled])⟩

/-- What a download and what comes after it change. -/
theorem sound_fetch (hub_lawful : H.hub.Lawful) (hp : pick? H args = some p) (hfetchable : Fetchable p)
    (hallowed : Allowed H args p s.disk) (hgguf : ggufCtxOn H cfg s.disk p = some gguf) :
    Sound H args cfg s (fetch H args cfg p gguf s) := by
  have htame := hfetchable.tame H.models s.disk
  have hframe : ∀ q, Apart H.models (buildPlan p H.models s.disk) q → (fetched H args p s.disk).disk.read q = s.disk.read q :=
    fun q hq => htame.read_download hub_lawful hq
  have hpicks : ∀ {p'}, pick? H args = some p' → p' = p := fun hp' => Option.some.inj (hp'.symm.trans hp)
  have hdenied : ∀ {P : Prop}, (∀ p', pick? H args = some p' → ¬ Allowed H args p' s.disk) → P :=
    fun h => absurd hallowed (h p hp)
  rcases fetch_cases H args cfg p gguf s with ⟨-, heq⟩ | ⟨-, exit, files, heq, ⟨rfl, hexit⟩ | ⟨hraised, hok, rfl, post, hpost, rfl⟩⟩
  · rw [heq]
    exact ⟨hdenied, fun _ _ => rfl, .inl rfl, nofun, fun p' _ _ hzero => by cases hzero⟩
  · rw [heq]
    have hnot : exit ≠ some 0 := by
      rcases hexit with ⟨rfl, -⟩ | ⟨rfl, -⟩ <;> decide
    exact ⟨hdenied, fun q hq => hframe q (hq p hp), .inl rfl, fun hzero => absurd hzero hnot, fun p' _ _ hzero => absurd hzero hnot⟩
  · have hlanded : Landed H p s.disk (fetched H args p s.disk).disk := landed_of_okAll htame hub_lawful hraised hok
    rw [heq, post_or htame hframe hgguf hpost]
    refine ⟨hdenied, fun q hq => hframe q (hq p hp), ?_, fun _ => .inr (.inr ⟨p, hp, hallowed⟩), fun p' hp' _ _ => ?_⟩
    · dsimp only
      split_ifs with hwrite
      · exact .inr ⟨rfl, hwrite, p, post, hp, hlanded, hpost, rfl⟩
      · exact .inl rfl
    · obtain rfl := hpicks hp'
      exact ⟨hlanded, fun hwrite => ⟨post, hpost, if_pos hwrite⟩⟩

/-- **A run does no more than it may**: it fetches only what the license, the disk and the operator allow, it
changes nothing but the files that it fetches, and it wires a pick only when its files are on disk. -/
theorem cmdProvision_sound (H : Node) (args : Args) (cfg : Config) (s : Site) (hub_lawful : H.hub.Lawful)
    (hnames : ∀ p, pick? H args = some p → Fetchable p) : Sound H args cfg s (cmdProvision H args cfg s) := by
  unfold cmdProvision
  split
  · next hnone =>
    exact ⟨fun _ => ⟨rfl, rfl⟩, fun _ _ => rfl, .inl rfl, nofun, fun p hp => by rw [hnone] at hp; cases hp⟩
  · next p hp =>
    rcases gates_cases H args cfg p s.disk with herror | ⟨code, herror, -, hzero, hdenied⟩ | ⟨gguf, hok, hgguf, hallowed⟩
    · rw [herror]
      exact ⟨fun _ => ⟨rfl, rfl⟩, fun _ _ => rfl, .inl rfl, nofun, fun p' _ _ hzero => by cases hzero⟩
    · rw [herror]
      refine ⟨fun _ => ⟨rfl, rfl⟩, fun _ _ => rfl, .inl rfl, fun hexit => ?_, fun p' hp' hallowed _ => ?_⟩
      · exact (hzero (Option.some.inj hexit)).imp_right .inl
      · obtain rfl : p' = p := Option.some.inj (hp'.symm.trans hp)
        exact absurd hallowed hdenied
    · rw [hok]
      exact sound_fetch hub_lawful hp (hnames p hp) hallowed hgguf

/-! ### A second run -/

/-- The download failed. -/
theorem fetch_of_exit_four (hexit : (cmdProvision H args cfg s).exit = some 4) :
    ∃ p gguf, pick? H args = some p ∧ cmdProvision H args cfg s = fetch H args cfg p gguf s := by
  unfold cmdProvision at hexit ⊢
  cases hp : pick? H args with
  | none =>
    rw [hp] at hexit
    cases hexit
  | some p =>
    simp only [hp] at hexit ⊢
    rcases gates_cases H args cfg p s.disk with herror | ⟨code, herror, hcode, -⟩ | ⟨gguf, hok, -⟩
    · rw [herror] at hexit
      cases hexit
    · rw [herror] at hexit
      obtain rfl : code = 4 := Option.some.inj hexit
      exact absurd hcode (by decide)
    · exact ⟨p, gguf, rfl, by rw [hok]⟩

theorem diskFreeMb_nonneg {isThere : Place → Bool} {freeMb : Place → ℚ} (h : ∀ q, 0 ≤ freeMb q) (cs : List String) :
    0 ≤ diskFreeMb isThere freeMb cs := by
  induction cs with
  | nil => exact h []
  | cons c cs ih =>
    rw [diskFreeMb]
    split_ifs
    · exact h _
    · exact ih

/-- A run that has nothing to download. -/
theorem cmdProvision_of_present (hp : pick? H args = some p) (hinstalled : H.hubInstalled = true)
    (hfree : ∀ q, 0 ≤ H.freeMb q) (hlicense : licenseGate p (token H args) = true) (hdry : args.dryRun = false)
    (hconsent : consents H args = true) (hpresent : ∀ f ∈ buildPlan p H.models s.disk, f.present = true)
    (hgguf : ggufCtxOn H cfg s.disk p = some gguf) (hreport : reportRaises H cfg gguf = false) :
    cmdProvision H args cfg s =
      ⟨some 0, { s with files := if args.writeConfig || args.yes then wired H cfg p gguf s.files else s.files },
        (buildPlan p H.models s.disk).map (·, .present)⟩ := by
  have hmb : downloadMb (buildPlan p H.models s.disk) = 0 := by
    have hnil : (buildPlan p H.models s.disk).filter (fun f => !f.present) = [] :=
      List.filter_eq_nil_iff.mpr fun f hf => by simp [hpresent f hf]
    rw [downloadMb, hnil]
    rfl
  have hroom : preflightDisk (diskFreeMb H.isThere H.freeMb H.models.names.reverse) (downloadMb (buildPlan p H.models s.disk)) = true := by
    rw [hmb, preflightDisk, zero_mul, decide_eq_true_eq]
    exact diskFreeMb_nonneg hfree _
  have hgates : gates H args cfg p s.disk = .ok gguf := by
    simp only [gates, hgguf, hreport, hlicense, hdry, hroom, hconsent]
    rfl
  have hfetched : fetched H args p s.disk = ⟨s.disk, (buildPlan p H.models s.disk).map (·, .present), false⟩ :=
    download_of_present _ _ _ _ _ hpresent
  have hok : (fetched H args p s.disk).okAll = true := by
    rw [hfetched, Download.okAll, List.all_eq_true]
    intro r hr
    obtain ⟨f, -, rfl⟩ := List.mem_map.mp hr
    rfl
  have hrun : cmdProvision H args cfg s = fetch H args cfg p gguf s := by
    simp only [cmdProvision, hp, hgates]
  rw [hrun]
  rcases fetch_cases H args cfg p gguf s with ⟨hnot, -⟩ | ⟨-, exit, files, heq, ⟨-, hexit⟩ | ⟨-, -, rfl, post, hpost, rfl⟩⟩
  · rw [hinstalled] at hnot
    cases hnot
  · rw [hok, hfetched, hgguf] at hexit
    simp at hexit
  · rw [hfetched] at hpost
    obtain rfl : gguf = post := Option.some.inj (hgguf.symm.trans hpost)
    rw [heq, hfetched, Option.or_self]

/-- **What failed the check is wired by the next run**: when a run ended since a file that was downloaded failed
the check, and nothing else went wrong, the next run takes the file as present, downloads nothing and wires
the pick. -/
theorem cmdProvision_again (H : Node) (args : Args) (cfg : Config) (s : Site) (hub_lawful : H.hub.Lawful)
    (hnames : ∀ p, pick? H args = some p → Fetchable p) (hinstalled : H.hubInstalled = true)
    (hexit : (cmdProvision H args cfg s).exit = some 4)
    (hreturned : ∀ r ∈ (cmdProvision H args cfg s).results, r.2 ≠ .error)
    (H' : Node) (args' : Args) (cfg' : Config) (hinstalled' : H'.hubInstalled = true) (hmodels : H'.models = H.models)
    (hpick : pick? H' args' = pick? H args) (hfree : ∀ q, 0 ≤ H'.freeMb q) (hwrite : (args'.writeConfig || args'.yes) = true)
    (hlicense : ∀ p, pick? H args = some p → licenseGate p (token H' args') = true) (hdry : args'.dryRun = false)
    (hconsent : consents H' args' = true) :
    ∃ p, pick? H args = some p ∧
      (∃ f ∈ buildPlan p H.models s.disk, verifyDownload (cmdProvision H args cfg s).site.disk f.dest f.role.minMb = false) ∧
      ∀ gguf, ggufCtxOn H' cfg' (cmdProvision H args cfg s).site.disk p = some gguf → reportRaises H' cfg' gguf = false →
        cmdProvision H' args' cfg' (cmdProvision H args cfg s).site =
        ⟨some 0, ⟨(cmdProvision H args cfg s).site.disk, wired H' cfg' p gguf s.files⟩,
          (buildPlan p H.models (cmdProvision H args cfg s).site.disk).map (·, .present)⟩ := by
  obtain ⟨p, gguf, hp, hrun⟩ := fetch_of_exit_four hexit
  have htame := (hnames p hp).tame H.models s.disk
  rw [hrun] at hexit hreturned ⊢
  obtain ⟨hraised, hok, hdisk, hfiles, hresults⟩ : (fetched H args p s.disk).raised = false ∧ (fetched H args p s.disk).okAll = false ∧
      (fetch H args cfg p gguf s).site.disk = (fetched H args p s.disk).disk ∧ (fetch H args cfg p gguf s).site.files = s.files ∧
      (fetch H args cfg p gguf s).results = (fetched H args p s.disk).results := by
    rcases fetch_cases H args cfg p gguf s with ⟨hnot, -⟩ | ⟨-, exit, files, heq, ⟨rfl, ⟨rfl, -⟩ | ⟨-, hraised, hok⟩⟩ | ⟨-, -, rfl, -⟩⟩
    · rw [hinstalled] at hnot
      cases hnot
    · rw [heq] at hexit
      cases hexit
    · rw [heq]
      exact ⟨hraised, hok, rfl, rfl, rfl⟩
    · rw [heq] at hexit
      cases hexit
  rw [hresults] at hreturned
  have hmap : (fetched H args p s.disk).results.map Prod.fst = buildPlan p H.models s.disk := htame.map_results hub_lawful hraised
  have hall : ∀ r ∈ (fetched H args p s.disk).results, r.1 ∈ buildPlan p H.models s.disk ∧ (r.1.present = true → r.2 = .present) ∧
      (r.1.present = false → Tells (fetched H args p s.disk).disk r.1 r.2) := htame.results_download hub_lawful
  have hthere : ∀ f ∈ buildPlan p H.models s.disk, (fetched H args p s.disk).disk.isFile f.dest = true := by
    intro f hf
    obtain ⟨r, hr, rfl⟩ : ∃ r ∈ (fetched H args p s.disk).results, r.1 = f := by
      rw [← List.mem_map, hmap]
      exact hf
    cases hpresent : r.1.present with
    | true =>
      have hread : (fetched H args p s.disk).disk.read r.1.dest = s.disk.read r.1.dest :=
        htame.read_download hub_lawful (htame.apart_of_present hf hpresent)
      rw [Disk.isFile, hread, ← Disk.isFile, ← present_of_mem hf, hpresent]
    | false => exact ((hall r hr).2.2 hpresent).landed (hreturned r hr)
  refine ⟨p, hp, ?_, fun post hpost hreport => ?_⟩
  · -- some file is neither present nor ok, so that it failed the check
    rw [Download.okAll, List.all_eq_false] at hok
    obtain ⟨r, hr, hstatus⟩ := hok
    have hnotPresent : r.1.present = false := by
      rw [← Bool.not_eq_true]
      intro hpresent
      exact hstatus (by simp [(hall r hr).2.1 hpresent])
    have htells := (hall r hr).2.2 hnotPresent
    refine ⟨r.1, (hall r hr).1, ?_⟩
    rw [hdisk, ← Bool.not_eq_true, ← htells.verified (hreturned r hr)]
    intro hst
    exact hstatus (by simp [hst])
  · have hpresent : ∀ f ∈ buildPlan p H'.models (fetch H args cfg p gguf s).site.disk, f.present = true := by
      intro f hf
      rw [hmodels, hdisk] at hf
      obtain ⟨g, hg, rfl⟩ := List.mem_map.mp hf
      exact hthere { g with present := s.disk.isFile g.dest } (List.mem_map_of_mem hg)
    have hagain := cmdProvision_of_present (hpick.trans hp) hinstalled' hfree (hlicense p hp) hdry hconsent hpresent hpost hreport
    rw [hagain, if_pos hwrite, hfiles, hmodels]

/-! ### A host whose downloads are stubs -/

/-- A hub that gives each file the same content. -/
def storingHub (bytes : List UInt8) : Hub := fun _ _ name dir _ disk =>
  (⟨(Path.normalise (dir ++ Path.parts name), bytes) :: disk.files⟩, some (dir ++ Path.parts name))

theorem lawful_storingHub (bytes : List UInt8) : (storingHub bytes).Lawful where
  lands h := by
    obtain ⟨rfl, hp⟩ := Prod.mk.inj h
    obtain rfl := Option.some.inj hp
    simp [Disk.isFile, Disk.read]
  keeps hne _ := by
    rw [Disk.read, storingHub, List.lookup_cons, beq_eq_false_iff_ne.mpr hne, Disk.read]

/-- A host with an empty disk, and one small model to pick. -/
def freshNode (hub : Hub) : Node where
  caps := ⟨[], none, some 8192, none, false⟩
  os := .linux
  playbook := some ⟨{}, [⟨"a", none, some "MIT", some "org/a", none, false, 10, none, none, [⟨"q4", "a.gguf", some 100⟩]⟩]⟩
  models := ⟨["p", "models"], by decide, by decide⟩
  models_parts c hc := Path.isPart_of_mem_parts (s := "/p/models") (by rw [show Path.parts "/p/models" = ["p", "models"] by decide]; exact hc)
  isThere _ := true
  freeMb _ := 1000
  environToken := none
  answer := none
  hubInstalled := true
  mkdir _ := true
  hub
  toInt t := PyText.int PyText.asciiDecimal (String.ofList t)
  objects := .none
  depth := 1

/-- `provision --yes`. -/
def yesArgs : Args := ⟨true, false, false, false, none, none⟩

def freshSite : Site := ⟨⟨[]⟩, ⟨none, none, none, none, none⟩⟩

theorem pick_freshNode (hub : Hub) : (pick? (freshNode hub) yesArgs).map (fun p => (p.file, p.mmproj)) = some ("a.gguf", none) := by
  show (pick? (freshNode (storingHub [])) yesArgs).map (fun p => (p.file, p.mmproj)) = some ("a.gguf", none)
  decide +kernel

theorem fetchable_freshNode (hub : Hub) : ∀ p, pick? (freshNode hub) yesArgs = some p → Fetchable p := by
  intro p hp
  have hpick := pick_freshNode hub
  rw [hp, Option.map_some, Option.some.injEq, Prod.mk.injEq] at hpick
  obtain ⟨hfile, hmmproj⟩ := hpick
  refine ⟨?_, fun mmproj hmem => ?_⟩
  · rw [hfile]
    exact ⟨by decide, by decide, by decide⟩
  · rw [hmmproj] at hmem
    cases hmem

theorem cmdProvision_sound_fresh : Sound (freshNode (storingHub [0])) yesArgs (fun _ => none) freshSite
    (cmdProvision (freshNode (storingHub [0])) yesArgs (fun _ => none) freshSite) :=
  cmdProvision_sound _ _ _ _ (lawful_storingHub [0]) (fetchable_freshNode _)

/-- The first run fails, and the second one wires the file of one byte. -/
theorem cmdProvision_again_fresh :
    (cmdProvision (freshNode (storingHub [0])) yesArgs (fun _ => none) freshSite).exit = some 4 ∧
      (cmdProvision (freshNode (storingHub [0])) yesArgs (fun _ => none)
        (cmdProvision (freshNode (storingHub [0])) yesArgs (fun _ => none) freshSite).site).exit = some 0 := by
  obtain ⟨hexit, hreturned, hlicense, hgguf⟩ :
      (cmdProvision (freshNode (storingHub [0])) yesArgs (fun _ => none) freshSite).exit = some 4 ∧
        ((cmdProvision (freshNode (storingHub [0])) yesArgs (fun _ => none) freshSite).results.all (·.2 ≠ .error)) = true ∧
        (pick? (freshNode (storingHub [0])) yesArgs).all
          (fun p => licenseGate p (token (freshNode (storingHub [0])) yesArgs)) = true ∧
        (pick? (freshNode (storingHub [0])) yesArgs).all (fun p => ggufCtxOn (freshNode (storingHub [0])) (fun _ => none)
          (cmdProvision (freshNode (storingHub [0])) yesArgs (fun _ => none) freshSite).site.disk p = some none) = true := by
    decide +kernel
  have hfree : (0 : ℚ) ≤ 1000 := by norm_num
  obtain ⟨p, hp, -, hagain⟩ := cmdProvision_again (freshNode (storingHub [0])) yesArgs (fun _ => none) freshSite (lawful_storingHub [0])
    (fetchable_freshNode _) rfl hexit (fun r hr => by simpa using List.all_eq_true.mp hreturned r hr)
    (freshNode (storingHub [0])) yesArgs (fun _ => none) rfl rfl rfl (fun _ => hfree) rfl
    (fun p hp => by rwa [hp] at hlicense) rfl rfl
  rw [hp, Option.all_some, decide_eq_true_eq] at hgguf
  exact ⟨hexit, by rw [hagain none hgguf rfl]⟩

end Run

end Persona.Provision
