import Persona.Json
import Persona.Lib.Path

/-!
# Paths made of request strings

`agent_run` writes a job file under `run/jobs` whose name is the request's `task_id`, and
`chat` and `v1_chat_completions` make the folder of the request's `profile` under
`PROFILES_DIR` with its two files (`ensure_profile_files`). The strings are joined to the
directory as they are: a slash in front replaces the directory, and `..` climbs. Paths are
those of POSIX: a backslash or a drive letter is part of a name.

`contained_iff` says which strings keep what is created inside the directory, whatever the
file system holds.
-/

namespace Persona.Api.RequestPaths

open Persona Persona.Lib.Path Persona.Lib

/-! ### The handlers -/

/-- The path of a string that is joined to a directory. -/
def join (dir : Directory) (s : String) : List String := dir.start (isAbsolute s) ++ parts s

/-- `task_id`. -/
def taskId (P : Python) (payload : List (String × Json)) (now : ℕ) : String :=
  P.toStr ((Json.get payload "task_id").or (.str ("job-" ++ toString now)))

/-- `run/jobs`. -/
def jobsDir (cwd : Directory) : Directory where
  names := cwd.names ++ ["run", "jobs"]
  plain := by simp [cwd.plain]
  valid := by
    intro c hc
    rcases List.mem_append.mp hc with hc | hc
    · exact cwd.valid c hc
    · exact (by decide : ∀ c ∈ ["run", "jobs"], '\x00' ∉ c.toList) c hc

/-- `job_path`. -/
def jobPath (cwd : Directory) (taskId : String) : List String := join (jobsDir cwd) (taskId ++ ".job.json")

/-- `result_path`. -/
def resultPath (cwd : Directory) (taskId : String) : List String := join (jobsDir cwd) (taskId ++ ".result.json")

/-- `agent_run`: the files that are created or overwritten. `run/jobs` is there; the tool that is
run writes its result if it gets so far. -/
def agentRun (cwd : Directory) (fs : FileSystem) (reports : Bool) (taskId : String) : List (List String) :=
  if fs.opens (jobPath cwd taskId) then
    jobPath cwd taskId ::
      if reports && (fs.set (normalise (jobPath cwd taskId)) .file).opens (resultPath cwd taskId) then [resultPath cwd taskId]
      else []
  else []

/-- `profile`. -/
def requestProfile (defaultProfile : String) (profile : Option String) : String :=
  PyText.strip (match profile with
    | some p => if p = "" then defaultProfile else p
    | none => defaultProfile)

/-- A file of a profile is written if it is not there. -/
def scaffold (fs : FileSystem) (fp : List String) : List (List String) × Option FileSystem :=
  if fs.kind (normalise fp) = some .file then ([], some fs)
  else if fs.opens fp then ([fp], some (fs.set (normalise fp) .file))
  else ([], none)

/-- `ensure_profile_files`: the directories and files that are created. -/
def ensureProfileFiles (profilesDir : Directory) (fs : FileSystem) (profile : String) : List (List String) :=
  let p := join profilesDir profile
  if FileSystem.valid p then
    match fs.makeDirs [] p with
    | (created, none) => created
    | (created, some fs) =>
      match scaffold fs (p ++ ["SOUL.md"]) with
      | (soul, none) => created ++ soul
      | (soul, some fs) => created ++ soul ++ (scaffold fs (p ++ [".hermes.md"])).1
  else []

/-! ### What stays inside -/

/-- Whatever there is, a request with the task id creates files inside `run/jobs` alone. -/
def TaskContained (cwd : Directory) (taskId : String) : Prop :=
  ∀ fs reports, FileSystem.Has fs (jobsDir cwd) → ∀ p ∈ agentRun cwd fs reports taskId, Inside (jobsDir cwd).names p

/-- Whatever there is, a request with the profile creates directories and files inside
`PROFILES_DIR` alone. -/
def ProfileContained (profilesDir : Directory) (profile : String) : Prop :=
  ∀ fs, FileSystem.Has fs profilesDir → ∀ p ∈ ensureProfileFiles profilesDir fs profile, Inside profilesDir.names p

/-- The parts of a string before its last slash. -/
def folder (s : String) : List String :=
  ((s.toList.splitOn '/').dropLast.map String.ofList).filter fun c => c ≠ "" ∧ c ≠ "."

/-- The folder of the task id leads back by the levels it climbs; or the path cannot be opened,
as it has a null character or runs through the file that it names. -/
def TaskConfined (cwd : Directory) (taskId : String) : Prop :=
  (jobsDir cwd).climbed (isAbsolute taskId) (folder taskId) <+: (net (folder taskId)).2 ∨
    FileSystem.valid (parts (taskId ++ ".job.json")) = false ∨
      normalise (jobPath cwd taskId) <+: (jobsDir cwd).names ∨
        ∃ pre, pre <+: (jobPath cwd taskId).dropLast ∧ normalise pre = normalise (jobPath cwd taskId)

/-- The profile leads back by the levels it climbs, and on its way names nothing beside these; or
it has a null character, or climbs to a directory that has `PROFILES_DIR` in its `SOUL.md`. -/
def ProfileConfined (profilesDir : Directory) (profile : String) : Prop :=
  FileSystem.valid (parts profile) = false ∨
    (∀ pre, pre <+: parts profile →
      (net pre).2 <+: profilesDir.climbed (isAbsolute profile) pre ∨
        profilesDir.climbed (isAbsolute profile) pre <+: (net pre).2) ∧
      (profilesDir.climbed (isAbsolute profile) (parts profile) <+: (net (parts profile)).2 ∨
        normalise (join profilesDir profile) ++ ["SOUL.md"] <+: profilesDir.names)

/-! ### Task ids -/

variable {cwd profilesDir : Directory} {s suffix : String}

/-- What stands after the last slash gets the suffix. -/
theorem parts_append (s : String) : ∃ last : String, ∀ suffix : String, '/' ∉ suffix.toList → 4 < suffix.toList.length →
    parts (s ++ suffix) = folder s ++ [last ++ suffix] ∧ 4 < (last ++ suffix).toList.length := by
  obtain ⟨init, last, hs, hlast⟩ := splitOn_append '/' s.toList
  refine ⟨String.ofList last, fun suffix hslash hlong => ?_⟩
  have hname : String.ofList (last ++ suffix.toList) = String.ofList last ++ suffix := by
    rw [String.ofList_append, String.ofList_toList]
  have hlength : 4 < (String.ofList last ++ suffix).toList.length := by
    rw [String.toList_append, List.length_append]
    omega
  have hempty : String.ofList last ++ suffix ≠ "" := by
    intro heq
    rw [heq] at hlength
    exact absurd hlength (by decide)
  have hdot : String.ofList last ++ suffix ≠ "." := by
    intro heq
    rw [heq] at hlength
    exact absurd hlength (by decide)
  refine ⟨?_, hlength⟩
  rw [parts, String.toList_append, hlast _ hslash, List.map_append, List.filter_append, folder, hs, List.dropLast_concat]
  simp [hname, hempty, hdot]

theorem isAbsolute_append (h : suffix.toList.head? ≠ some '/') : isAbsolute (s ++ suffix) = isAbsolute s := by
  rw [isAbsolute, isAbsolute, String.toList_append]
  cases hs : s.toList with
  | nil => simpa using h
  | cons c cs => rfl

/-- A file that is named after a string lies in the folder of the string. -/
theorem join_append (cwd : Directory) (s : String) : ∃ last : String, ∀ suffix : String, '/' ∉ suffix.toList →
    4 < suffix.toList.length →
      join (jobsDir cwd) (s ++ suffix) = (jobsDir cwd).start (isAbsolute s) ++ folder s ++ [last ++ suffix] ∧
        normalise (join (jobsDir cwd) (s ++ suffix)) =
          normalise ((jobsDir cwd).start (isAbsolute s) ++ folder s) ++ [last ++ suffix] ∧
        last ++ suffix ≠ "jobs" := by
  obtain ⟨last, hlast⟩ := parts_append s
  refine ⟨last, fun suffix hslash hlong => ?_⟩
  obtain ⟨hparts, hlength⟩ := hlast suffix hslash hlong
  have habs : isAbsolute (s ++ suffix) = isAbsolute s := by
    refine isAbsolute_append fun hhead => hslash ?_
    exact List.mem_of_mem_head? hhead
  have hjoin : join (jobsDir cwd) (s ++ suffix) =
      (jobsDir cwd).start (isAbsolute s) ++ folder s ++ [last ++ suffix] := by
    rw [join, habs, hparts, List.append_assoc]
  have hne : ∀ t : String, t.toList.length ≤ 4 → last ++ suffix ≠ t := by
    rintro t ht rfl
    omega
  refine ⟨hjoin, ?_, hne "jobs" (by decide)⟩
  rw [hjoin, normalise_concat, step, if_neg (hne ".." (by decide))]

theorem valid_append {p q : List String} : FileSystem.valid (p ++ q) = (FileSystem.valid p && FileSystem.valid q) :=
  List.all_append

theorem valid_start (dir : Directory) (absolute : Bool) : FileSystem.valid (dir.start absolute) = true := by
  cases absolute with
  | true => rfl
  | false =>
    rw [FileSystem.valid, List.all_eq_true]
    intro c hc
    simpa using dir.valid c hc

theorem valid_join {dir : Directory} : FileSystem.valid (join dir s) = FileSystem.valid (parts s) := by
  rw [join, valid_append, valid_start, Bool.true_and]

/-- A file in a folder lies inside `run/jobs` when the folder leads back to it. -/
theorem inside_of_climbed {absolute : Bool} {cs p : List String} {name : String}
    (hp : normalise p = normalise ((jobsDir cwd).start absolute ++ cs) ++ [name]) (hname : name ≠ "jobs") :
    Inside (jobsDir cwd).names p ↔ (jobsDir cwd).climbed absolute cs <+: (net cs).2 := by
  have hne : normalise ((jobsDir cwd).start absolute ++ cs) ++ [name] ≠ (jobsDir cwd).names := by
    intro heq
    have hlast := congrArg List.getLast? heq
    rw [List.getLast?_concat] at hlast
    simp [jobsDir] at hlast
    exact hname hlast
  rw [Inside, hp, List.prefix_concat_iff, Directory.prefix_normalise_iff]
  constructor
  · rintro ⟨heq | hpre, -⟩
    · exact absurd heq.symm hne
    · exact hpre
  · exact fun h => ⟨.inr h, hne⟩

/-- A task id keeps its files in `run/jobs` exactly when its folder leads back there, if the job
file can be opened at all. -/
theorem taskContained_iff (cwd : Directory) (taskId : String) : TaskContained cwd taskId ↔ TaskConfined cwd taskId := by
  obtain ⟨last, hlast⟩ := join_append cwd taskId
  obtain ⟨hjob, hjobNorm, hjobName⟩ := hlast ".job.json" (by decide) (by decide)
  obtain ⟨hresult, hresultNorm, hresultName⟩ := hlast ".result.json" (by decide) (by decide)
  rw [← jobPath] at hjob hjobNorm
  rw [← resultPath] at hresult hresultNorm
  constructor
  · intro h
    by_contra hout
    rw [TaskConfined, not_or, not_or, not_or] at hout
    obtain ⟨hclimbed, hvalid, hnames, hway⟩ := hout
    -- everything on the way is a directory, and nothing else is there
    let ways := (jobsDir cwd).names.inits ++ (jobPath cwd taskId).dropLast.inits.map normalise
    let fs : FileSystem := ⟨fun q => if q ∈ ways then some .dir else none, fun _ => true⟩
    have hways : ∀ q, q ∈ ways ↔ q <+: (jobsDir cwd).names ∨ ∃ pre, pre <+: (jobPath cwd taskId).dropLast ∧ normalise pre = q := by
      intro q
      simp only [ways, List.mem_append, List.mem_inits, List.mem_map]
    have hopens : fs.opens (jobPath cwd taskId) = true := by
      refine FileSystem.opens_iff.mpr ⟨?_, ?_, ?_, rfl⟩
      · rw [jobPath, valid_join]
        simpa using hvalid
      · exact fun pre hpre => if_pos ((hways _).mpr (.inr ⟨pre, hpre, rfl⟩))
      · have hnot : normalise (jobPath cwd taskId) ∉ ways := by
          rw [hways, not_or]
          exact ⟨hnames, hway⟩
        simp [fs, hnot]
    have hhas : fs.Has (jobsDir cwd) := fun q hq => if_pos ((hways q).mpr (.inl hq))
    have hinside := h fs false hhas (jobPath cwd taskId) (by simp [agentRun, hopens])
    exact hclimbed ((inside_of_climbed hjobNorm hjobName).mp hinside)
  · intro h fs reports hhas p hp
    by_cases hopens : fs.opens (jobPath cwd taskId) = true
    · obtain ⟨hvalid, hway, hnot, -⟩ := FileSystem.opens_iff.mp hopens
      have hclimbed : (jobsDir cwd).climbed (isAbsolute taskId) (folder taskId) <+: (net (folder taskId)).2 := by
        rcases h with h | h | h | ⟨pre, hpre, heq⟩
        · exact h
        · rw [jobPath, valid_join, h] at hvalid
          cases hvalid
        · exact absurd (hhas _ h) hnot
        · exact absurd (heq ▸ hway pre hpre) hnot
      have hfiles : p = jobPath cwd taskId ∨ p = resultPath cwd taskId := by
        rw [agentRun, if_pos hopens] at hp
        rcases List.mem_cons.mp hp with hp | hp
        · exact .inl hp
        · split_ifs at hp
          · exact .inr (List.mem_singleton.mp hp)
          · cases hp
      rcases hfiles with rfl | rfl
      · exact (inside_of_climbed hjobNorm hjobName).mpr hclimbed
      · exact (inside_of_climbed hresultNorm hresultName).mpr hclimbed
    · rw [agentRun, if_neg hopens] at hp
      cases hp

/-! ### Profiles -/

variable {fs fs' : FileSystem} {profile : String} {p : List String}

theorem scaffold_created {fp : List String} (h : p ∈ (scaffold fs fp).1) : p = fp ∧ fs.opens fp = true := by
  rw [scaffold] at h
  split_ifs at h with hfile hopens
  · cases h
  · exact ⟨List.mem_singleton.mp h, hopens⟩
  · cases h

/-- Where a file of the profile lies. -/
theorem normalise_file {fn : String} (h : fn ≠ "..") :
    normalise (join profilesDir profile ++ [fn]) = normalise (join profilesDir profile) ++ [fn] := by
  rw [normalise_concat, step, if_neg h]

/-- A scaffolded file is no directory. -/
theorem kind_ne_dir_of_scaffold {fp : List String} (h : (scaffold fs fp).2 = some fs') :
    fs.kind (normalise fp) ≠ some .dir := by
  rw [scaffold] at h
  split_ifs at h with hfile hopens
  · rw [hfile]
    decide
  · exact (FileSystem.opens_iff.mp hopens).2.2.1

/-- What is created for a profile is on the way to its folder, or is a file in it. -/
theorem mem_ensureProfileFiles (hhas : FileSystem.Has fs profilesDir) (h : p ∈ ensureProfileFiles profilesDir fs profile) :
    FileSystem.valid (parts profile) = true ∧
      ((p <+: join profilesDir profile ∧ fs.kind (normalise p) = none) ∨
        (∃ fn, fn ≠ ".." ∧ p = join profilesDir profile ++ [fn]) ∧
          ¬ normalise (join profilesDir profile) ++ ["SOUL.md"] <+: profilesDir.names) := by
  rw [ensureProfileFiles] at h
  split_ifs at h with hvalid
  · rw [valid_join] at hvalid
    refine ⟨hvalid, ?_⟩
    have hway : ∀ {q}, q ∈ (fs.makeDirs [] (join profilesDir profile)).1 →
        q <+: join profilesDir profile ∧ fs.kind (normalise q) = none := by
      intro q hq
      obtain ⟨pre, rfl, hpre, hnone⟩ := FileSystem.mem_makeDirs hq
      exact ⟨hpre, hnone⟩
    cases hmake : fs.makeDirs [] (join profilesDir profile) with
    | mk created made =>
      rw [hmake] at h hway
      cases made with
      | none => exact .inl (hway h)
      | some fs₁ =>
        have hhas₁ : FileSystem.Has fs₁ profilesDir := hhas.makeDirs (by rw [hmake])
        have hnot : fs₁.kind (normalise (join profilesDir profile ++ ["SOUL.md"])) ≠ some .dir →
            ¬ normalise (join profilesDir profile) ++ ["SOUL.md"] <+: profilesDir.names := by
          intro hkind hpre
          rw [normalise_file (by decide)] at hkind
          exact hkind (hhas₁ _ hpre)
        have hsoulFile : ∀ {q}, q ∈ (scaffold fs₁ (join profilesDir profile ++ ["SOUL.md"])).1 →
            (∃ fn, fn ≠ ".." ∧ q = join profilesDir profile ++ [fn]) ∧
              ¬ normalise (join profilesDir profile) ++ ["SOUL.md"] <+: profilesDir.names := by
          intro q hq
          obtain ⟨rfl, hopens⟩ := scaffold_created hq
          exact ⟨⟨"SOUL.md", by decide, rfl⟩, hnot (FileSystem.opens_iff.mp hopens).2.2.1⟩
        cases hsoul : scaffold fs₁ (join profilesDir profile ++ ["SOUL.md"]) with
        | mk soul scaffolded =>
          rw [hsoul] at hsoulFile
          simp only [hsoul] at h
          cases scaffolded with
          | none =>
            rcases List.mem_append.mp h with h | h
            · exact .inl (hway h)
            · exact .inr (hsoulFile h)
          | some fs₂ =>
            rcases List.mem_append.mp h with h | h
            · rcases List.mem_append.mp h with h | h
              · exact .inl (hway h)
              · exact .inr (hsoulFile h)
            · obtain ⟨rfl, -⟩ := scaffold_created h
              exact .inr ⟨⟨".hermes.md", by decide, rfl⟩, hnot (kind_ne_dir_of_scaffold (by rw [hsoul]))⟩
  · cases h

/-- The directories that are made are among what is created, and `SOUL.md` is if it can be. -/
theorem mem_ensureProfileFiles_of_mem (hvalid : FileSystem.valid (parts profile) = true)
    (hmake : (fs.makeDirs [] (join profilesDir profile)).2 = some fs')
    (h : p ∈ (fs.makeDirs [] (join profilesDir profile)).1 ∨ p ∈ (scaffold fs' (join profilesDir profile ++ ["SOUL.md"])).1) :
    p ∈ ensureProfileFiles profilesDir fs profile := by
  rw [ensureProfileFiles]
  simp only [valid_join, hvalid, if_true]
  cases hcases : fs.makeDirs [] (join profilesDir profile) with
  | mk created made =>
    rw [hcases] at hmake h
    obtain rfl : made = some fs' := hmake
    cases hsoul : scaffold fs' (join profilesDir profile ++ ["SOUL.md"]) with
    | mk soul scaffolded =>
      rw [hsoul] at h
      simp only [hsoul]
      cases scaffolded with
      | none => exact List.mem_append.mpr h
      | some fs₂ => exact List.mem_append_left _ (List.mem_append.mpr h)

/-- Where there is nothing but the directory, the folder of a profile that stays inside is made: then the
directories are those around `PROFILES_DIR` and those in it. -/
theorem exists_made (h : ProfileContained profilesDir profile) (hvalid : FileSystem.valid (parts profile) = true) :
    ∃ fs fs', FileSystem.Has fs profilesDir ∧ (fs.makeDirs [] (join profilesDir profile)).2 = some fs' ∧ fs'.Free ∧
      (∀ p, p <+: join profilesDir profile → fs'.kind (normalise p) = some .dir) ∧
        ∀ q, fs'.kind q = some .dir → q <+: profilesDir.names ∨ profilesDir.names <+: q := by
  let fs : FileSystem := ⟨fun q => if q <+: profilesDir.names then some .dir else none, fun _ => true⟩
  have hhas : fs.Has profilesDir := fun q hq => if_pos hq
  have hfree : fs.Free := by
    refine ⟨fun q => ?_, fun _ => rfl⟩
    by_cases hq : q <+: profilesDir.names <;> simp [fs, hq]
  obtain ⟨fs', hmake, hfree', hdirs, hold, hnew⟩ := hfree.makeDirs [] (join profilesDir profile)
  refine ⟨fs, fs', hhas, hmake, hfree', fun p hp => ?_, fun q hq => ?_⟩
  · by_cases hnil : p = []
    · rw [hnil]
      exact hold _ (hhas [] List.nil_prefix)
    · exact hdirs p hp hnil
  · rcases hnew q hq with hq | ⟨p, hp, rfl⟩
    · by_cases hpre : q <+: profilesDir.names
      · exact .inl hpre
      · simp [fs, hpre] at hq
    · exact .inr (h fs hhas p (mem_ensureProfileFiles_of_mem hvalid hmake (.inl hp))).1

theorem confined_of_contained (h : ProfileContained profilesDir profile) : ProfileConfined profilesDir profile := by
  by_cases hvalid : FileSystem.valid (parts profile) = true
  · obtain ⟨fs, fs', hhas, hmake, hfree, hdirs, hsplit⟩ := exists_made h hvalid
    have hway : ∀ pre, pre <+: parts profile →
        (net pre).2 <+: profilesDir.climbed (isAbsolute profile) pre ∨
          profilesDir.climbed (isAbsolute profile) pre <+: (net pre).2 := by
      intro pre hpre
      rw [← Directory.normalise_prefix_iff, ← Directory.prefix_normalise_iff]
      exact hsplit _ (hdirs _ ((List.prefix_append_right_inj _).mpr hpre))
    refine .inr ⟨hway, ?_⟩
    by_contra hout
    rw [not_or] at hout
    obtain ⟨hback, hsoul⟩ := hout
    rw [← Directory.prefix_normalise_iff, ← join] at hback
    have hnotInside : ¬ profilesDir.names <+: normalise (join profilesDir profile ++ ["SOUL.md"]) := by
      rw [normalise_file (by decide), List.prefix_concat_iff, not_or]
      exact ⟨fun heq => hsoul (by rw [heq]), hback⟩
    -- so `SOUL.md` is written outside
    have hopens : fs'.opens (join profilesDir profile ++ ["SOUL.md"]) = true := by
      refine FileSystem.opens_iff.mpr ⟨?_, ?_, ?_, hfree.2 _⟩
      · rw [valid_append, valid_join, hvalid]
        decide
      · rw [List.dropLast_concat]
        exact hdirs
      · intro hkind
        rcases hsplit _ hkind with hpre | hpre
        · rw [normalise_file (by decide)] at hpre
          exact hsoul hpre
        · exact hnotInside hpre
    have hcreated : join profilesDir profile ++ ["SOUL.md"] ∈ (scaffold fs' (join profilesDir profile ++ ["SOUL.md"])).1 := by
      rw [scaffold, if_neg (hfree.1 _), if_pos hopens]
      exact List.mem_singleton_self _
    exact hnotInside (h fs hhas _ (mem_ensureProfileFiles_of_mem hvalid hmake (.inr hcreated))).1
  · exact .inl (by simpa using hvalid)

/-- What is made on the way to the folder of a profile lies inside, if it is not around `PROFILES_DIR`. -/
theorem inside_of_way (hway : ∀ pre, pre <+: parts profile → (net pre).2 <+: profilesDir.climbed (isAbsolute profile) pre ∨
    profilesDir.climbed (isAbsolute profile) pre <+: (net pre).2) (hpre : p <+: join profilesDir profile)
    (hnot : ¬ normalise p <+: profilesDir.names) : Inside profilesDir.names p := by
  refine ⟨?_, fun heq => hnot (by rw [heq])⟩
  rcases List.prefix_or_prefix_of_prefix hpre (List.prefix_append _ (parts profile)) with hstart | ⟨pre, rfl⟩
  · -- the way to the directory itself is there
    have hnames : p <+: profilesDir.names := by
      cases habs : isAbsolute profile with
      | true =>
        rw [habs] at hstart
        rw [List.prefix_nil.mp hstart]
        exact List.nil_prefix
      | false => rwa [habs] at hstart
    have hplain : ".." ∉ p := fun hmem => profilesDir.plain (hnames.subset hmem)
    rw [normalise_of_plain hplain] at hnot
    exact absurd hnames hnot
  · have hparts : pre <+: parts profile := (List.prefix_append_right_inj _).mp hpre
    rcases hway pre hparts with hdown | hdown
    · exact absurd (Directory.normalise_prefix_iff.mpr hdown) hnot
    · exact Directory.prefix_normalise_iff.mpr hdown

theorem contained_of_confined (h : ProfileConfined profilesDir profile) : ProfileContained profilesDir profile := by
  intro fs hhas p hp
  obtain ⟨hvalid, hcases⟩ := mem_ensureProfileFiles hhas hp
  rcases h with h | ⟨hway, hback⟩
  · rw [h] at hvalid
    cases hvalid
  rcases hcases with ⟨hpre, hnone⟩ | ⟨⟨fn, hfn, rfl⟩, hsoul⟩
  · refine inside_of_way hway hpre fun hdir => ?_
    rw [hhas _ hdir] at hnone
    cases hnone
  · have hdir := Directory.prefix_normalise_iff.mpr (hback.resolve_right hsoul)
    rw [← join] at hdir
    rw [Inside, normalise_file hfn]
    refine ⟨hdir.trans (List.prefix_append _ _), fun heq => ?_⟩
    have hlength := hdir.length_le
    rw [← heq] at hlength
    simp at hlength

/-- A profile keeps its files in `PROFILES_DIR` exactly when its path leads back there and names
nothing beside the way, if it can be made at all. -/
theorem profileContained_iff (profilesDir : Directory) (profile : String) :
    ProfileContained profilesDir profile ↔ ProfileConfined profilesDir profile :=
  ⟨confined_of_contained, contained_of_confined⟩

/-- What is created for a request lies in the directory that its string is joined to, exactly
when the string leads back there, as far as anything can be created. -/
theorem contained_iff (cwd profilesDir : Directory) :
    (∀ P payload now, TaskContained cwd (taskId P payload now) ↔ TaskConfined cwd (taskId P payload now)) ∧
      ∀ defaultProfile profile, ProfileContained profilesDir (requestProfile defaultProfile profile) ↔
        ProfileConfined profilesDir (requestProfile defaultProfile profile) :=
  ⟨fun _ _ _ => taskContained_iff cwd _, fun _ _ => profileContained_iff profilesDir _⟩

/-- A directory under `/srv`. -/
def srv (name : String) (h : ".." ≠ name ∧ '\x00' ∉ name.toList) : Directory :=
  ⟨["srv", name], by simp [h.1], by simpa using h.2⟩

/-- A directory, and those it is in. -/
def onlyDir (dir : Directory) : FileSystem := ⟨fun q => if q ∈ dir.names.inits then some .dir else none, fun _ => true⟩

theorem has_onlyDir (dir : Directory) : (onlyDir dir).Has dir := fun _ hq => if_pos ((List.mem_inits _ _).mpr hq)

/-- A job file beside `run/jobs`, and a profile beside `PROFILES_DIR`. -/
theorem not_contained :
    ¬ TaskContained (srv "app" (by decide)) (taskId (.ofTable []) [("task_id", .str "../x")] 0) ∧
    ¬ ProfileContained (srv "profiles" (by decide)) (requestProfile "default" (some "../other")) := by
  constructor
  · rw [show taskId (.ofTable []) [("task_id", .str "../x")] 0 = "../x" from rfl]
    intro h
    have hin := h (onlyDir (jobsDir (srv "app" (by decide)))) false (has_onlyDir _)
      ["srv", "app", "run", "jobs", "..", "x.job.json"] (by decide)
    exact absurd hin.1 (by decide)
  · intro h
    have hin := h (onlyDir (srv "profiles" (by decide))) (has_onlyDir _) ["srv", "profiles", "..", "other"] (by decide)
    exact absurd hin.1 (by decide)

end Persona.Api.RequestPaths
