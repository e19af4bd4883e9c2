import Persona.Lib.PyText
import Mathlib.Algebra.Group.Int.Defs
import Mathlib.Data.List.Nodup
import Mathlib.Data.Nat.Notation

/-!
# Stopping a service

`stop_named` of `manage.py`, on a POSIX host: the pid comes from the pidfile, and when no process has
it but the service answers, from a search of `/proc` for a command line that has all the needles. The
process is sent `SIGTERM`, and `SIGKILL` when it outlives the wait.

Every call to the system sees the process table of its own moment (`Host.table`), so the host is any
evolution of the table. The command line is only looked at in the search: `stopNamed_ours_iff` says
when all the signals go to a process that has the needles.
-/

namespace Persona.Manage

open Persona.Lib

/-- A process. -/
structure Proc where
  pid : ℕ
  /-- Its process group. -/
  group : ℕ
  /-- Its `/proc` command line, decoded: a zero ends an argument. -/
  cmdline : String
  /-- We may read the command line. -/
  readable : Bool
  /-- We may send it a signal. -/
  signallable : Bool

/-- A process table, in the order in which `/proc` lists it. -/
structure ProcTable where
  procs : List Proc
  pos : ∀ q ∈ procs, 0 < q.pid
  nodup : (procs.map Proc.pid).Nodup

/-- What `os.kill` does. -/
inductive Kill where
  | delivered
  /-- `ProcessLookupError`. -/
  | noProcess
  /-- `PermissionError`. -/
  | notPermitted
  /-- `OverflowError`: the number is no `pid_t`. -/
  | overflow
  deriving DecidableEq

/-- The host during a stop. -/
structure Host where
  /-- The process table at the `n`-th call. -/
  table : ℕ → ProcTable
  /-- `os.getpid()`. -/
  own : ℕ
  /-- `os.getppid()`. -/
  parent : ℕ
  /-- There is a `/proc`. -/
  hasProc : Bool
  /-- The pidfile; `none` when it cannot be read. -/
  pidfile : Option String
  /-- The values of the decimal digits. -/
  decimal : Char → Option ℕ
  /-- `http_health_up`, of a URL. -/
  answers : String → Bool
  /-- How often `terminate_pid` finds that there is time left. -/
  polls : ℕ

/-- `cmd`, of a process. -/
def Proc.cmd (q : Proc) : List Char := q.cmdline.toList.map fun c => if c = '\x00' then ' ' else c

/-- The command line has all the needles. -/
def Proc.Has (needles : List String) (q : Proc) : Prop := ∀ n ∈ needles, n.toList <:+: q.cmd

instance (needles : List String) (q : Proc) : Decidable (q.Has needles) := inferInstanceAs (Decidable (∀ n ∈ needles, _))

/-- The pid is that of a process whose command line has all the needles. -/
def Ours (needles : List String) (t : ProcTable) (pid : ℤ) : Prop := ∃ q ∈ t.procs, (q.pid : ℤ) = pid ∧ q.Has needles

instance (needles : List String) (t : ProcTable) (pid : ℤ) : Decidable (Ours needles t pid) :=
  inferInstanceAs (Decidable (∃ q ∈ t.procs, _))

/-! ### The calls to the system -/

variable (h : Host)

/-- The processes that a signal to a pid is for, when it is not zero. -/
def addressed (t : ProcTable) (pid : ℤ) : List Proc :=
  t.procs.filter fun q =>
    if 0 < pid then (q.pid : ℤ) = pid
    else if pid = -1 then q.pid ≠ 1 ∧ q.pid ≠ h.own
    else (q.group : ℤ) = -pid

/-- `os.kill(pid, …)`. Zero stands for our own group, and we are in it. -/
def kill (t : ProcTable) (pid : ℤ) : Kill :=
  if pid < -2 ^ 31 ∨ 2 ^ 31 ≤ pid then .overflow
  else if pid = 0 then .delivered
  else if addressed h t pid = [] then .noProcess
  else if (addressed h t pid).any Proc.signallable then .delivered
  else .notPermitted

/-- `pid_alive`; `none` when it raises. -/
def pidAlive (t : ProcTable) (pid : ℤ) : Option Bool :=
  match kill h t pid with
  | .delivered => some true
  | .noProcess => some false
  | .notPermitted => some true
  | .overflow => none

/-- `read_pid`. -/
def readPid : Option ℤ :=
  match h.pidfile with
  | none => none
  | some text => if PyText.strip text = "" then none else PyText.int h.decimal (PyText.strip text)

/-- `http_health_up`. -/
def httpHealthUp (url : Option String) : Bool :=
  match url with
  | none => false
  | some url => url ≠ "" && h.answers url

/-- The loop of `pids_by_cmdline` over the names that `/proc` had; the `n`-th call reads the first. -/
def scan (needles : List String) : ℕ → List ℕ → List ℕ
  | _, [] => []
  | n, candidate :: names =>
    if candidate = h.own ∨ candidate = h.parent then scan needles n names
    else
      match (h.table n).procs.find? fun q => q.pid = candidate with
      | none => scan needles (n + 1) names
      | some q =>
        if q.readable ∧ q.Has needles then candidate :: scan needles (n + 1) names else scan needles (n + 1) names

/-- `pids_by_cmdline`; the `n`-th call lists `/proc`. -/
def pidsByCmdline (needles : List String) (n : ℕ) : List ℕ :=
  if needles = [] ∨ h.hasProc = false then [] else scan h needles (n + 1) ((h.table n).procs.map Proc.pid)

/-- `resolve_live_pid`, and the number of the next call; `none` when it raises. -/
def resolveLivePid (pid : Option ℤ) (url : Option String) (needles : List String) : Option (Option ℤ × ℕ) :=
  match pid.elim (some false) (pidAlive h (h.table 0)) with
  | none => none
  | some true => some (pid, 1)
  | some false =>
    if httpHealthUp h url then some ((pidsByCmdline h needles 1).head?.map (fun n : ℕ => (n : ℤ)), 2 + (h.table 1).procs.length)
    else some (none, 1)

inductive Signal where
  | term
  | kill
  deriving DecidableEq

/-- A signal that was sent, by which call. -/
structure Sent where
  call : ℕ
  pid : ℤ
  signal : Signal
  deriving DecidableEq

/-- The wait of `terminate_pid`: the process is gone; `none` when `pid_alive` raises. -/
def gone (pid : ℤ) : ℕ → ℕ → Option Bool
  | 0, _ => some false
  | polls + 1, n =>
    match pidAlive h (h.table n) pid with
    | none => none
    | some false => some true
    | some true => gone pid polls (n + 1)

/-- `terminate_pid` and the signals it sends; `none` when it raises. -/
def terminatePid (pid : ℤ) (n : ℕ) : Option Bool × List Sent :=
  match pidAlive h (h.table n) pid with
  | none => (none, [])
  | some false => (some true, [])
  | some true =>
    match kill h (h.table (n + 1)) pid with
    | .noProcess => (some true, [])
    | .notPermitted => (none, [])
    | .overflow => (none, [])
    | .delivered =>
      match gone h pid h.polls (n + 2) with
      | none => (none, [⟨n + 1, pid, .term⟩])
      | some true => (some true, [⟨n + 1, pid, .term⟩])
      | some false =>
        match kill h (h.table (n + 2 + h.polls)) pid with
        | .noProcess => (some true, [⟨n + 1, pid, .term⟩])
        | .notPermitted => (none, [⟨n + 1, pid, .term⟩])
        | .overflow => (none, [⟨n + 1, pid, .term⟩])
        | .delivered =>
          ((pidAlive h (h.table (n + 3 + h.polls)) pid).map not, [⟨n + 1, pid, .term⟩, ⟨n + 2 + h.polls, pid, .kill⟩])

/-- What `stop_named` does. -/
structure Stopped where
  sent : List Sent
  /-- It unlinks the pidfile. -/
  unlinks : Bool
  said : List String
  raised : Bool
  deriving DecidableEq

/-- `stop_named`. -/
def stopNamed (name : String) (url : Option String) (needles : List String) : Stopped :=
  let pid := readPid h
  match resolveLivePid h pid url needles with
  | none => ⟨[], false, [], true⟩
  | some (none, _) =>
    if pid.isSome then ⟨[], true, [name ++ ": stale pidfile, removing"], false⟩ else ⟨[], false, [], false⟩
  | some (some live, n) =>
    let said :=
      (match pid with
        | none => [name ++ ": no pidfile but /health still up; killing real pid " ++ toString live]
        | some pid =>
          if live ≠ pid then
            [name ++ ": pidfile pid " ++ toString pid ++ " stale but /health up; killing real pid " ++ toString live]
          else []) ++
      ["Stopping " ++ name ++ " (pid " ++ toString live ++ ")"]
    match terminatePid h live n with
    | (none, sent) => ⟨sent, false, said, true⟩
    | (some true, sent) => ⟨sent, true, said ++ [name ++ " stopped"], false⟩
    | (some false, sent) => ⟨sent, true, said ++ [name ++ " did not stop"], false⟩

/-! ### Who gets the signals -/

/-- All the signals of a stop go to processes that have the needles when they are sent. -/
def OursOnly (needles : List String) (sent : List Sent) : Prop := ∀ s ∈ sent, Ours needles (h.table s.call) s.pid

instance (needles : List String) (sent : List Sent) : Decidable (OursOnly h needles sent) :=
  inferInstanceAs (Decidable (∀ s ∈ sent, _))

/-- The pid is alive when `terminate_pid` looks at it, with the `n`-th call, and takes the first signal. -/
structure Takes (pid : ℤ) (n : ℕ) : Prop where
  alive : pidAlive h (h.table n) pid = some true
  delivered : kill h (h.table (n + 1)) pid = .delivered

/-- The pid is alive as often as the wait looks at it, and takes the second signal. -/
structure Outlives (pid : ℤ) (n : ℕ) : Prop where
  alive : ∀ k < h.polls, pidAlive h (h.table (n + 2 + k)) pid = some true
  delivered : kill h (h.table (n + 2 + h.polls)) pid = .delivered

/-- If the pid takes a signal, the process that has it at that moment has the needles. -/
def Keeps (needles : List String) (pid : ℤ) (n : ℕ) : Prop :=
  Takes h pid n → Ours needles (h.table (n + 1)) pid ∧ (Outlives h pid n → Ours needles (h.table (n + 2 + h.polls)) pid)

/-- How many of the names the search opens. -/
def opened (names : List ℕ) : ℕ := (names.filter fun candidate => candidate ≠ h.own ∧ candidate ≠ h.parent).length

/-- The search, whose first name is opened by the `n`-th call, takes a name it comes to after others. -/
structure Hit (needles : List String) (n : ℕ) (before : List ℕ) (candidate : ℕ) : Prop where
  own : candidate ≠ h.own
  parent : candidate ≠ h.parent
  read : ∃ q ∈ (h.table (n + opened h before)).procs, q.pid = candidate ∧ q.readable = true ∧ q.Has needles

/-- The first name that the search takes is one that comes after the others. -/
structure First (needles : List String) (n : ℕ) (names before : List ℕ) (candidate : ℕ) : Prop where
  named : ∃ after, names = before ++ candidate :: after
  hit : Hit h needles n before candidate
  first : ∀ before' candidate', (∃ after, before = before' ++ candidate' :: after) → ¬ Hit h needles n before' candidate'

/-- The process to stop: its pid, the call that looked at the process for that, and the first call after. -/
inductive Picks (url : Option String) (needles : List String) : ℤ → ℕ → ℕ → Prop
  | file {pid : ℤ} (read : readPid h = some pid) (alive : pidAlive h (h.table 0) pid = some true) : Picks url needles pid 0 1
  | search {before : List ℕ} {c : ℕ} (stale : ∀ pid, readPid h = some pid → pidAlive h (h.table 0) pid = some false)
      (up : httpHealthUp h url = true) (asked : needles ≠ []) (hasProc : h.hasProc = true)
      (first : First h needles 2 ((h.table 1).procs.map Proc.pid) before c) :
      Picks url needles c (2 + opened h before) (2 + (h.table 1).procs.length)

/-- Whoever takes a signal under the pid is the program that had it at the `m`-th call. -/
def Stays (pid : ℤ) (m n : ℕ) : Prop :=
  ∀ k, k = n + 1 ∨ k = n + 2 + h.polls →
    ∀ q ∈ (h.table m).procs, (q.pid : ℤ) = pid → ∀ q' ∈ (h.table k).procs, (q'.pid : ℤ) = pid → q'.cmdline = q.cmdline

variable {h} {t : ProcTable} {pid : ℤ} {needles : List String} {m n : ℕ}

theorem Ours.pos (hours : Ours needles t pid) : 0 < pid := by
  obtain ⟨q, hq, rfl, -⟩ := hours
  have := t.pos q hq
  omega

theorem exists_proc_of_addressed (hpos : 0 < pid) (haddressed : addressed h t pid ≠ []) : ∃ q ∈ t.procs, (q.pid : ℤ) = pid := by
  obtain ⟨q, hq⟩ := List.exists_mem_of_ne_nil _ haddressed
  obtain ⟨hmem, hq⟩ := List.mem_filter.mp hq
  rw [if_pos hpos, decide_eq_true_eq] at hq
  exact ⟨q, hmem, hq⟩

/-- A positive pid that is alive is that of a process. -/
theorem exists_proc_of_alive (hpos : 0 < pid) (halive : pidAlive h t pid = some true) : ∃ q ∈ t.procs, (q.pid : ℤ) = pid := by
  refine exists_proc_of_addressed (h := h) hpos fun hnil => ?_
  have hkill : kill h t pid = .overflow ∨ kill h t pid = .noProcess := by
    unfold kill
    split_ifs
    · exact .inl rfl
    · omega
    · exact .inr rfl
  rcases hkill with hkill | hkill <;> simp [pidAlive, hkill] at halive

theorem pidAlive_of_delivered (hkill : kill h t pid = .delivered) : pidAlive h t pid = some true := by
  rw [pidAlive, hkill]

/-- The wait runs out exactly when the pid is alive every time it is looked at. -/
theorem gone_eq_false_iff {polls : ℕ} : gone h pid polls n = some false ↔ ∀ k < polls, pidAlive h (h.table (n + k)) pid = some true := by
  induction polls generalizing n with
  | zero => simp [gone]
  | succ polls ih =>
    rw [Nat.forall_lt_succ_left, gone]
    split
    · next halive => simp [halive]
    · next halive => simp [halive]
    · next halive =>
      rw [ih]
      simp only [Nat.add_zero, halive, true_and, Nat.add_assoc, Nat.add_comm 1]

/-- What `terminate_pid` sends: the first signal when the pid takes it, the second when it outlives the wait. -/
theorem mem_sent_terminatePid {s : Sent} :
    s ∈ (terminatePid h pid n).2 ↔
      Takes h pid n ∧ (s = ⟨n + 1, pid, .term⟩ ∨ Outlives h pid n ∧ s = ⟨n + 2 + h.polls, pid, .kill⟩) := by
  by_cases htakes : Takes h pid n
  · simp only [terminatePid, htakes.alive, htakes.delivered, htakes, true_and]
    by_cases hwait : gone h pid h.polls (n + 2) = some false
    · simp only [hwait]
      have hout : Outlives h pid n ↔ kill h (h.table (n + 2 + h.polls)) pid = .delivered :=
        ⟨Outlives.delivered, fun hkill => ⟨gone_eq_false_iff.mp hwait, hkill⟩⟩
      rw [hout]
      cases kill h (h.table (n + 2 + h.polls)) pid <;> simp
    · have hout : ¬ Outlives h pid n := fun hout => hwait (gone_eq_false_iff.mpr hout.alive)
      rcases hgone : gone h pid h.polls (n + 2) with _ | _ | _
      · simp [hout]
      · exact absurd hgone hwait
      · simp [hout]
  · simp only [htakes, false_and, iff_false]
    intro hs
    unfold terminatePid at hs
    split at hs
    · cases hs
    · cases hs
    · next halive =>
      split at hs
      · cases hs
      · cases hs
      · cases hs
      · next hterm => exact htakes ⟨halive, hterm⟩

/-- The signals go to our own processes exactly when the pid is kept. -/
theorem oursOnly_terminatePid_iff : OursOnly h needles (terminatePid h pid n).2 ↔ Keeps h needles pid n := by
  constructor
  · intro hours htakes
    have hterm := hours _ (mem_sent_terminatePid.mpr ⟨htakes, .inl rfl⟩)
    exact ⟨hterm, fun hout => hours _ (mem_sent_terminatePid.mpr ⟨htakes, .inr ⟨hout, rfl⟩⟩)⟩
  · intro hkeeps s hs
    obtain ⟨htakes, rfl | ⟨hout, rfl⟩⟩ := mem_sent_terminatePid.mp hs
    · exact (hkeeps htakes).1
    · exact (hkeeps htakes).2 hout

/-- `stop_named` sends what `terminate_pid` sends to the pid that was resolved. -/
theorem sent_stopNamed {name : String} {url : Option String} :
    (stopNamed h name url needles).sent =
      match resolveLivePid h (readPid h) url needles with
      | some (some live, n) => (terminatePid h live n).2
      | _ => [] := by
  rcases hresolve : resolveLivePid h (readPid h) url needles with _ | ⟨_ | live, n⟩
  · simp only [stopNamed, hresolve]
  · simp only [stopNamed, hresolve]
    split_ifs <;> rfl
  · simp only [stopNamed, hresolve]
    rcases hterm : terminatePid h live n with ⟨_ | _ | _, sent⟩ <;> rfl

/-! ### The search -/

theorem opened_cons (candidate : ℕ) (names : List ℕ) : opened h (candidate :: names) = opened h [candidate] + opened h names := by
  rw [opened, opened, opened, ← List.length_append, ← List.filter_append, List.singleton_append]

theorem hit_cons {candidate c : ℕ} {before : List ℕ} :
    Hit h needles n (candidate :: before) c ↔ Hit h needles (n + opened h [candidate]) before c := by
  constructor
  · rintro ⟨hown, hparent, hread⟩
    exact ⟨hown, hparent, by rwa [opened_cons, ← Nat.add_assoc] at hread⟩
  · rintro ⟨hown, hparent, hread⟩
    exact ⟨hown, hparent, by rwa [opened_cons, ← Nat.add_assoc]⟩

/-- The first name of all is taken when it is a hit. -/
theorem first_nil {candidate c : ℕ} {names : List ℕ} :
    First h needles n (candidate :: names) [] c ↔ candidate = c ∧ Hit h needles n [] candidate := by
  constructor
  · rintro ⟨⟨after, hnamed⟩, hhit, -⟩
    obtain ⟨rfl, -⟩ := List.cons.inj hnamed
    exact ⟨rfl, hhit⟩
  · rintro ⟨rfl, hhit⟩
    exact ⟨⟨names, rfl⟩, hhit, fun before' _ ⟨after, hnil⟩ => by simp at hnil⟩

/-- Else it is the first of the rest. -/
theorem first_cons {candidate d c : ℕ} {names before : List ℕ} :
    First h needles n (candidate :: names) (d :: before) c ↔
      d = candidate ∧ ¬ Hit h needles n [] candidate ∧ First h needles (n + opened h [candidate]) names before c := by
  constructor
  · rintro ⟨⟨after, hnamed⟩, hhit, hfirst⟩
    obtain ⟨rfl, rfl⟩ := List.cons.inj hnamed
    refine ⟨rfl, hfirst [] candidate ⟨before, rfl⟩, ⟨after, rfl⟩, hit_cons.mp hhit, ?_⟩
    rintro before' c' ⟨after', rfl⟩ hhit'
    exact hfirst (candidate :: before') c' ⟨after', rfl⟩ (hit_cons.mpr hhit')
  · rintro ⟨rfl, hmiss, ⟨after, rfl⟩, hhit, hfirst⟩
    refine ⟨⟨after, rfl⟩, hit_cons.mpr hhit, ?_⟩
    rintro (_ | ⟨e, before'⟩) c' ⟨after', hbefore⟩ hhit'
    · obtain ⟨rfl, -⟩ := List.cons.inj hbefore
      exact hmiss hhit'
    · obtain ⟨rfl, rfl⟩ := List.cons.inj hbefore
      exact hfirst before' c' ⟨after', rfl⟩ (hit_cons.mp hhit')

/-- Reading the name of a process in the table gives that process. -/
theorem find?_pid_eq {t : ProcTable} {q : Proc} (hq : q ∈ t.procs) : t.procs.find? (fun p => p.pid = q.pid) = some q := by
  cases hfind : t.procs.find? (fun p => p.pid = q.pid) with
  | none => simpa using List.find?_eq_none.mp hfind q hq
  | some p =>
    have hpid : p.pid = q.pid := by simpa using List.find?_some hfind
    rw [List.inj_on_of_nodup_map t.nodup (List.mem_of_find?_eq_some hfind) hq hpid]

/-- The first process that `scan` finds is the first that it takes. -/
theorem head?_scan_iff {c : ℕ} {names : List ℕ} : (scan h needles n names).head? = some c ↔ ∃ before, First h needles n names before c := by
  induction names generalizing n with
  | nil =>
    refine iff_of_false (by simp [scan]) ?_
    rintro ⟨before, ⟨after, hnil⟩, -, -⟩
    simp at hnil
  | cons candidate names ih =>
    have hsplit : (∃ before, First h needles n (candidate :: names) before c) ↔
        (candidate = c ∧ Hit h needles n [] candidate) ∨
          (¬ Hit h needles n [] candidate ∧ (scan h needles (n + opened h [candidate]) names).head? = some c) := by
      rw [ih]
      constructor
      · rintro ⟨_ | ⟨d, before⟩, hfirst⟩
        · exact .inl (first_nil.mp hfirst)
        · obtain ⟨-, hmiss, hrest⟩ := first_cons.mp hfirst
          exact .inr ⟨hmiss, before, hrest⟩
      · rintro (hhit | ⟨hmiss, before, hrest⟩)
        · exact ⟨[], first_nil.mpr hhit⟩
        · exact ⟨candidate :: before, first_cons.mpr ⟨rfl, hmiss, hrest⟩⟩
    rw [hsplit, scan]
    split_ifs with hskip
    · have hmiss : ¬ Hit h needles n [] candidate := fun hhit => hskip.elim hhit.own hhit.parent
      have hopened : opened h [candidate] = 0 := by
        simpa [opened, or_iff_not_imp_left] using hskip
      simp only [hmiss, and_false, not_false_eq_true, true_and, false_or, hopened, Nat.add_zero]
    · obtain ⟨hown, hparent⟩ := not_or.mp hskip
      have hopened : opened h [candidate] = 1 := by simp [opened, hown, hparent]
      rw [hopened]
      split
      · next hfind =>
        have hmiss : ¬ Hit h needles n [] candidate := by
          rintro ⟨-, -, q, hq, hpid, -⟩
          exact absurd (List.find?_eq_none.mp hfind q hq) (by simpa using hpid)
        simp only [hmiss, and_false, not_false_eq_true, true_and, false_or]
      · next q hfind =>
        have hpid : q.pid = candidate := by simpa using List.find?_some hfind
        have hhit : Hit h needles n [] candidate ↔ q.readable = true ∧ q.Has needles := by
          constructor
          · rintro ⟨-, -, q', hq', rfl, hhas⟩
            obtain rfl : q' = q := Option.some.inj ((find?_pid_eq hq').symm.trans hfind)
            exact hhas
          · exact fun hhas => ⟨hown, hparent, q, List.mem_of_find?_eq_some hfind, hpid, hhas⟩
        rw [hhit]
        split_ifs with hhas
        · simp [hhas]
        · simp [hhas]

/-- What `resolve_live_pid` finds is the process to stop. -/
theorem resolveLivePid_iff {url : Option String} {live : ℤ} :
    resolveLivePid h (readPid h) url needles = some (some live, n) ↔ ∃ m, Picks h url needles live m n := by
  have hstale : (∀ pid, readPid h = some pid → pidAlive h (h.table 0) pid = some false) ↔
      (readPid h).elim (some false) (pidAlive h (h.table 0)) = some false := by
    cases readPid h <;> simp
  constructor
  · intro hresolve
    unfold resolveLivePid at hresolve
    split at hresolve
    · cases hresolve
    · next halive =>
      obtain ⟨hread, rfl⟩ := Prod.mk.inj (Option.some.inj hresolve)
      rw [hread] at halive
      exact ⟨0, .file hread halive⟩
    · next hdead =>
      split_ifs at hresolve with hup
      · obtain ⟨hhead, rfl⟩ := Prod.mk.inj (Option.some.inj hresolve)
        obtain ⟨c, hc, rfl⟩ := Option.map_eq_some_iff.mp hhead
        unfold pidsByCmdline at hc
        split_ifs at hc with hnone
        · cases hc
        · obtain ⟨before, hfirst⟩ := head?_scan_iff.mp hc
          obtain ⟨hasked, hproc⟩ := not_or.mp hnone
          exact ⟨_, .search (hstale.mpr hdead) hup hasked (by simpa using hproc) hfirst⟩
      · cases (Prod.mk.inj (Option.some.inj hresolve)).1
  · rintro ⟨m, hpicks⟩
    cases hpicks with
    | file hread halive => simp only [resolveLivePid, hread, Option.elim_some, halive]
    | search hdead hup hasked hproc hfirst =>
      have hnone : ¬ (needles = [] ∨ h.hasProc = false) := by simp [hasked, hproc]
      rw [resolveLivePid, hstale.mp hdead]
      simp only [hup, if_true, pidsByCmdline, if_neg hnone, head?_scan_iff.mpr ⟨_, hfirst⟩, Option.map_some]

/-- A process that is the program it was has the needles when that had them. -/
theorem Stays.ours_iff {k : ℕ} (hstays : Stays h pid m n) (hk : k = n + 1 ∨ k = n + 2 + h.polls)
    (hm : 0 < pid → ∃ q ∈ (h.table m).procs, (q.pid : ℤ) = pid) (hdelivered : kill h (h.table k) pid = .delivered) :
    Ours needles (h.table k) pid ↔ Ours needles (h.table m) pid := by
  have hsame : ∀ q ∈ (h.table m).procs, (q.pid : ℤ) = pid → ∀ q' ∈ (h.table k).procs, (q'.pid : ℤ) = pid →
      (q'.Has needles ↔ q.Has needles) := by
    intro q hq hpid q' hq' hpid'
    rw [Proc.Has, Proc.Has, Proc.cmd, Proc.cmd, hstays k hk q hq hpid q' hq' hpid']
  constructor
  · intro hours
    obtain ⟨q, hq, hpid⟩ := hm hours.pos
    obtain ⟨q', hq', hpid', hhas⟩ := hours
    exact ⟨q, hq, hpid, (hsame q hq hpid q' hq' hpid').mp hhas⟩
  · intro hours
    obtain ⟨q', hq', hpid'⟩ := exists_proc_of_alive hours.pos (pidAlive_of_delivered hdelivered)
    obtain ⟨q, hq, hpid, hhas⟩ := hours
    exact ⟨q', hq', hpid', (hsame q hq hpid q' hq' hpid').mpr hhas⟩

/-- What the search finds has the needles when its command line is read. -/
theorem First.ours {before names : List ℕ} {c : ℕ} (hfirst : First h needles n names before c) :
    Ours needles (h.table (n + opened h before)) c := by
  obtain ⟨q, hq, hpid, -, hhas⟩ := hfirst.hit.read
  exact ⟨q, hq, congrArg _ hpid, hhas⟩

/-- A host whose table is always the same: it has one process, with the pid 480. -/
def quietHost (cmdline pidfile : String) : Host where
  table _ := ⟨[⟨480, 480, cmdline, true, true⟩], by simp, by simp⟩
  own := 900
  parent := 899
  hasProc := true
  pidfile := some pidfile
  decimal := PyText.asciiDecimal
  answers _ := false
  polls := 2

end Persona.Manage
