import Persona.Lib.Run
import Persona.Lib.Decimal
import Persona.Manage.Stopping
import Mathlib.Logic.Function.Basic

/-!
# Starting and stopping services

`start_llama`, `start_api`, `stop_named` and `cmd_down` of `manage.py` over whole runs of a machine, whose
processes end and begin between the commands and during a stop. A server is known by its pid alone, which
stands in a pidfile.

`recorded_of_run` says that at any time at most one server runs under a name, and its pid is in the
pidfile, as long as pidfiles are written and no stop gives up on a server that goes on: `stop_named` removes
the pidfile then (`orphaned_of_gaveUp`). `down_leaves_nothing` is about `cmd_down`.

What is started is left out: a command line, or that there is none.
-/

namespace Persona.Manage

open Persona.Lib

/-! ### Pidfiles -/

/-- What `write_pid` writes. -/
def writePid (pid : ℕ) : String := toString pid

/-- **A pid that is written is read.** -/
theorem readPid_writePid {h : Host} {pid : ℕ} (hdecimal : PyText.Digits h.decimal) (hfile : h.pidfile = some (writePid pid)) :
    readPid h = some (pid : ℤ) := by
  have hne : PyText.strip (writePid pid) ≠ "" := by
    rw [writePid, PyText.strip_toString]
    exact PyText.toString_ne_empty pid
  simp only [readPid, hfile]
  rw [if_neg hne, writePid, PyText.strip_toString]
  exact PyText.int_toString hdecimal pid

/-! ### The machine -/

/-- The machine between two commands. -/
structure Machine where
  table : ProcTable
  /-- The pidfiles under `run/`, by name. -/
  pidfiles : String → Option String
  /-- The pids of the servers that were started under a name and have not ended. -/
  servers : String → List ℕ

/-- What comes of starting a server. -/
structure Spawn where
  /-- There is a command line to start. -/
  ready : Bool
  proc : Proc
  /-- `write_pid` does not raise. -/
  written : Bool
  /-- What is in the pidfile if it does. -/
  left : Option String
  /-- The server has not ended when it is looked at for the first time. -/
  stays : Bool

/-- What is in the pidfile of a server that was started. -/
def Spawn.pidfile (w : Spawn) : Option String := if w.written then some (writePid w.proc.pid) else w.left

/-- `start_llama` and `start_api`: what they return, `none` if they raise, and whether a server was started. -/
def startNamed (h : Host) (w : Spawn) : Option Bool × Bool :=
  match (readPid h).elim (some false) (pidAlive h (h.table 0)) with
  | none => (none, false)
  | some true => (some true, false)
  | some false =>
    if !w.ready then (some false, false)
    else if !w.written then (none, true)
    else (some w.stays, true)

/-- A service that can be stopped. -/
structure Service where
  name : String
  url : Option String
  needles : List String

/-- The services that `cmd_down` stops, in their order. -/
def downServices (host port : String) : List Service :=
  [⟨"api", some "http://127.0.0.1:8000/health", ["server:app"]⟩,
    ⟨"persona", some ("http://" ++ host ++ ":" ++ port ++ "/health"), ["llama-server", "--port " ++ port]⟩] ++
  ["scientist", "reasoning", "coder", "persona_win"].map fun name => ⟨name, none, []⟩

/-- No call of a stop comes after this one. -/
def lastCall (h : Host) : ℕ := 5 + (h.table 1).procs.length + h.polls

/-- What happens to the machine. -/
inductive Event where
  /-- A process ends. -/
  | ends (pid : ℕ)
  /-- A process begins that is none of the servers. -/
  | begins (q : Proc)
  | start (name : String) (h : Host) (w : Spawn)
  /-- A service is stopped; `removed` if its pidfile can be removed, and `alive` are the servers that
  have not ended at the `n`-th call. -/
  | stop (s : Service) (h : Host) (removed : Bool) (alive : ℕ → String → List ℕ)

/-- The host that a command sees. -/
structure Views (m : Machine) (name : String) (h : Host) : Prop where
  table : h.table 0 = m.table
  pidfile : h.pidfile = m.pidfiles name
  decimal : PyText.Digits h.decimal
  pids : ∀ n, ∀ q ∈ (h.table n).procs, q.pid < 2 ^ 31

/-- The servers during a stop: they end, and until then their pids are theirs. -/
structure Follows (m : Machine) (h : Host) (alive : ℕ → String → List ℕ) : Prop where
  first : alive 0 = m.servers
  ends : ∀ n name, (alive (n + 1) name).Sublist (alive n name)
  there : ∀ n name, ∀ pid ∈ alive n name, ∃ q ∈ (h.table n).procs, q.pid = pid

/-- The steps. -/
inductive Step (m : Machine) : Event → Machine → Prop
  | ends {pid : ℕ} {t : ProcTable} (ht : t.procs = m.table.procs.filter (·.pid ≠ pid)) :
      Step m (.ends pid) { m with table := t, servers := fun name => (m.servers name).filter (· ≠ pid) }
  | begins {q : Proc} {t : ProcTable} (hq : q.pid < 2 ^ 31) (ht : t.procs = m.table.procs ++ [q]) :
      Step m (.begins q) { m with table := t }
  | started {name : String} {h : Host} {w : Spawn} {t : ProcTable} (hview : Views m name h) (hspawn : (startNamed h w).2 = true)
      (hfresh : ∀ q ∈ m.table.procs, q.pid ≠ w.proc.pid) (hpid : w.proc.pid < 2 ^ 31)
      (ht : t.procs = if w.stays then m.table.procs ++ [w.proc] else m.table.procs) :
      Step m (.start name h w) ⟨t, Function.update m.pidfiles name w.pidfile,
        if w.stays then Function.update m.servers name (m.servers name ++ [w.proc.pid]) else m.servers⟩
  | notStarted {name : String} {h : Host} {w : Spawn} (hview : Views m name h) (hspawn : (startNamed h w).2 = false) :
      Step m (.start name h w) m
  | stopped {s : Service} {h : Host} {removed : Bool} {alive : ℕ → String → List ℕ} (hview : Views m s.name h)
      (hfollows : Follows m h alive) :
      Step m (.stop s h removed alive) ⟨h.table (lastCall h),
        if (stopNamed h s.name s.url s.needles).unlinks && removed then Function.update m.pidfiles s.name none else m.pidfiles,
        alive (lastCall h)⟩

/-! ### Servers and their pidfiles -/

/-- The servers are processes of the machine. -/
structure Machine.Wf (m : Machine) : Prop where
  there : ∀ name, ∀ pid ∈ m.servers name, ∃ q ∈ m.table.procs, q.pid = pid
  nodup : ∀ name, (m.servers name).Nodup
  pids : ∀ q ∈ m.table.procs, q.pid < 2 ^ 31

/-- Each server is the one in the pidfile of its name. -/
def Machine.Recorded (m : Machine) : Prop := ∀ name, ∀ pid ∈ m.servers name, m.pidfiles name = some (writePid pid)

/-- `terminate_pid` finds at last that the process is still there. -/
def GaveUp (h : Host) (s : Service) : Prop :=
  ∃ live n, resolveLivePid h (readPid h) s.url s.needles = some (some live, n) ∧ (terminatePid h live n).1 = some false

/-- The step leaves no server behind that is not in its pidfile: the pid of one that goes on is written, and
when a stop gives up and the pidfile is removed, the server has ended after all. -/
def Event.Works : Event → Prop
  | .start _ h w => (startNamed h w).2 = true → w.stays = true → w.pidfile = some (writePid w.proc.pid)
  | .stop s h removed alive => GaveUp h s → removed = true → alive (lastCall h) s.name = []
  | _ => True

section

variable {m m' : Machine} {name : String} {h : Host} {w : Spawn} {s : Service} {pid : ℕ} {e : Event} {es : List Event}
  {alive : ℕ → String → List ℕ}

/-- A process of the table is alive. -/
theorem pidAlive_of_mem {t : ProcTable} {q : Proc} (hq : q ∈ t.procs) (hpid : q.pid < 2 ^ 31) :
    pidAlive h t q.pid = some true := by
  have hpos := t.pos q hq
  have haddressed : q ∈ addressed h t q.pid := by
    rw [addressed, List.mem_filter]
    refine ⟨hq, ?_⟩
    rw [if_pos (by omega), decide_eq_true_eq]
  have hkill : kill h t q.pid = .delivered ∨ kill h t q.pid = .notPermitted := by
    unfold kill
    split_ifs with hoverflow hzero hnil
    · omega
    · exact .inl rfl
    · rw [hnil] at haddressed
      cases haddressed
    · exact .inl rfl
    · exact .inr rfl
  rcases hkill with hkill | hkill <;> rw [pidAlive, hkill]

/-- A pid that does not answer is that of no process. -/
theorem not_mem_of_noProcess {t : ProcTable} (hpids : ∀ q ∈ t.procs, q.pid < 2 ^ 31) (hkill : kill h t pid = .noProcess) :
    ∀ q ∈ t.procs, q.pid ≠ pid := by
  rintro q hq rfl
  have halive := pidAlive_of_mem (h := h) hq (hpids q hq)
  rw [pidAlive, hkill] at halive
  cases halive

theorem not_mem_of_not_alive {t : ProcTable} (hpids : ∀ q ∈ t.procs, q.pid < 2 ^ 31) (hdead : pidAlive h t pid = some false) :
    ∀ q ∈ t.procs, q.pid ≠ pid := by
  rintro q hq rfl
  rw [pidAlive_of_mem hq (hpids q hq)] at hdead
  cases hdead

/-- The wait ends when the process is gone. -/
theorem exists_of_gone {live : ℤ} {polls n : ℕ} (hgone : gone h live polls n = some true) :
    ∃ k, n ≤ k ∧ k < n + polls ∧ pidAlive h (h.table k) live = some false := by
  induction polls generalizing n with
  | zero => cases hgone
  | succ polls ih =>
    rw [gone] at hgone
    split at hgone
    · cases hgone
    · next hdead => exact ⟨n, le_rfl, by omega, hdead⟩
    · obtain ⟨k, hle, hlt, hdead⟩ := ih hgone
      exact ⟨k, by omega, by omega, hdead⟩

/-- **A pid that was terminated is that of no process** at some call. -/
theorem exists_of_terminated {n : ℕ} (hpids : ∀ n, ∀ q ∈ (h.table n).procs, q.pid < 2 ^ 31)
    (hterm : (terminatePid h pid n).1 = some true) :
    ∃ k, n ≤ k ∧ k ≤ n + 3 + h.polls ∧ ∀ q ∈ (h.table k).procs, q.pid ≠ pid := by
  unfold terminatePid at hterm
  split at hterm
  · cases hterm
  · next hdead => exact ⟨n, le_rfl, by omega, not_mem_of_not_alive (hpids n) hdead⟩
  · split at hterm
    · next hkill => exact ⟨n + 1, by omega, by omega, not_mem_of_noProcess (hpids _) hkill⟩
    · cases hterm
    · cases hterm
    · split at hterm
      · cases hterm
      · next hgone =>
        obtain ⟨k, hle, hlt, hdead⟩ := exists_of_gone hgone
        exact ⟨k, by omega, by omega, not_mem_of_not_alive (hpids k) hdead⟩
      · split at hterm
        · next hkill => exact ⟨_, by omega, by omega, not_mem_of_noProcess (hpids _) hkill⟩
        · cases hterm
        · cases hterm
        · obtain ⟨b, hb, hnot⟩ := Option.map_eq_some_iff.mp hterm
          obtain rfl : b = false := by simpa using hnot
          exact ⟨_, by omega, by omega, not_mem_of_not_alive (hpids _) hb⟩

theorem Follows.mono {n k : ℕ} (hfollows : Follows m h alive) (hle : n ≤ k) (name : String) :
    (alive k name).Sublist (alive n name) := by
  induction k, hle using Nat.le_induction with
  | base => exact List.Sublist.refl _
  | succ k _ ih => exact (hfollows.ends k name).trans ih

/-- A server whose pid is no process's at some call has ended at the last one. -/
theorem Follows.not_mem {k : ℕ} (hfollows : Follows m h alive) (hle : k ≤ lastCall h)
    (hgone : ∀ q ∈ (h.table k).procs, q.pid ≠ pid) : pid ∉ alive (lastCall h) name := by
  intro hmem
  obtain ⟨q, hq, hpid⟩ := hfollows.there k name pid ((hfollows.mono hle name).subset hmem)
  exact hgone q hq hpid

theorem Follows.sublist_servers (hfollows : Follows m h alive) (name : String) :
    (alive (lastCall h) name).Sublist (m.servers name) := by
  have hmono := hfollows.mono (Nat.zero_le (lastCall h)) name
  rwa [hfollows.first] at hmono

/-- Under a name there is at most one server. -/
theorem Machine.Recorded.servers_eq (hrec : m.Recorded) (hwf : m.Wf) (hpid : pid ∈ m.servers name) : m.servers name = [pid] := by
  have hall : ∀ other ∈ m.servers name, other = pid := by
    intro other hother
    have hfile := (hrec name other hother).symm.trans (hrec name pid hpid)
    exact PyText.toString_injective (Option.some.inj hfile)
  have hnodup := hwf.nodup name
  rw [List.eq_replicate_of_mem hall] at hnodup ⊢
  have hle := List.nodup_replicate.mp hnodup
  have hpos := List.length_pos_of_mem hpid
  rw [show (m.servers name).length = 1 by omega]
  rfl

theorem Machine.Recorded.length_le_one (hrec : m.Recorded) (hwf : m.Wf) (name : String) : (m.servers name).length ≤ 1 := by
  cases hservers : m.servers name with
  | nil => exact Nat.zero_le 1
  | cons pid rest =>
    have hmem : pid ∈ m.servers name := by
      rw [hservers]
      exact List.mem_cons_self
    rw [← hservers, hrec.servers_eq hwf hmem]
    exact le_rfl

/-- What a command makes of the pidfile of a server: the server is alive. -/
theorem readPid_of_recorded (hview : Views m name h) (hwf : m.Wf) (hrec : m.Recorded) (hpid : pid ∈ m.servers name) :
    readPid h = some (pid : ℤ) ∧ pidAlive h (h.table 0) pid = some true := by
  refine ⟨readPid_writePid hview.decimal (hview.pidfile.trans (hrec name pid hpid)), ?_⟩
  obtain ⟨q, hq, rfl⟩ := hwf.there name pid hpid
  rw [hview.table]
  exact pidAlive_of_mem hq (hwf.pids q hq)

/-- A server is only started when none runs under the name. -/
theorem servers_eq_nil_of_spawn (hview : Views m name h) (hwf : m.Wf) (hrec : m.Recorded) (hspawn : (startNamed h w).2 = true) :
    m.servers name = [] := by
  rw [List.eq_nil_iff_forall_not_mem]
  intro pid hpid
  obtain ⟨hread, halive⟩ := readPid_of_recorded hview hwf hrec hpid
  simp [startNamed, hread, halive] at hspawn

/-- A stop of a server that is recorded tries to terminate it. -/
theorem stop_of_recorded (hview : Views m s.name h) (hwf : m.Wf) (hrec : m.Recorded) (hpid : pid ∈ m.servers s.name) :
    resolveLivePid h (readPid h) s.url s.needles = some (some (pid : ℤ), 1) ∧
      (stopNamed h s.name s.url s.needles).unlinks = (terminatePid h pid 1).1.isSome ∧
      (stopNamed h s.name s.url s.needles).raised = (terminatePid h pid 1).1.isNone := by
  obtain ⟨hread, halive⟩ := readPid_of_recorded hview hwf hrec hpid
  have hresolve : resolveLivePid h (readPid h) s.url s.needles = some (some (pid : ℤ), 1) := by
    simp only [resolveLivePid, hread, Option.elim_some, halive]
  refine ⟨hresolve, ?_⟩
  rcases hterm : terminatePid h pid 1 with ⟨_ | _ | _, sent⟩ <;> simp [stopNamed, hresolve, hterm]

/-- When a stop that reaches the server terminates it, it has ended. -/
theorem not_mem_of_terminated (hview : Views m s.name h) (hfollows : Follows m h alive) (hterm : (terminatePid h pid 1).1 = some true) :
    pid ∉ alive (lastCall h) s.name := by
  obtain ⟨k, -, hle, hgone⟩ := exists_of_terminated hview.pids hterm
  exact hfollows.not_mem (by rw [lastCall]; omega) hgone

/-- What a step keeps. -/
theorem Machine.Wf.step (hwf : m.Wf) (hstep : Step m e m') : m'.Wf := by
  cases hstep with
  | @ends pid t ht =>
    refine ⟨fun name p hp => ?_, fun name => (hwf.nodup name).filter _, fun q hq => ?_⟩
    · obtain ⟨hp, hne⟩ := List.mem_filter.mp hp
      obtain ⟨q, hq, rfl⟩ := hwf.there name p hp
      exact ⟨q, by rw [ht]; exact List.mem_filter.mpr ⟨hq, hne⟩, rfl⟩
    · rw [ht] at hq
      exact hwf.pids q (List.mem_of_mem_filter hq)
  | @begins q t hq ht =>
    refine ⟨fun name p hp => ?_, hwf.nodup, fun r hr => ?_⟩
    · obtain ⟨r, hr, rfl⟩ := hwf.there name p hp
      exact ⟨r, by rw [ht]; exact List.mem_append_left _ hr, rfl⟩
    · rw [ht] at hr
      rcases List.mem_append.mp hr with hr | hr
      · exact hwf.pids r hr
      · exact List.mem_singleton.mp hr ▸ hq
  | @started name h w t hview hspawn hfresh hpid ht =>
    have hold : ∀ q ∈ m.table.procs, q ∈ t.procs := by
      intro q hq
      rw [ht]
      split_ifs
      · exact List.mem_append_left _ hq
      · exact hq
    refine ⟨fun other p hp => ?_, fun other => ?_, fun q hq => ?_⟩
    · dsimp only at hp ⊢
      split_ifs at hp ht with hstays
      · by_cases hother : other = name
        · rw [hother, Function.update_self] at hp
          rcases List.mem_append.mp hp with hp | hp
          · obtain ⟨q, hq, rfl⟩ := hwf.there name p hp
            exact ⟨q, hold q hq, rfl⟩
          · exact ⟨w.proc, by rw [ht]; simp, (List.mem_singleton.mp hp).symm⟩
        · rw [Function.update_of_ne hother] at hp
          obtain ⟨q, hq, rfl⟩ := hwf.there other p hp
          exact ⟨q, hold q hq, rfl⟩
      · obtain ⟨q, hq, rfl⟩ := hwf.there other p hp
        exact ⟨q, hold q hq, rfl⟩
    · dsimp only
      split_ifs
      · by_cases hother : other = name
        · have hnew : w.proc.pid ∉ m.servers name := by
            intro hmem
            obtain ⟨q, hq, hpid⟩ := hwf.there name _ hmem
            exact hfresh q hq hpid
          rw [hother, Function.update_self, List.nodup_append]
          refine ⟨hwf.nodup name, by simp, fun p hp p' hp' heq => hnew ?_⟩
          rw [← List.mem_singleton.mp hp', ← heq]
          exact hp
        · rw [Function.update_of_ne hother]
          exact hwf.nodup other
      · exact hwf.nodup other
    · rw [ht] at hq
      split_ifs at hq
      · rcases List.mem_append.mp hq with hq | hq
        · exact hwf.pids q hq
        · exact List.mem_singleton.mp hq ▸ hpid
      · exact hwf.pids q hq
  | notStarted hview hspawn => exact hwf
  | stopped hview hfollows =>
    exact ⟨fun name => hfollows.there _ name, fun name => (hfollows.sublist_servers name).nodup (hwf.nodup name), hview.pids _⟩

/-- **What a step leaves recorded**: all servers, exactly when it works. -/
theorem Machine.Recorded.step_iff (hrec : m.Recorded) (hwf : m.Wf) (hstep : Step m e m') : m'.Recorded ↔ e.Works := by
  cases hstep with
  | ends ht => exact iff_of_true (fun name pid hpid => hrec name pid (List.mem_of_mem_filter hpid)) trivial
  | begins hq ht => exact iff_of_true hrec trivial
  | notStarted hview hspawn => exact iff_of_true hrec fun h => absurd h (by rw [hspawn]; decide)
  | @started name h w t hview hspawn hfresh hpid ht =>
    have hnone := servers_eq_nil_of_spawn hview hwf hrec hspawn
    constructor
    · intro hrec' _ hstays
      have hnew := hrec' name w.proc.pid
      dsimp only at hnew
      rw [if_pos hstays, Function.update_self, Function.update_self] at hnew
      exact hnew (List.mem_append_right _ (List.mem_singleton_self _))
    · intro hworks other pid hpid
      dsimp only at hpid ⊢
      by_cases hother : other = name
      · subst hother
        rw [Function.update_self]
        split_ifs at hpid with hstays
        · rw [Function.update_self, hnone, List.nil_append] at hpid
          rw [List.mem_singleton.mp hpid]
          exact hworks hspawn hstays
        · rw [hnone] at hpid
          cases hpid
      · rw [Function.update_of_ne hother]
        split_ifs at hpid
        · rw [Function.update_of_ne hother] at hpid
          exact hrec other pid hpid
        · exact hrec other pid hpid
  | @stopped s h removed alive hview hfollows =>
    -- the pidfiles of other names stay, and no server is new
    have hothers : ∀ other ≠ s.name, ∀ pid ∈ alive (lastCall h) other,
        (if (stopNamed h s.name s.url s.needles).unlinks && removed then Function.update m.pidfiles s.name none else m.pidfiles) other =
          some (writePid pid) := by
      intro other hother pid hpid
      have hold := hrec other pid ((hfollows.sublist_servers other).subset hpid)
      split_ifs
      · rw [Function.update_of_ne hother, hold]
      · exact hold
    cases hservers : m.servers s.name with
    | nil =>
      have hempty : alive (lastCall h) s.name = [] := by
        have hsub := hfollows.sublist_servers s.name
        rw [hservers] at hsub
        exact List.sublist_nil.mp hsub
      refine iff_of_true (fun other pid hpid => ?_) fun _ _ => hempty
      by_cases hother : other = s.name
      · dsimp only at hpid
        rw [hother, hempty] at hpid
        cases hpid
      · exact hothers other hother pid hpid
    | cons pid rest =>
      have hmem : pid ∈ m.servers s.name := by
        rw [hservers]
        exact List.mem_cons_self
      have hone := hrec.servers_eq hwf hmem
      obtain ⟨hresolve, hunlinks, -⟩ := stop_of_recorded hview hwf hrec hmem
      have hgaveUp : GaveUp h s ↔ (terminatePid h pid 1).1 = some false := by
        constructor
        · rintro ⟨live, n, hlive, hterm⟩
          rw [hresolve] at hlive
          obtain ⟨rfl, rfl⟩ : (pid : ℤ) = live ∧ 1 = n := by simpa using hlive
          exact hterm
        · exact fun hterm => ⟨pid, 1, hresolve, hterm⟩
      have hkept : ∀ {files : String → Option String}, files = m.pidfiles →
          (∀ other, ∀ pid ∈ alive (lastCall h) other, files other = some (writePid pid)) := by
        rintro files rfl other pid hpid
        exact hrec other pid ((hfollows.sublist_servers other).subset hpid)
      have hworks : (Event.stop s h removed alive).Works ↔
          ((terminatePid h pid 1).1 = some false → removed = true → alive (lastCall h) s.name = []) := by
        rw [Event.Works, hgaveUp]
      rw [hworks]
      rcases hterm : (terminatePid h pid 1).1 with _ | _ | _
      · rw [hterm] at hunlinks
        refine iff_of_true (hkept ?_) nofun
        simp [hunlinks]
      · rw [hterm] at hunlinks
        cases removed with
        | false =>
          refine iff_of_true (hkept ?_) nofun
          simp
        | true =>
          constructor
          · intro hrec' _ _
            rw [List.eq_nil_iff_forall_not_mem]
            intro other hother
            have hfile := hrec' s.name other hother
            simp [hunlinks] at hfile
          · intro hended other p hp
            by_cases hother : other = s.name
            · dsimp only at hp
              rw [hother, hended rfl rfl] at hp
              cases hp
            · exact hothers other hother p hp
      · refine iff_of_true (fun other p hp => ?_) nofun
        by_cases hother : other = s.name
        · dsimp only at hp
          rw [hother] at hp
          have hp' := (hfollows.sublist_servers s.name).subset hp
          rw [hone] at hp'
          obtain rfl := List.mem_singleton.mp hp'
          exact absurd hp (not_mem_of_terminated hview hfollows hterm)
        · exact hothers other hother p hp

/-- **At most one server runs under a name, and it is the one in its pidfile**: in every run whose steps work; and
that is what it takes, for a step that does not work leaves a server behind that is not recorded. -/
theorem recorded_of_run (hwf : m.Wf) (hrec : m.Recorded) (hrun : Run Step m es m') (hworks : ∀ e ∈ es, e.Works) :
    (m'.Recorded ∧ ∀ name, (m'.servers name).length ≤ 1) ∧ ∀ e m'', Step m' e m'' → (m''.Recorded ↔ e.Works) := by
  have hinv : m'.Wf ∧ m'.Recorded := by
    have hguarded : Run (Guarded (fun _ e => e.Works) Step) m es m' := by
      have hat : AtEach Step (fun _ e => e.Works) m (es ++ []) := by
        rw [List.append_nil]
        exact .of_forall fun e he _ => hworks e he
      exact hat.guarded hrun
    refine hguarded.inv (I := fun m => m.Wf ∧ m.Recorded) (fun m e m' hm hstep => ?_) ⟨hwf, hrec⟩
    exact ⟨hm.1.step hstep.2, (hm.2.step_iff hm.1 hstep.2).mpr hstep.1⟩
  exact ⟨⟨hinv.2, hinv.2.length_le_one hinv.1⟩, fun e m'' hstep => hinv.2.step_iff hinv.1 hstep⟩

/-- **A stop that gives up makes room for a second server**: the pidfile is removed while the server goes on, and
the next start does not find it. -/
theorem orphaned_of_gaveUp (hwf : m.Wf) (hrec : m.Recorded) (hstep : Step m (.stop s h true alive) m') (hgaveUp : GaveUp h s)
    (hpid : pid ∈ m'.servers s.name) :
    m'.pidfiles s.name = none ∧ ∀ h' w m'', Step m' (.start s.name h' w) m'' → w.ready = true → w.stays = true →
      m''.servers s.name = [pid, w.proc.pid] := by
  cases hstep with
  | stopped hview hfollows =>
    have hmem : pid ∈ m.servers s.name := (hfollows.sublist_servers s.name).subset hpid
    obtain ⟨hresolve, hunlinks, -⟩ := stop_of_recorded hview hwf hrec hmem
    have hterm : (terminatePid h pid 1).1 = some false := by
      obtain ⟨live, n, hlive, hterm⟩ := hgaveUp
      rw [hresolve] at hlive
      obtain ⟨rfl, rfl⟩ : (pid : ℤ) = live ∧ 1 = n := by simpa using hlive
      exact hterm
    have hone : alive (lastCall h) s.name = [pid] := by
      have hsub := hfollows.sublist_servers s.name
      rw [hrec.servers_eq hwf hmem] at hsub
      rcases List.sublist_singleton.mp hsub with hnil | hone
      · exact absurd (hnil ▸ hpid : pid ∈ ([] : List ℕ)) List.not_mem_nil
      · exact hone
    have hfile : (if (stopNamed h s.name s.url s.needles).unlinks && true then Function.update m.pidfiles s.name none
        else m.pidfiles) s.name = none := by
      simp [hunlinks, hterm]
    refine ⟨hfile, fun h' w m'' hstart hready hstays => ?_⟩
    cases hstart with
    | started hview' hspawn hfresh hnew ht =>
      dsimp only
      rw [if_pos hstays, Function.update_self, hone, List.singleton_append]
    | notStarted hview' hspawn =>
      have hread : readPid h' = none := by
        rw [readPid, hview'.pidfile]
        dsimp only
        rw [hfile]
      have hspawned : (startNamed h' w).2 = true := by
        simp only [startNamed, hread, Option.elim_none, hready]
        cases w.written <;> rfl
      rw [hspawned] at hspawn
      cases hspawn

/-! ### Stopping everything -/

/-- A step that starts nothing; and if it is a stop, it neither raises nor gives up. -/
def Event.Clean : Event → Prop
  | .start .. => False
  | .stop s h _ _ => (stopNamed h s.name s.url s.needles).raised = false ∧ ¬ GaveUp h s
  | _ => True

/-- The service that is stopped. -/
def Event.service? : Event → Option Service
  | .stop s .. => some s
  | _ => none

theorem Event.Clean.works (hclean : e.Clean) : e.Works := by
  cases e with
  | start => exact hclean.elim
  | stop => exact fun hgaveUp => absurd hgaveUp hclean.2
  | ends => trivial
  | begins => trivial

/-- No server is new after a step that starts nothing. -/
theorem Step.sublist (hstep : Step m e m') (hclean : e.Clean) (name : String) : (m'.servers name).Sublist (m.servers name) := by
  cases hstep with
  | ends => exact List.filter_sublist
  | begins => exact List.Sublist.refl _
  | started => exact hclean.elim
  | notStarted => exact hclean.elim
  | stopped _ hfollows => exact hfollows.sublist_servers name

theorem sublist_of_run (hrun : Run Step m es m') (hclean : ∀ e ∈ es, e.Clean) (name : String) :
    (m'.servers name).Sublist (m.servers name) := by
  induction hrun with
  | nil => exact List.Sublist.refl _
  | cons hstep _ ih =>
    exact (ih fun e he => hclean e (List.mem_cons_of_mem _ he)).trans (hstep.sublist (hclean _ List.mem_cons_self) name)

/-- A service that is stopped has no server. -/
theorem Step.servers_eq_nil (hstep : Step m e m') (hwf : m.Wf) (hrec : m.Recorded) (hclean : e.Clean) (hs : e.service? = some s) :
    m'.servers s.name = [] := by
  cases hstep with
  | stopped hview hfollows =>
    obtain rfl := Option.some.inj hs
    rw [List.eq_nil_iff_forall_not_mem]
    intro pid hpid
    have hmem := (hfollows.sublist_servers _).subset hpid
    obtain ⟨hresolve, -, hraised⟩ := stop_of_recorded hview hwf hrec hmem
    obtain ⟨hnotRaised, hnotGaveUp⟩ := hclean
    rcases hterm : (terminatePid _ pid 1).1 with _ | _ | _
    · rw [hraised, hterm] at hnotRaised
      cases hnotRaised
    · exact hnotGaveUp ⟨pid, 1, hresolve, hterm⟩
    · exact not_mem_of_terminated hview hfollows hterm hpid
  | _ => cases hs

/-- **After `cmd_down` no server runs**, whatever processes end and begin meanwhile, if no stop raises or gives up. -/
theorem down_leaves_nothing {host port : String} (hwf : m.Wf) (hrec : m.Recorded) (hrun : Run Step m es m')
    (hclean : ∀ e ∈ es, e.Clean) (hdown : es.filterMap Event.service? = downServices host port) :
    ∀ s ∈ downServices host port, m'.servers s.name = [] := by
  intro s hs
  rw [← hdown, List.mem_filterMap] at hs
  obtain ⟨e, he, hs⟩ := hs
  obtain ⟨before, after, rfl⟩ := List.append_of_mem he
  obtain ⟨m₁, hbefore, hrest⟩ := hrun.split
  cases hrest with
  | @cons _ m₂ _ _ _ hstep hafter =>
    have hworks : ∀ e ∈ before, e.Works := fun e he => (hclean e (List.mem_append_left _ he)).works
    have hrec₁ : m₁.Recorded := (recorded_of_run hwf hrec hbefore hworks).1.1
    have hwf₁ : m₁.Wf := hbefore.inv (I := Machine.Wf) (fun m e m' hm hstep => hm.step hstep) hwf
    have hnil : m₂.servers s.name = [] := hstep.servers_eq_nil hwf₁ hrec₁ (hclean e he) hs
    have hsub := sublist_of_run hafter (fun e he => hclean e (List.mem_append_right _ (List.mem_cons_of_mem _ he))) s.name
    rw [hnil] at hsub
    exact List.sublist_nil.mp hsub

end

/-! ### A server that is started, goes on, and ends -/

/-- A host with the server 480 up to the call `n`, and nothing after it. -/
def serverHost (n : ℕ) (pidfile : Option String) : Host where
  table k := if k < n then ⟨[⟨480, 480, "server:app", true, true⟩], by simp, by simp⟩ else ⟨[], by simp, by simp⟩
  own := 900
  parent := 899
  hasProc := true
  pidfile
  decimal := PyText.asciiDecimal
  answers _ := false
  polls := 2

theorem views_serverHost {m : Machine} {name : String} {n : ℕ} (htable : (serverHost n (m.pidfiles name)).table 0 = m.table) :
    Views m name (serverHost n (m.pidfiles name)) where
  table := htable
  pidfile := rfl
  decimal := PyText.digits_asciiDecimal
  pids k q hq := by
    simp only [serverHost] at hq
    split_ifs at hq
    · obtain rfl := List.mem_singleton.mp hq
      decide
    · cases hq

def emptyMachine : Machine := ⟨⟨[], by simp, by simp⟩, fun _ => none, fun _ => []⟩

/-- The machine on which the API runs with the pid 480. -/
def apiMachine : Machine :=
  ⟨⟨[⟨480, 480, "server:app", true, true⟩], by simp, by simp⟩, Function.update (fun _ => none) "api" (some (writePid 480)),
    Function.update (fun _ => []) "api" [480]⟩

theorem apiMachine_of_ne {name : String} (hname : name ≠ "api") : apiMachine.servers name = [] ∧ apiMachine.pidfiles name = none := by
  show Function.update (fun _ => []) "api" [480] name = [] ∧ Function.update (fun _ => none) "api" (some (writePid 480)) name = none
  rw [Function.update_of_ne hname, Function.update_of_ne hname]
  exact ⟨rfl, rfl⟩

theorem wf_emptyMachine : emptyMachine.Wf := ⟨nofun, fun _ => List.nodup_nil, nofun⟩

theorem recorded_emptyMachine : emptyMachine.Recorded := nofun

def apiSpawn : Spawn := ⟨true, ⟨480, 480, "server:app", true, true⟩, true, none, true⟩

theorem step_apiMachine : Step emptyMachine (.start "api" (serverHost 0 none) apiSpawn) apiMachine :=
  .started (views_serverHost (m := emptyMachine) rfl) (by decide) nofun (by decide) rfl

/-- After a start one server runs. -/
theorem recorded_of_run_apiMachine : apiMachine.Recorded ∧ (apiMachine.servers "api").length ≤ 1 :=
  have h := recorded_of_run wf_emptyMachine recorded_emptyMachine (.one step_apiMachine)
    (List.forall_mem_singleton.mpr fun _ _ => rfl)
  ⟨h.1.1, h.1.2 "api"⟩

def apiService : Service := ⟨"api", some "http://127.0.0.1:8000/health", ["server:app"]⟩

theorem wf_apiMachine : apiMachine.Wf := wf_emptyMachine.step step_apiMachine

theorem recorded_apiMachine : apiMachine.Recorded :=
  (recorded_emptyMachine.step_iff wf_emptyMachine step_apiMachine).mpr fun _ _ => rfl

/-- The servers of `apiMachine` on a host on which they go on up to the call `n`. -/
def apiAlive (n k : ℕ) (name : String) : List ℕ := if k < n then apiMachine.servers name else []

theorem follows_apiAlive {n : ℕ} (hn : 0 < n) (pidfile : Option String) : Follows apiMachine (serverHost n pidfile) (apiAlive n) where
  first := by
    funext name
    rw [apiAlive, if_pos hn]
  ends k name := by
    rw [apiAlive, apiAlive]
    split_ifs with hsucc hk
    · exact List.Sublist.refl _
    · omega
    · exact List.nil_sublist _
    · exact List.Sublist.refl _
  there k name pid hpid := by
    rw [apiAlive] at hpid
    split_ifs at hpid with hk
    · refine ⟨⟨480, 480, "server:app", true, true⟩, by simp [serverHost, hk], ?_⟩
      by_cases hname : name = "api"
      · rw [hname] at hpid
        exact (List.mem_singleton.mp hpid).symm
      · rw [(apiMachine_of_ne hname).1] at hpid
        cases hpid
    · cases hpid

/-- The machine after a stop of the API on a host on which it goes on up to the call `n`. -/
def stoppedMachine (n : ℕ) : Machine :=
  ⟨(serverHost n (apiMachine.pidfiles "api")).table (lastCall (serverHost n (apiMachine.pidfiles "api"))),
    if (stopNamed (serverHost n (apiMachine.pidfiles "api")) "api" apiService.url apiService.needles).unlinks && true then
      Function.update apiMachine.pidfiles "api" none else apiMachine.pidfiles,
    apiAlive n (lastCall (serverHost n (apiMachine.pidfiles "api")))⟩

theorem step_stoppedMachine {n : ℕ} (hn : 0 < n) :
    Step apiMachine (.stop apiService (serverHost n (apiMachine.pidfiles "api")) true (apiAlive n)) (stoppedMachine n) :=
  .stopped (views_serverHost (by simp only [serverHost, if_pos hn]; rfl)) (follows_apiAlive hn _)

/-- A server that outlives both signals is no longer in its pidfile. -/
theorem orphaned_of_gaveUp_stoppedMachine : (stoppedMachine 100).servers "api" = [480] ∧ (stoppedMachine 100).pidfiles "api" = none := by
  have hservers : (stoppedMachine 100).servers "api" = [480] := by decide
  have hgaveUp : GaveUp (serverHost 100 (apiMachine.pidfiles "api")) apiService := ⟨480, 1, by decide, by decide⟩
  have hpid : 480 ∈ (stoppedMachine 100).servers apiService.name := by decide
  exact ⟨hservers, (orphaned_of_gaveUp wf_apiMachine recorded_apiMachine (step_stoppedMachine (by omega)) hgaveUp hpid).1⟩

theorem stoppedMachine_three : stoppedMachine 3 = emptyMachine := by
  have hunlinks : (stopNamed (serverHost 3 (apiMachine.pidfiles "api")) "api" apiService.url apiService.needles).unlinks = true := by
    decide
  have hfiles : Function.update apiMachine.pidfiles "api" none = fun _ => none := by
    funext name
    by_cases hname : name = "api"
    · rw [hname, Function.update_self]
    · rw [Function.update_of_ne hname, (apiMachine_of_ne hname).2]
  rw [stoppedMachine, hunlinks, Bool.true_and, if_pos rfl, hfiles]
  rfl

/-- A stop of what does not run. -/
theorem resolveLivePid_idle (s : Service) :
    resolveLivePid (serverHost 0 none) (readPid (serverHost 0 none)) s.url s.needles = some (none, 1) := by
  have hup : httpHealthUp (serverHost 0 none) s.url = false := by
    cases hurl : s.url with
    | none => rfl
    | some url => exact Bool.and_false _
  have hread : readPid (serverHost 0 none) = none := rfl
  rw [resolveLivePid, hread, hup]
  rfl

theorem stopNamed_idle (s : Service) : stopNamed (serverHost 0 none) s.name s.url s.needles = ⟨[], false, [], false⟩ := by
  simp only [stopNamed, resolveLivePid_idle]
  rfl

theorem step_emptyMachine (s : Service) : Step emptyMachine (.stop s (serverHost 0 none) true fun _ _ => []) emptyMachine := by
  have hfollows : Follows emptyMachine (serverHost 0 none) fun _ _ => [] :=
    ⟨rfl, fun _ _ => List.Sublist.refl _, nofun⟩
  have hview : Views emptyMachine s.name (serverHost 0 none) := views_serverHost (m := emptyMachine) rfl
  have hstep : Step emptyMachine (.stop s (serverHost 0 none) true fun _ _ => []) _ := .stopped hview hfollows
  rw [stopNamed_idle] at hstep
  exact hstep

/-- The API ends after it has the first signal, and nothing else runs. -/
def downEvents : List Event :=
  .stop apiService (serverHost 3 (apiMachine.pidfiles "api")) true (apiAlive 3) ::
    (downServices "127.0.0.1" "8090").tail.map fun s => .stop s (serverHost 0 none) true fun _ _ => []

theorem run_downEvents : Run Step apiMachine downEvents emptyMachine := by
  have hidle : ∀ ss : List Service,
      Run Step emptyMachine (ss.map fun s => .stop s (serverHost 0 none) true fun _ _ => []) emptyMachine := by
    intro ss
    induction ss with
    | nil => exact .nil
    | cons s ss ih => exact .cons (step_emptyMachine s) ih
  exact .cons (stoppedMachine_three ▸ step_stoppedMachine (by omega)) (hidle _)

theorem clean_downEvents : ∀ e ∈ downEvents, e.Clean := by
  intro e he
  rcases List.mem_cons.mp he with rfl | he
  · refine ⟨by decide, ?_⟩
    rintro ⟨live, n, hresolve, hterm⟩
    have hlive : resolveLivePid (serverHost 3 (apiMachine.pidfiles "api")) (readPid (serverHost 3 (apiMachine.pidfiles "api")))
        apiService.url apiService.needles = some (some 480, 1) := by decide
    obtain ⟨rfl, rfl⟩ : 480 = live ∧ 1 = n := by simpa using hlive.symm.trans hresolve
    exact absurd hterm (by decide)
  · obtain ⟨s, -, rfl⟩ := List.mem_map.mp he
    refine ⟨by rw [stopNamed_idle], ?_⟩
    rintro ⟨live, n, hresolve, -⟩
    rw [resolveLivePid_idle] at hresolve
    cases hresolve

theorem down_leaves_nothing_apiMachine : emptyMachine.servers "api" = [] :=
  down_leaves_nothing wf_apiMachine recorded_apiMachine run_downEvents clean_downEvents rfl _ List.mem_cons_self

end Persona.Manage
