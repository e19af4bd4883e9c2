import Persona.Lib.Run
import Mathlib.Logic.Function.Basic

/-!
# Read, then write, against a store with one writer at a time

Calls against a shared store, each of which reads what it needs in a statement of its
own, computes, and then writes in a transaction: the transaction opens when no other is
open, sees the store as last committed, and becomes visible when it commits. Nothing
ties the write to the read before it.

`Validated` says that a write finds what its call had read. In a run whose writes are
all validated, the calls that have committed are serializable in the order in which
they committed, and no write has failed (`serializable`).
-/

namespace Persona.Lib.Snapshot

variable {D V ι : Type*}

/-- Calls `i : ι` on a store `D`; a call reads a value of type `V`. -/
structure Calls (D V ι : Type*) where
  /-- What the call reads. -/
  read : ι → D → V
  /-- What it writes, given what it read; `none` when the store refuses. -/
  write : ι → V → D → Option D
  /-- What the call does run alone. -/
  atomic : ι → D → D
  /-- A call run alone reads and writes the same store. -/
  write_read : ∀ i d, write i (read i d) d = some (atomic i d)

/-- How far a call is. -/
inductive Pc (V : Type*) where
  /-- It has not started. -/
  | ready
  /-- It has read. -/
  | read (v : V)
  /-- It has written, in a transaction still open. -/
  | wrote
  /-- It has committed. -/
  | done
  /-- Its write was refused. -/
  | failed

/-- The store and the calls. -/
structure State (D V ι : Type*) where
  /-- The store, as last committed. -/
  committed : D
  /-- The open transaction: whose it is, and the store it has written. -/
  writer : Option (ι × D)
  /-- How far each call is. -/
  pc : ι → Pc V

/-- The steps of a call. -/
inductive Ev (ι : Type*) where
  /-- The read. -/
  | select (i : ι)
  /-- The write, which opens the transaction. -/
  | write (i : ι)
  /-- The commit. -/
  | commit (i : ι)

/-- Nothing has started. -/
def State.init (d : D) : State D V ι := ⟨d, none, fun _ => .ready⟩

variable [DecidableEq ι] (C : Calls D V ι)

/-- A step of one call. -/
inductive Step : State D V ι → Ev ι → State D V ι → Prop
  /-- A read, of the store as last committed. -/
  | select {s : State D V ι} {i : ι} (hpc : s.pc i = .ready) :
      Step s (.select i) { s with pc := Function.update s.pc i (.read (C.read i s.committed)) }
  /-- A write that goes through. -/
  | write {s : State D V ι} {i : ι} {v : V} {d : D} (hpc : s.pc i = .read v) (hfree : s.writer = none)
      (hw : C.write i v s.committed = some d) :
      Step s (.write i) { s with writer := some (i, d), pc := Function.update s.pc i .wrote }
  /-- A write the store refuses. -/
  | refuse {s : State D V ι} {i : ι} {v : V} (hpc : s.pc i = .read v) (hfree : s.writer = none)
      (hw : C.write i v s.committed = none) :
      Step s (.write i) { s with pc := Function.update s.pc i .failed }
  /-- A commit. -/
  | commit {s : State D V ι} {i : ι} {d : D} (hw : s.writer = some (i, d)) :
      Step s (.commit i) ⟨d, none, Function.update s.pc i .done⟩

/-- A write finds what its call has read. -/
def Validated (s : State D V ι) : Ev ι → Prop
  | .write i => ∀ v, s.pc i = .read v → C.read i s.committed = v
  | _ => True

/-- The calls of `order` run alone, one after the other. -/
def serial (order : List ι) (d : D) : D := order.foldl (fun d i => C.atomic i d) d

/-- The calls that have committed are, in some order, what has happened to the store,
and no write has been refused. -/
def Serializable (d₀ : D) (s : State D V ι) : Prop :=
  (∀ i, s.pc i ≠ .failed) ∧
    ∃ order : List ι, order.Nodup ∧ (∀ i, i ∈ order ↔ s.pc i = .done) ∧ s.committed = serial C order d₀

/-- The invariant: besides, the open transaction is the call's own, run alone on the
store as committed. -/
structure Inv (d₀ : D) (s : State D V ι) : Prop where
  /-- What has committed is serial. -/
  ser : Serializable C d₀ s
  /-- What is about to commit is atomic. -/
  writer : ∀ i d, s.writer = some (i, d) → s.pc i = .wrote ∧ d = C.atomic i s.committed
  /-- Only the open transaction has written. -/
  wrote : ∀ i, s.pc i = .wrote → ∃ d, s.writer = some (i, d)

variable {C} {d₀ : D} {s t : State D V ι}

omit [DecidableEq ι] in
theorem inv_init : Inv C d₀ (State.init d₀) where
  ser := ⟨fun _ => by simp [State.init], [], by simp, by simp [State.init], rfl⟩
  writer _ _ h := by simp [State.init] at h
  wrote _ h := by simp [State.init] at h

/-- A step of call `i` that neither commits nor fails leaves the committed calls as
they are. -/
theorem Serializable.update {i : ι} {p : Pc V} {w : Option (ι × D)} (h : Serializable C d₀ s)
    (hi : s.pc i ≠ .done) (hp : p ≠ .done) (hf : p ≠ .failed) :
    Serializable C d₀ ⟨s.committed, w, Function.update s.pc i p⟩ := by
  obtain ⟨hno, order, hnd, hmem, hc⟩ := h
  refine ⟨fun j => ?_, order, hnd, fun j => ?_, hc⟩
  · by_cases hj : j = i
    · subst hj; simpa using hf
    · simpa [Function.update_of_ne hj] using hno j
  · by_cases hj : j = i
    · subst hj; simp [hmem, hi, hp]
    · simp [Function.update_of_ne hj, hmem]

/-- A commit of the open transaction puts its call last. -/
theorem Serializable.commit {i : ι} {w : Option (ι × D)} (h : Serializable C d₀ s) (hi : s.pc i ≠ .done) :
    Serializable C d₀ ⟨C.atomic i s.committed, w, Function.update s.pc i .done⟩ := by
  obtain ⟨hno, order, hnd, hmem, hc⟩ := h
  refine ⟨fun j => ?_, order ++ [i], ?_, fun j => ?_, ?_⟩
  · by_cases hj : j = i
    · subst hj; simp
    · simpa [Function.update_of_ne hj] using hno j
  · have hni : i ∉ order := fun h => hi ((hmem i).mp h)
    simp [List.nodup_append, hnd]
    exact fun j hj e => hni (e ▸ hj)
  · by_cases hj : j = i
    · subst hj; simp
    · simp [hmem, hj]
  · simp [serial, List.foldl_append, hc]

/-- A validated step preserves the invariant. -/
theorem inv_step {e : Ev ι} (hI : Inv C d₀ s) (hstep : Guarded (Validated C) (Step C) s e t) : Inv C d₀ t := by
  obtain ⟨hok, hstep⟩ := hstep
  cases hstep with
  | @select i hpc =>
    refine ⟨hI.ser.update (by simp [hpc]) (by simp) (by simp), fun j d hj => ?_, fun j hj => ?_⟩
    · obtain ⟨h₁, h₂⟩ := hI.writer j d hj
      have hne : j ≠ i := by rintro rfl; simp [hpc] at h₁
      exact ⟨by simpa [Function.update_of_ne hne] using h₁, h₂⟩
    · have hne : j ≠ i := by rintro rfl; simp at hj
      exact hI.wrote j (by simpa [Function.update_of_ne hne] using hj)
  | @write i v d hpc hfree hw =>
    -- the write is the one the call would make alone
    have hd : d = C.atomic i s.committed := by
      rw [← hok v hpc, C.write_read, Option.some.injEq] at hw
      exact hw.symm
    refine ⟨hI.ser.update (by simp [hpc]) (by simp) (by simp), fun j d' hj => ?_, fun j hj => ?_⟩
    · simp only [Option.some.injEq, Prod.mk.injEq] at hj
      obtain ⟨rfl, rfl⟩ := hj
      exact ⟨by simp, hd⟩
    · by_cases hne : j = i
      · exact ⟨d, by rw [hne]⟩
      · obtain ⟨d', hd'⟩ := hI.wrote j (by simpa [Function.update_of_ne hne] using hj)
        simp [hfree] at hd'
  | @refuse i v hpc _ hw =>
    rw [← hok v hpc, C.write_read] at hw
    cases hw
  | @commit i d hw =>
    obtain ⟨hpc, rfl⟩ := hI.writer i d hw
    refine ⟨hI.ser.commit (by simp [hpc]), fun j d' hj => by simp at hj, fun j hj => ?_⟩
    have hne : j ≠ i := by rintro rfl; simp at hj
    obtain ⟨d', hd'⟩ := hI.wrote j (by simpa [Function.update_of_ne hne] using hj)
    rw [hw, Option.some.injEq, Prod.mk.injEq] at hd'
    exact absurd hd'.1.symm hne

/-- **Validated runs are serializable**, in the order of their commits. -/
theorem serializable {es : List (Ev ι)} (h : Run (Guarded (Validated C) (Step C)) (.init d₀) es s) :
    Serializable C d₀ s :=
  (h.inv (I := Inv C d₀) (fun _ _ _ hI hs => inv_step hI hs) inv_init).ser

end Persona.Lib.Snapshot
