import Persona.Client.Desktop
import Persona.Lib.PyText
import Mathlib.Data.List.Infix
import Mathlib.Order.Defs.LinearOrder

/-!
# The microphone

`_record_vad`, `stt` and `cmd_record_text` of `clients/voice/persona_voice.py`: what the desk runs to hear one message.
The recording goes on block by block until a pause follows speech, until nobody has spoken for too long, or until it is
too long itself.

`recordVad_ends` says that it ends exactly with the first block at which one of the three holds, and that it reports
speech exactly if a block of it was loud. Seconds are sums of one block's length as the machine adds them up, whatever it
rounds them to.

How loud a block is, and the noise floor it is measured against, is left out, and so is the sound itself.
-/

namespace Persona.Client

open Persona.Lib

variable {τ : Type*} [LinearOrder τ]

/-! ### `_record_vad` -/

/-- A float that counts seconds. -/
structure Clock (τ : Type*) [LinearOrder τ] where
  /-- `0.0`. -/
  zero : τ
  /-- `+ dt`. -/
  tick : τ → τ

/-- The seconds of so many blocks. -/
def Clock.sum (C : Clock τ) (n : ℕ) : τ := C.tick^[n] C.zero

/-- The arguments of `_record_vad`. -/
structure Limits (τ : Type*) where
  maxSeconds : τ
  silenceTail : τ
  startTimeout : τ

/-- The variables of its loop. -/
structure Vad (τ : Type*) where
  speech : Bool
  silence : τ
  pre : τ
  elapsed : τ

namespace Vad

variable (C : Clock τ) (L : Limits τ)

/-- Before the loop. -/
def start : Vad τ := ⟨false, C.zero, C.zero, C.zero⟩

/-- A block is read; `loud` is `amp > thresh`. -/
def read (loud : Bool) (v : Vad τ) : Vad τ :=
  let v := { v with elapsed := C.tick v.elapsed }
  if loud then { v with speech := true, silence := C.zero }
  else if v.speech then { v with silence := C.tick v.silence }
  else { v with pre := C.tick v.pre }

/-- The loop is left. -/
def leaves (v : Vad τ) : Bool :=
  (v.speech && decide (L.silenceTail ≤ v.silence)) || (!v.speech && decide (L.startTimeout ≤ v.pre)) ||
    decide (L.maxSeconds ≤ v.elapsed)

/-- The loop, from the `i`-th block on, for so many blocks at most: the number of blocks in all, and `speech`. -/
def loop (loud : ℕ → Bool) (i : ℕ) (v : Vad τ) : ℕ → Option (ℕ × Bool)
  | 0 => none
  | fuel + 1 =>
    let v := v.read C (loud i)
    if v.leaves L then some (i + 1, v.speech) else loop loud (i + 1) v fuel

end Vad

/-- `_record_vad`: the number of blocks, and `speech`; `none` while it still records. -/
def recordVad (C : Clock τ) (L : Limits τ) (loud : ℕ → Bool) (fuel : ℕ) : Option (ℕ × Bool) :=
  Vad.loop C L loud 0 (Vad.start C) fuel

/-! ### `stt` and `cmd_record_text` -/

/-- A line of whisper's that is no transcript. -/
def isNoise (s : String) : Bool :=
  s = "" || "[".toList.isPrefixOf s.toList || "whisper_".toList.isPrefixOf s.toList ||
    decide ("load_backend".toList <:+: s.toList) || "ggml_".toList.isPrefixOf s.toList

/-- `stt`, of what whisper prints; `none` is a `RuntimeError`. -/
def stt (returncode : ℤ) (stdout : String) : Option String :=
  if returncode ≠ 0 then none
  else some (PyText.strip (" ".intercalate (((PyText.splitlines stdout).map PyText.strip).filter (!isNoise ·))))

/-- `cmd_record_text`: what it prints, and what it returns; `none` if it raises. -/
def recordText (spoke : Bool) (returncode : ℤ) (stdout : String) : Option (String × ℤ) :=
  if spoke then (stt returncode stdout).map fun text => (text, if text ≠ "" then 0 else 3) else some ("", 3)

/-! ### When a recording ends -/

section Ends

variable {C : Clock τ} {L : Limits τ} {loud : ℕ → Bool} {i n : ℕ} {v : Vad τ}

theorem Clock.sum_succ (C : Clock τ) (n : ℕ) : C.sum (n + 1) = C.tick (C.sum n) := Function.iterate_succ_apply' ..

/-- The `k`-th block is the last loud one of the first `n`. -/
structure LastLoud (loud : ℕ → Bool) (n k : ℕ) : Prop where
  lt : k < n
  here : loud k = true
  quiet : ∀ j, k < j → j < n → loud j = false

theorem LastLoud.unique {k k' : ℕ} (h : LastLoud loud n k) (h' : LastLoud loud n k') : k = k' := by
  rcases Nat.lt_trichotomy k k' with hlt | heq | hlt
  · exact absurd ((h.quiet k' hlt h'.lt).symm.trans h'.here) Bool.false_ne_true
  · exact heq
  · exact absurd ((h'.quiet k hlt h.lt).symm.trans h.here) Bool.false_ne_true

/-- The recording is long enough after `n` blocks: it has its greatest length, or nobody has spoken for too long, or a pause
follows what was said. -/
def Over (C : Clock τ) (L : Limits τ) (loud : ℕ → Bool) (n : ℕ) : Prop :=
  L.maxSeconds ≤ C.sum n ∨ ((∀ k < n, loud k = false) ∧ L.startTimeout ≤ C.sum n) ∨
    ∃ k, LastLoud loud n k ∧ L.silenceTail ≤ C.sum (n - 1 - k)

/-- What the loop knows after so many blocks. -/
structure Vad.After (C : Clock τ) (loud : ℕ → Bool) (n : ℕ) (v : Vad τ) : Prop where
  elapsed : v.elapsed = C.sum n
  quiet : v.speech = false → (∀ k < n, loud k = false) ∧ v.pre = C.sum n
  heard : v.speech = true → ∃ k, LastLoud loud n k ∧ v.silence = C.sum (n - 1 - k)

theorem Vad.After.read (h : v.After C loud i) : (v.read C (loud i)).After C loud (i + 1) := by
  have helapsed : C.tick v.elapsed = C.sum (i + 1) := by rw [h.elapsed, C.sum_succ]
  unfold Vad.read
  cases hloud : loud i with
  | true =>
    refine ⟨helapsed, nofun, fun _ => ⟨i, ⟨Nat.lt_succ_self i, hloud, fun j hlt hle => ?_⟩, ?_⟩⟩
    · omega
    · show C.zero = C.sum (i + 1 - 1 - i)
      rw [show i + 1 - 1 - i = 0 by omega]
      rfl
  | false =>
    dsimp only
    rw [if_neg Bool.false_ne_true]
    cases hspeech : v.speech with
    | true =>
      obtain ⟨k, hk, hsilence⟩ := h.heard hspeech
      have hlt := hk.lt
      refine ⟨helapsed, nofun, fun _ => ⟨k, ⟨Nat.lt_succ_of_lt hk.lt, hk.here, fun j hkj hj => ?_⟩, ?_⟩⟩
      · rcases Nat.lt_succ_iff_lt_or_eq.mp hj with hlt | rfl
        · exact hk.quiet j hkj hlt
        · exact hloud
      · show C.tick v.silence = C.sum (i + 1 - 1 - k)
        rw [hsilence, ← C.sum_succ]
        congr 1
        omega
    | false =>
      obtain ⟨hquiet, hpre⟩ := h.quiet hspeech
      refine ⟨helapsed, fun _ => ⟨fun k hk => ?_, ?_⟩, nofun⟩
      · rcases Nat.lt_succ_iff_lt_or_eq.mp hk with hlt | rfl
        · exact hquiet k hlt
        · exact hloud
      · show C.tick v.pre = C.sum (i + 1)
        rw [hpre, C.sum_succ]

/-- The loop is left when the recording is over. -/
theorem Vad.After.leaves_iff (h : v.After C loud n) : v.leaves L = true ↔ Over C L loud n := by
  unfold Vad.leaves Over
  rw [Bool.or_eq_true, Bool.or_eq_true, Bool.and_eq_true, Bool.and_eq_true, decide_eq_true_eq, decide_eq_true_eq,
    decide_eq_true_eq, h.elapsed]
  cases hspeech : v.speech with
  | true =>
    obtain ⟨k, hk, hsilence⟩ := h.heard hspeech
    rw [hsilence]
    constructor
    · rintro ((⟨-, htail⟩ | ⟨hno, -⟩) | hmax)
      · exact .inr (.inr ⟨k, hk, htail⟩)
      · cases hno
      · exact .inl hmax
    · rintro (hmax | ⟨hquiet, -⟩ | ⟨k', hk', htail⟩)
      · exact .inr hmax
      · exact absurd ((hquiet k hk.lt).symm.trans hk.here) Bool.false_ne_true
      · rw [hk.unique hk']
        exact .inl (.inl ⟨rfl, htail⟩)
  | false =>
    obtain ⟨hquiet, hpre⟩ := h.quiet hspeech
    rw [hpre]
    constructor
    · rintro ((⟨hno, -⟩ | ⟨-, hstart⟩) | hmax)
      · cases hno
      · exact .inr (.inl ⟨hquiet, hstart⟩)
      · exact .inl hmax
    · rintro (hmax | ⟨-, hstart⟩ | ⟨k, hk, -⟩)
      · exact .inr hmax
      · exact .inl (.inr ⟨rfl, hstart⟩)
      · exact absurd ((hquiet k hk.lt).symm.trans hk.here) Bool.false_ne_true

theorem Vad.After.speech_eq (h : v.After C loud n) : v.speech = decide (∃ k < n, loud k = true) := by
  cases hspeech : v.speech with
  | true =>
    obtain ⟨k, hk, -⟩ := h.heard hspeech
    exact (decide_eq_true ⟨k, hk.lt, hk.here⟩).symm
  | false =>
    refine (decide_eq_false ?_).symm
    rintro ⟨k, hk, hloud⟩
    exact absurd (((h.quiet hspeech).1 k hk).symm.trans hloud) Bool.false_ne_true

/-- The loop goes on to the first block at which the recording is over. -/
theorem Vad.loop_ends (fuel : ℕ) (h : v.After C loud i) (hover : ∃ n, i < n ∧ n ≤ i + fuel ∧ Over C L loud n) :
    ∃ n, Vad.loop C L loud i v fuel = some (n, decide (∃ k < n, loud k = true)) ∧ i < n ∧ n ≤ i + fuel ∧ Over C L loud n ∧
      ∀ m, i < m → m < n → ¬Over C L loud m := by
  induction fuel generalizing i v with
  | zero =>
    obtain ⟨n, hlt, hle, -⟩ := hover
    omega
  | succ fuel ih =>
    have hread := h.read
    unfold Vad.loop
    dsimp only
    by_cases hleaves : (v.read C (loud i)).leaves L = true
    · rw [if_pos hleaves, hread.speech_eq]
      refine ⟨i + 1, rfl, by omega, by omega, hread.leaves_iff.mp hleaves, fun m hm hm' => ?_⟩
      omega
    · have hnot : ¬Over C L loud (i + 1) := mt hread.leaves_iff.mpr hleaves
      rw [if_neg hleaves]
      obtain ⟨n, hlt, hle, hn⟩ := hover
      have hne : n ≠ i + 1 := by
        rintro rfl
        exact hnot hn
      obtain ⟨n', heq, hlt', hle', hover', hleast⟩ := ih hread ⟨n, by omega, by omega, hn⟩
      refine ⟨n', heq, by omega, by omega, hover', fun m hm hm' => ?_⟩
      by_cases hm1 : m = i + 1
      · rw [hm1]
        exact hnot
      · exact hleast m (by omega) hm'

/-- **A recording ends**, with the first block at which it has its greatest length, or nobody has spoken for too long, or a
pause follows what was said; and it reports speech exactly if one of its blocks was loud. -/
theorem recordVad_ends {N : ℕ} (hN : 0 < N) (hmax : L.maxSeconds ≤ C.sum N) :
    ∃ n, recordVad C L loud N = some (n, decide (∃ k < n, loud k = true)) ∧ 0 < n ∧ n ≤ N ∧ Over C L loud n ∧
      ∀ m, 0 < m → m < n → ¬Over C L loud m := by
  have hstart : (Vad.start C).After C loud 0 := by
    refine ⟨rfl, fun _ => ⟨fun k hk => ?_, rfl⟩, nofun⟩
    omega
  obtain ⟨n, heq, hlt, hle, hover, hleast⟩ := Vad.loop_ends (L := L) N hstart ⟨N, hN, by omega, .inl hmax⟩
  exact ⟨n, heq, hlt, by omega, hover, hleast⟩

theorem mem_intercalate {w : String} {ws : List String} (hw : w ∈ ws) {c : Char} (hc : c ∈ w.toList) :
    c ∈ (" ".intercalate ws).toList := by
  induction ws with
  | nil => cases hw
  | cons x ws ih =>
    cases ws with
    | nil =>
      obtain rfl := List.mem_singleton.mp hw
      exact hc
    | cons y ws =>
      have hlist : (" ".intercalate (x :: y :: ws)).toList = x.toList ++ ' ' :: (" ".intercalate (y :: ws)).toList := by
        rw [String.intercalate_cons_cons, String.toList_append, String.toList_append]
        simp
      rw [hlist]
      rcases List.mem_cons.mp hw with rfl | hmem
      · exact List.mem_append_left _ hc
      · exact List.mem_append_right _ (List.mem_cons_of_mem _ (ih hmem))

/-- What whisper prints is no transcript exactly if each line of it is noise. -/
theorem stt_eq_empty_iff (stdout : String) :
    stt 0 stdout = some "" ↔ ∀ line ∈ PyText.splitlines stdout, isNoise (PyText.strip line) = true := by
  have hempty : isNoise "" = true := rfl
  unfold stt
  rw [if_neg (not_not.mpr rfl), Option.some_inj, PyText.strip_eq_empty_iff]
  constructor
  · intro hblank line hline
    by_contra hnoise
    have hmem : PyText.strip line ∈ ((PyText.splitlines stdout).map PyText.strip).filter (!isNoise ·) := by
      rw [List.mem_filter]
      exact ⟨List.mem_map_of_mem hline, by simp [hnoise]⟩
    apply hnoise
    have hstrip : PyText.strip (PyText.strip line) = "" :=
      PyText.strip_eq_empty_iff.mpr fun c hc => hblank c (mem_intercalate hmem hc)
    rw [PyText.strip_strip] at hstrip
    rw [hstrip]
    exact hempty
  · intro hall
    have hnil : ((PyText.splitlines stdout).map PyText.strip).filter (!isNoise ·) = [] := by
      refine List.filter_eq_nil_iff.mpr fun s hs => ?_
      obtain ⟨line, hline, rfl⟩ := List.mem_map.mp hs
      simp [hall line hline]
    rw [hnil]
    intro c hc
    cases hc

/-- **What the desk hears.** A recording ends as `recordVad_ends` says, and reports speech exactly if one of its blocks was
loud; and `record-text`, when whisper exits with 0, prints nothing, and says so by returning 3, exactly if nobody was loud
enough while it lasted, or whisper prints no line that is a transcript. -/
theorem recordText_of_recording {N : ℕ} (hN : 0 < N) (hmax : L.maxSeconds ≤ C.sum N) (stdout : String) :
    ∃ n spoke, recordVad C L loud N = some (n, spoke) ∧ Over C L loud n ∧ (∀ m, 0 < m → m < n → ¬Over C L loud m) ∧
      (spoke = true ↔ ∃ k < n, loud k = true) ∧ (recordText spoke 0 stdout = some ("", 3) ↔
        (∀ k < n, loud k = false) ∨ ∀ line ∈ PyText.splitlines stdout, isNoise (PyText.strip line) = true) := by
  obtain ⟨n, heq, -, -, hover, hleast⟩ : ∃ n, recordVad C L loud N = some (n, decide (∃ k < n, loud k = true)) ∧ _ :=
    recordVad_ends hN hmax
  refine ⟨n, _, heq, hover, hleast, decide_eq_true_iff, ?_⟩
  unfold recordText
  by_cases hspoke : ∃ k < n, loud k = true
  · rw [decide_eq_true hspoke, if_pos rfl, ← stt_eq_empty_iff]
    have hloud : ¬∀ k < n, loud k = false := by
      obtain ⟨k, hk, hloud⟩ := hspoke
      exact fun hquiet => Bool.false_ne_true ((hquiet k hk).symm.trans hloud)
    rw [or_iff_right hloud]
    obtain ⟨text, htext⟩ : ∃ text, stt 0 stdout = some text := ⟨_, if_neg (not_not.mpr rfl)⟩
    rw [htext, Option.map_some, Option.some_inj, Option.some_inj]
    constructor
    · intro h
      exact (Prod.mk.inj h).1
    · rintro rfl
      rfl
  · rw [decide_eq_false hspoke, if_neg Bool.false_ne_true]
    refine ⟨fun _ => .inl fun k hk => ?_, fun _ => rfl⟩
    by_contra hloud
    exact hspoke ⟨k, hk, eq_true_of_ne_false hloud⟩

/-- A clock in milliseconds, with blocks of 30 ms. -/
def millis : Clock ℤ := ⟨0, (· + 30)⟩

/-- The limits of `record-text --seconds 15`. -/
def seconds15 : Limits ℤ := ⟨15000, 1000, 8000⟩

/-- One loud block, and then a pause. -/
theorem recordText_of_recording_word :
    ∃ n spoke, recordVad millis seconds15 (fun k => decide (k = 2)) 500 = some (n, spoke) ∧
      Over millis seconds15 (fun k => decide (k = 2)) n := by
  have hmax : seconds15.maxSeconds ≤ millis.sum 500 := by
    show (15000 : ℤ) ≤ (· + 30)^[500] 0
    rw [add_right_iterate]
    decide
  have hN : 0 < 500 := by omega
  obtain ⟨n, spoke, heq, hover, -⟩ : ∃ n spoke, recordVad millis seconds15 (fun k => decide (k = 2)) 500 = some (n, spoke) ∧
      Over millis seconds15 (fun k => decide (k = 2)) n ∧ _ := recordText_of_recording hN hmax " hello\n"
  exact ⟨n, spoke, heq, hover⟩

end Ends

end Persona.Client
