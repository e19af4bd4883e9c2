import Persona.Lib.Best
import Mathlib.Data.Prod.Lex
import Mathlib.Data.String.Basic
import Mathlib.Algebra.Order.Ring.Rat

/-!
# Matching a model to a host

`scripts/provision_match.py`: of the models of a playbook each has its largest quant that the host
has room for, and the one with the highest score is picked; larger quants and then later ids break
ties. Ranks, sizes and boosts are finite numbers, and their arithmetic is exact.

`matchPlaybook_optimal` says that nothing that fits beats the pick, whatever the order of the models,
and `matchPlaybook_more_memory` that a host with more memory gets a pick that is no worse. Only one
thing can be lost: when a playbook lists one file with two sizes, the host with more memory may pick
it with the larger one, and no longer have room for it in its video memory.
-/

namespace Persona.Provision.Matcher

open Persona.Lib

/-! ### Playbooks -/

/-- A quant of a model. -/
structure Quant where
  name : String
  file : String
  sizeMb : Option ℚ

/-- An entry `[[model]]`. -/
structure Model where
  id : String
  family : Option String
  license : Option String
  repo : Option String
  mmproj : Option String
  vision : Bool
  rank : ℚ := 0
  ctxDefault : Option ℤ
  minCtx : Option ℤ
  quants : List Quant

/-- The table `[meta]`, with the defaults of its entries. -/
structure Settings where
  reserveMb : ℚ := 4096
  vramReserveMb : ℚ := 1024
  cpuMaxFileMb : ℚ := 9000
  visionBoost : ℚ := 5
  visionSoftBoost : ℚ := 2

structure Playbook where
  settings : Settings
  models : List Model

/-- What of a host's envelope is used. -/
structure Envelope where
  ramMb : Option ℚ
  vramMb : Option ℚ
  memoryModel : String
  cameraPresent : Bool
  hasGpu : Bool

/-! ### Picking -/

variable (env : Envelope) (playbook : Playbook)

/-- `compute_budget`: for the file of a model, and for video memory alone. -/
def computeBudget (settings : Settings) : ℚ × ℚ :=
  let ramBudget := max 0 (env.ramMb.getD 0 - settings.reserveMb)
  let vramBudget := max 0 (env.vramMb.getD 0 - settings.vramReserveMb)
  (if env.memoryModel = "unified" then ramBudget else max ramBudget vramBudget, vramBudget)

/-- The quant with its size, if there is room for it. -/
def affordable (budgetMb : ℚ) (cpuOnly : Bool) (cpuMaxFileMb : ℚ) (q : Quant) : Option (Quant × ℚ) :=
  match q.sizeMb with
  | none => none
  | some size => if budgetMb < size ∨ cpuOnly = true ∧ cpuMaxFileMb < size then none else some (q, size)

/-- `_largest_fitting_quant`, with its size. -/
def largestFittingQuant (model : Model) (budgetMb : ℚ) (cpuOnly : Bool) (cpuMaxFileMb : ℚ) : Option (Quant × ℚ) :=
  Best.scan Prod.snd none (model.quants.filterMap (affordable budgetMb cpuOnly cpuMaxFileMb))

/-- The score of a model on the host. -/
def score (settings : Settings) (model : Model) : ℚ :=
  model.rank +
    if model.vision then settings.visionSoftBoost + (if env.cameraPresent then settings.visionBoost else 0) else 0

/-- A model with its score, and the quant with its size. -/
structure Candidate where
  score : ℚ
  size : ℚ
  model : Model
  quant : Quant

/-- What candidates are ranked by. -/
def Candidate.key (c : Candidate) : ℚ ×ₗ ℚ ×ₗ String := toLex (c.score, toLex (c.size, c.model.id))

/-- The candidates, in the order of the models. -/
def candidates : List Candidate :=
  playbook.models.filterMap fun model =>
    (largestFittingQuant model (computeBudget env playbook.settings).1 (!env.hasGpu) playbook.settings.cpuMaxFileMb).map
      fun q => ⟨score env playbook.settings model, q.2, model, q.1⟩

/-- What is picked. -/
structure Selected where
  modelId : String
  family : Option String
  license : Option String
  repo : Option String
  quant : String
  file : String
  sizeMb : ℚ
  mmproj : Option String
  vision : Bool
  visionEnabled : Bool
  ctx : ℤ
  ctxDefault : ℤ
  minCtx : ℤ
  fullGpuOffload : Bool
  budgetMb : ℚ
  vramBudgetMb : ℚ
  score : ℚ

/-- The pick that a candidate makes. -/
def selected (c : Candidate) : Selected :=
  let (budgetMb, vramBudgetMb) := computeBudget env playbook.settings
  let ctxDefault := c.model.ctxDefault.getD 8192
  { modelId := c.model.id
    family := c.model.family
    license := c.model.license
    repo := c.model.repo
    quant := c.quant.name
    file := c.quant.file
    sizeMb := c.size
    mmproj := c.model.mmproj
    vision := c.model.vision
    visionEnabled := c.model.vision && env.cameraPresent
    -- a file that nearly fills the budget leaves little for the context
    ctx := if budgetMb * (17 / 20) < c.size then c.model.minCtx.getD ctxDefault else ctxDefault
    ctxDefault := ctxDefault
    minCtx := c.model.minCtx.getD ctxDefault
    fullGpuOffload := env.hasGpu && c.size ≤ vramBudgetMb
    budgetMb := budgetMb
    vramBudgetMb := vramBudgetMb
    score := c.score }

/-- `match`. -/
def matchPlaybook : Option Selected :=
  (Best.ranked Candidate.key (candidates env playbook)).head?.map (selected env playbook)

/-! ### What fits -/

/-- There is room for the quant: in the budget, and below the cap of a host without a graphics card. -/
def HasRoom (q : Quant) (size : ℚ) : Prop :=
  q.sizeMb = some size ∧ size ≤ (computeBudget env playbook.settings).1 ∧
    (env.hasGpu = false → size ≤ playbook.settings.cpuMaxFileMb)

/-- The key of a model with a quant of this size. -/
def rankOf (model : Model) (size : ℚ) : ℚ ×ₗ ℚ ×ₗ String :=
  toLex (score env playbook.settings model, toLex (size, model.id))

/-- The pick is of this model and this quant, of this size. -/
structure Picks (p : Selected) (model : Model) (q : Quant) (size : ℚ) : Prop where
  modelId : p.modelId = model.id
  quant : p.quant = q.name
  file : p.file = q.file
  sizeMb : p.sizeMb = size
  score : p.score = score env playbook.settings model

/-- **Nothing beats the pick**: it is a quant that fits, the largest of its model, and no quant of any
model that fits ranks higher; and what is to be put into video memory fits there. -/
def Optimal (p : Selected) : Prop :=
  ∃ model ∈ playbook.models, ∃ q ∈ model.quants, ∃ size, Picks env playbook p model q size ∧
    HasRoom env playbook q size ∧ (∀ q' ∈ model.quants, ∀ size', HasRoom env playbook q' size' → size' ≤ size) ∧
    (∀ model' ∈ playbook.models, ∀ q' ∈ model'.quants, ∀ size', HasRoom env playbook q' size' →
      rankOf env playbook model' size' ≤ rankOf env playbook model size) ∧
    (p.fullGpuOffload = true → size ≤ (computeBudget env playbook.settings).2)

variable {env playbook} {model : Model} {q : Quant} {size : ℚ} {c : Candidate} {p : Selected}

theorem affordable_eq_some {x : Quant × ℚ} :
    affordable (computeBudget env playbook.settings).1 (!env.hasGpu) playbook.settings.cpuMaxFileMb q = some x ↔
      x.1 = q ∧ HasRoom env playbook q x.2 := by
  obtain ⟨q', size⟩ := x
  rw [affordable, HasRoom]
  cases hsize : q.sizeMb with
  | none => simp
  | some s =>
    dsimp only
    split_ifs with h
    · simp only [Option.some.injEq, false_iff, not_and]
      rintro rfl rfl hbudget hcap
      rcases h with h | ⟨hgpu, h⟩
      · exact absurd hbudget (not_le.mpr h)
      · exact absurd (hcap (by simpa using hgpu)) (not_le.mpr h)
    · simp only [not_or, not_and, not_lt, Bool.not_eq_true'] at h
      simp only [Option.some.injEq, Prod.mk.injEq]
      constructor
      · rintro ⟨rfl, rfl⟩
        exact ⟨rfl, rfl, h.1, h.2⟩
      · rintro ⟨rfl, rfl, -⟩
        exact ⟨rfl, rfl⟩

/-- The quant that is taken of a model: of those with room for them the largest. -/
theorem largestFittingQuant_eq_some {x : Quant × ℚ}
    (h : largestFittingQuant model (computeBudget env playbook.settings).1 (!env.hasGpu) playbook.settings.cpuMaxFileMb =
      some x) :
    x.1 ∈ model.quants ∧ HasRoom env playbook x.1 x.2 ∧
      ∀ q ∈ model.quants, ∀ size, HasRoom env playbook q size → size ≤ x.2 := by
  obtain ⟨hmem, hle⟩ := Best.isBest_of_scan h
  rw [Option.toList_none, List.nil_append] at hmem hle
  obtain ⟨q, hq, haff⟩ := List.mem_filterMap.mp hmem
  obtain ⟨rfl, hroom⟩ := affordable_eq_some.mp haff
  exact ⟨hq, hroom, fun q' hq' size' hroom' =>
    hle (q', size') (List.mem_filterMap.mpr ⟨q', hq', affordable_eq_some.mpr ⟨rfl, hroom'⟩⟩)⟩

theorem largestFittingQuant_eq_none :
    largestFittingQuant model (computeBudget env playbook.settings).1 (!env.hasGpu) playbook.settings.cpuMaxFileMb = none ↔
      ∀ q ∈ model.quants, ∀ size, ¬ HasRoom env playbook q size := by
  rw [largestFittingQuant, Best.scan_eq_none]
  simp only [true_and, List.filterMap_eq_nil_iff]
  constructor
  · intro h q hq size hroom
    have hsome := affordable_eq_some.mpr (⟨rfl, hroom⟩ : (q, size).1 = q ∧ HasRoom env playbook q (q, size).2)
    rw [h q hq] at hsome
    cases hsome
  · intro h q hq
    by_contra hne
    obtain ⟨x, hx⟩ := Option.ne_none_iff_exists'.mp hne
    exact h q hq x.2 (affordable_eq_some.mp hx).2

/-! ### The candidates -/

/-- A candidate is a model with the largest quant that fits. -/
theorem mem_candidates (h : c ∈ candidates env playbook) :
    c.model ∈ playbook.models ∧ c.score = score env playbook.settings c.model ∧ c.quant ∈ c.model.quants ∧
      HasRoom env playbook c.quant c.size ∧
      ∀ q ∈ c.model.quants, ∀ size, HasRoom env playbook q size → size ≤ c.size := by
  obtain ⟨model, hmodel, hc⟩ := List.mem_filterMap.mp h
  obtain ⟨x, hx, rfl⟩ := Option.map_eq_some_iff.mp hc
  obtain ⟨hq, hroom, hle⟩ := largestFittingQuant_eq_some hx
  exact ⟨hmodel, rfl, hq, hroom, hle⟩

/-- A model with a quant that fits is a candidate, with a quant that is no smaller. -/
theorem exists_candidate (hmodel : model ∈ playbook.models) (hq : q ∈ model.quants) (hroom : HasRoom env playbook q size) :
    ∃ c ∈ candidates env playbook, c.model = model ∧ size ≤ c.size := by
  cases hx : largestFittingQuant model (computeBudget env playbook.settings).1 (!env.hasGpu)
      playbook.settings.cpuMaxFileMb with
  | none => exact absurd hroom (largestFittingQuant_eq_none.mp hx q hq size)
  | some x =>
    exact ⟨⟨score env playbook.settings model, x.2, model, x.1⟩,
      List.mem_filterMap.mpr ⟨model, hmodel, by rw [hx]; rfl⟩, rfl, (largestFittingQuant_eq_some hx).2.2 q hq size hroom⟩

theorem candidates_eq_nil :
    candidates env playbook = [] ↔ ∀ model ∈ playbook.models, ∀ q ∈ model.quants, ∀ size, ¬ HasRoom env playbook q size := by
  rw [List.eq_nil_iff_forall_not_mem]
  constructor
  · intro h model hmodel q hq size hroom
    obtain ⟨c, hc, -⟩ := exists_candidate hmodel hq hroom
    exact h c hc
  · intro h c hc
    obtain ⟨hmodel, -, hq, hroom, -⟩ := mem_candidates hc
    exact h c.model hmodel c.quant hq c.size hroom

theorem key_candidate (h : c.score = score env playbook.settings c.model) : c.key = rankOf env playbook c.model c.size := by
  rw [Candidate.key, rankOf, h]

/-- A quant that fits ranks no higher than the candidate of its model. -/
theorem rankOf_mono {size' : ℚ} (h : size ≤ size') : rankOf env playbook model size ≤ rankOf env playbook model size' := by
  rw [rankOf, rankOf, Prod.Lex.toLex_le_toLex]
  refine .inr ⟨rfl, ?_⟩
  rcases h.lt_or_eq with hlt | rfl
  · exact Prod.Lex.toLex_le_toLex.mpr (.inl hlt)
  · exact le_rfl

/-- The pick is made of the best candidate. -/
theorem matchPlaybook_eq_some (h : matchPlaybook env playbook = some p) :
    ∃ c, Best.IsBest Candidate.key (candidates env playbook) c ∧ p = selected env playbook c := by
  obtain ⟨c, hc, rfl⟩ := Option.map_eq_some_iff.mp h
  exact ⟨c, Best.isBest_of_head? hc, rfl⟩

theorem matchPlaybook_eq_none : matchPlaybook env playbook = none ↔ candidates env playbook = [] := by
  rw [matchPlaybook, Option.map_eq_none_iff, Best.head?_ranked_eq_none]

/-- The best candidate outranks each quant that fits. -/
theorem rankOf_le_key (hbest : Best.IsBest Candidate.key (candidates env playbook) c) (hmodel : model ∈ playbook.models)
    (hq : q ∈ model.quants) (hroom : HasRoom env playbook q size) : rankOf env playbook model size ≤ c.key := by
  obtain ⟨c', hc', rfl, hle⟩ := exists_candidate hmodel hq hroom
  calc rankOf env playbook c'.model size
      ≤ rankOf env playbook c'.model c'.size := rankOf_mono hle
    _ = c'.key := (key_candidate (mem_candidates hc').2.1).symm
    _ ≤ c.key := hbest.le c' hc'

theorem optimal_selected (hbest : Best.IsBest Candidate.key (candidates env playbook) c) :
    Optimal env playbook (selected env playbook c) := by
  obtain ⟨hmodel, hscore, hq, hroom, hle⟩ := mem_candidates hbest.mem
  refine ⟨c.model, hmodel, c.quant, hq, c.size, ⟨rfl, rfl, rfl, rfl, hscore⟩, hroom, hle, ?_, ?_⟩
  · intro model' hmodel' q' hq' size' hroom'
    rw [← key_candidate hscore]
    exact rankOf_le_key hbest hmodel' hq' hroom'
  · intro hfull
    have hboth : env.hasGpu = true ∧ c.size ≤ (computeBudget env playbook.settings).2 := by simpa [selected] using hfull
    exact hboth.2

/-- Models with different ids make different candidates. -/
theorem key_injOn (hids : (playbook.models.map Model.id).Nodup) :
    ∀ a ∈ candidates env playbook, ∀ b ∈ candidates env playbook, a.key = b.key → a = b := by
  intro a ha b hb hkey
  have hid : a.model.id = b.model.id := congrArg (fun k => (ofLex (ofLex k).2).2) hkey
  obtain ⟨model, hmodel, hmade⟩ := List.mem_filterMap.mp ha
  obtain ⟨model', hmodel', hmade'⟩ := List.mem_filterMap.mp hb
  obtain ⟨x, hx, rfl⟩ := Option.map_eq_some_iff.mp hmade
  obtain ⟨x', hx', rfl⟩ := Option.map_eq_some_iff.mp hmade'
  obtain rfl : model = model' := List.inj_on_of_nodup_map hids hmodel hmodel' hid
  rw [hx] at hx'
  obtain rfl := Option.some.inj hx'
  rfl

/-- **The matcher is optimal**, and the order of the models does not matter: nothing is picked exactly
when nothing fits, and otherwise nothing that fits beats the pick. -/
theorem matchPlaybook_optimal (env : Envelope) (playbook : Playbook) (hids : (playbook.models.map Model.id).Nodup) :
    (matchPlaybook env playbook = none ↔
        ∀ model ∈ playbook.models, ∀ q ∈ model.quants, ∀ size, ¬ HasRoom env playbook q size) ∧
      (∀ p, matchPlaybook env playbook = some p → Optimal env playbook p) ∧
      ∀ models, models.Perm playbook.models →
        matchPlaybook env ⟨playbook.settings, models⟩ = matchPlaybook env playbook := by
  refine ⟨matchPlaybook_eq_none.trans candidates_eq_nil, fun p hp => ?_, fun models hperm => ?_⟩
  · obtain ⟨c, hbest, rfl⟩ := matchPlaybook_eq_some hp
    exact optimal_selected hbest
  · have hcandidates : (candidates env playbook).Perm (candidates env ⟨playbook.settings, models⟩) := hperm.symm.filterMap _
    rw [matchPlaybook, matchPlaybook, ← Best.head?_ranked_perm hcandidates (key_injOn hids)]
    rfl

/-- A host and a playbook of two models, one of them with a quant that is too large. -/
def smallHost : Envelope := ⟨some 8192, some 0, "cpu", false, false⟩

def smallPlaybook : Playbook where
  settings := {}
  models := [⟨"a", none, none, none, none, false, 10, none, none, [⟨"q8", "a8.gguf", some 8000⟩, ⟨"q4", "a4.gguf", some 4000⟩]⟩,
    ⟨"b", none, none, none, none, true, 20, none, none, [⟨"q8", "b8.gguf", some 9000⟩]⟩]

/-- The smaller quant of the first model is picked. -/
theorem matchPlaybook_optimal_small : (matchPlaybook smallHost smallPlaybook).map Selected.file = some "a4.gguf" ∧
    ∃ p, matchPlaybook smallHost smallPlaybook = some p ∧ Optimal smallHost smallPlaybook p := by
  have hpick : (matchPlaybook smallHost smallPlaybook).map Selected.file = some "a4.gguf" := by decide +kernel
  refine ⟨hpick, ?_⟩
  obtain ⟨p, hp, -⟩ := Option.map_eq_some_iff.mp hpick
  exact ⟨p, hp, (matchPlaybook_optimal smallHost smallPlaybook (by decide)).2.1 p hp⟩

/-! ### More memory -/

/-- The other host differs in its memory, and has no less. -/
structure MoreMemory (env env' : Envelope) : Prop where
  memoryModel : env'.memoryModel = env.memoryModel
  hasGpu : env'.hasGpu = env.hasGpu
  cameraPresent : env'.cameraPresent = env.cameraPresent
  ram : env.ramMb.getD 0 ≤ env'.ramMb.getD 0
  vram : env.vramMb.getD 0 ≤ env'.vramMb.getD 0

/-- What is picked on the one host is no worse than what is picked on the other, and is put into video
memory like it, if both are the `same`. -/
def NoWorse (same : Selected → Selected → Prop) (playbook : Playbook) (env env' : Envelope) : Prop :=
  ∀ p, matchPlaybook env playbook = some p → ∃ p', matchPlaybook env' playbook = some p' ∧
    toLex (p.score, p.sizeMb) ≤ toLex (p'.score, p'.sizeMb) ∧
      (p.fullGpuOffload = true → same p p' → p'.fullGpuOffload = true)

variable {env' : Envelope}

theorem MoreMemory.budget_le (h : MoreMemory env env') (settings : Settings) :
    (computeBudget env settings).1 ≤ (computeBudget env' settings).1 ∧
      (computeBudget env settings).2 ≤ (computeBudget env' settings).2 := by
  have hram : max 0 (env.ramMb.getD 0 - settings.reserveMb) ≤ max 0 (env'.ramMb.getD 0 - settings.reserveMb) :=
    max_le_max le_rfl (sub_le_sub_right h.ram _)
  have hvram : max 0 (env.vramMb.getD 0 - settings.vramReserveMb) ≤ max 0 (env'.vramMb.getD 0 - settings.vramReserveMb) :=
    max_le_max le_rfl (sub_le_sub_right h.vram _)
  refine ⟨?_, hvram⟩
  simp only [computeBudget, h.memoryModel]
  split_ifs
  · exact hram
  · exact max_le_max hram hvram

theorem MoreMemory.hasRoom (h : MoreMemory env env') (hroom : HasRoom env playbook q size) : HasRoom env' playbook q size :=
  ⟨hroom.1, hroom.2.1.trans (h.budget_le playbook.settings).1, fun hgpu => hroom.2.2 (h.hasGpu ▸ hgpu)⟩

theorem MoreMemory.score_eq (h : MoreMemory env env') (settings : Settings) : score env' settings = score env settings := by
  funext model
  rw [score, score, h.cameraPresent]

/-- The first two parts of a key decide first. -/
theorem le_of_key_le {r s z w : ℚ} {i j : String} (h : toLex (r, toLex (z, i)) ≤ toLex (s, toLex (w, j))) :
    toLex (r, z) ≤ toLex (s, w) := by
  rw [Prod.Lex.toLex_le_toLex] at h ⊢
  rcases h with hlt | ⟨heq, hle⟩
  · exact .inl hlt
  · refine .inr ⟨heq, ?_⟩
    rcases Prod.Lex.toLex_le_toLex.mp hle with hlt | ⟨hsize, -⟩
    · exact hlt.le
    · exact hsize.le

/-- **More memory never hurts**: the pick is no worse, and a file of one size that was put into video
memory still is. -/
theorem matchPlaybook_more_memory (playbook : Playbook) (env env' : Envelope) (h : MoreMemory env env') :
    NoWorse (fun p p' => p'.file = p.file ∧ p'.sizeMb = p.sizeMb) playbook env env' := by
  intro p hp
  obtain ⟨c, hbest, rfl⟩ := matchPlaybook_eq_some hp
  obtain ⟨hmodel, hscore, hq, hroom, -⟩ := mem_candidates hbest.mem
  have hroom' : HasRoom env' playbook c.quant c.size := h.hasRoom hroom
  cases hp' : matchPlaybook env' playbook with
  | none =>
    have hnone := candidates_eq_nil.mp (matchPlaybook_eq_none.mp hp')
    exact absurd hroom' (hnone c.model hmodel c.quant hq c.size)
  | some p' =>
    obtain ⟨c', hbest', rfl⟩ := matchPlaybook_eq_some hp'
    refine ⟨_, rfl, ?_, ?_⟩
    · have hkey : rankOf env' playbook c.model c.size ≤ c'.key := rankOf_le_key hbest' hmodel hq hroom'
      rw [rankOf, h.score_eq, ← hscore, Candidate.key] at hkey
      exact le_of_key_le hkey
    · rintro hfull ⟨-, hsize⟩
      have hboth : env.hasGpu = true ∧ c.size ≤ (computeBudget env playbook.settings).2 := by simpa [selected] using hfull
      have hsize : c'.size = c.size := hsize
      have hvram := hboth.2.trans (h.budget_le playbook.settings).2
      simpa [selected, h.hasGpu, hboth.1, hsize] using hvram

/-- A file that is listed with two sizes, and a host with room for the smaller one alone. -/
def twoSizes : Playbook where
  settings := {}
  models := [⟨"a", none, none, none, none, false, 0, none, none, [⟨"q4", "a.gguf", some 1000⟩, ⟨"q8", "a.gguf", some 5000⟩]⟩]

def lowRam : Envelope := ⟨some 0, some 3024, "discrete", false, true⟩

def highRam : Envelope := ⟨some 10096, some 3024, "discrete", false, true⟩

theorem moreMemory_highRam : MoreMemory lowRam highRam := ⟨rfl, rfl, rfl, by decide, le_rfl⟩

theorem matchPlaybook_more_memory_twoSizes :
    NoWorse (fun p p' => p'.file = p.file ∧ p'.sizeMb = p.sizeMb) twoSizes lowRam highRam :=
  matchPlaybook_more_memory twoSizes lowRam highRam moreMemory_highRam

/-- With more memory the file is picked with the larger size, which does not fit into video memory. -/
theorem not_noWorse_twoSizes : ¬ ∀ playbook env env', MoreMemory env env' →
    NoWorse (fun p p' => p'.file = p.file) playbook env env' := by
  intro h
  have hlow : (matchPlaybook lowRam twoSizes).map (fun p => (p.file, p.fullGpuOffload)) = some ("a.gguf", true) := by decide +kernel
  have hhigh : (matchPlaybook highRam twoSizes).map (fun p => (p.file, p.fullGpuOffload)) = some ("a.gguf", false) := by decide +kernel
  obtain ⟨p, hp, hlow⟩ := Option.map_eq_some_iff.mp hlow
  obtain ⟨p', hp', hhigh⟩ := Option.map_eq_some_iff.mp hhigh
  obtain ⟨p'', hp'', -, hfull⟩ := h twoSizes lowRam highRam moreMemory_highRam p hp
  obtain rfl : p' = p'' := Option.some.inj (hp'.symm.trans hp'')
  rw [Prod.mk.injEq] at hlow hhigh
  have htrue := hfull hlow.2 (hhigh.1.trans hlow.1.symm)
  rw [hhigh.2] at htrue
  cases htrue

end Persona.Provision.Matcher
