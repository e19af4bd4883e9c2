import Persona.Provision.Gguf
import Persona.Provision.Matcher
import Persona.Provision.Serve

/-!
# The context that fits

How large a context is provisioned (`kv_bytes_per_token`, `max_ctx_for_budget` and `resolve_ctx` of
`scripts/provision_fetch.py`, and `_gguf_ctx_for` of `manage.py`), in exact arithmetic. A token of
context takes a number of bytes of the KV cache that the metadata of the model say; the context is the
largest multiple of a step that the memory left by the weights has room for, kept between the least and
the largest one that the model is meant for.

`resolveCtx_fits` says that what is wired into the configuration fits, and that no larger context would.
-/

namespace Persona.Provision

open Persona.Lib Persona.TomlText

/-! ### The size of the KV cache -/

/-- `_GGML_BYTES_PER_ELEM`. -/
def ggmlBytesPerElem : List (Text × ℚ) :=
  [("f32".toList, 4), ("f16".toList, 2), ("bf16".toList, 2), ("q8_0".toList, 34 / 32), ("q8_1".toList, 36 / 32),
    ("q5_0".toList, 22 / 32), ("q5_1".toList, 24 / 32), ("q4_0".toList, 18 / 32), ("q4_1".toList, 20 / 32),
    ("iq4_nl".toList, 18 / 32)]

/-- `kv_dtype_bytes`; `None` counts as no text. -/
def kvDtypeBytes (name : Text) : ℚ := (ggmlBytesPerElem.lookup ((strip name).map PyText.lowerChar)).getD 2

/-- `kv_bytes_per_token`. -/
def kvBytesPerToken (m : Gguf.Meta) (ck cv : Text) : ℚ :=
  let perLayer : ℚ := m.nLayers * m.nHeadKv * m.headDim
  perLayer * kvDtypeBytes ck + perLayer * kvDtypeBytes cv

/-- `int(q)`. -/
def truncate (q : ℚ) : ℤ := if 0 ≤ q then ⌊q⌋ else ⌈q⌉

/-- `max_ctx_for_budget`. -/
def maxCtxForBudget (freeMb kvPerTokenBytes : ℚ) (minCtx ctxDefault step : ℤ) : ℤ :=
  if kvPerTokenBytes ≤ 0 then ctxDefault
  else
    let raw := truncate (freeMb * 1024 * 1024 / kvPerTokenBytes)
    max minCtx (min ctxDefault (raw.fdiv step * step))

/-- The `step` that is used. -/
def ctxStep : ℤ := 1024

/-- The memory for the KV cache: what the weights leave of the memory that they are loaded into. -/
def freeForKv (pick : Matcher.Selected) : ℚ :=
  max 0 ((if pick.fullGpuOffload then pick.vramBudgetMb else pick.budgetMb) - pick.sizeMb)

/-- `_gguf_ctx_for`, given what the file of the weights says, if it is there. -/
def ggufCtxFor (weights : Option Gguf.Meta) (pick : Matcher.Selected) (cfg : Config) : Option ℤ :=
  weights.map fun m => maxCtxForBudget (freeForKv pick)
    (kvBytesPerToken m (cfg.get "CACHE_TYPE_K" "q8_0") (cfg.get "CACHE_TYPE_V" "q8_0")) pick.minCtx pick.ctxDefault ctxStep

/-! ### What fits -/

/-- The cache for so many tokens fits into the memory. -/
def CtxFits (freeMb kvPerTokenBytes : ℚ) (ctx : ℤ) : Prop := ctx * kvPerTokenBytes ≤ freeMb * 2 ^ 20

/-- A model: it has layers, heads, and heads with a dimension. -/
structure Gguf.Meta.Positive (m : Gguf.Meta) : Prop where
  nLayers : 0 < m.nLayers
  nHeadKv : 0 < m.nHeadKv
  headDim : 0 < m.headDim

theorem kvDtypeBytes_pos (name : Text) : 0 < kvDtypeBytes name := by
  have hall : ∀ x ∈ ggmlBytesPerElem, 0 < x.2 := by decide +kernel
  rw [kvDtypeBytes]
  cases hlookup : ggmlBytesPerElem.lookup ((strip name).map PyText.lowerChar) with
  | none => exact two_pos
  | some q => exact hall _ (Assoc.mem_of_lookup hlookup)

theorem kvBytesPerToken_pos {m : Gguf.Meta} (h : m.Positive) (ck cv : Text) : 0 < kvBytesPerToken m ck cv := by
  have hperLayer : (0 : ℚ) < m.nLayers * m.nHeadKv * m.headDim := by
    exact_mod_cast mul_pos (mul_pos h.nLayers h.nHeadKv) h.headDim
  exact add_pos (mul_pos hperLayer (kvDtypeBytes_pos ck)) (mul_pos hperLayer (kvDtypeBytes_pos cv))

section

variable {free kv : ℚ} {minCtx ctxDefault n : ℤ}

theorem CtxFits.mono {free' : ℚ} (h : CtxFits free kv n) (hle : free ≤ free') : CtxFits free' kv n :=
  h.trans (mul_le_mul_of_nonneg_right hle (by positivity))

theorem CtxFits.of_le {n' : ℤ} (h : CtxFits free kv n) (hkv : 0 < kv) (hle : n' ≤ n) : CtxFits free kv n' :=
  (mul_le_mul_of_nonneg_right (Int.cast_le.mpr hle) hkv.le).trans h

/-- What fits is what is not larger than the quotient. -/
theorem ctxFits_iff (hkv : 0 < kv) (hfree : 0 ≤ free) : CtxFits free kv n ↔ n ≤ truncate (free * 1024 * 1024 / kv) := by
  have hquotient : 0 ≤ free * 1024 * 1024 / kv := by positivity
  have hunits : free * 2 ^ 20 = free * 1024 * 1024 := by ring
  rw [truncate, if_pos hquotient, Int.le_floor, le_div_iff₀ hkv, CtxFits, hunits]

/-- A multiple of the step fits when it is not larger than the quotient cut to the step. -/
theorem ctxFits_multiple_iff (hkv : 0 < kv) (hfree : 0 ≤ free) (hn : ctxStep ∣ n) :
    CtxFits free kv n ↔ n ≤ (truncate (free * 1024 * 1024 / kv)).fdiv ctxStep * ctxStep := by
  rw [ctxFits_iff hkv hfree]
  obtain ⟨k, rfl⟩ := hn
  simp only [ctxStep, Int.fdiv_eq_ediv_of_nonneg _ (show (0 : ℤ) ≤ 1024 by decide)]
  omega

theorem maxCtxForBudget_eq (hkv : 0 < kv) : maxCtxForBudget free kv minCtx ctxDefault ctxStep =
    max minCtx (min ctxDefault ((truncate (free * 1024 * 1024 / kv)).fdiv ctxStep * ctxStep)) :=
  if_neg (not_le.mpr hkv)

theorem maxCtxForBudget_mem (hkv : 0 < kv) (hle : minCtx ≤ ctxDefault) :
    minCtx ≤ maxCtxForBudget free kv minCtx ctxDefault ctxStep ∧
      maxCtxForBudget free kv minCtx ctxDefault ctxStep ≤ ctxDefault := by
  rw [maxCtxForBudget_eq hkv]
  exact ⟨le_max_left _ _, max_le hle (min_le_left _ _)⟩

/-- Either it is the least one, or it fits. -/
theorem maxCtxForBudget_cases (hkv : 0 < kv) (hfree : 0 ≤ free) :
    maxCtxForBudget free kv minCtx ctxDefault ctxStep = minCtx ∨
      CtxFits free kv (maxCtxForBudget free kv minCtx ctxDefault ctxStep) := by
  have hfits : CtxFits free kv ((truncate (free * 1024 * 1024 / kv)).fdiv ctxStep * ctxStep) :=
    (ctxFits_multiple_iff hkv hfree (Int.dvd_mul_left _ _)).mpr le_rfl
  rw [maxCtxForBudget_eq hkv]
  rcases max_choice minCtx (min ctxDefault ((truncate (free * 1024 * 1024 / kv)).fdiv ctxStep * ctxStep)) with hmin | hmax
  · exact .inl hmin
  · rw [hmax]
    exact .inr (hfits.of_le hkv (min_le_right _ _))

/-- No larger multiple of the step fits. -/
theorem not_ctxFits_of_lt (hkv : 0 < kv) (hfree : 0 ≤ free) (hn : ctxStep ∣ n) (hle : n ≤ ctxDefault)
    (hlt : maxCtxForBudget free kv minCtx ctxDefault ctxStep < n) : ¬ CtxFits free kv n := by
  intro hfits
  have hraw := (ctxFits_multiple_iff hkv hfree hn).mp hfits
  rw [maxCtxForBudget_eq hkv] at hlt
  exact absurd (le_max_of_le_right (le_min hle hraw)) (not_le.mpr hlt)

theorem maxCtxForBudget_mono (hkv : 0 < kv) (hfree : 0 ≤ free) {free' : ℚ} (hle : free ≤ free') :
    maxCtxForBudget free kv minCtx ctxDefault ctxStep ≤ maxCtxForBudget free' kv minCtx ctxDefault ctxStep := by
  have hfits : CtxFits free kv ((truncate (free * 1024 * 1024 / kv)).fdiv ctxStep * ctxStep) :=
    (ctxFits_multiple_iff hkv hfree (Int.dvd_mul_left _ _)).mpr le_rfl
  have hraw := (ctxFits_multiple_iff hkv (hfree.trans hle) (Int.dvd_mul_left _ _)).mp (hfits.mono hle)
  rw [maxCtxForBudget_eq hkv, maxCtxForBudget_eq hkv]
  exact max_le_max le_rfl (min_le_min le_rfl hraw)

/-- An existing context only lowers the one that was found. -/
theorem resolveCtx_le (toInt : Text → Option ℤ) (pickCtx : ℤ) (existing : Option Text) {gguf : ℤ} (hgguf : gguf ≠ 0) :
    resolveCtx toInt pickCtx existing (some gguf) ≤ gguf := by
  rw [resolveCtx, Option.filter_some, if_pos (by simpa using hgguf)]
  split
  · exact min_le_right _ _
  · exact le_rfl

end

/-- **The provisioned context fits**: whatever context was configured before, the one that is wired fits
into the memory if the least one does; the one that was found is the largest multiple of the step that
fits, between the least and the largest one, grows with the memory, and does not fit only if it is the
least one. -/
theorem resolveCtx_fits {m : Gguf.Meta} (hm : m.Positive) (ck cv : Text) {free : ℚ} (hfree : 0 ≤ free)
    {minCtx ctxDefault : ℤ} (hmin : 1 ≤ minCtx) (hle : minCtx ≤ ctxDefault) (toInt : Text → Option ℤ)
    (pickCtx : ℤ) (existing : Option Text) :
    let kv := kvBytesPerToken m ck cv
    let ctx := maxCtxForBudget free kv minCtx ctxDefault ctxStep
    (CtxFits free kv minCtx → CtxFits free kv (resolveCtx toInt pickCtx existing (some ctx))) ∧
      (minCtx ≤ ctx ∧ ctx ≤ ctxDefault) ∧
      (∀ n, ctxStep ∣ n → n ≤ ctxDefault → ctx < n → ¬ CtxFits free kv n) ∧
      (∀ free', free ≤ free' → ctx ≤ maxCtxForBudget free' kv minCtx ctxDefault ctxStep) ∧
      resolveCtx toInt pickCtx existing (some ctx) ≤ resolveCtx toInt pickCtx none (some ctx) ∧
      (¬ CtxFits free kv ctx → ctx = minCtx) := by
  intro kv ctx
  have hkv : 0 < kv := kvBytesPerToken_pos hm ck cv
  have hmem : minCtx ≤ ctx ∧ ctx ≤ ctxDefault := maxCtxForBudget_mem hkv hle
  have hcases : ctx = minCtx ∨ CtxFits free kv ctx := maxCtxForBudget_cases hkv hfree
  have hne : ctx ≠ 0 := (zero_lt_one.trans_le (hmin.trans hmem.1)).ne'
  have hlowers : resolveCtx toInt pickCtx existing (some ctx) ≤ ctx := resolveCtx_le toInt pickCtx existing hne
  have hfresh : resolveCtx toInt pickCtx none (some ctx) = ctx := by
    rw [resolveCtx, Option.filter_some, if_pos (by simpa using hne)]
    rfl
  refine ⟨fun hleast => ?_, hmem, fun n hn hndefault hlt => not_ctxFits_of_lt hkv hfree hn hndefault hlt,
    fun free' hfree' => maxCtxForBudget_mono hkv hfree hfree', hfresh.symm ▸ hlowers, fun hnot => hcases.resolve_right hnot⟩
  have hctx : CtxFits free kv ctx := hcases.elim (fun heq => heq ▸ hleast) id
  exact hctx.of_le hkv hlowers

/-- A model of 32 layers. -/
def llama : Gguf.Meta := ⟨.str "llama", 32, some 32, 8, some 4096, 128⟩

/-- With 1000 MiB an existing context of 32768 tokens is lowered. -/
theorem resolveCtx_fits_llama : CtxFits 1000 (kvBytesPerToken llama "q8_0".toList "q8_0".toList)
    (resolveCtx (fun t => PyText.int PyText.asciiDecimal (String.ofList t)) 8192 (some "32768".toList)
      (some (maxCtxForBudget 1000 (kvBytesPerToken llama "q8_0".toList "q8_0".toList) 4096 65536 ctxStep))) := by
  have hm : llama.Positive := ⟨by decide, by decide, by decide⟩
  have hleast : CtxFits 1000 (kvBytesPerToken llama "q8_0".toList "q8_0".toList) 4096 := by
    rw [CtxFits]
    decide +kernel
  exact (resolveCtx_fits hm "q8_0".toList "q8_0".toList (by norm_num) (by decide) (by decide)
    (fun t => PyText.int PyText.asciiDecimal (String.ofList t)) 8192 (some "32768".toList)).1 hleast

/-! ### The weights and the cache -/

/-- The memory that the weights of a pick are loaded into. -/
def poolMb (pick : Matcher.Selected) : ℚ := if pick.fullGpuOffload then pick.vramBudgetMb else pick.budgetMb

/-- What is picked fits into the memory it is loaded into. -/
theorem sizeMb_le_poolMb {env : Matcher.Envelope} {playbook : Matcher.Playbook} {pick : Matcher.Selected}
    (h : Matcher.matchPlaybook env playbook = some pick) : pick.sizeMb ≤ poolMb pick := by
  obtain ⟨c, hbest, rfl⟩ := Matcher.matchPlaybook_eq_some h
  have hroom := (Matcher.mem_candidates hbest.mem).2.2.2.1
  rw [poolMb]
  split_ifs with hfull
  · have hboth : env.hasGpu = true ∧ c.size ≤ (Matcher.computeBudget env playbook.settings).2 := by
      simpa [Matcher.selected] using hfull
    exact hboth.2
  · exact hroom.2.1

/-- Where the least context fits beside the weights, so does the one that is provisioned. -/
theorem weights_and_cache_fit {env : Matcher.Envelope} {playbook : Matcher.Playbook} {pick : Matcher.Selected}
    (h : Matcher.matchPlaybook env playbook = some pick) {m : Gguf.Meta} (hm : m.Positive) (cfg : Config)
    (hmin : 1 ≤ pick.minCtx) (hle : pick.minCtx ≤ pick.ctxDefault) (toInt : Text → Option ℤ) (existing : Option Text)
    (hleast : pick.sizeMb * 2 ^ 20 +
      pick.minCtx * kvBytesPerToken m (cfg.get "CACHE_TYPE_K" "q8_0") (cfg.get "CACHE_TYPE_V" "q8_0") ≤ poolMb pick * 2 ^ 20) :
    pick.sizeMb * 2 ^ 20 + resolveCtx toInt pick.ctx existing (ggufCtxFor (some m) pick cfg) *
      kvBytesPerToken m (cfg.get "CACHE_TYPE_K" "q8_0") (cfg.get "CACHE_TYPE_V" "q8_0") ≤ poolMb pick * 2 ^ 20 := by
  have hsize : 0 ≤ poolMb pick - pick.sizeMb := sub_nonneg.mpr (sizeMb_le_poolMb h)
  have hfree : freeForKv pick = poolMb pick - pick.sizeMb := max_eq_right hsize
  have hfits := (resolveCtx_fits hm (cfg.get "CACHE_TYPE_K" "q8_0") (cfg.get "CACHE_TYPE_V" "q8_0") (hfree ▸ hsize) hmin hle
    toInt pick.ctx existing).1
  simp only [CtxFits, hfree] at hfits
  rw [ggufCtxFor, Option.map_some, hfree]
  linarith [hfits (by linarith)]

end Persona.Provision
