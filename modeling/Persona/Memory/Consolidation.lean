import Persona.Memory.SleepCycle

/-!
# What a pass leaves behind

A pass that is not interrupted works on its conversations one after the other, and what
it does for one of them concerns only the facts and the turns of that one
(`finishCall_frame`). So each ends as the work on it alone leaves it, and
`consolidate_allOrNothing_iff` says when that is all or nothing: when every fact can be
embedded and gets into the store and the marking returns, or else when nothing got into the
store before the embedder raised, or the marking did. A `store.add` that fails in silence is
enough to break it, since the turns are marked all the same.

The selection takes the newest conversations with enough turns and leaves out only then
those that are to be skipped; `consolidate_progress_iff` says what follows for the
distiller.
-/

namespace Persona.Memory

open Persona.Lib

variable {V : Type*} {S : Settings} {R : Reply V} {c : Call} {s s' : St V} {n : ℕ} {fs : List String} {cid : String}

/-! ### The loop over the facts -/

theorem raised_iff : (storeFacts S R c n fs).raised = true ↔ ∃ k f, fs[k]? = some f ∧ R.embed (n + k) f = none := by
  induction fs generalizing n with
  | nil => simp [storeFacts]
  | cons f fs ih =>
    rw [storeFacts]
    cases hvec : R.embed n f with
    | none => exact iff_of_true rfl ⟨0, f, rfl, hvec⟩
    | some vec =>
      refine ih.trans ⟨?_, ?_⟩
      · rintro ⟨k, g, hg, hk⟩
        exact ⟨k + 1, g, hg, by rwa [Nat.add_right_comm] at hk⟩
      · rintro ⟨_ | k, g, hg, hk⟩
        · cases hg
          rw [Nat.add_zero, hvec] at hk
          cases hk
        · exact ⟨k, g, hg, by rwa [Nat.add_right_comm]⟩

/-- When `embed` does not raise, all facts are counted as stored. -/
theorem stored_eq (h : (storeFacts S R c n fs).raised = false) : (storeFacts S R c n fs).stored = fs := by
  induction fs generalizing n with
  | nil => rfl
  | cons f fs ih =>
    rw [storeFacts] at h ⊢
    cases hvec : R.embed n f with
    | none => rw [hvec] at h; cases h
    | some vec =>
      rw [hvec] at h
      exact congrArg (f :: ·) (ih h)

/-- When `embed` does not raise, the points are those of the facts that the store takes. -/
theorem mem_points_iff (h : (storeFacts S R c n fs).raised = false) {f : String} :
    (∃ p ∈ (storeFacts S R c n fs).points, p.collection = S.collectionFor c.profile ∧ p.document = f) ↔
      ∃ k, fs[k]? = some f ∧ R.stores (n + k) = true := by
  induction fs generalizing n with
  | nil => simp [storeFacts]
  | cons g fs ih =>
    rw [storeFacts] at h ⊢
    cases hvec : R.embed n g with
    | none => rw [hvec] at h; cases h
    | some vec =>
      rw [hvec] at h
      dsimp only
      constructor
      · rintro ⟨p, hp, hcoll, hdoc⟩
        rcases List.mem_append.mp hp with hp | hp
        · split_ifs at hp with hst
          · rw [List.mem_singleton] at hp
            subst hp
            exact ⟨0, congrArg some hdoc, hst⟩
          · cases hp
        · obtain ⟨k, hk, hst⟩ := (ih h).mp ⟨p, hp, hcoll, hdoc⟩
          exact ⟨k + 1, hk, by rwa [Nat.add_right_comm] at hst⟩
      · rintro ⟨_ | k, hk, hst⟩
        · cases hk
          rw [Nat.add_zero] at hst
          rw [if_pos hst]
          exact ⟨_, List.mem_cons_self, rfl, rfl⟩
        · obtain ⟨p, hp, hpf⟩ := (ih h).mpr ⟨k, hk, by rwa [Nat.add_right_comm]⟩
          exact ⟨p, List.mem_append_right _ hp, hpf⟩

/-- The points go to the collection of the conversation's profile. -/
theorem collection_of_mem {p : Point V} (h : p ∈ (storeFacts S R c n fs).points) : p.collection = S.collectionFor c.profile := by
  induction fs generalizing n with
  | nil => cases h
  | cons f fs ih =>
    rw [storeFacts] at h
    cases hvec : R.embed n f with
    | none => rw [hvec] at h; cases h
    | some vec =>
      rw [hvec] at h
      rcases List.mem_append.mp h with h | h
      · split_ifs at h
        · rw [List.mem_singleton] at h
          rw [h]
          rfl
        · cases h
      · exact ih h

/-- When `embed` raises, no point was added just when the store took none before. -/
theorem points_eq_nil_iff (h : (storeFacts S R c n fs).raised = true) : (storeFacts S R c n fs).points = [] ↔
    ∃ k f, fs[k]? = some f ∧ R.embed (n + k) f = none ∧ ∀ m < k, R.stores (n + m) = false := by
  induction fs generalizing n with
  | nil => cases h
  | cons g fs ih =>
    rw [storeFacts] at h ⊢
    cases hvec : R.embed n g with
    | none => exact iff_of_true rfl ⟨0, g, rfl, hvec, fun m hm => absurd hm (Nat.not_lt_zero m)⟩
    | some vec =>
      rw [hvec] at h
      dsimp only at h ⊢
      rw [List.append_eq_nil_iff, ih h]
      constructor
      · rintro ⟨hg, k, f, hk, hnone, hbefore⟩
        refine ⟨k + 1, f, hk, by rwa [Nat.add_right_comm] at hnone, fun m hm => ?_⟩
        cases m with
        | zero =>
          split_ifs at hg with hst
          exact Bool.eq_false_iff.mpr hst
        | succ m =>
          have := hbefore m (by omega)
          rwa [Nat.add_right_comm] at this
      · rintro ⟨_ | k, f, hk, hnone, hbefore⟩
        · cases hk
          rw [Nat.add_zero, hvec] at hnone
          cases hnone
        · have hst : R.stores n = false := hbefore 0 (Nat.succ_pos k)
          refine ⟨by rw [hst]; rfl, k, f, hk, by rwa [Nat.add_right_comm], fun m hm => ?_⟩
          have := hbefore (m + 1) (by omega)
          rwa [Nat.add_right_comm]

/-- When it does not, no point was added just when the store took none at all. -/
theorem points_eq_nil_of_not_raised (h : (storeFacts S R c n fs).raised = false) : (storeFacts S R c n fs).points = [] ↔
    ∀ k f, fs[k]? = some f → R.stores (n + k) = false := by
  rw [List.eq_nil_iff_forall_not_mem]
  constructor
  · intro hnil k f hk
    by_contra hst
    obtain ⟨p, hp, -⟩ := (mem_points_iff h).mpr ⟨k, hk, by simpa using hst⟩
    exact hnil p hp
  · intro hall p hp
    obtain ⟨k, hk, hst⟩ := (mem_points_iff h).mp ⟨p, hp, collection_of_mem hp, rfl⟩
    rw [hall k _ hk] at hst
    cases hst

/-- A fact of the conversation. -/
def Point.IsFactOf (cid : String) (p : Point V) : Prop := p.kind = "fact" ∧ p.conversationId = cid

instance : DecidablePred (Point.IsFactOf (V := V) cid) := fun _ => inferInstanceAs (Decidable (_ ∧ _))

theorem isFactOf_of_mem {p : Point V} (h : p ∈ (storeFacts S R c n fs).points) : p.IsFactOf c.conversationId := by
  induction fs generalizing n with
  | nil => cases h
  | cons f fs ih =>
    rw [storeFacts] at h
    cases hvec : R.embed n f with
    | none => rw [hvec] at h; cases h
    | some vec =>
      rw [hvec] at h
      rcases List.mem_append.mp h with h | h
      · split_ifs at h
        · rw [List.mem_singleton] at h
          subst h
          exact ⟨rfl, rfl⟩
        · cases h
      · exact ih h

/-! ### The work on one conversation -/

/-- The facts of a conversation in the store. -/
def factsOf (s : St V) (cid : String) : List (Point V) := s.points.filter fun p => p.IsFactOf cid

/-- The turns of a conversation. -/
def turnsOf (db : Db) (cid : String) : List Turn := db.turns.filter fun t => t.conversationId = cid

/-- The facts and the turns of the conversation are the same. -/
def SameFor (cid : String) (s s' : St V) : Prop := factsOf s' cid = factsOf s cid ∧ turnsOf s'.db cid = turnsOf s.db cid

/-- The facts, not empty, that the distiller returns. -/
def Reply.facts (R : Reply V) : List String := R.distilled.elim [] fun d => nonEmpty d.1

/-- The turns are marked: `embed` does not raise, nor the marking, and there is a fact or a summary. -/
def Marks (S : Settings) (R : Reply V) (c : Call) : Prop :=
  (storeFacts S R c 0 R.facts).raised = false ∧ R.marking = true ∧
    ∃ d, R.distilled = some d ∧ (R.facts ≠ [] ∨ PyText.strip (d.2.getD "") ≠ "")

theorem undistilledTurns_eq (db : Db) (cid : String) : db.undistilledTurns cid =
    ((turnsOf db cid).filter (·.distilled = false)).insertionSort fun t u => t.id ≤ u.id := by
  rw [Db.undistilledTurns, turnsOf, List.filter_filter]
  congr 1
  refine List.filter_congr fun t _ => ?_
  simp [and_comm]

theorem factsOf_recordInsight (entry : String) : factsOf (recordInsight S R c entry s) cid = factsOf s cid := by
  unfold factsOf recordInsight
  rw [List.filter_append, List.append_right_eq_self, List.filter_eq_nil_iff]
  intro p hp
  split at hp
  · split_ifs at hp
    · rw [List.mem_singleton] at hp
      subst hp
      simp [Point.IsFactOf]
    · cases hp
  · cases hp

/-- The facts a call adds. -/
theorem factsOf_finishCall : factsOf (finishCall S R c s).2 cid =
    factsOf s cid ++ if c.conversationId = cid then (storeFacts S R c 0 R.facts).points else [] := by
  have hnew : (storeFacts S R c 0 R.facts).points.filter (fun p => p.IsFactOf cid) =
      if c.conversationId = cid then (storeFacts S R c 0 R.facts).points else [] := by
    split_ifs with h
    · rw [List.filter_eq_self]
      intro p hp
      exact decide_eq_true (h ▸ isFactOf_of_mem hp)
    · rw [List.filter_eq_nil_iff]
      intro p hp hfact
      exact h ((isFactOf_of_mem hp).2.symm.trans (of_decide_eq_true hfact).2)
  rw [← hnew]
  rw [finishCall]
  cases hd : R.distilled with
  | none => simp [Reply.facts, hd, storeFacts]
  | some d =>
    have hf : R.facts = nonEmpty d.1 := by rw [Reply.facts, hd]; rfl
    rw [hf]
    dsimp only
    have hadd : ∀ t : St V, t.points = s.points ++ (storeFacts S R c 0 (nonEmpty d.1)).points → factsOf t cid =
        factsOf s cid ++ (storeFacts S R c 0 (nonEmpty d.1)).points.filter fun p => p.IsFactOf cid := by
      intro t ht
      rw [factsOf, ht, List.filter_append]
      rfl
    split_ifs
    · exact hadd _ rfl
    · exact hadd _ rfl
    · exact hadd _ rfl
    · exact (factsOf_recordInsight _).trans (hadd _ rfl)

open Classical in
/-- A call marks its turns or leaves the database alone. -/
theorem db_finishCall : (finishCall S R c s).2.db =
    if Marks S R c then s.db.markDistilled (c.turns.map Turn.id) (R.distilled.bind (·.2)) else s.db := by
  rw [finishCall, Marks]
  cases hd : R.distilled with
  | none => simp
  | some d =>
    have hf : R.facts = nonEmpty d.1 := by rw [Reply.facts, hd]; rfl
    rw [hf]
    dsimp only
    by_cases hr : (storeFacts S R c 0 (nonEmpty d.1)).raised = true
    · rw [if_pos hr, if_neg]
      rintro ⟨hr', -⟩
      rw [hr] at hr'
      cases hr'
    · rw [if_neg hr, stored_eq (Bool.eq_false_iff.mpr hr)]
      by_cases hblank : (nonEmpty d.1).isEmpty = true ∧ PyText.strip (d.2.getD "") = ""
      · rw [if_pos hblank, if_neg]
        rintro ⟨-, -, d', hd', h | h⟩
        · exact h (List.isEmpty_iff.mp hblank.1)
        · cases hd'
          exact h hblank.2
      · rw [if_neg hblank]
        cases hmarking : R.marking with
        | false =>
          rw [if_pos rfl, if_neg]
          rintro ⟨-, hmark, -⟩
          cases hmark
        | true =>
          rw [if_neg (by decide), if_pos]
          · rfl
          · refine ⟨Bool.eq_false_iff.mpr hr, rfl, d, rfl, ?_⟩
            rw [not_and_or, List.isEmpty_iff] at hblank
            exact hblank

/-- Marking turns of one conversation leaves those of the others. -/
theorem turnsOf_markDistilled_ne {db : Db} {turns : List Turn} {summary : Option String} {cid' : String}
    (hturns : ∀ t ∈ turns, t ∈ db.turns ∧ t.conversationId = cid') (hne : cid ≠ cid') :
    turnsOf (db.markDistilled (turns.map Turn.id) summary) cid = turnsOf db cid := by
  have hmark : ∀ t, (Db.mark (turns.map Turn.id) summary t).conversationId = t.conversationId := by
    intro t
    rw [Db.mark]
    split_ifs <;> rfl
  rw [turnsOf, Db.markDistilled]
  rw [List.filter_map]
  have hcomp : ((fun t : Turn => decide (t.conversationId = cid)) ∘ Db.mark (turns.map Turn.id) summary) =
      fun t : Turn => decide (t.conversationId = cid) := by
    funext t
    rw [Function.comp, hmark]
  rw [hcomp]
  refine (List.map_congr_left fun t ht => ?_).trans (List.map_id _)
  rw [List.mem_filter, decide_eq_true_eq] at ht
  refine if_neg fun hid => ?_
  obtain ⟨t', ht', heq⟩ := List.mem_map.mp hid
  obtain ⟨hmem, hcid⟩ := hturns t' ht'
  have : t' = t := db.turn_ext hmem ht.1 heq
  rw [this, ht.2] at hcid
  exact hne hcid

/-- **A call concerns its own conversation only.** -/
theorem finishCall_frame (hturns : ∀ t ∈ c.turns, t ∈ s.db.turns ∧ t.conversationId = c.conversationId)
    (hne : cid ≠ c.conversationId) : SameFor cid s (finishCall S R c s).2 := by
  refine ⟨?_, ?_⟩
  · rw [factsOf_finishCall, if_neg (Ne.symm hne), List.append_nil]
  · rw [db_finishCall]
    split_ifs
    · exact turnsOf_markDistilled_ne hturns hne
    · rfl

/-! ### All or nothing -/

/-- The turn is marked distilled. -/
def Marked (s : St V) (cid : String) (id : ℕ) : Prop := ∃ t ∈ turnsOf s.db cid, t.id = id ∧ t.distilled = true

/-- The fact is in the conversation's collection. -/
def HasFact (S : Settings) (c : Call) (s : St V) (f : String) : Prop :=
  ∃ p ∈ factsOf s c.conversationId, p.collection = S.collectionFor c.profile ∧ p.document = f

/-- From `s` to `s'`, all facts of the reply are in the store and exactly the turns shown
to the distiller are marked, or no fact is stored and no turn marked. -/
def AllOrNothing (S : Settings) (R : Reply V) (c : Call) (s s' : St V) : Prop :=
  ((∀ f ∈ R.facts, HasFact S c s' f) ∧
    ∀ id, Marked s' c.conversationId id ↔ Marked s c.conversationId id ∨ id ∈ c.turns.map Turn.id) ∨
  factsOf s' c.conversationId = factsOf s c.conversationId ∧
    ∀ id, Marked s' c.conversationId id ↔ Marked s c.conversationId id

/-- The dependencies let it be so: every fact can be embedded and is stored now if it has not been there
before, and the marking returns, if there is one; or some fact cannot be embedded, or the marking raises,
and no fact is stored before. -/
def Safe (S : Settings) (R : Reply V) (c : Call) (s : St V) : Prop :=
  ((∀ n f, R.facts[n]? = some f → R.embed n f ≠ none) ∧ R.marking = true ∧
    ∀ f ∈ R.facts, HasFact S c s f ∨ ∃ n, R.facts[n]? = some f ∧ R.stores n = true) ∨
  (∃ k f, R.facts[k]? = some f ∧ R.embed k f = none ∧ ∀ n < k, R.stores n = false) ∨
  ((∀ n f, R.facts[n]? = some f → R.embed n f ≠ none) ∧ R.marking = false ∧
    ∀ n f, R.facts[n]? = some f → R.stores n = false)

theorem SameFor.refl (cid : String) (s : St V) : SameFor cid s s := ⟨rfl, rfl⟩

theorem SameFor.trans {s'' : St V} (h : SameFor cid s s') (h' : SameFor cid s' s'') : SameFor cid s s'' :=
  ⟨h'.1.trans h.1, h'.2.trans h.2⟩

theorem SameFor.undistilledTurns (h : SameFor cid s s') : s'.db.undistilledTurns cid = s.db.undistilledTurns cid := by
  rw [undistilledTurns_eq, undistilledTurns_eq, h.2]

theorem SameFor.marked (h : SameFor cid s s') (id : ℕ) : Marked s' cid id ↔ Marked s cid id := by
  rw [Marked, Marked, h.2]

theorem SameFor.hasFact (h : SameFor c.conversationId s s') (f : String) : HasFact S c s' f ↔ HasFact S c s f := by
  rw [HasFact, HasFact, h.1]

theorem SameFor.safe (h : SameFor c.conversationId s s') : Safe S R c s' ↔ Safe S R c s := by
  unfold Safe
  simp only [h.hasFact]

theorem SameFor.allOrNothing_left {s'' : St V} (h : SameFor c.conversationId s s') :
    AllOrNothing S R c s' s'' ↔ AllOrNothing S R c s s'' := by
  unfold AllOrNothing
  simp only [h.marked, h.1]

theorem SameFor.allOrNothing_right {s'' : St V} (h : SameFor c.conversationId s' s'') :
    AllOrNothing S R c s s'' ↔ AllOrNothing S R c s s' := by
  unfold AllOrNothing
  simp only [h.marked, h.hasFact, h.1]

/-- Which turns a call marks. -/
theorem marked_finishCall (hturns : ∀ t ∈ c.turns, t ∈ s.db.turns ∧ t.conversationId = c.conversationId) (id : ℕ) :
    Marked (finishCall S R c s).2 c.conversationId id ↔
      Marked s c.conversationId id ∨ Marks S R c ∧ id ∈ c.turns.map Turn.id := by
  unfold Marked turnsOf
  rw [db_finishCall]
  split_ifs with hm
  · simp only [hm, true_and]
    constructor
    · rintro ⟨t, ht, rfl, hdist⟩
      rw [List.mem_filter, Db.markDistilled, List.mem_map] at ht
      obtain ⟨⟨t₀, ht₀, rfl⟩, hcid⟩ := ht
      unfold Db.mark at hcid hdist ⊢
      split_ifs at hcid hdist ⊢ with hid
      · exact .inr hid
      · exact .inl ⟨t₀, List.mem_filter.mpr ⟨ht₀, hcid⟩, rfl, hdist⟩
    · intro h
      -- the turn with this id, as it was before
      obtain ⟨t, ht, hcid, rfl, hdist⟩ : ∃ t ∈ s.db.turns, t.conversationId = c.conversationId ∧ t.id = id ∧
          (t.distilled = true ∨ t.id ∈ c.turns.map Turn.id) := by
        rcases h with ⟨t, ht, rfl, hdist⟩ | h
        · rw [List.mem_filter, decide_eq_true_eq] at ht
          exact ⟨t, ht.1, ht.2, rfl, .inl hdist⟩
        · obtain ⟨t, ht, rfl⟩ := List.mem_map.mp h
          exact ⟨t, (hturns t ht).1, (hturns t ht).2, rfl, .inr h⟩
      refine ⟨Db.mark (c.turns.map Turn.id) (R.distilled.bind (·.2)) t, ?_, Db.mark_id .., ?_⟩
      · rw [List.mem_filter, Db.markDistilled]
        refine ⟨List.mem_map_of_mem ht, ?_⟩
        rw [Db.mark]
        split_ifs <;> simpa using hcid
      · rw [Db.mark]
        split_ifs with hid
        · rfl
        · exact hdist.resolve_right hid
  · simp only [hm, false_and, or_false]

/-- The facts of its own conversation that a call leaves. -/
theorem factsOf_finishCall_self : factsOf (finishCall S R c s).2 c.conversationId =
    factsOf s c.conversationId ++ (storeFacts S R c 0 R.facts).points := by
  rw [factsOf_finishCall, if_pos rfl]

/-- When `embed` does not raise, a fact is there if it was before or is stored now. -/
theorem hasFact_finishCall (hr : (storeFacts S R c 0 R.facts).raised = false) (f : String) :
    HasFact S c (finishCall S R c s).2 f ↔ HasFact S c s f ∨ ∃ n, R.facts[n]? = some f ∧ R.stores n = true := by
  have hnew := mem_points_iff hr (f := f)
  simp only [Nat.zero_add] at hnew
  rw [← hnew, HasFact, HasFact, factsOf_finishCall_self]
  simp only [List.mem_append, or_and_right, exists_or]

section Shown

variable (hturns : ∀ t ∈ c.turns, t ∈ s.db.undistilledTurns c.conversationId) (hne : c.turns ≠ [])

include hturns

theorem own_of_shown : ∀ t ∈ c.turns, t ∈ s.db.turns ∧ t.conversationId = c.conversationId := fun t ht =>
  ⟨(Db.mem_undistilledTurns.mp (hturns t ht)).1, (Db.mem_undistilledTurns.mp (hturns t ht)).2.1⟩

include hne

/-- A turn that is shown was not marked. -/
theorem exists_fresh : ∃ id ∈ c.turns.map Turn.id, ¬ Marked s c.conversationId id := by
  obtain ⟨t, ht⟩ := List.exists_mem_of_ne_nil _ hne
  refine ⟨t.id, List.mem_map_of_mem ht, ?_⟩
  rintro ⟨t', ht', hid, hdist⟩
  have : t' = t := s.db.turn_ext (List.mem_of_mem_filter ht') (own_of_shown hturns t ht).1 hid
  rw [this, (Db.mem_undistilledTurns.mp (hturns t ht)).2.2] at hdist
  cases hdist

/-- When `embed` raises, nothing is marked, so nothing must be stored. -/
theorem allOrNothing_of_raised (hr : (storeFacts S R c 0 R.facts).raised = true) :
    AllOrNothing S R c s (finishCall S R c s).2 ↔ Safe S R c s := by
  have hm : ¬ Marks S R c := by
    rintro ⟨hr', -⟩
    rw [hr] at hr'
    cases hr'
  obtain ⟨id, hid, hfresh⟩ := exists_fresh hturns hne
  obtain ⟨k, f, hk, hnone⟩ := raised_iff.mp hr
  simp only [AllOrNothing, Safe, marked_finishCall (own_of_shown hturns), factsOf_finishCall_self, hm, false_and,
    or_false, iff_self, implies_true, and_true]
  rw [List.append_right_eq_self, points_eq_nil_iff hr]
  simp only [Nat.zero_add] at hnone ⊢
  constructor
  · rintro (⟨-, hall⟩ | h)
    · exact absurd ((hall id).mpr (.inr hid)) hfresh
    · exact .inr (.inl h)
  · rintro (⟨hall, -⟩ | h | ⟨hall, -⟩)
    · exact absurd hnone (hall k f hk)
    · exact .inr h
    · exact absurd hnone (hall k f hk)

/-- When it does not, every fact must be stored and the turns marked, or none of either. -/
theorem allOrNothing_of_not_raised (hr : (storeFacts S R c 0 R.facts).raised = false) :
    AllOrNothing S R c s (finishCall S R c s).2 ↔ Safe S R c s := by
  have hembed : ∀ n f, R.facts[n]? = some f → R.embed n f ≠ none := by
    intro n f hn hnone
    have hraise : (storeFacts S R c 0 R.facts).raised = true := raised_iff.mpr ⟨n, f, hn, by rwa [Nat.zero_add]⟩
    rw [hr] at hraise
    cases hraise
  have hnoraise : ¬ ∃ k f, R.facts[k]? = some f ∧ R.embed k f = none ∧ ∀ n < k, R.stores n = false := by
    rintro ⟨k, f, hk, hnone, -⟩
    exact hembed k f hk hnone
  obtain ⟨id, hid, hfresh⟩ := exists_fresh hturns hne
  rw [Safe, or_iff_right hnoraise, and_iff_right hembed, and_iff_right hembed]
  simp only [AllOrNothing, marked_finishCall (own_of_shown hturns), hasFact_finishCall hr, factsOf_finishCall_self]
  cases hmarking : R.marking with
  | true =>
    by_cases hm : Marks S R c
    · -- the turns are marked, so everything must be stored
      simp only [hm, true_and, iff_self, implies_true, and_true, Bool.true_eq_false, false_and, or_false, or_iff_left_iff_imp]
      rintro ⟨-, hall⟩
      exact absurd (hall id hid) hfresh
    · -- there is nothing to store
      have hnil : R.facts = [] := by
        by_contra hfs
        cases hd : R.distilled with
        | none => exact hfs (by rw [Reply.facts, hd]; rfl)
        | some d => exact hm ⟨hr, hmarking, d, hd, .inl hfs⟩
      rw [hnil]
      simp [hm, storeFacts]
  | false =>
    -- no turn is marked, so nothing must be stored
    have hm : ¬ Marks S R c := by
      rintro ⟨-, hmark, -⟩
      rw [hmarking] at hmark
      cases hmark
    simp only [hm, false_and, or_false, iff_self, implies_true, and_true, Bool.false_eq_true, true_and, false_or]
    rw [List.append_right_eq_self, points_eq_nil_of_not_raised hr]
    simp only [Nat.zero_add]
    constructor
    · rintro (⟨-, hall⟩ | h)
      · exact absurd ((hall id).mpr (.inr hid)) hfresh
      · exact h
    · exact .inr

/-- **One call** is all or nothing exactly when the dependencies let it be. -/
theorem finishCall_allOrNothing_iff : AllOrNothing S R c s (finishCall S R c s).2 ↔ Safe S R c s := by
  cases hr : (storeFacts S R c 0 R.facts).raised with
  | true => exact allOrNothing_of_raised hturns hne hr
  | false => exact allOrNothing_of_not_raised hturns hne hr

end Shown

/-! ### A pass -/

/-- A row that calls the distiller shows it the conversation's un-distilled turns. -/
theorem enterRow_eq_call {go : Bool} {skip : List String} {db : Db} {row : Db.Pending}
    (h : enterRow S go skip db row = .call c) : c.conversationId = row.conversationId ∧
      c.turns = db.undistilledTurns row.conversationId ∧ row.conversationId ∉ skip := by
  unfold enterRow at h
  dsimp only at h
  split_ifs at h with h₁ h₂ h₃
  cases h
  exact ⟨rfl, rfl, h₂⟩

theorem passRows_call (go : String → Bool) {reply : String → String → Reply V} {row : Db.Pending}
    {rows : List Db.Pending} (h : enterRow S (go row.conversationId) s.skip s.db row = .call c) :
    passRows S go reply (row :: rows) s =
      let r := finishCall S (reply c.conversationId (renderTurns c.turns)) c s
      if r.1 then ⟨true, r.2, [c]⟩
      else { passRows S go reply rows r.2 with calls := c :: (passRows S go reply rows r.2).calls } := by
  rw [passRows, h]
  dsimp only
  rcases finishCall S (reply c.conversationId (renderTurns c.turns)) c s with ⟨_ | _, s₁⟩ <;> rfl

/-- What holds of the rows of a pass: their conversations are distinct, and each has
un-distilled turns. -/
def Ready (rows : List Db.Pending) (s : St V) : Prop :=
  (rows.map Db.Pending.conversationId).Nodup ∧ ∀ row ∈ rows, s.db.undistilledTurns row.conversationId ≠ []

/-- The pass concerns the conversations of its rows only, and the work on each is all or
nothing exactly when the dependencies let it be. -/
theorem passRows_spec {go : String → Bool} {reply : String → String → Reply V} {rows : List Db.Pending}
    (h : Ready rows s) :
    (∀ cid ∉ rows.map Db.Pending.conversationId, SameFor cid s (passRows S go reply rows s).st) ∧
    ∀ c ∈ (passRows S go reply rows s).calls, c.conversationId ∈ rows.map Db.Pending.conversationId ∧
      (AllOrNothing S (reply c.conversationId (renderTurns c.turns)) c s (passRows S go reply rows s).st ↔
        Safe S (reply c.conversationId (renderTurns c.turns)) c s) := by
  induction rows generalizing s with
  | nil => exact ⟨fun cid _ => .refl cid s, fun c hc => by cases hc⟩
  | cons row rows ih =>
    obtain ⟨hnd, hpending⟩ := h
    rw [List.map_cons, List.nodup_cons] at hnd
    cases he : enterRow S (go row.conversationId) s.skip s.db row with
    | stop =>
      rw [passRows, he]
      exact ⟨fun cid _ => .refl cid s, fun c hc => by cases hc⟩
    | skip =>
      rw [passRows, he]
      obtain ⟨hframe, hcalls⟩ := ih ⟨hnd.2, fun r hr => hpending r (List.mem_cons_of_mem _ hr)⟩
      exact ⟨fun cid hcid => hframe cid fun hm => hcid (List.mem_cons_of_mem _ hm),
        fun c hc => ⟨List.mem_cons_of_mem _ (hcalls c hc).1, (hcalls c hc).2⟩⟩
    | call c =>
      obtain ⟨hcid, hturns, -⟩ := enterRow_eq_call he
      rw [passRows_call go he]
      dsimp only
      generalize hR : reply c.conversationId (renderTurns c.turns) = R
      have hshown : ∀ t ∈ c.turns, t ∈ s.db.undistilledTurns c.conversationId := by
        intro t ht
        rwa [hturns, ← hcid] at ht
      have hne : c.turns ≠ [] := by
        rw [hturns]
        exact hpending row List.mem_cons_self
      have hone := finishCall_allOrNothing_iff (S := S) (R := R) hshown hne
      have hframe₁ : ∀ cid ≠ c.conversationId, SameFor cid s (finishCall S R c s).2 := fun cid =>
        finishCall_frame fun t ht => (Db.mem_undistilledTurns.mp (hshown t ht)).imp_right And.left
      split_ifs with hraised
      · refine ⟨fun cid hm => hframe₁ cid fun heq => hm ?_, fun c' hc' => ?_⟩
        · rw [heq, hcid]
          exact List.mem_cons_self
        · rw [List.mem_singleton.mp hc', hR]
          exact ⟨hcid ▸ List.mem_cons_self, hone⟩
      · -- the rows after this one are as they were
        have hrest : Ready rows (finishCall S R c s).2 := by
          refine ⟨hnd.2, fun r hr => ?_⟩
          have hother : r.conversationId ≠ c.conversationId := by
            rintro heq
            exact hnd.1 (hcid ▸ heq ▸ List.mem_map_of_mem hr)
          rw [(hframe₁ _ hother).undistilledTurns]
          exact hpending r (List.mem_cons_of_mem _ hr)
        obtain ⟨hframe, hcalls⟩ := ih hrest
        refine ⟨fun cid hm => ?_, fun c' hc' => ?_⟩
        · rw [List.map_cons, List.mem_cons, not_or] at hm
          exact (hframe₁ cid (hcid ▸ hm.1)).trans (hframe cid hm.2)
        · rcases List.mem_cons.mp hc' with rfl | hc'
          · have hafter := hframe c'.conversationId (hcid ▸ hnd.1)
            rw [hR]
            exact ⟨hcid ▸ List.mem_cons_self, hafter.allOrNothing_right.trans hone⟩
          · obtain ⟨hmem, hiff⟩ := hcalls c' hc'
            have hother : c'.conversationId ≠ c.conversationId := by
              rintro heq
              exact hnd.1 (hcid ▸ heq ▸ hmem)
            have hbefore := hframe₁ _ hother
            exact ⟨List.mem_cons_of_mem _ hmem, hbefore.allOrNothing_left.symm.trans (hiff.trans hbefore.safe)⟩

theorem ready_selected (S : Settings) (s : St V) :
    Ready (s.db.conversationsWithUndistilled S.minTurns S.maxConvos) s := by
  refine ⟨Db.nodup_conversationsWithUndistilled .., fun row hrow => ?_⟩
  obtain ⟨-, hp, hpos, -⟩ := Db.mem_conversationsWithUndistilled hrow
  rw [hp] at hpos
  exact List.ne_nil_of_length_pos hpos

/-- **When consolidation is all or nothing.** After a pass, whether it returned or raised,
each conversation it worked on has all its facts in the store and exactly its turns
marked, or none of either, if and only if the dependencies let it be so. -/
theorem consolidate_allOrNothing_iff (S : Settings) (go : String → Bool) (reply : String → String → Reply V) (s : St V) :
    ∀ c ∈ (consolidate S go reply s).calls,
      AllOrNothing S (reply c.conversationId (renderTurns c.turns)) c s (consolidate S go reply s).st ↔
        Safe S (reply c.conversationId (renderTurns c.turns)) c s :=
  fun c hc => ((passRows_spec (ready_selected S s)).2 c hc).2

/-! ### A store that drops a fact -/

/-- One conversation, with one turn. -/
def talk : Db := Db.empty.addTurn 1 "a" "user" "I like tea" (some "default") none none

/-- A pass over one conversation. -/
def oneConvo : Settings where
  collectionFor profile := profile
  insightCollection := none
  hasJournal := false
  maxConvos := 1
  minTurns := 1
  linkK := 3
  now := 2
  stamp := "now"

/-- The distiller finds one fact, and `store.add` works or not. -/
def oneFact (stores : Bool) : Reply ℤ where
  distilled := some ([some "likes tea"], some "")
  embed _ _ := some 0
  stores _ := stores
  hits _ := some []
  marking := true
  embedEntry _ := some 0
  storesEntry := true
  writes := true

/-- The conversation is worked on. -/
theorem calls_oneConvo (stores : Bool) : ∃ c,
    c ∈ (consolidate oneConvo (fun _ => true) (fun _ _ => oneFact stores) ⟨talk, [], [], [], []⟩).calls := by
  have hcalls : ((consolidate oneConvo (fun _ => true) (fun _ _ => oneFact stores) ⟨talk, [], [], [], []⟩).calls.map
      Call.conversationId) = ["a"] := by
    cases stores <;> decide
  obtain ⟨c, hc, -⟩ := List.mem_map.mp (hcalls ▸ List.mem_singleton_self "a")
  exact ⟨c, hc⟩

theorem consolidate_allOrNothing_oneFact :
    ∃ c, AllOrNothing oneConvo (oneFact true) c ⟨talk, [], [], [], []⟩
      (consolidate oneConvo (fun _ => true) (fun _ _ => oneFact true) ⟨talk, [], [], [], []⟩).st ↔
        Safe oneConvo (oneFact true) c ⟨talk, [], [], [], []⟩ := by
  obtain ⟨c, hc⟩ := calls_oneConvo true
  exact ⟨c, consolidate_allOrNothing_iff oneConvo (fun _ => true) (fun _ _ => oneFact true) ⟨talk, [], [], [], []⟩ c hc⟩

/-- When `store.add` drops the fact, the turn is marked all the same. -/
theorem consolidate_not_allOrNothing :
    ¬ ∀ c ∈ (consolidate oneConvo (fun _ => true) (fun _ _ => oneFact false) ⟨talk, [], [], [], []⟩).calls,
      AllOrNothing oneConvo (oneFact false) c ⟨talk, [], [], [], []⟩
        (consolidate oneConvo (fun _ => true) (fun _ _ => oneFact false) ⟨talk, [], [], [], []⟩).st := by
  intro h
  obtain ⟨c, hc⟩ := calls_oneConvo false
  rcases ((passRows_spec (ready_selected oneConvo _)).2 c hc).2.mp (h c hc) with ⟨-, -, hall⟩ | ⟨k, f, -, hnone, -⟩ | ⟨-, hmark, -⟩
  · rcases hall "likes tea" (by decide) with ⟨p, hp, -⟩ | ⟨n, -, hst⟩
    · cases hp
    · cases hst
  · cases hnone
  · cases hmark

/-! ### Progress -/

theorem passRows_progress_iff {reply : String → String → Reply V} {rows : List Db.Pending} (h : Ready rows s)
    (hmin : ∀ row ∈ rows, S.minTurns ≤ (s.db.undistilledTurns row.conversationId).length) :
    (∃ c ∈ (passRows S (fun _ => true) reply rows s).calls, c.conversationId ∉ s.skip) ↔
      ∃ row ∈ rows, row.conversationId ∉ s.skip := by
  constructor
  · rintro ⟨c, hc, hskip⟩
    obtain ⟨row, hrow, heq⟩ := List.mem_map.mp ((passRows_spec h).2 c hc).1
    exact ⟨row, hrow, heq ▸ hskip⟩
  · induction rows with
    | nil => rintro ⟨row, hrow, -⟩; cases hrow
    | cons row rows ih =>
      rintro ⟨row', hrow', hskip⟩
      by_cases hin : row.conversationId ∈ s.skip
      · -- this row is passed over, and nothing has changed
        have he : enterRow S true s.skip s.db row = .skip := by
          rw [enterRow]
          rw [if_neg (by decide), if_pos hin]
        have hrest : ∃ r ∈ rows, r.conversationId ∉ s.skip := by
          rcases List.mem_cons.mp hrow' with rfl | hr
          · exact absurd hin hskip
          · exact ⟨row', hr, hskip⟩
        rw [passRows, he]
        exact ih ⟨(List.nodup_cons.mp h.1).2, fun r hr => h.2 r (List.mem_cons_of_mem _ hr)⟩
          (fun r hr => hmin r (List.mem_cons_of_mem _ hr)) hrest
      · -- this row is distilled
        cases he : enterRow S true s.skip s.db row with
        | call c =>
          refine ⟨c, ?_, (enterRow_eq_call he).1 ▸ hin⟩
          rw [passRows_call (fun _ => true) he]
          dsimp only
          split_ifs <;> exact List.mem_cons_self
        | stop =>
          unfold enterRow at he
          dsimp only at he
          rw [if_neg (by decide), if_neg hin] at he
          split_ifs at he
        | skip =>
          unfold enterRow at he
          dsimp only at he
          rw [if_neg (by decide), if_neg hin, if_neg (not_lt.mpr (hmin row List.mem_cons_self))] at he
          cases he

/-- A pass makes progress: if there is a conversation with enough un-distilled turns that
is not to be skipped, the distiller is called on such a one. -/
def Progress (S : Settings) (reply : String → String → Reply V) (s : St V) : Prop :=
  (∃ conv ∈ s.db.conversations, S.minTurns ≤ (s.db.undistilledTurns conv.conversationId).length ∧
    conv.conversationId ∉ s.skip) →
  ∃ c ∈ (consolidate S (fun _ => true) reply s).calls, c.conversationId ∉ s.skip

/-- **When a pass makes progress**: exactly when one of the conversations it selects, the
newest `max_convos` that have enough un-distilled turns, is not to be skipped. -/
theorem consolidate_progress_iff (S : Settings) (reply : String → String → Reply V) (s : St V) :
    Progress S reply s ↔
      ((∃ conv ∈ s.db.conversations, S.minTurns ≤ (s.db.undistilledTurns conv.conversationId).length ∧
        conv.conversationId ∉ s.skip) →
      ∃ row ∈ s.db.conversationsWithUndistilled S.minTurns S.maxConvos, row.conversationId ∉ s.skip) := by
  refine imp_congr_right fun _ => passRows_progress_iff (ready_selected S s) fun row hrow => ?_
  obtain ⟨-, hp, -, hmin⟩ := Db.mem_conversationsWithUndistilled hrow
  rwa [hp] at hmin

/-- Two conversations, of which the newer is to be skipped. -/
def skipping : St ℤ :=
  ⟨talk.addTurn 2 "b" "user" "hm" (some "default") none none, [], [], ["b"], []⟩

/-- The skipped conversation uses up the selection, and the other one is never distilled. -/
theorem consolidate_not_progress : ¬ Progress oneConvo (fun _ _ => oneFact true) skipping := by
  intro h
  have hconv : ∃ conv ∈ skipping.db.conversations,
      oneConvo.minTurns ≤ (skipping.db.undistilledTurns conv.conversationId).length ∧
        conv.conversationId ∉ skipping.skip := by
    decide
  have hcalls : (consolidate oneConvo (fun _ => true) (fun _ _ => oneFact true) skipping).calls.length = 0 := by
    decide
  obtain ⟨c, hc, -⟩ := h hconv
  rw [List.length_eq_zero_iff.mp hcalls] at hc
  cases hc

end Persona.Memory
