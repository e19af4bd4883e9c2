import Persona.Lib.Precedes
import Persona.Lib.Run
import Mathlib.Data.List.Nodup
import Mathlib.Data.List.Pairwise

/-!
# A loop that an exception ends

`scan body l` is the loop `for a in l: body(a)` on a state: the first item whose body
raises ends it, and the state is what the bodies run so far have made of it. `visited`
is the list of items the loop gets to.

The lemmas are for loops over items with distinct keys, each of whose bodies concerns
its own item alone: a predicate `I a` on the state says that item `a` is still as it was
when the loop started, and the bodies of other items preserve it. Then what one body
adds to a log adds up over the items visited (`log_scan`), and an item's own part ends
as its own body leaves it (`scan_at`), or as it was if the loop does not get to it
(`scan_frame`).
-/

namespace Persona.Lib

variable {α σ ε β κ γ : Type*}

/-- The loop: the values of the bodies, or the exception that ended it. -/
def scan (body : α → σ → Except ε (Option β) × σ) : List α → σ → Except ε (List β) × σ
  | [], s => (.ok [], s)
  | a :: l, s =>
    match body a s with
    | (.error e, s) => (.error e, s)
    | (.ok b, s) =>
      match scan body l s with
      | (.error e, s) => (.error e, s)
      | (.ok bs, s) => (.ok (b.toList ++ bs), s)

/-- The items a loop gets to, when the bodies of those with `raises` end it. -/
def visited (raises : α → Bool) : List α → List α
  | [] => []
  | a :: l => a :: if raises a then [] else visited raises l

section Visited

variable {raises : α → Bool} {q : α → Prop} {l : List α}

theorem visited_nil : visited raises [] = [] := rfl

theorem visited_cons (raises : α → Bool) (a : α) (l : List α) :
    visited raises (a :: l) = a :: if raises a then [] else visited raises l := rfl

theorem visited_sublist : (visited raises l).Sublist l := by
  induction l with
  | nil => exact .slnil
  | cons a l ih =>
    rw [visited_cons]
    split_ifs
    · exact .cons_cons _ (List.nil_sublist _)
    · exact .cons_cons _ ih

/-- A loop that nothing ends gets to every item. -/
theorem visited_eq_self (h : ∀ a ∈ l, raises a = false) : visited raises l = l := by
  induction l with
  | nil => rfl
  | cons a l ih =>
    rw [visited_cons, h a List.mem_cons_self, if_neg (by simp), ih fun b hb => h b (List.mem_cons_of_mem _ hb)]

/-- An item after one that raises is not visited. -/
theorem notMem_visited {a b : α} (hnd : l.Nodup) (h : Precedes l a b) (hr : raises a = true) : b ∉ visited raises l := by
  induction l with
  | nil => exact List.not_mem_nil
  | cons c l ih =>
    obtain ⟨hc, hnd⟩ := List.nodup_cons.mp hnd
    rw [visited_cons, List.mem_cons, not_or]
    rcases precedes_cons.mp h with ⟨rfl, hb⟩ | h
    · rw [if_pos hr]
      exact ⟨fun heq => hc (heq ▸ hb), List.not_mem_nil⟩
    · refine ⟨fun heq => hc (heq ▸ h.right_mem), ?_⟩
      split_ifs
      · exact List.not_mem_nil
      · exact ih hnd h

/-- An item that is not visited comes after one that raises. -/
theorem exists_precedes_of_notMem_visited {b : α} (hb : b ∈ l) (h : b ∉ visited raises l) :
    ∃ a, Precedes l a b ∧ raises a = true := by
  induction l with
  | nil => cases hb
  | cons c l ih =>
    rw [visited_cons, List.mem_cons, not_or] at h
    obtain ⟨hne, hrest⟩ := h
    have hb := (List.mem_cons.mp hb).resolve_left hne
    cases hr : raises c with
    | true => exact ⟨c, precedes_cons.mpr (.inl ⟨rfl, hb⟩), hr⟩
    | false =>
      rw [hr, if_neg (by simp)] at hrest
      obtain ⟨a, hab, ha⟩ := ih hb hrest
      exact ⟨a, precedes_cons.mpr (.inr hab), ha⟩

/-- A longer list is visited as far, at least. -/
theorem visited_append_sublist (raises : α → Bool) (l m : List α) : (visited raises l).Sublist (visited raises (l ++ m)) := by
  induction l with
  | nil => exact List.nil_sublist _
  | cons a l ih =>
    rw [List.cons_append, visited_cons, visited_cons]
    refine .cons_cons _ ?_
    split_ifs
    · exact .slnil
    · exact ih

/-- **What a loop gets to**: every item with `q` is visited exactly when no item before
one with `q` raises. -/
theorem forall_mem_visited_iff (hnd : l.Nodup) :
    (∀ a ∈ l, q a → a ∈ visited raises l) ↔ l.Pairwise fun a b => q b → raises a = false := by
  induction l with
  | nil => simp
  | cons a l ih =>
    obtain ⟨hal, hnd⟩ := List.nodup_cons.mp hnd
    rw [List.pairwise_cons, ← ih hnd]
    cases hr : raises a with
    | true =>
      -- the loop ends here: nothing after `a` may have `q`
      simp only [visited_cons, hr, if_true]
      constructor
      · intro h
        have hno : ∀ b ∈ l, ¬ q b := by
          intro b hb hq
          have := h b (List.mem_cons_of_mem _ hb) hq
          rw [List.mem_singleton] at this
          exact hal (this ▸ hb)
        exact ⟨fun b hb hq => absurd hq (hno b hb), fun b hb hq => absurd hq (hno b hb)⟩
      · rintro ⟨h, -⟩ b hb hq
        rcases List.mem_cons.mp hb with rfl | hb
        · exact List.mem_singleton_self _
        · exact absurd (h b hb hq) (by simp)
    | false =>
      simp only [visited_cons, hr, Bool.false_eq_true, if_false]
      constructor
      · intro h
        refine ⟨fun _ _ _ => trivial, fun b hb hq => ?_⟩
        rcases List.mem_cons.mp (h b (List.mem_cons_of_mem _ hb) hq) with rfl | hb'
        · exact absurd hb hal
        · exact hb'
      · rintro ⟨-, h⟩ b hb hq
        rcases List.mem_cons.mp hb with rfl | hb
        · exact List.mem_cons_self ..
        · exact List.mem_cons_of_mem _ (h b hb hq)

/-- The same of the items' keys, when these are distinct: every key with `p` is that of
an item visited exactly when it is that of an item, and no item before one whose key has
`p` raises. -/
theorem forall_key_mem_visited_iff {key : α → κ} {p : κ → Prop} (hnd : (l.map key).Nodup) :
    (∀ k, p k → k ∈ (visited raises l).map key) ↔
      (∀ k, p k → k ∈ l.map key) ∧ l.Pairwise fun a b => p (key b) → raises a = false := by
  rw [← forall_mem_visited_iff (q := fun a => p (key a)) (List.Nodup.of_map _ hnd)]
  constructor
  · intro h
    refine ⟨fun k hk => (visited_sublist.map key).subset (h k hk), fun a ha hp => ?_⟩
    obtain ⟨b, hb, he⟩ := List.mem_map.mp (h _ hp)
    exact List.inj_on_of_nodup_map hnd (visited_sublist.subset hb) ha he ▸ hb
  · rintro ⟨h, hv⟩ k hk
    obtain ⟨a, ha, rfl⟩ := List.mem_map.mp (h k hk)
    exact List.mem_map_of_mem (hv a ha hk)

end Visited

section Scan

variable {body : α → σ → Except ε (Option β) × σ} {l : List α} {s : σ}

theorem scan_nil : scan body [] s = (.ok [], s) := rfl

theorem scan_cons (body : α → σ → Except ε (Option β) × σ) (a : α) (l : List α) (s : σ) : scan body (a :: l) s =
    match body a s with
    | (.error e, s) => (.error e, s)
    | (.ok b, s) =>
      match scan body l s with
      | (.error e, s) => (.error e, s)
      | (.ok bs, s) => (.ok (b.toList ++ bs), s) := rfl

/-- What every body preserves, the loop preserves. -/
theorem scan_frame {Q : σ → Prop} (h : ∀ a ∈ l, ∀ s, Q s → Q (body a s).2) (hs : Q s) : Q (scan body l s).2 := by
  induction l generalizing s with
  | nil => exact hs
  | cons a l ih =>
    have ha := h a (List.mem_cons_self ..) s hs
    have := ih (fun b hb => h b (List.mem_cons_of_mem _ hb)) ha
    rw [scan_cons]
    split
    · next heq => simpa [heq] using ha
    · next b s' heq =>
      simp only [heq] at this
      split
      · next heq' => simpa [heq'] using this
      · next heq' => simpa [heq'] using this

variable (key : α → κ) (I : α → σ → Prop) (raises : α → Bool)

/-- The body of each item concerns that item alone, and it raises as `raises` says. -/
structure Local (body : α → σ → Except ε (Option β) × σ) : Prop where
  /-- Whether it raises. -/
  raises_iff : ∀ a s, I a s → ((body a s).1.isOk = !raises a)
  /-- It leaves other items as they are. -/
  frame : ∀ a b s, key a ≠ key b → I b s → I b (body a s).2

variable {key I raises}

/-- The loop on a first item. -/
theorem scan_cons_snd (hloc : Local key I raises body) {a : α} (ha : I a s) :
    (scan body (a :: l) s).2 = if raises a then (body a s).2 else (scan body l (body a s).2).2 := by
  have hr := hloc.raises_iff a s ha
  rw [scan_cons]
  split
  · next e s' heq =>
    rw [heq] at hr ⊢
    rw [if_pos (by simpa [Except.isOk, Except.toBool] using hr)]
  · next b s' heq =>
    rw [heq] at hr ⊢
    rw [if_neg (by simpa [Except.isOk, Except.toBool] using hr)]
    split
    · next heq' => rw [heq']
    · next heq' => rw [heq']

/-- After the body of a first item, the items left are still as they were. -/
theorem Local.tail (hloc : Local key I raises body) {a : α} (hnd : ((a :: l).map key).Nodup)
    (hI : ∀ b ∈ a :: l, I b s) : ∀ b ∈ l, I b (body a s).2 := by
  intro b hb
  refine hloc.frame a b s (fun he => ?_) (hI b (List.mem_cons_of_mem _ hb))
  rw [List.map_cons, List.nodup_cons] at hnd
  exact hnd.1 (he ▸ List.mem_map_of_mem hb)

/-- **What the bodies do to a part of the state**, one after the other. -/
theorem fold_scan (hloc : Local key I raises body) {part : σ → γ} {η : Type*} {acts : α → List η} {act : γ → η → γ}
    (hact : ∀ a s, I a s → part (body a s).2 = (acts a).foldl act (part s)) (hnd : (l.map key).Nodup)
    (hI : ∀ a ∈ l, I a s) : part (scan body l s).2 = ((visited raises l).flatMap acts).foldl act (part s) := by
  induction l generalizing s with
  | nil => rfl
  | cons a l ih =>
    have ha := hI a (List.mem_cons_self ..)
    rw [scan_cons_snd hloc ha, visited_cons, List.flatMap_cons, List.foldl_append, ← hact a s ha]
    cases hr : raises a with
    | true => rfl
    | false =>
      simp only [Bool.false_eq_true, if_false]
      exact ih (List.nodup_cons.mp (by simpa using hnd)).2 (hloc.tail hnd hI)

/-- **What the bodies log adds up** over the items visited. -/
theorem log_scan (hloc : Local key I raises body) {log : σ → List γ} {adds : α → List γ}
    (hlog : ∀ a s, I a s → log (body a s).2 = log s ++ adds a) (hnd : (l.map key).Nodup)
    (hI : ∀ a ∈ l, I a s) : log (scan body l s).2 = log s ++ (visited raises l).flatMap adds := by
  induction l generalizing s with
  | nil => rw [scan_nil, visited_nil, List.flatMap_nil, List.append_nil]
  | cons a l ih =>
    have ha := hI a (List.mem_cons_self ..)
    rw [scan_cons_snd hloc ha, visited_cons, List.flatMap_cons]
    cases hr : raises a with
    | true => simpa using hlog a s ha
    | false =>
      simp only [Bool.false_eq_true, if_false]
      rw [ih (List.nodup_cons.mp (by simpa using hnd)).2 (hloc.tail hnd hI), hlog a s ha, List.append_assoc]

/-- **An item's own part** `own` ends as its own body leaves it, run on a state that has
the item as it was at the start; and as it was if the loop does not get to the item. -/
theorem scan_at (own : σ → γ) (hloc : Local key I raises body) {a : α}
    (hown : ∀ b s, key b ≠ key a → own (body b s).2 = own s) (hnd : (l.map key).Nodup) (hI : ∀ b ∈ l, I b s)
    (ha : a ∈ visited raises l) : ∃ s', I a s' ∧ own s' = own s ∧ own (scan body l s).2 = own (body a s').2 := by
  induction l generalizing s with
  | nil => exact absurd ha List.not_mem_nil
  | cons b l ih =>
    have hb := hI b (List.mem_cons_self ..)
    have hnd' := List.nodup_cons.mp (by simpa using hnd : (key b :: l.map key).Nodup)
    rw [scan_cons_snd hloc hb]
    -- the items after `a` leave its part alone
    have hrest : ∀ s, key b = key a → own (scan body l s).2 = own s := fun s he =>
      scan_frame (Q := fun t => own t = own s) (fun c hc t ht => by
        rw [hown c t (fun h => hnd'.1 (by rw [he, ← h]; exact List.mem_map_of_mem hc)), ht]) rfl
    rw [visited_cons] at ha
    rcases List.mem_cons.mp ha with rfl | ha
    · refine ⟨s, hb, rfl, ?_⟩
      split_ifs
      · rfl
      · exact hrest _ rfl
    · cases hr : raises b with
      | true => simp [hr] at ha
      | false =>
        simp only [hr, Bool.false_eq_true, if_false] at ha ⊢
        have hne : key b ≠ key a := fun he =>
          hnd'.1 (he ▸ List.mem_map_of_mem (visited_sublist.subset ha))
        obtain ⟨s', h₁, h₂, h₃⟩ := ih hnd'.2 (hloc.tail hnd hI) ha
        exact ⟨s', h₁, h₂.trans (hown b s hne), h₃⟩

/-- The loop is not ended if no item raises. -/
theorem scan_isOk (hloc : Local key I raises body) (hnd : (l.map key).Nodup) (hI : ∀ a ∈ l, I a s) :
    (scan body l s).1.isOk = !l.any raises := by
  induction l generalizing s with
  | nil => rfl
  | cons a l ih =>
    have hr := hloc.raises_iff a s (hI a List.mem_cons_self)
    have hrest := ih (List.nodup_cons.mp (by simpa using hnd)).2 (hloc.tail hnd hI)
    rw [List.any_cons, scan_cons]
    rcases hb : body a s with ⟨e | b, s₁⟩
    · have ha : raises a = true := by simpa [hb, Except.isOk, Except.toBool] using hr
      rw [ha]
      rfl
    · have ha : raises a = false := by simpa [hb, Except.isOk, Except.toBool] using hr
      rw [hb] at hrest
      rw [ha, Bool.false_or, ← hrest]
      dsimp only
      rcases scan body l s₁ with ⟨_ | bs, s₂⟩ <;> rfl

/-- **What a loop returns** that is not ended. -/
theorem scan_map (hloc : Local key I raises body) (f : β → γ) (outs : α → List γ)
    (hout : ∀ a s b, I a s → (body a s).1 = .ok b → b.toList.map f = outs a) (hnd : (l.map key).Nodup)
    (hI : ∀ a ∈ l, I a s) {bs : List β} (h : (scan body l s).1 = .ok bs) : bs.map f = l.flatMap outs := by
  induction l generalizing s bs with
  | nil =>
    rw [scan_nil, Except.ok.injEq] at h
    subst h
    rfl
  | cons a l ih =>
    have ha := hout a s
    have htail := hloc.tail hnd hI
    rw [scan_cons] at h
    rcases hb : body a s with ⟨e | b, s₁⟩
    · rw [hb] at h
      cases h
    · rw [hb] at h htail ha
      dsimp only at h htail ha
      rcases hs : scan body l s₁ with ⟨e | bs₁, s₂⟩
      · rw [hs] at h
        cases h
      · rw [hs] at h
        dsimp only at h
        rw [Except.ok.injEq] at h
        subst h
        have hrest := ih (List.nodup_cons.mp (by simpa using hnd)).2 htail (by rw [hs])
        rw [List.map_append, List.flatMap_cons, hrest, ha b (hI a List.mem_cons_self) rfl]

/-- A loop goes on after a body that does not raise. -/
theorem scan_cons_ok {a : α} {b : Option β} {s₁ : σ} (h : body a s = (.ok b, s₁)) :
    (scan body (a :: l) s).1.isOk = (scan body l s₁).1.isOk ∧ (scan body (a :: l) s).2 = (scan body l s₁).2 := by
  rw [scan_cons, h]
  dsimp only
  rcases scan body l s₁ with ⟨_ | bs, s₂⟩ <;> exact ⟨rfl, rfl⟩

/-- **A loop that is simulated**: if a run of steps goes with each body, from a state of
the steps that stands for the loop's state with the items to come to one that stands for
what the body leaves, then a run goes with the loop. -/
theorem scan_run {τ η : Type*} {step : τ → η → τ → Prop} {I : List α → σ → τ → Prop} {E : σ → τ → Prop}
    (hbody : ∀ a l s x, I (a :: l) s x → ∃ es x', Run step x es x' ∧
      if (body a s).1.isOk then I l (body a s).2 x' else E (body a s).2 x') {x : τ} (h : I l s x) :
    ∃ es x', Run step x es x' ∧ if (scan body l s).1.isOk then I [] (scan body l s).2 x' else E (scan body l s).2 x' := by
  induction l generalizing s x with
  | nil => exact ⟨[], x, .nil, h⟩
  | cons a l ih =>
    obtain ⟨es₁, x₁, hrun₁, h₁⟩ := hbody a l s x h
    rcases hb : body a s with ⟨e | b, s₁⟩
    · rw [hb] at h₁
      rw [scan_cons, hb]
      exact ⟨es₁, x₁, hrun₁, h₁⟩
    · rw [hb] at h₁
      obtain ⟨es₂, x₂, hrun₂, h₂⟩ := ih h₁
      obtain ⟨hok, hsnd⟩ := scan_cons_ok (l := l) hb
      rw [hok, hsnd]
      exact ⟨es₁ ++ es₂, x₂, hrun₁.append hrun₂, h₂⟩

end Scan

end Persona.Lib
