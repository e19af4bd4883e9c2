import Mathlib.Data.List.Nodup
import Mathlib.Data.Set.Function

/-!
# Tables

Records kept by key, in the order in which the keys came in: `put` sets a record in its
place, or after the others under a new key, and `remove` takes records away.

Two tables with other keys and other records can hold the same: each key of the one stands
for a key of the other, and a record shows what the other one's record is (`Mirrors`). The
operations keep that, as long as the keys in use stand for different ones.
-/

namespace Persona.Lib

/-- Records of type `R` by key. -/
structure Table (K R : Type*) where
  rows : List (K × R)
  nodup : (rows.map Prod.fst).Nodup

namespace Table

variable {K K' R R' : Type*}

/-- No record. -/
def empty : Table K R := ⟨[], List.nodup_nil⟩

variable (t : Table K R)

/-- The keys. -/
def keys : List K := t.rows.map Prod.fst

/-- The records. -/
def records : List R := t.rows.map Prod.snd

variable [DecidableEq K] [DecidableEq K']

/-- The record under a key. -/
def find? (k : K) : Option R := t.rows.lookup k

/-- The rows, with a record set under a key they have. -/
def setRow (k : K) (r : R) (rows : List (K × R)) : List (K × R) := rows.map fun x => if x.1 = k then (k, r) else x

theorem map_fst_setRow (k : K) (r : R) (rows : List (K × R)) : (setRow k r rows).map Prod.fst = rows.map Prod.fst := by
  rw [setRow, List.map_map]
  refine List.map_congr_left fun x _ => ?_
  rw [Function.comp_apply]
  split_ifs with h
  · exact h.symm
  · rfl

/-- A record is set under a key. -/
def put (k : K) (r : R) : Table K R where
  rows := if k ∈ t.keys then setRow k r t.rows else t.rows ++ [(k, r)]
  nodup := by
    split_ifs with h
    · rw [map_fst_setRow]
      exact t.nodup
    · rw [List.map_append]
      refine t.nodup.append (List.nodup_singleton _) fun x hx hk => ?_
      obtain rfl : x = k := by simpa using hk
      exact h hx

/-- The records under these keys are taken away. -/
def remove (ks : List K) : Table K R where
  rows := t.rows.filter fun x => x.1 ∉ ks
  nodup := t.nodup.sublist (List.filter_sublist.map _)

variable {t} {k : K} {r : R}

theorem rows_put_of_mem (h : k ∈ t.keys) : (t.put k r).rows = setRow k r t.rows := if_pos h

theorem rows_put_of_notMem (h : k ∉ t.keys) : (t.put k r).rows = t.rows ++ [(k, r)] := if_neg h

theorem mem_keys_put {k' : K} : k' ∈ (t.put k r).keys ↔ k' = k ∨ k' ∈ t.keys := by
  by_cases h : k ∈ t.keys
  · rw [keys, rows_put_of_mem h, map_fst_setRow, ← keys]
    constructor
    · exact .inr
    · rintro (rfl | hk')
      · exact h
      · exact hk'
  · rw [keys, rows_put_of_notMem h]
    simp [keys, or_comm]

theorem keys_remove_subset {ks : List K} : (t.remove ks).keys ⊆ t.keys := (List.filter_sublist.map _).subset

theorem find?_eq_none : t.find? k = none ↔ k ∉ t.keys := by
  rw [find?, keys, List.lookup_eq_none_iff, List.mem_map]
  constructor
  · rintro h ⟨x, hx, rfl⟩
    simpa using h x hx
  · intro h x hx
    rw [bne_iff_ne]
    rintro rfl
    exact h ⟨x, hx, rfl⟩

theorem mem_of_find? (h : t.find? k = some r) : (k, r) ∈ t.rows := by
  obtain ⟨l₁, l₂, hrows, -⟩ := List.lookup_eq_some_iff.mp h
  rw [hrows]
  simp

theorem find?_of_mem (h : (k, r) ∈ t.rows) : t.find? k = some r := by
  cases hfind : t.find? k with
  | none => exact absurd (List.mem_map_of_mem h) (find?_eq_none.mp hfind)
  | some r' =>
    have hrow := List.inj_on_of_nodup_map t.nodup (mem_of_find? hfind) h rfl
    exact congrArg some (Prod.mk.inj hrow).2

theorem find?_eq_some : t.find? k = some r ↔ (k, r) ∈ t.rows := ⟨mem_of_find?, find?_of_mem⟩

/-- The rows after a record is set. -/
theorem mem_rows_put {x : K × R} : x ∈ (t.put k r).rows ↔ x = (k, r) ∨ (x ∈ t.rows ∧ x.1 ≠ k) := by
  by_cases hk : k ∈ t.keys
  · rw [rows_put_of_mem hk, setRow, List.mem_map]
    constructor
    · rintro ⟨y, hy, rfl⟩
      split_ifs with hyk
      · exact .inl rfl
      · exact .inr ⟨hy, hyk⟩
    · rintro (rfl | ⟨hx, hxk⟩)
      · obtain ⟨y, hy, hyk⟩ := List.mem_map.mp hk
        exact ⟨y, hy, if_pos hyk⟩
      · exact ⟨x, hx, if_neg hxk⟩
  · rw [rows_put_of_notMem hk, List.mem_append, List.mem_singleton]
    constructor
    · rintro (hx | rfl)
      · exact .inr ⟨hx, fun hxk => hk (hxk ▸ List.mem_map_of_mem hx)⟩
      · exact .inl rfl
    · rintro (rfl | ⟨hx, -⟩)
      · exact .inr rfl
      · exact .inl hx

theorem find?_put_self : (t.put k r).find? k = some r := find?_eq_some.mpr (mem_rows_put.mpr (.inl rfl))

theorem find?_put_of_ne {k' : K} (h : k' ≠ k) : (t.put k r).find? k' = t.find? k' := by
  refine Option.ext fun r' => ?_
  rw [find?_eq_some, find?_eq_some, mem_rows_put]
  constructor
  · rintro (heq | ⟨hmem, -⟩)
    · exact absurd (Prod.mk.inj heq).1 h
    · exact hmem
  · exact fun hmem => .inr ⟨hmem, h⟩

theorem length_put : (t.put k r).rows.length = t.rows.length + if k ∈ t.keys then 0 else 1 := by
  split_ifs with hk
  · rw [rows_put_of_mem hk, setRow, List.length_map, Nat.add_zero]
  · rw [rows_put_of_notMem hk, List.length_append, List.length_singleton]

/-! ### Many records -/

/-- Records are set under their keys, one after the other. -/
def putAll (t : Table K R) (rows : List (K × R)) : Table K R := rows.foldl (fun t x => t.put x.1 x.2) t

theorem find?_putAll_of_notMem {rows : List (K × R)} (h : k ∉ rows.map Prod.fst) : (t.putAll rows).find? k = t.find? k := by
  induction rows generalizing t with
  | nil => rfl
  | cons x rows ih =>
    rw [List.map_cons, List.mem_cons, not_or] at h
    rw [putAll, List.foldl_cons, ← putAll, ih h.2, find?_put_of_ne h.1]

/-- Of records under different keys each one is there in the end. -/
theorem find?_putAll_of_mem {rows : List (K × R)} (hnodup : (rows.map Prod.fst).Nodup) (h : (k, r) ∈ rows) :
    (t.putAll rows).find? k = some r := by
  induction rows generalizing t with
  | nil => cases h
  | cons x rows ih =>
    rw [List.map_cons, List.nodup_cons] at hnodup
    rw [putAll, List.foldl_cons, ← putAll]
    rcases List.mem_cons.mp h with rfl | h
    · rw [find?_putAll_of_notMem hnodup.1, find?_put_self]
    · exact ih hnodup.2 h

/-- As many records come in as there are new keys. -/
theorem length_putAll {rows : List (K × R)} (hnodup : (rows.map Prod.fst).Nodup) :
    (t.putAll rows).rows.length = t.rows.length + (rows.filter fun x => x.1 ∉ t.keys).length := by
  induction rows generalizing t with
  | nil => rfl
  | cons x rows ih =>
    rw [List.map_cons, List.nodup_cons] at hnodup
    have hrest : (rows.filter fun y => y.1 ∉ (t.put x.1 x.2).keys) = rows.filter fun y => y.1 ∉ t.keys := by
      refine List.filter_congr fun y hy => ?_
      have hyx : y.1 ≠ x.1 := fun heq => hnodup.1 (heq ▸ List.mem_map_of_mem hy)
      simp [mem_keys_put, hyx]
    rw [putAll, List.foldl_cons, ← putAll, ih hnodup.2, hrest, length_put, List.filter_cons]
    by_cases hx : x.1 ∈ t.keys
    · simp [hx]
    · simp [hx, Nat.add_assoc, Nat.add_comm]

/-! ### Tables that hold the same -/

/-- The table `t'` holds what `t` holds, under other keys and shown by other records. -/
def Mirrors (f : K → K') (g : R' → R) (t : Table K R) (t' : Table K' R') : Prop :=
  t'.rows.map (Prod.map id g) = t.rows.map (Prod.map f id)

variable {f : K → K'} {g : R' → R} {t' : Table K' R'} {r' : R'}

namespace Mirrors

omit [DecidableEq K] [DecidableEq K'] in
theorem empty : Mirrors f g (empty : Table K R) (empty : Table K' R') := rfl

omit [DecidableEq K] [DecidableEq K'] in
theorem keys_eq (h : Mirrors f g t t') : t'.keys = t.keys.map f := by
  have hkeys := congrArg (List.map Prod.fst) h
  rw [List.map_map, List.map_map] at hkeys
  rw [keys, keys, List.map_map]
  exact hkeys

omit [DecidableEq K] [DecidableEq K'] in
theorem records_eq (h : Mirrors f g t t') : t'.records.map g = t.records := by
  have hrecords := congrArg (List.map Prod.snd) h
  rw [List.map_map, List.map_map] at hrecords
  rw [records, records, List.map_map]
  exact hrecords

omit [DecidableEq K] [DecidableEq K'] in
/-- A key that stands for one of a mirror is a key, if the keys stand for different ones. -/
theorem mem_keys_iff (h : Mirrors f g t t') {A : Set K} (hf : A.InjOn f) (hA : ∀ k ∈ t.keys, k ∈ A) (hk : k ∈ A) :
    f k ∈ t'.keys ↔ k ∈ t.keys := by
  rw [h.keys_eq, List.mem_map]
  constructor
  · rintro ⟨k', hk', heq⟩
    rwa [← hf (hA k' hk') hk heq]
  · exact fun hmem => ⟨k, hmem, rfl⟩

/-- A new record on both sides. -/
theorem put_new (h : Mirrors f g t t') (hk : k ∉ t.keys) (hk' : f k ∉ t'.keys) (hr : g r' = r) :
    Mirrors f g (t.put k r) (t'.put (f k) r') := by
  rw [Mirrors, rows_put_of_notMem hk, rows_put_of_notMem hk', List.map_append, List.map_append, h]
  simp [hr]

/-- What `t'` shows under a key changes. -/
theorem map_setRow (h : Mirrors f g t t') (r' : R') {A : Set K} (hf : A.InjOn f) (hA : ∀ k ∈ t.keys, k ∈ A) (hk : k ∈ A) :
    (setRow (f k) r' t'.rows).map (Prod.map id g) = (setRow k (g r') t.rows).map (Prod.map f id) := by
  have hleft : (setRow (f k) r' t'.rows).map (Prod.map id g) = setRow (f k) (g r') (t'.rows.map (Prod.map id g)) := by
    rw [setRow, setRow, List.map_map, List.map_map]
    refine List.map_congr_left fun x _ => ?_
    simp only [Function.comp_apply, Prod.map_fst, id_eq]
    split_ifs <;> rfl
  rw [hleft, h, setRow, setRow, List.map_map, List.map_map]
  refine List.map_congr_left fun x hx => ?_
  have hxA : x.1 ∈ A := hA x.1 (List.mem_map_of_mem hx)
  simp only [Function.comp_apply, Prod.map_fst, hf.eq_iff hxA hk]
  split_ifs <;> rfl

theorem records_setRow (h : Mirrors f g t t') {A : Set K} (hf : A.InjOn f) (hA : ∀ k ∈ t.keys, k ∈ A) (hk : k ∈ A) :
    ((setRow (f k) r' t'.rows).map Prod.snd).map g = (setRow k (g r') t.rows).map Prod.snd := by
  have hset := congrArg (List.map Prod.snd) (h.map_setRow r' hf hA hk)
  rw [List.map_map, List.map_map] at hset
  rw [List.map_map]
  exact hset

/-- Records are taken away on both sides. -/
theorem remove (h : Mirrors f g t t') {A : Set K} (hf : A.InjOn f) (hA : ∀ k ∈ t.keys, k ∈ A) {ks : List K}
    (hks : ∀ k ∈ ks, k ∈ A) : Mirrors f g (t.remove ks) (t'.remove (ks.map f)) := by
  have hleft : (t'.rows.filter fun x => decide (x.1 ∉ ks.map f)).map (Prod.map id g) =
      (t'.rows.map (Prod.map id g)).filter fun x => decide (x.1 ∉ ks.map f) := by
    rw [List.filter_map]
    rfl
  rw [Mirrors, Table.remove, Table.remove]
  dsimp only
  rw [hleft, h, List.filter_map]
  congr 1
  refine List.filter_congr fun x hx => ?_
  have hxA : x.1 ∈ A := hA x.1 (List.mem_map_of_mem hx)
  simp only [Function.comp_apply, Prod.map_fst, List.mem_map, decide_eq_decide, not_iff_not]
  constructor
  · rintro ⟨k, hk, heq⟩
    rwa [← hf (hks k hk) hxA heq]
  · exact fun hmem => ⟨x.1, hmem, rfl⟩

end Mirrors

/-- Setting the record that is there changes nothing. -/
theorem setRow_of_find? (h : t.find? k = some r) : setRow k r t.rows = t.rows := by
  have hmem := mem_of_find? h
  rw [setRow]
  refine (List.map_congr_left fun x hx => ?_).trans (List.map_id _)
  split_ifs with hxk
  · exact List.inj_on_of_nodup_map t.nodup hmem hx hxk.symm
  · rfl

/-- Setting the records that are there changes nothing. -/
theorem putAll_eq_self {rows : List (K × R)} (h : ∀ x ∈ rows, t.find? x.1 = some x.2) : t.putAll rows = t := by
  induction rows with
  | nil => rfl
  | cons x rows ih =>
    rw [List.forall_mem_cons] at h
    have hput : t.put x.1 x.2 = t := by
      have hkey : x.1 ∈ t.keys := List.mem_map_of_mem (mem_of_find? h.1)
      cases t with
      | mk rows nodup => simp only [put, if_pos hkey, setRow_of_find? h.1]
    rw [putAll, List.foldl_cons, hput]
    exact ih h.2

/-- The records after one is set, up to order. -/
theorem records_setRow_perm {old : R} (h : t.find? k = some old) :
    (old :: (setRow k r t.rows).map Prod.snd).Perm (r :: t.records) := by
  obtain ⟨l₁, l₂, hrows, hl₁⟩ := List.lookup_eq_some_iff.mp h
  have hnodup := t.nodup
  have hset : ∀ l : List (K × R), k ∉ l.map Prod.fst → setRow k r l = l := by
    intro l hl
    rw [setRow]
    refine (List.map_congr_left fun x hx => ?_).trans (List.map_id _)
    rw [if_neg]
    · rfl
    · rintro rfl
      exact hl (List.mem_map_of_mem hx)
  rw [hrows, List.map_append, List.map_cons] at hnodup
  have hl₂ : k ∉ l₂.map Prod.fst := (List.nodup_cons.mp hnodup.of_append_right).1
  have hl₁' : k ∉ l₁.map Prod.fst := fun hmem => List.disjoint_of_nodup_append hnodup hmem List.mem_cons_self
  have hsplit : setRow k r t.rows = l₁ ++ (k, r) :: l₂ := by
    rw [hrows]
    conv_rhs => rw [← hset l₁ hl₁', ← hset l₂ hl₂]
    simp [setRow]
  rw [hsplit, records, hrows, List.map_append, List.map_append, List.map_cons, List.map_cons]
  exact (List.perm_middle.cons old).trans ((List.Perm.swap _ _ _).trans (List.perm_middle.symm.cons r))

/-- A record that is set over another and leaves the records the same was that one. -/
theorem eq_of_records_perm {old : R} (h : t.find? k = some old)
    (hperm : t.records.Perm ((setRow k r t.rows).map Prod.snd)) : r = old := by
  have hcons : ([old] ++ t.records).Perm ([r] ++ t.records) := (hperm.cons old).trans (records_setRow_perm h)
  rw [List.perm_append_right_iff] at hcons
  exact (List.singleton_perm_singleton.mp hcons).symm

end Table

end Persona.Lib
