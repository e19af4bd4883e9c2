import Mathlib.Data.List.Infix

/-!
# Decoders

A decoder takes what it reads from the front of a list and may fail. It *reads* an encoding
when it takes just the encoding from any list that begins with it, and fails on a list that
ends within it (`Reads`). Decoders that are run one after the other read the encodings one
after the other, so what reads a format is found from what reads its parts.
-/

namespace Persona.Lib

universe u

variable {ε : Type*} {α β γ : Type u}

/-- A decoder of lists of `β`. -/
abbrev Decoder (ε : Type*) (β : Type u) := StateT (List β) (Except ε)

namespace Decoder

/-- `f.read(n)`: what comes next, which may be less at the end. -/
def read (n : ℕ) : Decoder ε β (List β) := fun bs => .ok (bs.take n, bs.drop n)

/-- The same decoder a number of times. -/
def times (r : Decoder ε β α) : ℕ → Decoder ε β (List α)
  | 0 => pure []
  | n + 1 => do
    let a ← r
    let as ← times r n
    pure (a :: as)

/-- The decoder fails on the list, with an error of a kind. -/
def Fails (kind : ε → Prop) (r : Decoder ε β α) (bs : List β) : Prop := ∃ e, kind e ∧ r bs = .error e

/-- The decoder reads the encoding and finds the value, and fails with `e` within it. -/
structure Reads (e : ε) (r : Decoder ε β α) (code : List β) (a : α) : Prop where
  whole : ∀ tail, r (code ++ tail) = .ok (a, tail)
  cut : ∀ p, p <+: code → p ≠ code → r p = .error e

variable {e : ε} {r : Decoder ε β α} {code code' : List β} {a : α} {f : α → Decoder ε β γ} {c : γ}

theorem Reads.pure (a : α) : Reads e (pure a : Decoder ε β α) [] a where
  whole _ := rfl
  cut _ hp hne := absurd (List.prefix_nil.mp hp) hne

/-- **One after the other.** -/
theorem Reads.bind (hr : Reads e r code a) (hf : Reads e (f a) code' c) : Reads e (r >>= f) (code ++ code') c where
  whole tail := by
    have h : (r >>= f) (code ++ code' ++ tail) = r (code ++ code' ++ tail) >>= fun x => f x.1 x.2 := rfl
    rw [h, List.append_assoc, hr.whole]
    exact hf.whole tail
  cut p hp hne := by
    have h : (r >>= f) p = r p >>= fun x => f x.1 x.2 := rfl
    rw [h]
    rcases List.prefix_or_prefix_of_prefix hp (List.prefix_append code code') with hpre | ⟨p', rfl⟩
    · by_cases heq : p = code
      · -- the second encoding is cut at its start
        have hshort : ([] : List β) ≠ code' := by
          rintro rfl
          exact hne (by rw [heq, List.append_nil])
        rw [heq, ← List.append_nil code, hr.whole]
        exact hf.cut [] List.nil_prefix hshort
      · rw [hr.cut p hpre heq]
        rfl
    · rw [hr.whole]
      exact hf.cut p' ((List.prefix_append_right_inj code).mp hp) fun heq => hne (by rw [heq])

theorem Reads.map {g : α → γ} (hr : Reads e r code a) : Reads e (g <$> r) code (g a) := by
  have h : Reads e (r >>= fun a => Pure.pure (g a)) (code ++ []) (g a) := hr.bind (.pure _)
  rwa [List.append_nil] at h

/-- Encodings of the same kind, one after the other. -/
theorem Reads.times {δ : Type*} {enc : δ → List β} {val : δ → α} {xs : List δ} (h : ∀ x ∈ xs, Reads e r (enc x) (val x)) :
    Reads e (times r xs.length) (xs.flatMap enc) (xs.map val) := by
  induction xs with
  | nil => exact .pure []
  | cons x xs ih =>
    rw [List.flatMap_cons, List.map_cons, List.length_cons, Decoder.times]
    refine (h x List.mem_cons_self).bind ?_
    have hrest : Reads e (Decoder.times r xs.length >>= fun as => Pure.pure (val x :: as)) (xs.flatMap enc ++ [])
        (val x :: xs.map val) := (ih fun y hy => h y (List.mem_cons_of_mem x hy)).bind (.pure _)
    rwa [List.append_nil] at hrest

/-! ### Where a decoder fails -/

variable {kind : ε → Prop} {bs : List β}

theorem not_fails_pure (a : α) : ¬ Fails kind (pure a : Decoder ε β α) bs := by
  rintro ⟨e, -, h⟩
  cases h

theorem fails_throw : Fails kind (throw e : Decoder ε β α) bs ↔ kind e := by
  constructor
  · rintro ⟨e', he, h⟩
    obtain rfl : e = e' := Except.error.inj h
    exact he
  · exact fun he => ⟨e, he, rfl⟩

/-- Of two decoders the first fails, or the second where the first stops. -/
theorem fails_bind : Fails kind (r >>= f) bs ↔ Fails kind r bs ∨ ∃ a rest, r bs = .ok (a, rest) ∧ Fails kind (f a) rest := by
  have hbind : (r >>= f) bs = r bs >>= fun x => f x.1 x.2 := rfl
  constructor
  · rintro ⟨e, he, h⟩
    rw [hbind] at h
    cases hr : r bs with
    | error e' =>
      rw [hr] at h
      obtain rfl : e' = e := Except.error.inj h
      exact .inl ⟨e', he, hr⟩
    | ok x =>
      rw [hr] at h
      exact .inr ⟨x.1, x.2, rfl, e, he, h⟩
  · rintro (⟨e, he, h⟩ | ⟨a, rest, hr, e, he, h⟩)
    · exact ⟨e, he, by rw [hbind, h]; rfl⟩
    · exact ⟨e, he, by rw [hbind, hr]; exact h⟩

theorem fails_map {g : α → γ} : Fails kind (g <$> r) bs ↔ Fails kind r bs := by
  have hmap : (g <$> r : Decoder ε β γ) = r >>= fun a => pure (g a) := rfl
  rw [hmap, fails_bind]
  simp only [not_fails_pure, and_false, exists_false, or_false]

/-- One of the runs fails, those before it having gone well. -/
theorem fails_times {n : ℕ} :
    Fails kind (times r n) bs ↔ ∃ k < n, ∃ as rest, times r k bs = .ok (as, rest) ∧ Fails kind r rest := by
  induction n generalizing bs with
  | zero => simp [times, not_fails_pure]
  | succ n ih =>
    rw [times, fails_bind]
    simp only [fails_bind, not_fails_pure, and_false, exists_false, or_false, ih]
    constructor
    · rintro (hr | ⟨a, rest, hr, k, hk, as, rest', htimes, hfails⟩)
      · exact ⟨0, n.succ_pos, [], bs, rfl, hr⟩
      · refine ⟨k + 1, Nat.succ_lt_succ hk, a :: as, rest', ?_, hfails⟩
        have hstep : times r (k + 1) bs = r bs >>= fun x => (times r k >>= fun as => pure (x.1 :: as)) x.2 := rfl
        have hrest : (times r k >>= fun as => pure (a :: as)) rest =
            times r k rest >>= fun x => (pure (a :: x.1) : Decoder ε β (List α)) x.2 := rfl
        rw [hstep, hr]
        change (times r k >>= fun as => pure (a :: as)) rest = _
        rw [hrest, htimes]
        rfl
    · rintro ⟨k, hk, as, rest', htimes, hfails⟩
      cases k with
      | zero =>
        obtain ⟨rfl, rfl⟩ := Prod.mk.inj (Except.ok.inj htimes)
        exact .inl hfails
      | succ k =>
        have hstep : times r (k + 1) bs = r bs >>= fun x => times r k x.2 >>= fun y => .ok (x.1 :: y.1, y.2) := rfl
        rw [hstep] at htimes
        cases hr : r bs with
        | error e' =>
          rw [hr] at htimes
          cases htimes
        | ok x =>
          rw [hr] at htimes
          change (times r k x.2 >>= fun y => .ok (x.1 :: y.1, y.2)) = _ at htimes
          cases hk' : times r k x.2 with
          | error e' =>
            rw [hk'] at htimes
            cases htimes
          | ok y =>
            rw [hk'] at htimes
            obtain ⟨-, rfl⟩ := Prod.mk.inj (Except.ok.inj htimes)
            exact .inr ⟨x.1, x.2, rfl, k, Nat.lt_of_succ_lt_succ hk, y.1, y.2, hk', hfails⟩

end Decoder

end Persona.Lib
