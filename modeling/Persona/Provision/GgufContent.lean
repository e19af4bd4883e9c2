import Persona.Provision.Gguf

/-!
# GGUF files of any content

`read_gguf_meta` on bytes that need not be those of a header. Only a `ValueError` of the reading loop
is taken for a file that is no model. Reading also ends in an exception when a string is announced that
is longer than the memory, or when arrays are nested too deeply (`HeaderOverruns`). After it no exception
of `int` and `//` is caught, so everything depends on the types of the values (`Convertible`): a list in the
place of a number raises, a text does unless it is an integer's, and a float that is no finite number.

`readGgufMeta_returns_iff` says that these are the only ways in which it raises.
-/

namespace Persona.Provision.Gguf

open Persona.Lib

/-- An exception that is not caught. -/
def Failure.Uncaught (e : Failure) : Prop := e ≠ .value

section

variable (O : Objects)

/-- A string is announced that there is no room for. -/
def TooLong (bytes : List UInt8) : Prop := ∃ n rest, ggufNumber 8 bytes = .ok (n, rest) ∧ O.room < n

/-- A value of the type that the bytes begin with, or after some of its elements one of them, is a string
that there is no room for, or an array that is nested too deeply. -/
inductive Overruns : ℕ → ℕ → List UInt8 → Prop
  | str {depth : ℕ} {bytes : List UInt8} (h : TooLong O bytes) : Overruns depth stringCode bytes
  | deep {bytes : List UInt8} : Overruns 0 arrayCode bytes
  | arr {depth elemType count k : ℕ} {bytes counted elements rest : List UInt8} {xs : List PyValue}
      (helem : ggufNumber 4 bytes = .ok (elemType, counted)) (hcount : ggufNumber 8 counted = .ok (count, elements))
      (hk : k < count) (hread : Decoder.times (ggufValue O depth elemType) k elements = .ok (xs, rest))
      (h : Overruns depth elemType rest) : Overruns (depth + 1) arrayCode bytes

/-- The key of an entry, or its value, overruns. -/
def EntryOverruns (depth : ℕ) (bytes : List UInt8) : Prop :=
  TooLong O bytes ∨ ∃ key typed vtype valued, ggufString O bytes = .ok (key, typed) ∧
    ggufNumber 4 typed = .ok (vtype, valued) ∧ Overruns O depth vtype valued

/-- After some of the entries that are announced, one overruns. -/
def HeaderOverruns (depth : ℕ) (bytes : List UInt8) : Prop :=
  ∃ version tensors n bytes₁ bytes₂ bytes₃, ggufNumber 4 bytes = .ok (version, bytes₁) ∧
    ggufNumber 8 bytes₁ = .ok (tensors, bytes₂) ∧ ggufNumber 8 bytes₂ = .ok (n, bytes₃) ∧
      ∃ k < n, ∃ kvs rest, Decoder.times (ggufEntry O depth) k bytes₃ = .ok (kvs, rest) ∧ EntryOverruns O depth rest

/-- The text of an integer, in no more digits than `int` reads. -/
structure IntText (s : String) : Prop where
  reads : (PyText.int O.decimal s).isSome
  digits : ∀ most ∈ O.digitLimit, ((PyText.strip s).toList.filter fun c => (O.decimal c).isSome).length ≤ most

/-- A value that `int` takes: an integer, a truth value, a finite float, or the text of an integer. -/
inductive IsInt : PyValue → Prop
  | int (n : ℤ) : IsInt (.int n)
  | bool (b : Bool) : IsInt (.bool b)
  | float (d : Double) : IsInt (.float (.num d))
  | str {s : String} (h : IntText O s) : IsInt (.str s)

/-- A value that is there and is not falsy is one that `int` takes. -/
def IntOrNone (v : Option PyValue) : Prop := ∀ x ∈ v, truthy x = true → IsInt O x

/-- The values are integers, or truth values, of which `//` makes an integer. -/
def Exactly (v w : PyValue) (m n : ℤ) : Prop := v.whole? = some m ∧ w.whole? = some n

/-- One of them is a float, and both are as doubles; a text or a list is none. -/
def Doubly (v w : PyValue) (x y : Binary64) : Prop :=
  (v.whole? = none ∨ w.whole? = none) ∧ v.double? = some x ∧ w.double? = some y

/-- They are numbers. -/
def Numbers (v w : PyValue) : Prop := (∃ m n, Exactly v w m n) ∨ ∃ x y, Doubly v w x y

/-- The quotient is less than one and has no sign: it is zero. -/
def Vanishes (v w : PyValue) : Prop :=
  (∀ m n, Exactly v w m n → 0 ≤ (m : ℚ) / n ∧ (m : ℚ) / n < 1) ∧ ∀ x y, Doubly v w x y → Binary64.Vanishes x y

/-- A quotient of floats is a number, and not past the limit. -/
def Regular (v w : PyValue) : Prop := ∀ x y, Doubly v w x y → Binary64.Regular x y

/-- The entries beside the dimension of a head are ones that `int` takes. -/
def OthersInt (a : String → Option PyValue) (nLayers nHeadKv : PyValue) : Prop :=
  IsInt O nLayers ∧ IntOrNone O (a "attention.head_count") ∧ IsInt O nHeadKv ∧ IntOrNone O (a "embedding_length")

/-- Where the entries that are needed are there, the dimension of a head is `key_length`, or the quotient of
two numbers; and unless it is falsy, `int` takes it and the other entries. -/
def FieldsConvertible (a : String → Option PyValue) : Prop :=
  ∀ nLayers, a "block_count" = some nLayers → ∀ nHeadKv, a "attention.head_count_kv" = some nHeadKv →
    (∀ d, a "attention.key_length" = some d → truthy d = true → IsInt O d ∧ OthersInt O a nLayers nHeadKv) ∧
    (a "attention.key_length" = none → ∀ nEmbd nHead, a "embedding_length" = some nEmbd → a "attention.head_count" = some nHead →
      truthy nEmbd = true → truthy nHead = true → Numbers nEmbd nHead ∧
        (Vanishes nEmbd nHead ∨ (Regular nEmbd nHead ∧ OthersInt O a nLayers nHeadKv)))

/-- If an architecture is named, its entries are convertible. -/
def Convertible (md : String → Option PyValue) : Prop :=
  ∀ arch, md "general.architecture" = some arch → truthy arch = true →
    FieldsConvertible O fun suffix => md (format O arch ++ "." ++ suffix)

end

/-! ### Reading -/

variable {O : Objects} {depth : ℕ} {bytes : List UInt8}

theorem not_fails_read {n : ℕ} : ¬ Decoder.Fails Failure.Uncaught (Decoder.read n) bytes := by
  rintro ⟨e, -, h⟩
  cases h

/-- A read that insists on its length ends in a `ValueError` at worst. -/
theorem not_fails_exactly {α : Type} {width : ℕ} (g : List UInt8 → α) :
    ¬ Decoder.Fails Failure.Uncaught
      (do
        let data ← Decoder.read width
        if data.length ≠ width then throw .value else pure (g data) : Read α) bytes := by
  rw [Decoder.fails_bind]
  rintro (h | ⟨data, rest, -, h⟩)
  · exact not_fails_read h
  · split_ifs at h
    · exact Decoder.fails_throw.mp h rfl
    · exact Decoder.not_fails_pure _ h

theorem not_fails_ggufBytes {width : ℕ} : ¬ Decoder.Fails Failure.Uncaught (ggufBytes width) bytes := not_fails_exactly id

theorem not_fails_ggufNumber {width : ℕ} : ¬ Decoder.Fails Failure.Uncaught (ggufNumber width) bytes :=
  fun h => not_fails_ggufBytes (Decoder.fails_map.mp h)

theorem fails_ggufString : Decoder.Fails Failure.Uncaught (ggufString O) bytes ↔ TooLong O bytes := by
  rw [ggufString, Decoder.fails_bind, or_iff_right not_fails_ggufNumber]
  refine exists₂_congr fun n rest => and_congr_right fun _ => ?_
  split_ifs with h
  · rw [Decoder.fails_throw]
    exact iff_of_true (by simp [Failure.Uncaught]) h
  · exact iff_of_false (not_fails_exactly (decode O)) h

theorem fails_str : Decoder.Fails Failure.Uncaught (ggufValue O depth stringCode) bytes ↔ Overruns O depth stringCode bytes := by
  rw [ggufValue_str, Decoder.fails_map, fails_ggufString]
  refine ⟨.str, fun h => ?_⟩
  cases h with
  | str h => exact h

/-- A scalar does not overrun, nor does what is of no type. -/
theorem fails_other {vtype : ℕ} (hstr : vtype ≠ stringCode) (harr : vtype ≠ arrayCode) :
    Decoder.Fails Failure.Uncaught (ggufValue O depth vtype) bytes ↔ Overruns O depth vtype bytes := by
  refine iff_of_false (fun h => ?_) fun h => ?_
  · cases ht : ScalarType.ofCode vtype with
    | none =>
      rw [ggufValue_other ht hstr harr, Decoder.fails_throw] at h
      exact h rfl
    | some t =>
      rw [ggufValue_scalar ht, Decoder.fails_map] at h
      exact not_fails_ggufBytes h
  · cases h with
    | str => exact hstr rfl
    | deep => exact harr rfl
    | arr => exact harr rfl

/-- The reader of a value ends in another exception exactly where the value overruns. -/
theorem fails_ggufValue {vtype : ℕ} :
    Decoder.Fails Failure.Uncaught (ggufValue O depth vtype) bytes ↔ Overruns O depth vtype bytes := by
  induction depth generalizing vtype bytes with
  | zero =>
    by_cases hstr : vtype = stringCode
    · exact hstr ▸ fails_str
    · by_cases harr : vtype = arrayCode
      · rw [harr, ggufValue_deep, Decoder.fails_throw]
        exact iff_of_true (by simp [Failure.Uncaught]) .deep
      · exact fails_other hstr harr
  | succ depth ih =>
    by_cases hstr : vtype = stringCode
    · exact hstr ▸ fails_str
    · by_cases harr : vtype = arrayCode
      · rw [harr, ggufValue_arr]
        simp only [Decoder.fails_bind, not_fails_ggufNumber, false_or, Decoder.fails_map, Decoder.fails_times, ih]
        constructor
        · rintro ⟨elemType, counted, helem, count, elements, hcount, k, hk, xs, rest, hread, h⟩
          exact .arr helem hcount hk hread h
        · intro h
          cases h with
          | arr helem hcount hk hread h => exact ⟨_, _, helem, _, _, hcount, _, hk, _, _, hread, h⟩
      · exact fails_other hstr harr

theorem fails_ggufEntry : Decoder.Fails Failure.Uncaught (ggufEntry O depth) bytes ↔ EntryOverruns O depth bytes := by
  simp only [ggufEntry, Decoder.fails_bind, fails_ggufString, not_fails_ggufNumber, fails_ggufValue, Decoder.not_fails_pure,
    and_false, exists_false, or_false, false_or, EntryOverruns]
  refine or_congr_right ⟨?_, ?_⟩
  · rintro ⟨key, typed, hkey, vtype, valued, htype, h⟩
    exact ⟨key, typed, vtype, valued, hkey, htype, h⟩
  · rintro ⟨key, typed, vtype, valued, hkey, htype, h⟩
    exact ⟨key, typed, hkey, vtype, valued, htype, h⟩

theorem fails_ggufEntries : Decoder.Fails Failure.Uncaught (ggufEntries O depth) bytes ↔ HeaderOverruns O depth bytes := by
  simp only [ggufEntries, Decoder.fails_bind, not_fails_ggufNumber, Decoder.fails_times, fails_ggufEntry, false_or,
    HeaderOverruns]
  constructor
  · rintro ⟨version, bytes₁, h₁, tensors, bytes₂, h₂, n, bytes₃, h₃, h⟩
    exact ⟨version, tensors, n, bytes₁, bytes₂, bytes₃, h₁, h₂, h₃, h⟩
  · rintro ⟨version, tensors, n, bytes₁, bytes₂, bytes₃, h₁, h₂, h₃, h⟩
    exact ⟨version, bytes₁, h₁, tensors, bytes₂, h₂, n, bytes₃, h₃, h⟩

/-! ### Interpreting -/

theorem isInt_iff {v : PyValue} : IsInt O v ↔ toInt O v ≠ none := by
  cases v with
  | int n => exact iff_of_true (.int n) (Option.some_ne_none _)
  | bool b => exact iff_of_true (.bool b) (Option.some_ne_none _)
  | float x =>
    cases x with
    | num d => exact iff_of_true (.float d) (Option.some_ne_none _)
    | nan => exact iff_of_false (fun h => by cases h) (fun h => h rfl)
    | inf s => exact iff_of_false (fun h => by cases h) (fun h => h rfl)
  | list xs => exact iff_of_false (fun h => by cases h) (fun h => h rfl)
  | str s =>
    have htext : IsInt O (.str s) ↔ IntText O s := ⟨fun h => by cases h with | str h => exact h, .str⟩
    rw [htext, toInt, intOfStr]
    cases hlimit : O.digitLimit with
    | none =>
      rw [Option.any_none, if_neg Bool.false_ne_true, ← Option.isSome_iff_ne_none]
      exact ⟨IntText.reads, fun h => ⟨h, by simp [hlimit]⟩⟩
    | some most =>
      rw [Option.any_some]
      split_ifs with hover
      · refine iff_of_false (fun h => ?_) (fun h => h rfl)
        exact absurd (h.digits most hlimit) (Nat.not_le.mpr (by simpa using hover))
      · rw [← Option.isSome_iff_ne_none]
        refine ⟨IntText.reads, fun h => ⟨h, ?_⟩⟩
        rintro most' hmost'
        obtain rfl : most = most' := by rw [hlimit] at hmost'; exact Option.some.inj hmost'
        simpa using hover

theorem intOrNone_iff {v : Option PyValue} : IntOrNone O v ↔ toInt? O v ≠ none := by
  cases v with
  | none => simp [toInt?, IntOrNone]
  | some x =>
    rw [toInt?, IntOrNone]
    split_ifs with h <;> simp [h, isInt_iff]

/-! ### Dividing -/

section

variable {v w : PyValue}

theorem fdiv_eq_floor (m n : ℤ) : m.fdiv n = ⌊(m : ℚ) / n⌋ := by
  obtain ⟨d, rfl | rfl⟩ := Int.eq_nat_or_neg n
  · rw [Int.fdiv_eq_ediv_of_nonneg _ (Int.natCast_nonneg d), Int.cast_natCast, Rat.floor_intCast_div_natCast]
  · have hswap : (m : ℚ) / ((-(d : ℤ) : ℤ) : ℚ) = ((-m : ℤ) : ℚ) / d := by
      push_cast
      rw [div_neg, neg_div]
    rw [hswap, Rat.floor_intCast_div_natCast, ← Int.neg_fdiv_neg, neg_neg, Int.fdiv_eq_ediv_of_nonneg _ (Int.natCast_nonneg d)]

theorem floorDiv_of_exactly {m n : ℤ} (h : Exactly v w m n) : floorDiv v w = some (.int (m.fdiv n)) := by
  rw [floorDiv, h.1, h.2]

theorem floorDiv_of_not_exactly (h : v.whole? = none ∨ w.whole? = none) : floorDiv v w = (do
    let x ← v.double?
    let y ← w.double?
    some (.float (x.floorDiv y))) := by
  unfold floorDiv
  split
  · next hv hw =>
    rcases h with h | h
    · rw [hv] at h
      cases h
    · rw [hw] at h
      cases h
  · rfl

theorem floorDiv_of_doubly {x y : Binary64} (h : Doubly v w x y) : floorDiv v w = some (.float (x.floorDiv y)) := by
  rw [floorDiv_of_not_exactly h.1, h.2.1, h.2.2]
  rfl

/-- Two values are both exact or both doubles, or they cannot be divided. -/
theorem numbers_or : Numbers v w ∨ floorDiv v w = none := by
  cases hv : v.whole? with
  | some m =>
    cases hw : w.whole? with
    | some n => exact .inl (.inl ⟨m, n, hv, hw⟩)
    | none =>
      rw [floorDiv_of_not_exactly (.inr hw)]
      cases hx : v.double? with
      | none => exact .inr rfl
      | some x =>
        cases hy : w.double? with
        | none => exact .inr rfl
        | some y => exact .inl (.inr ⟨x, y, .inr hw, hx, hy⟩)
  | none =>
    rw [floorDiv_of_not_exactly (.inl hv)]
    cases hx : v.double? with
    | none => exact .inr rfl
    | some x =>
      cases hy : w.double? with
      | none => exact .inr rfl
      | some y => exact .inl (.inr ⟨x, y, .inl hv, hx, hy⟩)

theorem not_doubly_of_exactly {m n : ℤ} {x y : Binary64} (h : Exactly v w m n) : ¬ Doubly v w x y := by
  rintro ⟨hnone | hnone, -⟩
  · rw [h.1] at hnone
    cases hnone
  · rw [h.2] at hnone
    cases hnone

/-- What is not falsy is not zero as a double. -/
theorem isZero_double {y : Binary64} (htrue : truthy w = true) (h : w.double? = some y) : y.isZero = false := by
  cases w with
  | int n =>
    rw [PyValue.double?] at h
    split_ifs at h
    rw [← Option.some.inj h]
    exact Binary64.isZero_round_intCast (by simpa [truthy] using htrue)
  | bool b =>
    obtain rfl : b = true := htrue
    rw [← Option.some.inj h]
    exact Binary64.isZero_round_intCast (by decide)
  | float x =>
    obtain rfl := Option.some.inj h
    simpa [truthy] using htrue
  | str s => cases h
  | list xs => cases h

/-- **What `//` does**: it takes numbers; the quotient is falsy when it is less than one and has no sign, and
`int` takes it when a quotient of floats is not past the limit. -/
theorem floorDiv_spec (O : Objects) (htrue : truthy w = true) : (floorDiv v w ≠ none ↔ Numbers v w) ∧
    ∀ d, floorDiv v w = some d → (truthy d = false ↔ Vanishes v w) ∧ (toInt O d ≠ none ↔ Regular v w) := by
  rcases @numbers_or v w with (⟨m, n, h⟩ | ⟨x, y, h⟩) | hnone
  · rw [floorDiv_of_exactly h]
    refine ⟨iff_of_true (Option.some_ne_none _) (.inl ⟨m, n, h⟩), ?_⟩
    rintro d hd
    obtain rfl := Option.some.inj hd
    constructor
    · have hzero : truthy (.int (m.fdiv n)) = false ↔ m.fdiv n = 0 := by simp [truthy]
      rw [hzero, fdiv_eq_floor, Int.floor_eq_zero_iff, Set.mem_Ico, Vanishes]
      refine ⟨fun hq => ⟨fun m' n' h' => ?_, fun x y hxy => absurd hxy (not_doubly_of_exactly h)⟩, fun hq => hq.1 m n h⟩
      obtain rfl : m = m' := Option.some.inj (h.1.symm.trans h'.1)
      obtain rfl : n = n' := Option.some.inj (h.2.symm.trans h'.2)
      exact hq
    · exact iff_of_true (Option.some_ne_none _) fun x y hxy => absurd hxy (not_doubly_of_exactly h)
  · rw [floorDiv_of_doubly h]
    have hy := isZero_double htrue h.2.2
    have hunique : ∀ {P : Binary64 → Binary64 → Prop}, (∀ x' y', Doubly v w x' y' → P x' y') ↔ P x y := by
      intro P
      refine ⟨fun hall => hall x y h, fun hP x' y' h' => ?_⟩
      obtain rfl : x = x' := Option.some.inj (h.2.1.symm.trans h'.2.1)
      obtain rfl : y = y' := Option.some.inj (h.2.2.symm.trans h'.2.2)
      exact hP
    refine ⟨iff_of_true (Option.some_ne_none _) (.inr ⟨x, y, h⟩), ?_⟩
    rintro d hd
    obtain rfl := Option.some.inj hd
    constructor
    · have hexact : ∀ m n, Exactly v w m n → 0 ≤ (m : ℚ) / n ∧ (m : ℚ) / n < 1 :=
        fun m n hmn => absurd h (not_doubly_of_exactly hmn)
      rw [Vanishes, hunique, ← Binary64.isZero_floorDiv_iff hy, and_iff_right hexact]
      simp [truthy]
    · rw [Regular, hunique, ← Binary64.isFinite_floorDiv_iff hy]
      cases x.floorDiv y <;> simp [toInt, Binary64.isFinite]
  · rw [hnone]
    refine ⟨iff_of_false (fun h => h rfl) ?_, fun d hd => by cases hd⟩
    rintro (⟨m, n, h⟩ | ⟨x, y, h⟩)
    · rw [floorDiv_of_exactly h] at hnone
      cases hnone
    · rw [floorDiv_of_doubly h] at hnone
      cases hnone

end

/-! ### The fields -/

/-- The dimension of a head, and what is made of it, by the types of the values. -/
theorem headDim_iff {keyLength nEmbd nHead : Option PyValue} {others : Prop} :
    (headDim keyLength nEmbd nHead ≠ none ∧
      ∀ d, headDim keyLength nEmbd nHead = some (some d) → truthy d = true → toInt O d ≠ none ∧ others) ↔
      (∀ d, keyLength = some d → truthy d = true → IsInt O d ∧ others) ∧
        (keyLength = none → ∀ e n, nEmbd = some e → nHead = some n → truthy e = true → truthy n = true →
          Numbers e n ∧ (Vanishes e n ∨ (Regular e n ∧ others))) := by
  cases keyLength with
  | some d => simp [headDim, isInt_iff]
  | none =>
    cases nEmbd with
    | none => simp [headDim]
    | some e =>
      cases nHead with
      | none => simp [headDim]
      | some n =>
        by_cases htrue : truthy e = true ∧ truthy n = true
        · obtain ⟨hnumbers, hquotient⟩ := @floorDiv_spec e n O htrue.2
          have hdim : headDim none (some e) (some n) = (floorDiv e n).map some := by
            rw [headDim, htrue.1, htrue.2]
            rfl
          rw [hdim]
          cases hdiv : floorDiv e n with
          | none =>
            have hnot : ¬ Numbers e n := fun h => hnumbers.mpr h hdiv
            simp [htrue.1, htrue.2, hnot]
          | some d =>
            obtain ⟨hzero, hint⟩ := hquotient d hdiv
            have hyes : Numbers e n := hnumbers.mp (by rw [hdiv]; exact Option.some_ne_none _)
            by_cases hd : truthy d = true
            · have hnot : ¬ Vanishes e n := fun h => by rw [hzero.mpr h] at hd; cases hd
              simp [htrue.1, htrue.2, hyes, hnot, hd, ← hint]
            · have hvanish : Vanishes e n := hzero.mp (by simpa using hd)
              simp [htrue.1, htrue.2, hyes, hvanish, hd]
        · have hdim : headDim none (some e) (some n) = some none := by
            rw [headDim, if_neg (by simpa using htrue)]
          rw [hdim]
          have hnot : ∀ {P : Prop}, (truthy e = true → truthy n = true → P) ↔ True := fun {P} =>
            iff_true_intro fun he hn => absurd ⟨he, hn⟩ htrue
          simp [hnot]

/-- What is returned when all the numbers are there. -/
theorem numbers_ne_none_iff (arch : PyValue) {nLayers nHeadKv d : PyValue} {nHead nEmbd : Option PyValue} :
    (do
      let nLayers ← toInt O nLayers
      let nHead ← toInt? O nHead
      let nHeadKv ← toInt O nHeadKv
      let nEmbd ← toInt? O nEmbd
      let d ← toInt O d
      pure (some (⟨arch, nLayers, nHead, nHeadKv, nEmbd, d⟩ : Meta)) : Option (Option Meta)) ≠ none ↔
      toInt O d ≠ none ∧ IsInt O nLayers ∧ IntOrNone O nHead ∧ IsInt O nHeadKv ∧ IntOrNone O nEmbd := by
  rw [intOrNone_iff, intOrNone_iff, isInt_iff, isInt_iff]
  cases toInt O nLayers with
  | none => simp
  | some _ =>
    cases toInt? O nHead with
    | none => simp
    | some _ =>
      cases toInt O nHeadKv with
      | none => simp
      | some _ =>
        cases toInt? O nEmbd with
        | none => simp
        | some _ => cases toInt O d <;> simp

/-- The interpretation of the entries raises exactly if they are not convertible. -/
theorem summary_ne_none_iff {md : String → Option PyValue} : summary O md ≠ none ↔ Convertible O md := by
  unfold summary Convertible
  cases harch : md "general.architecture" with
  | none => simp
  | some arch =>
    by_cases htrue : truthy arch = true
    · simp only [htrue, Bool.true_eq_false, if_false, Option.some.injEq, forall_eq', FieldsConvertible, true_implies]
      cases md (format O arch ++ "." ++ "block_count") with
      | none => simp
      | some nLayers =>
        cases md (format O arch ++ "." ++ "attention.head_count_kv") with
        | none => simp
        | some nHeadKv =>
          simp only [Option.some.injEq, forall_eq']
          have hdim := @headDim_iff O (md (format O arch ++ "." ++ "attention.key_length"))
            (md (format O arch ++ "." ++ "embedding_length")) (md (format O arch ++ "." ++ "attention.head_count"))
            (OthersInt O (fun suffix => md (format O arch ++ "." ++ suffix)) nLayers nHeadKv)
          rw [← hdim]
          cases headDim (md (format O arch ++ "." ++ "attention.key_length"))
              (md (format O arch ++ "." ++ "embedding_length")) (md (format O arch ++ "." ++ "attention.head_count")) with
          | none => simp
          | some dim =>
            cases dim with
            | none => simp
            | some d =>
              by_cases hd : truthy d = true
              · simpa [hd, OthersInt] using numbers_ne_none_iff arch
              · simp [hd]
    · simp [htrue]

/-- The entries of a small model with a number of heads for each layer. -/
def layeredEntries : List (String × GgufValue) :=
  [("general.architecture", .str (Bytes.encode "a")), ("a.block_count", .scalar .uint32 2),
    ("a.attention.head_count_kv", .arr 4 [.scalar .uint32 8, .scalar .uint32 1]), ("a.attention.key_length", .scalar .uint32 64)]

theorem wellFormed_layered : ∀ kv ∈ layeredEntries, kv.2.WellFormed Objects.none.room 1 := by
  intro kv hkv
  simp only [layeredEntries, List.mem_cons, List.not_mem_nil, or_false] at hkv
  rcases hkv with rfl | rfl | rfl | rfl
  · exact .str (by decide) (by decide)
  · exact .scalar (by decide)
  · refine .arr (by decide) (by decide) (by decide) fun x hx => ?_
    simp only [List.mem_cons, List.not_mem_nil, or_false] at hx
    rcases hx with rfl | rfl <;> exact .scalar (by decide)
  · exact .scalar (by decide)

/-- Its header. -/
def layered : Header Objects.none.room 1 :=
  { small with
    entries := layeredEntries
    length_lt := by decide
    keys_nodup := by decide
    key_length_lt := by decide
    key_length_le := by decide
    wellFormed := wellFormed_layered }

end Persona.Provision.Gguf
