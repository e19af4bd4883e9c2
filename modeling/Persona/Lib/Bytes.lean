import Mathlib.Data.List.Basic
import Mathlib.Tactic.Ring

/-!
# Bytes

Numbers and texts as bytes, and reading bytes that come in pieces.

A number has a fixed width, the least significant byte first (`toLittle`) or last (`toBig`).
A `Reader` is a stream: what has arrived and has not been read, and the pieces that are still
to come. `readExactly` waits until enough has arrived; what it returns does not depend on how
the bytes were cut into pieces (`readExactly_append`).
-/

namespace Persona.Lib

namespace Bytes

/-! ### Numbers -/

/-- `n.to_bytes(w, "little")`. -/
def toLittle : ℕ → ℕ → List UInt8
  | 0, _ => []
  | w + 1, n => UInt8.ofNat (n % 256) :: toLittle w (n / 256)

/-- `int.from_bytes(bs, "little")`. -/
def ofLittle : List UInt8 → ℕ
  | [] => 0
  | b :: bs => b.toNat + 256 * ofLittle bs

/-- `n.to_bytes(w, "big")`. -/
def toBig (w n : ℕ) : List UInt8 := (toLittle w n).reverse

/-- `int.from_bytes(bs, "big")`. -/
def ofBig (bs : List UInt8) : ℕ := ofLittle bs.reverse

theorem toLittle_succ (w n : ℕ) : toLittle (w + 1) n = UInt8.ofNat (n % 256) :: toLittle w (n / 256) := rfl

theorem ofLittle_cons (b : UInt8) (bs : List UInt8) : ofLittle (b :: bs) = b.toNat + 256 * ofLittle bs := rfl

@[simp] theorem length_toLittle (w n : ℕ) : (toLittle w n).length = w := by
  induction w generalizing n with
  | zero => rfl
  | succ w ih => rw [toLittle_succ, List.length_cons, ih]

@[simp] theorem length_toBig (w n : ℕ) : (toBig w n).length = w := by rw [toBig, List.length_reverse, length_toLittle]

theorem ofLittle_toLittle {w n : ℕ} (h : n < 256 ^ w) : ofLittle (toLittle w n) = n := by
  induction w generalizing n with
  | zero =>
    obtain rfl : n = 0 := by simpa using h
    rfl
  | succ w ih =>
    have hdiv : n / 256 < 256 ^ w := Nat.div_lt_of_lt_mul (by rwa [pow_succ'] at h)
    have hbyte : (UInt8.ofNat (n % 256)).toNat = n % 256 :=
      UInt8.toNat_ofNat_of_lt (show n % 256 < 256 from Nat.mod_lt n (by decide))
    rw [toLittle_succ, ofLittle_cons, ih hdiv, hbyte, Nat.mod_add_div]

theorem ofBig_toBig {w n : ℕ} (h : n < 256 ^ w) : ofBig (toBig w n) = n := by
  rw [ofBig, toBig, List.reverse_reverse, ofLittle_toLittle h]

/-! ### Texts -/

/-- `s.encode("utf-8")`. -/
def encode (s : String) : List UInt8 := s.toUTF8.data.toList

/-- `bs.decode("utf-8")`; `none` when it raises. -/
def decode (bs : List UInt8) : Option String := String.fromUTF8? ⟨bs.toArray⟩

@[simp] theorem decode_encode (s : String) : decode (encode s) = some s := by
  have hvalid : s.toByteArray.IsValidUTF8 := s.isValidUTF8
  have hbytes : (⟨s.toUTF8.data.toList.toArray⟩ : ByteArray) = s.toByteArray := rfl
  rw [decode, encode, hbytes, String.fromUTF8?, dif_pos hvalid]
  rfl

@[simp] theorem encode_eq_nil_iff {s : String} : encode s = [] ↔ s = "" := by
  constructor
  · intro h
    have hdecode := decode_encode s
    rw [h] at hdecode
    exact (Option.some.inj hdecode).symm
  · rintro rfl
    rfl

end Bytes

/-! ### Streams -/

/-- A stream of `α` from which one side reads: what has arrived, and the pieces to come before
the stream ends. -/
structure Reader (α : Type*) where
  buffer : List α
  coming : List (List α)

namespace Reader

variable {α : Type*}

/-- All that can be read. -/
def contents (r : Reader α) : List α := r.buffer ++ r.coming.flatten

/-- `readexactly`, when `buffer` has arrived; `none` when the stream ends before. -/
def readFrom (n : ℕ) : List α → List (List α) → Option (List α × Reader α)
  | buffer, [] => if n ≤ buffer.length then some (buffer.take n, ⟨buffer.drop n, []⟩) else none
  | buffer, piece :: coming =>
    if n ≤ buffer.length then some (buffer.take n, ⟨buffer.drop n, piece :: coming⟩)
    else readFrom n (buffer ++ piece) coming

/-- `readexactly(n)`. -/
def readExactly (r : Reader α) (n : ℕ) : Option (List α × Reader α) := readFrom n r.buffer r.coming

/-- What is read is what comes next, wherever the pieces are cut. -/
theorem readExactly_of_le {r : Reader α} {n : ℕ} (h : n ≤ r.contents.length) :
    ∃ r' : Reader α, r.readExactly n = some (r.contents.take n, r') ∧ r'.contents = r.contents.drop n := by
  obtain ⟨buffer, coming⟩ := r
  rw [contents] at h ⊢
  unfold readExactly
  dsimp only at h ⊢
  induction coming generalizing buffer with
  | nil =>
    rw [List.flatten_nil, List.append_nil] at h ⊢
    exact ⟨⟨buffer.drop n, []⟩, by rw [readFrom, if_pos h], by simp [contents]⟩
  | cons piece coming ih =>
    by_cases hn : n ≤ buffer.length
    · refine ⟨⟨buffer.drop n, piece :: coming⟩, ?_, ?_⟩
      · rw [readFrom, if_pos hn, List.take_append_of_le_length hn]
      · rw [contents, List.drop_append_of_le_length hn]
    · rw [List.flatten_cons, ← List.append_assoc] at h ⊢
      rw [readFrom, if_neg hn]
      exact ih (buffer ++ piece) h

/-- A stream that ends too early is not read from. -/
theorem readExactly_of_lt {r : Reader α} {n : ℕ} (h : r.contents.length < n) : r.readExactly n = none := by
  obtain ⟨buffer, coming⟩ := r
  rw [contents] at h
  unfold readExactly
  dsimp only at h ⊢
  induction coming generalizing buffer with
  | nil =>
    rw [List.flatten_nil, List.append_nil] at h
    rw [readFrom, if_neg (by omega)]
  | cons piece coming ih =>
    rw [List.flatten_cons, ← List.append_assoc] at h
    have hn : ¬ n ≤ buffer.length := by
      simp only [List.length_append] at h
      omega
    rw [readFrom, if_neg hn]
    exact ih (buffer ++ piece) h

/-- What is read from a stream that begins with `xs`. -/
theorem readExactly_append {r : Reader α} {xs rest : List α} (h : r.contents = xs ++ rest) :
    ∃ r' : Reader α, r.readExactly xs.length = some (xs, r') ∧ r'.contents = rest := by
  obtain ⟨r', hread, hrest⟩ := readExactly_of_le (r := r) (n := xs.length) (by simp [h])
  rw [h, List.take_left] at hread
  rw [h, List.drop_left] at hrest
  exact ⟨r', hread, hrest⟩

end Reader

end Persona.Lib
