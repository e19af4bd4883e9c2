import Persona.Lib.TextFile

/-!
# Codecs

A code gives each value a list, such that what a list begins with can be told. A list is then the code of one
sequence of values at most, and decoding finds it (`decode_eq_some_iff`); codes of codes are decoded one after
the other (`decode_bind_eq_some_iff`).

UTF-8 is a code over bytes. UTF-16 is one over words, which have a code over bytes for each of the two orders.
-/

namespace Persona.Lib

/-- A code of `α` over `β`. -/
structure Codec (α β : Type*) where
  encode : α → List β
  /-- What the list begins with, and what is left; `none` when it begins with no code. -/
  next : List β → Option (α × List β)
  next_eq_some_iff : ∀ {bs a rest}, next bs = some (a, rest) ↔ bs = encode a ++ rest
  encode_ne_nil : ∀ a, encode a ≠ []

namespace Codec

variable {α β γ : Type*} (K : Codec α β) (M : Codec γ α)

/-- The values of the list, `fuel` at most; `none` when it is no code. -/
def decodeFrom : ℕ → List β → Option (List α)
  | _, [] => some []
  | 0, _ => none
  | fuel + 1, bs => (K.next bs).bind fun x => (decodeFrom fuel x.2).map (x.1 :: ·)

/-- The values of a list. -/
def decode (bs : List β) : Option (List α) := K.decodeFrom bs.length bs

/-- The code of a sequence. -/
def encodeAll (as : List α) : List β := as.flatMap K.encode

variable {K M} {a : α} {as : List α} {bs rest : List β} {cs : List γ}

theorem encodeAll_cons (a : α) (as : List α) : K.encodeAll (a :: as) = K.encode a ++ K.encodeAll as := rfl

theorem decodeFrom_cons (fuel : ℕ) (b : β) (bs : List β) : K.decodeFrom (fuel + 1) (b :: bs) =
    (K.next (b :: bs)).bind fun x => (K.decodeFrom fuel x.2).map (x.1 :: ·) := rfl

theorem length_le_encodeAll (as : List α) : as.length ≤ (K.encodeAll as).length := by
  induction as with
  | nil => exact Nat.zero_le _
  | cons a as ih =>
    have hpos := List.length_pos_iff.mpr (K.encode_ne_nil a)
    rw [encodeAll_cons, List.length_append, List.length_cons]
    omega

theorem decodeFrom_eq_some_iff {fuel : ℕ} (hfuel : bs.length ≤ fuel) : K.decodeFrom fuel bs = some as ↔ bs = K.encodeAll as := by
  induction fuel generalizing bs as with
  | zero =>
    obtain rfl := List.length_eq_zero_iff.mp (Nat.le_zero.mp hfuel)
    cases as with
    | nil => exact ⟨fun _ => rfl, fun _ => rfl⟩
    | cons a as => simp [decodeFrom, encodeAll_cons, K.encode_ne_nil a]
  | succ fuel ih =>
    cases bs with
    | nil =>
      cases as with
      | nil => exact ⟨fun _ => rfl, fun _ => rfl⟩
      | cons a as => simp [decodeFrom, encodeAll_cons, K.encode_ne_nil a]
    | cons b bs =>
      have hshort : ∀ {a rest}, b :: bs = K.encode a ++ rest → rest.length ≤ fuel := by
        intro a rest heq
        have hpos := List.length_pos_iff.mpr (K.encode_ne_nil a)
        have hlen := congrArg List.length heq
        rw [List.length_append] at hlen
        omega
      rw [decodeFrom_cons, Option.bind_eq_some_iff]
      constructor
      · rintro ⟨⟨a, rest⟩, hnext, hrest⟩
        obtain ⟨as, has, rfl⟩ := Option.map_eq_some_iff.mp hrest
        have heq := K.next_eq_some_iff.mp hnext
        rw [ih (hshort heq)] at has
        rw [heq, encodeAll_cons, ← has]
      · intro heq
        cases as with
        | nil => cases heq
        | cons a as =>
          refine ⟨(a, K.encodeAll as), K.next_eq_some_iff.mpr heq, ?_⟩
          exact congrArg (Option.map (a :: ·)) ((ih (hshort heq)).mpr rfl)

/-- **Decoding** finds the sequence that the list is the code of. -/
theorem decode_eq_some_iff : K.decode bs = some as ↔ bs = K.encodeAll as := decodeFrom_eq_some_iff le_rfl

@[simp] theorem decode_encodeAll (as : List α) : K.decode (K.encodeAll as) = some as := decode_eq_some_iff.mpr rfl

theorem encodeAll_injective : Function.Injective K.encodeAll := by
  intro as as' h
  have hdecode := congrArg K.decode h
  rw [decode_encodeAll, decode_encodeAll] at hdecode
  exact Option.some.inj hdecode

/-- Codes of codes are decoded one after the other. -/
theorem decode_bind_eq_some_iff : (K.decode bs).bind M.decode = some cs ↔ bs = K.encodeAll (M.encodeAll cs) := by
  rw [Option.bind_eq_some_iff]
  simp only [decode_eq_some_iff]
  exact ⟨fun ⟨as, hbs, has⟩ => has ▸ hbs, fun hbs => ⟨_, hbs, rfl⟩⟩

end Codec

/-! ### UTF-8 -/

open TextFile in
/-- UTF-8. -/
def utf8Codec : Codec Char UInt8 where
  encode := String.utf8EncodeChar
  next bs := (charAt bs).map fun c => (c, bs.drop c.utf8Size)
  next_eq_some_iff := by
    intro bs c rest
    rw [Option.map_eq_some_iff]
    constructor
    · rintro ⟨c, hc, heq⟩
      obtain ⟨rfl, rfl⟩ := Prod.mk.inj heq
      obtain ⟨rest, rfl⟩ := prefix_of_charAt hc
      rw [← String.length_utf8EncodeChar, List.drop_left]
    · rintro rfl
      refine ⟨c, charAt_append c rest, ?_⟩
      rw [← String.length_utf8EncodeChar, List.drop_left]
  encode_ne_nil c := by
    have hpos := c.utf8Size_pos
    rw [← String.length_utf8EncodeChar] at hpos
    exact List.length_pos_iff.mp hpos

/-! ### UTF-16 -/

/-- The order of the bytes of a word. -/
inductive ByteOrder where
  | little
  | big
  deriving DecidableEq

namespace ByteOrder

/-- The bytes of a word. -/
def bytes (order : ByteOrder) (u : UInt16) : List UInt8 :=
  match order with
  | little => [UInt8.ofNat (u.toNat % 256), UInt8.ofNat (u.toNat / 256)]
  | big => [UInt8.ofNat (u.toNat / 256), UInt8.ofNat (u.toNat % 256)]

/-- The word that two bytes make. -/
def word (order : ByteOrder) (a b : UInt8) : UInt16 :=
  match order with
  | little => UInt16.ofNat (a.toNat + 256 * b.toNat)
  | big => UInt16.ofNat (256 * a.toNat + b.toNat)

theorem bytes_word (order : ByteOrder) (a b : UInt8) : order.bytes (order.word a b) = [a, b] := by
  have ha := a.toNat_lt
  have hb := b.toNat_lt
  cases order <;>
    · simp only [bytes, word, UInt16.toNat_ofNat', List.cons.injEq, ← UInt8.toNat_inj, UInt8.toNat_ofNat', and_true]
      omega

theorem exists_bytes (order : ByteOrder) (u : UInt16) : ∃ a b, order.bytes u = [a, b] ∧ order.word a b = u := by
  have hu := u.toNat_lt
  cases order <;>
    · refine ⟨_, _, rfl, ?_⟩
      simp only [word, ← UInt16.toNat_inj, UInt16.toNat_ofNat', UInt8.toNat_ofNat']
      omega

/-- The words of the order. -/
def codec (order : ByteOrder) : Codec UInt16 UInt8 where
  encode := order.bytes
  next
    | a :: b :: rest => some (order.word a b, rest)
    | _ => none
  next_eq_some_iff := by
    intro bs u rest
    obtain ⟨a, b, hbytes, rfl⟩ := order.exists_bytes u
    rw [hbytes]
    match bs with
    | [] => simp
    | [x] => simp
    | x :: y :: zs =>
      simp only [Option.some.injEq, Prod.mk.injEq, List.cons_append, List.nil_append, List.cons.injEq]
      constructor
      · rintro ⟨hword, rfl⟩
        have hsame := congrArg order.bytes hword
        rw [bytes_word, bytes_word] at hsame
        simpa using hsame
      · rintro ⟨rfl, rfl, rfl⟩
        exact ⟨rfl, rfl⟩
  encode_ne_nil u := by cases order <;> exact List.cons_ne_nil _ _

end ByteOrder

/-- The words of a character: itself, or two surrogates. -/
def utf16Words (c : Char) : List UInt16 :=
  if c.toNat < 0x10000 then [UInt16.ofNat c.toNat]
  else [UInt16.ofNat (0xD800 + (c.toNat - 0x10000) / 0x400), UInt16.ofNat (0xDC00 + (c.toNat - 0x10000) % 0x400)]

/-- The character that the words begin with. A surrogate is none by itself. -/
def utf16Next : List UInt16 → Option (Char × List UInt16)
  | [] => none
  | u :: us =>
    if u.toNat < 0xD800 ∨ 0xE000 ≤ u.toNat then some (Char.ofNat u.toNat, us)
    else if 0xDC00 ≤ u.toNat then none
    else match us with
      | v :: vs =>
        if 0xDC00 ≤ v.toNat ∧ v.toNat < 0xE000 then
          some (Char.ofNat (0x10000 + (u.toNat - 0xD800) * 0x400 + (v.toNat - 0xDC00)), vs)
        else none
      | [] => none

theorem utf16Next_single {u : UInt16} (h : u.toNat < 0xD800 ∨ 0xE000 ≤ u.toNat) (us : List UInt16) :
    utf16Next (u :: us) = some (Char.ofNat u.toNat, us) := by
  simp only [utf16Next, if_pos h]

theorem utf16Next_pair {u v : UInt16} (hu : 0xD800 ≤ u.toNat ∧ u.toNat < 0xDC00) (hv : 0xDC00 ≤ v.toNat ∧ v.toNat < 0xE000)
    (vs : List UInt16) : utf16Next (u :: v :: vs) =
      some (Char.ofNat (0x10000 + (u.toNat - 0xD800) * 0x400 + (v.toNat - 0xDC00)), vs) := by
  have hsurrogate : ¬ (u.toNat < 0xD800 ∨ 0xE000 ≤ u.toNat) := by omega
  simp only [utf16Next, if_neg hsurrogate, if_neg (Nat.not_le.mpr hu.2), if_pos hv]

/-- What the words begin with when they begin with a character. -/
theorem utf16Next_cases {us rest : List UInt16} {c : Char} (h : utf16Next us = some (c, rest)) :
    (∃ u, us = u :: rest ∧ (u.toNat < 0xD800 ∨ 0xE000 ≤ u.toNat) ∧ c = Char.ofNat u.toNat) ∨
      ∃ u v, us = u :: v :: rest ∧ (0xD800 ≤ u.toNat ∧ u.toNat < 0xDC00) ∧ (0xDC00 ≤ v.toNat ∧ v.toNat < 0xE000) ∧
        c = Char.ofNat (0x10000 + (u.toNat - 0xD800) * 0x400 + (v.toNat - 0xDC00)) := by
  cases us with
  | nil => cases h
  | cons u us =>
    by_cases hsingle : u.toNat < 0xD800 ∨ 0xE000 ≤ u.toNat
    · rw [utf16Next_single hsingle] at h
      obtain ⟨rfl, rfl⟩ := Prod.mk.inj (Option.some.inj h)
      exact .inl ⟨u, rfl, hsingle, rfl⟩
    · by_cases hlow : 0xDC00 ≤ u.toNat
      · simp only [utf16Next, if_neg hsingle, if_pos hlow] at h
        cases h
      · cases us with
        | nil =>
          simp only [utf16Next, if_neg hsingle, if_neg hlow] at h
          cases h
        | cons v us =>
          by_cases hv : 0xDC00 ≤ v.toNat ∧ v.toNat < 0xE000
          · rw [utf16Next_pair (by omega) hv] at h
            obtain ⟨rfl, rfl⟩ := Prod.mk.inj (Option.some.inj h)
            exact .inr ⟨u, v, rfl, by omega, hv, rfl⟩
          · simp only [utf16Next, if_neg hsingle, if_neg hlow, if_neg hv] at h
            cases h

/-- A character is no surrogate. -/
theorem toNat_cases (c : Char) : c.toNat < 0xD800 ∨ 0xE000 ≤ c.toNat ∧ c.toNat < 0x110000 := by
  have hvalid : c.toNat < 0xD800 ∨ 0xDFFF < c.toNat ∧ c.toNat < 0x110000 := c.valid
  omega

theorem toNat_ofNat_of_valid {n : ℕ} (h : n < 0xD800 ∨ 0xE000 ≤ n ∧ n < 0x110000) : (Char.ofNat n).toNat = n := by
  have hvalid : n.isValidChar := by
    unfold Nat.isValidChar
    omega
  rw [Char.ofNat, dif_pos hvalid]
  rfl

theorem utf16Next_words (c : Char) (us : List UInt16) : utf16Next (utf16Words c ++ us) = some (c, us) := by
  have hcases := toNat_cases c
  rw [utf16Words]
  split_ifs with hsmall
  · have hword : (UInt16.ofNat c.toNat).toNat = c.toNat := by
      rw [UInt16.toNat_ofNat']
      omega
    rw [List.singleton_append, utf16Next_single (by omega), hword, Char.ofNat_toNat]
  · have hhigh : (UInt16.ofNat (0xD800 + (c.toNat - 0x10000) / 0x400)).toNat = 0xD800 + (c.toNat - 0x10000) / 0x400 := by
      rw [UInt16.toNat_ofNat']
      omega
    have hlow : (UInt16.ofNat (0xDC00 + (c.toNat - 0x10000) % 0x400)).toNat = 0xDC00 + (c.toNat - 0x10000) % 0x400 := by
      rw [UInt16.toNat_ofNat']
      omega
    have hjoin : 0x10000 + (0xD800 + (c.toNat - 0x10000) / 0x400 - 0xD800) * 0x400 +
        (0xDC00 + (c.toNat - 0x10000) % 0x400 - 0xDC00) = c.toNat := by omega
    rw [List.cons_append, List.singleton_append, utf16Next_pair (by omega) (by omega), hhigh, hlow, hjoin, Char.ofNat_toNat]

theorem utf16Words_single {u : UInt16} (h : u.toNat < 0xD800 ∨ 0xE000 ≤ u.toNat) : utf16Words (Char.ofNat u.toNat) = [u] := by
  have hlt := u.toNat_lt
  have hchar : (Char.ofNat u.toNat).toNat = u.toNat := toNat_ofNat_of_valid (by omega)
  rw [utf16Words, hchar, if_pos (by omega), UInt16.ofNat_toNat]

theorem utf16Words_pair {u v : UInt16} (hu : 0xD800 ≤ u.toNat ∧ u.toNat < 0xDC00) (hv : 0xDC00 ≤ v.toNat ∧ v.toNat < 0xE000) :
    utf16Words (Char.ofNat (0x10000 + (u.toNat - 0xD800) * 0x400 + (v.toNat - 0xDC00))) = [u, v] := by
  generalize hn : 0x10000 + (u.toNat - 0xD800) * 0x400 + (v.toNat - 0xDC00) = n
  have hchar : (Char.ofNat n).toNat = n := toNat_ofNat_of_valid (by omega)
  have hhigh : 0xD800 + (n - 0x10000) / 0x400 = u.toNat := by omega
  have hlow : 0xDC00 + (n - 0x10000) % 0x400 = v.toNat := by omega
  rw [utf16Words, hchar, if_neg (by omega), hhigh, hlow, UInt16.ofNat_toNat, UInt16.ofNat_toNat]

theorem eq_words_of_utf16Next {us rest : List UInt16} {c : Char} (h : utf16Next us = some (c, rest)) : us = utf16Words c ++ rest := by
  rcases utf16Next_cases h with ⟨u, hus, hu, hc⟩ | ⟨u, v, hus, hu, hv, hc⟩
  · rw [hus, hc, utf16Words_single hu, List.singleton_append]
  · rw [hus, hc, utf16Words_pair hu hv, List.cons_append, List.singleton_append]

/-- UTF-16, over words. -/
def utf16Codec : Codec Char UInt16 where
  encode := utf16Words
  next := utf16Next
  next_eq_some_iff := by
    intro us c rest
    constructor
    · exact eq_words_of_utf16Next
    · rintro rfl
      exact utf16Next_words c rest
  encode_ne_nil c := by
    rw [utf16Words]
    split_ifs <;> exact List.cons_ne_nil _ _

/-- The bytes of a text in UTF-16. -/
def ByteOrder.utf16 (order : ByteOrder) (cs : List Char) : List UInt8 := order.codec.encodeAll (utf16Codec.encodeAll cs)

/-- The text that the bytes are the UTF-16 of. -/
def ByteOrder.decodeUtf16 (order : ByteOrder) (bs : List UInt8) : Option (List Char) :=
  (order.codec.decode bs).bind utf16Codec.decode

theorem ByteOrder.decodeUtf16_eq_some_iff {order : ByteOrder} {bs : List UInt8} {cs : List Char} :
    order.decodeUtf16 bs = some cs ↔ bs = order.utf16 cs := Codec.decode_bind_eq_some_iff

/-- A character takes two bytes at least. -/
theorem ByteOrder.length_utf16 (order : ByteOrder) (cs : List Char) : 2 * cs.length ≤ (order.utf16 cs).length := by
  have hbytes : ∀ us : List UInt16, (order.codec.encodeAll us).length = 2 * us.length := by
    intro us
    induction us with
    | nil => rfl
    | cons u us ih =>
      have hword : (order.codec.encode u).length = 2 := by cases order <;> rfl
      rw [Codec.encodeAll_cons, List.length_append, hword, ih, List.length_cons]
      omega
  have hwords : cs.length ≤ (utf16Codec.encodeAll cs).length := Codec.length_le_encodeAll cs
  rw [utf16, hbytes]
  omega

end Persona.Lib
