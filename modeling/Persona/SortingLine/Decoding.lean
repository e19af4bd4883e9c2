import Persona.Lib.Codec
import Persona.SortingLine.Pipeline

/-!
# The text of a file

`_decode` tries UTF-8, then UTF-16, then Latin-1. Python's UTF-16 needs no byte-order mark: without one it takes
the order of the machine, and nearly every file of even length is a text in it. `decode_cases` says which of
the three it is, and `decode_documented_iff` when that is the one that the documentation names.
-/

namespace Persona.SortingLine

open Persona.Lib

variable {V : Type*}

/-! ### The codecs -/

/-- The byte-order mark. -/
def mark : ByteOrder → List UInt8
  | .little => [0xFF, 0xFE]
  | .big => [0xFE, 0xFF]

/-- The byte order that a file's mark tells. -/
def markOf (raw : List UInt8) : Option ByteOrder :=
  if raw.take 2 = mark .little then some .little
  else if raw.take 2 = mark .big then some .big
  else none

/-- `raw.decode("utf-16")`, on a machine with the byte order; `none` when it raises. -/
def decodeUtf16 (native : ByteOrder) (raw : List UInt8) : Option (List Char) :=
  match markOf raw with
  | some order => order.decodeUtf16 (raw.drop 2)
  | none => native.decodeUtf16 raw

/-- `raw.decode("latin-1")`. -/
def latin1 (raw : List UInt8) : List Char := raw.map fun b => Char.ofNat b.toNat

/-- `raw.decode(enc)`, for the encodings that are asked for. -/
def codecs (native : ByteOrder) (enc : String) (raw : List UInt8) : Option String :=
  if enc = "utf-8" then (utf8Codec.decode raw).map String.ofList
  else if enc = "utf-16" then (decodeUtf16 native raw).map String.ofList
  else if enc = "latin-1" then some (String.ofList (latin1 raw))
  else none

/-- The library with Python's codecs. -/
def Library.withCodecs (L : Library (List UInt8) V) (native : ByteOrder) : Library (List UInt8) V :=
  { L with decodes := codecs native }

/-! ### What the bytes are -/

/-- The bytes are UTF-8. -/
def IsUtf8 (raw : List UInt8) : Prop := ∃ cs, raw = TextFile.utf8 cs

/-- The bytes begin with a byte-order mark. -/
def Marked (raw : List UInt8) : Prop := ∃ order, mark order <+: raw

/-- The bytes are a byte-order mark and UTF-16 of that order. -/
def IsMarkedUtf16 (raw : List UInt8) : Prop := ∃ order cs, raw = mark order ++ ByteOrder.utf16 order cs

/-- The bytes are UTF-16, as it is without a mark. -/
def IsUtf16 (native : ByteOrder) (raw : List UInt8) : Prop := ∃ cs, raw = native.utf16 cs

/-- The text is the one that the documentation promises: UTF-8, or UTF-16 after a mark, or else Latin-1. -/
structure Documented (raw : List UInt8) (text : String) : Prop where
  utf8 : ∀ cs, raw = TextFile.utf8 cs → text = String.ofList cs
  utf16 : ¬ IsUtf8 raw → ∀ order cs, raw = mark order ++ ByteOrder.utf16 order cs → text = String.ofList cs
  latin1 : ¬ IsUtf8 raw → ¬ IsMarkedUtf16 raw → text = String.ofList (latin1 raw)

variable {raw rest : List UInt8} {order native : ByteOrder} {cs : List Char} {L : Library (List UInt8) V}

theorem length_mark (order : ByteOrder) : (mark order).length = 2 := by cases order <;> rfl

theorem markOf_mark_append (order : ByteOrder) (rest : List UInt8) : markOf (mark order ++ rest) = some order := by
  have htake : (mark order ++ rest).take 2 = mark order := by
    rw [← length_mark order, List.take_left]
  rw [markOf, htake]
  cases order <;> rfl

theorem marked_of_markOf (h : markOf raw = some order) : ∃ rest, raw = mark order ++ rest := by
  rw [markOf] at h
  split_ifs at h with hlittle hbig
  · obtain rfl := Option.some.inj h
    exact ⟨raw.drop 2, by rw [← hlittle, List.take_append_drop]⟩
  · obtain rfl := Option.some.inj h
    exact ⟨raw.drop 2, by rw [← hbig, List.take_append_drop]⟩

theorem markOf_eq_none (h : ¬ Marked raw) : markOf raw = none := by
  rw [Option.eq_none_iff_forall_not_mem]
  intro order horder
  obtain ⟨rest, rfl⟩ := marked_of_markOf horder
  exact h ⟨order, List.prefix_append _ _⟩

theorem decodeUtf16_mark (order : ByteOrder) (rest : List UInt8) :
    decodeUtf16 native (mark order ++ rest) = order.decodeUtf16 rest := by
  rw [decodeUtf16, markOf_mark_append]
  dsimp only
  rw [← length_mark order, List.drop_left]

theorem decode_utf8_eq_some_iff : utf8Codec.decode raw = some cs ↔ raw = TextFile.utf8 cs := Codec.decode_eq_some_iff

theorem utf8_decode_eq_none (h : ¬ IsUtf8 raw) : utf8Codec.decode raw = none :=
  Option.eq_none_iff_forall_not_mem.mpr fun cs hcs => h ⟨cs, decode_utf8_eq_some_iff.mp hcs⟩

/-! ### Which of the codecs it is -/

theorem decode_of_utf8 (h : utf8Codec.decode raw = some cs) : decode (L.withCodecs native) raw = String.ofList cs := by
  simp [decode, Library.withCodecs, codecs, h]

theorem decode_of_utf16 (h : ¬ IsUtf8 raw) (hcs : decodeUtf16 native raw = some cs) :
    decode (L.withCodecs native) raw = String.ofList cs := by
  simp [decode, Library.withCodecs, codecs, utf8_decode_eq_none h, hcs]

theorem decode_of_latin1 (h : ¬ IsUtf8 raw) (hnone : decodeUtf16 native raw = none) :
    decode (L.withCodecs native) raw = String.ofList (latin1 raw) := by
  simp [decode, Library.withCodecs, codecs, utf8_decode_eq_none h, hnone]

/-- What a file is decoded as. -/
inductive Decoded (native : ByteOrder) (raw : List UInt8) (text : String) : Prop where
  | utf8 {cs : List Char} : raw = TextFile.utf8 cs → text = String.ofList cs → Decoded native raw text
  | marked {order : ByteOrder} {cs : List Char} : ¬ IsUtf8 raw → raw = mark order ++ order.utf16 cs →
      text = String.ofList cs → Decoded native raw text
  | unmarked {cs : List Char} : ¬ IsUtf8 raw → ¬ Marked raw → raw = native.utf16 cs →
      text = String.ofList cs → Decoded native raw text
  | latin1 : ¬ IsUtf8 raw → ¬ IsMarkedUtf16 raw → Marked raw ∨ ¬ IsUtf16 native raw →
      text = String.ofList (latin1 raw) → Decoded native raw text

theorem decode_cases (L : Library (List UInt8) V) (native : ByteOrder) (raw : List UInt8) :
    Decoded native raw (decode (L.withCodecs native) raw) := by
  by_cases hutf8 : IsUtf8 raw
  · obtain ⟨cs, hcs⟩ := hutf8
    exact .utf8 hcs (decode_of_utf8 (decode_utf8_eq_some_iff.mpr hcs))
  by_cases hmarked : Marked raw
  · obtain ⟨order, rest, rfl⟩ := hmarked
    have hdecode : decodeUtf16 native (mark order ++ rest) = order.decodeUtf16 rest := decodeUtf16_mark order rest
    cases hcs : order.decodeUtf16 rest with
    | some cs =>
      have hrest := ByteOrder.decodeUtf16_eq_some_iff.mp hcs
      exact .marked hutf8 (by rw [hrest]) (decode_of_utf16 hutf8 (hdecode.trans hcs))
    | none =>
      refine .latin1 hutf8 ?_ (.inl ⟨order, List.prefix_append _ _⟩) (decode_of_latin1 hutf8 (hdecode.trans hcs))
      rintro ⟨order', cs, heq⟩
      -- the mark is the same one
      have horder : some order = some order' := by rw [← markOf_mark_append order rest, heq, markOf_mark_append]
      obtain rfl := Option.some.inj horder
      rw [ByteOrder.decodeUtf16_eq_some_iff.mpr (List.append_cancel_left heq)] at hcs
      cases hcs
  · have hdecode : decodeUtf16 native raw = native.decodeUtf16 raw := by rw [decodeUtf16, markOf_eq_none hmarked]
    cases hcs : native.decodeUtf16 raw with
    | some cs =>
      exact .unmarked hutf8 hmarked (ByteOrder.decodeUtf16_eq_some_iff.mp hcs) (decode_of_utf16 hutf8 (hdecode.trans hcs))
    | none =>
      refine .latin1 hutf8 ?_ (.inr ?_) (decode_of_latin1 hutf8 (hdecode.trans hcs))
      · rintro ⟨order, cs, rfl⟩
        exact hmarked ⟨order, List.prefix_append _ _⟩
      · rintro ⟨cs, heq⟩
        rw [ByteOrder.decodeUtf16_eq_some_iff.mpr heq] at hcs
        cases hcs

/-! ### When it is the right one -/

/-- Latin-1 has a character for each byte, and UTF-16 takes two at least for each character. -/
theorem utf16_ne_latin1 (hne : raw ≠ []) (hlen : (native.utf16 cs).length ≤ raw.length) : cs ≠ latin1 raw := by
  rintro rfl
  have hwords := native.length_utf16 (latin1 raw)
  have hpos := List.length_pos_iff.mpr hne
  have hsame : (latin1 raw).length = raw.length := List.length_map _
  omega

theorem ne_nil_of_not_isUtf8 (h : ¬ IsUtf8 raw) : raw ≠ [] := by
  rintro rfl
  exact h ⟨[], rfl⟩

/-- Bytes of ASCII are the same text in UTF-8 as in Latin-1. -/
theorem utf8_latin1 (h : ∀ b ∈ raw, b < 128) : TextFile.utf8 (latin1 raw) = raw := by
  induction raw with
  | nil => rfl
  | cons b raw ih =>
    obtain ⟨hb, hraw⟩ := List.forall_mem_cons.mp h
    have hlt : b.toNat < 128 := UInt8.lt_iff_toNat_lt.mp hb
    have hchar : (Char.ofNat b.toNat).toNat = b.toNat := toNat_ofNat_of_valid (by omega)
    have hval : (Char.ofNat b.toNat).val.toNat = b.toNat := hchar
    have hsize : (Char.ofNat b.toNat).utf8Size = 1 := by
      rw [Char.utf8Size_eq_one_iff, UInt32.le_iff_toNat_le, hval]
      exact Nat.le_of_lt_succ hlt
    have hbyte : (Char.ofNat b.toNat).val.toUInt8 = b := by
      rw [← UInt8.toNat_inj, UInt32.toNat_toUInt8, hval]
      omega
    have hcons : latin1 (b :: raw) = Char.ofNat b.toNat :: latin1 raw := rfl
    rw [hcons, TextFile.utf8_cons, String.utf8EncodeChar_eq_singleton hsize, hbyte, ih hraw]
    rfl

/-- A text with a byte for each character is ASCII. -/
theorem lt_of_length_utf8 (h : (TextFile.utf8 cs).length ≤ cs.length) : ∀ b ∈ TextFile.utf8 cs, b < 128 := by
  induction cs with
  | nil => exact fun b hb => absurd hb List.not_mem_nil
  | cons c cs ih =>
    have hlen : cs.length ≤ (TextFile.utf8 cs).length := Codec.length_le_encodeAll (K := utf8Codec) cs
    have hpos := c.utf8Size_pos
    rw [TextFile.utf8_cons, List.length_append, String.length_utf8EncodeChar, List.length_cons] at h
    have hsize : c.utf8Size = 1 := by omega
    rw [TextFile.utf8_cons, String.utf8EncodeChar_eq_singleton hsize]
    refine List.forall_mem_cons.mpr ⟨?_, ih (by omega)⟩
    have hle := UInt32.le_iff_toNat_le.mp (Char.utf8Size_eq_one_iff.mp hsize)
    have hval : (127 : UInt32).toNat = 127 := rfl
    have hmax : (128 : UInt8).toNat = 128 := rfl
    rw [UInt8.lt_iff_toNat_lt, UInt32.toNat_toUInt8, hmax]
    omega

theorem utf8_inj {cs cs' : List Char} (h : TextFile.utf8 cs = TextFile.utf8 cs') : cs = cs' :=
  Codec.encodeAll_injective (K := utf8Codec) h

/-- A mark and a text are told by their bytes. -/
theorem marked_inj {order' : ByteOrder} {cs' : List Char}
    (h : mark order ++ order.utf16 cs = mark order' ++ order'.utf16 cs') : cs = cs' := by
  have horder : some order = some order' := by rw [← markOf_mark_append order (order.utf16 cs), h, markOf_mark_append]
  obtain rfl := Option.some.inj horder
  have htext := ByteOrder.decodeUtf16_eq_some_iff.mpr (List.append_cancel_left h)
  rw [ByteOrder.decodeUtf16_eq_some_iff.mpr rfl] at htext
  exact Option.some.inj htext

theorem documented_iff (L : Library (List UInt8) V) (native : ByteOrder) (raw : List UInt8) :
    Documented raw (decode (L.withCodecs native) raw) ↔ IsUtf8 raw ∨ Marked raw ∨ ¬ IsUtf16 native raw := by
  cases decode_cases L native raw with
  | utf8 hraw htext =>
    have hutf8 : IsUtf8 raw := ⟨_, hraw⟩
    refine iff_of_true ⟨fun cs hcs => ?_, fun hnot => absurd hutf8 hnot, fun hnot => absurd hutf8 hnot⟩ (.inl hutf8)
    rw [htext, utf8_inj (hraw.symm.trans hcs)]
  | @marked order cs hutf8 hraw htext =>
    refine iff_of_true ⟨fun cs hcs => absurd ⟨cs, hcs⟩ hutf8, fun _ order cs hcs => ?_, fun _ hnot => ?_⟩
      (.inr (.inl ⟨_, _, hraw.symm⟩))
    · rw [htext, marked_inj (hraw.symm.trans hcs)]
    · exact absurd ⟨_, _, hraw⟩ hnot
  | unmarked hutf8 hmarked hraw htext =>
    have hnot : ¬ IsMarkedUtf16 raw := fun ⟨order, cs, heq⟩ => hmarked ⟨order, _, heq.symm⟩
    refine iff_of_false (fun hdoc => ?_) ?_
    · exact utf16_ne_latin1 (ne_nil_of_not_isUtf8 hutf8) (by rw [← hraw])
        (String.ofList_injective (htext.symm.trans (hdoc.latin1 hutf8 hnot)))
    · rintro (h | h | h)
      · exact hutf8 h
      · exact hmarked h
      · exact h ⟨_, hraw⟩
  | latin1 hutf8 hmarked hunmarked htext =>
    exact iff_of_true ⟨fun cs hcs => absurd ⟨cs, hcs⟩ hutf8, fun _ order cs hcs => absurd ⟨order, cs, hcs⟩ hmarked,
      fun _ _ => htext⟩ (.inr hunmarked)

theorem decode_eq_latin1_iff (L : Library (List UInt8) V) (native : ByteOrder) (raw : List UInt8) :
    decode (L.withCodecs native) raw = String.ofList (latin1 raw) ↔
      (∀ b ∈ raw, b < 128) ∨ ¬ IsUtf8 raw ∧ ¬ IsMarkedUtf16 raw ∧ (Marked raw ∨ ¬ IsUtf16 native raw) := by
  have hascii (h : ∀ b ∈ raw, b < 128) : IsUtf8 raw := ⟨latin1 raw, (utf8_latin1 h).symm⟩
  cases decode_cases L native raw with
  | utf8 hraw htext =>
    rw [htext, String.ofList_inj]
    constructor
    · rintro rfl
      rw [hraw]
      refine .inl (lt_of_length_utf8 ?_)
      rw [← hraw, latin1, List.length_map]
    · rintro (h | h)
      · exact utf8_inj (hraw.symm.trans (utf8_latin1 h).symm)
      · exact absurd ⟨_, hraw⟩ h.1
  | @marked order cs hutf8 hraw htext =>
    refine iff_of_false (fun heq => ?_) ?_
    · have hlen : (order.utf16 cs).length ≤ raw.length := by
        rw [hraw, List.length_append]
        exact Nat.le_add_left _ _
      exact utf16_ne_latin1 (ne_nil_of_not_isUtf8 hutf8) hlen (String.ofList_injective (htext.symm.trans heq))
    · rintro (h | h)
      · exact hutf8 (hascii h)
      · exact h.2.1 ⟨_, _, hraw⟩
  | unmarked hutf8 hmarked hraw htext =>
    refine iff_of_false (fun heq => ?_) ?_
    · exact utf16_ne_latin1 (ne_nil_of_not_isUtf8 hutf8) (by rw [← hraw]) (String.ofList_injective (htext.symm.trans heq))
    · rintro (h | ⟨-, -, h | h⟩)
      · exact hutf8 (hascii h)
      · exact hmarked h
      · exact h ⟨_, hraw⟩
  | latin1 hutf8 hmarked hunmarked htext =>
    exact iff_of_true htext (.inr ⟨hutf8, hmarked, hunmarked⟩)

/-- **What `_decode` should do** it does exactly for the files that are UTF-8, that begin with a mark, or that are
no UTF-16 in the order of the machine. And a file of Latin-1 is read as its text exactly when it is ASCII, or is
neither UTF-8 nor UTF-16, with a mark or without. -/
theorem decode_documented_iff (L : Library (List UInt8) V) (native : ByteOrder) (raw : List UInt8) :
    (Documented raw (decode (L.withCodecs native) raw) ↔ IsUtf8 raw ∨ Marked raw ∨ ¬ IsUtf16 native raw) ∧
    (decode (L.withCodecs native) raw = String.ofList (latin1 raw) ↔
      (∀ b ∈ raw, b < 128) ∨ ¬ IsUtf8 raw ∧ ¬ IsMarkedUtf16 raw ∧ (Marked raw ∨ ¬ IsUtf16 native raw)) :=
  ⟨documented_iff L native raw, decode_eq_latin1_iff L native raw⟩

/-- Four letters in Latin-1, the last of them an accented one. -/
def cafe : List UInt8 := [0x63, 0x61, 0x66, 0xE9]

/-- A library over bytes. -/
def byteLibrary : Library (List UInt8) ℕ where
  maxBytes := 8388608
  size := List.length
  decodes _ _ := none
  replaces raw := String.ofList (TextFile.decodeIgnore raw)
  lower := id
  isAlnum := Char.isAlphanum
  feed s := .ok [.data s]
  unescape := id
  pdf := none
  docx := none
  cosine _ _ := 0

/-- The word is read as two other characters, of UTF-16. -/
theorem not_documented_cafe : ¬ Documented cafe (decode (byteLibrary.withCodecs .little) cafe) := by
  intro h
  have hutf8 : ¬ IsUtf8 cafe := by
    rintro ⟨cs, hcs⟩
    have hnone : utf8Codec.decode cafe = none := by decide
    rw [decode_utf8_eq_some_iff.mpr hcs] at hnone
    cases hnone
  have hmarked : ¬ IsMarkedUtf16 cafe := by
    rintro ⟨order, cs, heq⟩
    have hmark : markOf cafe = some order := by rw [heq, markOf_mark_append]
    have hnone : markOf cafe = none := by decide
    rw [hnone] at hmark
    cases hmark
  have hlittle : decodeUtf16 .little cafe = some [Char.ofNat 0x6163, Char.ofNat 0xE966] := by decide
  have htext := h.latin1 hutf8 hmarked
  rw [decode_of_utf16 hutf8 hlittle, String.ofList_inj] at htext
  have hlen := congrArg List.length htext
  rw [latin1, List.length_map] at hlen
  cases hlen

end Persona.SortingLine
