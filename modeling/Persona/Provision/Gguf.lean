import Persona.Lib.Assoc
import Persona.Lib.Binary64
import Persona.Lib.Bytes
import Persona.Lib.Decoder
import Persona.Lib.PyText

/-!
# GGUF metadata

`read_gguf_meta` of `provision_fetch.py`: the header of a model file is a magic number, a
version, the number of tensors, and entries of a key, a type and a value of that type; of the
entries it returns what the size of the KV cache depends on.

A well-formed header and its bytes are given apart from the reader (`Header`), and each
function of the reader is shown to read the bytes of its part. What the reader needs of the
host and of Python's tables is an `Objects`.

`readGgufMeta_encode` says that the reader finds the entries of a header and nothing in a part
of it.
-/

namespace Persona.Provision.Gguf

open Persona.Lib

/-! ### Types and values -/

/-- The types of `_GGUF_SCALAR`. -/
inductive ScalarType where
  | uint8 | int8 | uint16 | int16 | uint32 | int32 | float32 | bool | uint64 | int64 | float64
  deriving DecidableEq

namespace ScalarType

/-- The byte width. -/
def width : ScalarType → ℕ
  | uint8 | int8 | bool => 1
  | uint16 | int16 => 2
  | uint32 | int32 | float32 => 4
  | uint64 | int64 | float64 => 8

/-- The number of the type. -/
def code : ScalarType → ℕ
  | uint8 => 0
  | int8 => 1
  | uint16 => 2
  | int16 => 3
  | uint32 => 4
  | int32 => 5
  | float32 => 6
  | bool => 7
  | uint64 => 10
  | int64 => 11
  | float64 => 12

/-- `_GGUF_SCALAR`. -/
def ofCode : ℕ → Option ScalarType
  | 0 => some uint8
  | 1 => some int8
  | 2 => some uint16
  | 3 => some int16
  | 4 => some uint32
  | 5 => some int32
  | 6 => some float32
  | 7 => some bool
  | 10 => some uint64
  | 11 => some int64
  | 12 => some float64
  | _ => none

theorem ofCode_code (t : ScalarType) : ofCode t.code = some t := by cases t <;> rfl

theorem code_lt (t : ScalarType) : t.code < 13 := by cases t <;> decide

/-- The type has no sign. -/
def unsigned : ScalarType → Bool
  | uint8 | uint16 | uint32 | uint64 => true
  | _ => false

end ScalarType

/-- `_GGUF_STRING`. -/
def stringCode : ℕ := 8

/-- `_GGUF_ARRAY`. -/
def arrayCode : ℕ := 9

/-- A value as Python has it. -/
inductive PyValue where
  | int (n : ℤ)
  | bool (b : Bool)
  | float (x : Binary64)
  | str (s : String)
  | list (xs : List PyValue)

/-- `struct.unpack` of the bytes of a scalar. -/
def unpack (t : ScalarType) (data : List UInt8) : PyValue :=
  let n := Bytes.ofLittle data
  match t with
  | .bool => .bool (n ≠ 0)
  | .float32 => .float (.ofSingleBits n)
  | .float64 => .float (.ofDoubleBits n)
  | .int8 | .int16 | .int32 | .int64 => .int (if 2 * n < 256 ^ t.width then n else n - 256 ^ t.width)
  | .uint8 | .uint16 | .uint32 | .uint64 => .int n

theorem unpack_unsigned {t : ScalarType} (h : t.unsigned = true) (data : List UInt8) :
    unpack t data = .int (Bytes.ofLittle data) := by
  cases t <;> first | rfl | cases h

/-! ### The reader -/

/-- Why reading stops. -/
inductive Failure where
  /-- A `ValueError`. -/
  | value
  /-- Values are nested too deeply. -/
  | recursion
  /-- A `MemoryError` or `OverflowError`. -/
  | memory
  deriving DecidableEq

/-- A function that reads from the open file. -/
abbrev Read := Decoder Failure UInt8

/-- `_gguf_scalar`, less the unpacking. -/
def ggufBytes (width : ℕ) : Read (List UInt8) := do
  let data ← Decoder.read width
  if data.length ≠ width then throw .value else pure data

/-- `_gguf_scalar` of an unsigned number. -/
def ggufNumber (width : ℕ) : Read ℕ := Bytes.ofLittle <$> ggufBytes width

/-- What the interpreter and the host are given with. -/
structure Objects where
  /-- `decode("utf-8", "replace")` of bytes that are not valid. -/
  replace : List UInt8 → String
  /-- `repr` of a float. -/
  reprFloat : Binary64 → String
  /-- `str.isprintable` of a character that is not of ASCII. -/
  isPrintable : Char → Bool
  /-- The values of the decimal digits. -/
  decimal : Char → Option ℕ
  /-- The most digits that `int` reads, if there is a limit. -/
  digitLimit : Option ℕ
  /-- The most bytes that `f.read` finds room for; it asks for all that it is told to read. -/
  room : ℕ

variable (O : Objects)

/-- `s.decode("utf-8", "replace")`. -/
def decode (s : List UInt8) : String := (Bytes.decode s).getD (O.replace s)

/-- `_gguf_string`. -/
def ggufString : Read String := do
  let n ← ggufNumber 8
  if O.room < n then throw .memory
  else do
    let s ← Decoder.read n
    if s.length ≠ n then throw .value else pure (decode O s)

/-- `_gguf_value`, in `depth` calls within one another at most. -/
def ggufValue : ℕ → ℕ → Read PyValue
  | depth, vtype =>
    match ScalarType.ofCode vtype with
    | some t => unpack t <$> ggufBytes t.width
    | none =>
      if vtype = stringCode then .str <$> ggufString O
      else if vtype = arrayCode then
        match depth with
        | 0 => throw .recursion
        | depth + 1 => do
          let elemType ← ggufNumber 4
          let count ← ggufNumber 8
          .list <$> Decoder.times (ggufValue depth elemType) count
      else throw .value

section

variable {O} {depth vtype : ℕ}

theorem ggufValue_scalar {t : ScalarType} (h : ScalarType.ofCode vtype = some t) :
    ggufValue O depth vtype = unpack t <$> ggufBytes t.width := by
  rw [ggufValue.eq_def]
  simp only [h]

theorem ggufValue_str : ggufValue O depth stringCode = .str <$> ggufString O := by
  rw [ggufValue.eq_def]
  rfl

theorem ggufValue_deep : ggufValue O 0 arrayCode = throw .recursion := by
  rw [ggufValue.eq_def]
  rfl

theorem ggufValue_arr : ggufValue O (depth + 1) arrayCode = (do
    let elemType ← ggufNumber 4
    let count ← ggufNumber 8
    .list <$> Decoder.times (ggufValue O depth elemType) count) := by
  rw [ggufValue.eq_def]
  rfl

theorem ggufValue_other (h : ScalarType.ofCode vtype = none) (hstr : vtype ≠ stringCode) (harr : vtype ≠ arrayCode) :
    ggufValue O depth vtype = throw .value := by
  rw [ggufValue.eq_def]
  simp only [h, if_neg hstr, if_neg harr]

end

/-- An entry of the header. -/
def ggufEntry (depth : ℕ) : Read (String × PyValue) := do
  let key ← ggufString O
  let vtype ← ggufNumber 4
  let v ← ggufValue O depth vtype
  pure (key, v)

/-- `_GGUF_MAGIC`. -/
def magic : List UInt8 := [71, 71, 85, 70]

theorem length_magic : magic.length = 4 := rfl

/-- What `read_gguf_meta` reads after the magic number. -/
def ggufEntries (depth : ℕ) : Read (List (String × PyValue)) := do
  let _ ← ggufNumber 4
  let _ ← ggufNumber 8
  let n ← ggufNumber 8
  Decoder.times (ggufEntry O depth) n

/-- The dictionary of the entries: a later one counts. -/
def dict (kvs : List (String × PyValue)) : String → Option PyValue :=
  kvs.foldl (fun md kv => Function.update md kv.1 (some kv.2)) fun _ => none

/-- What `if v:` tests. -/
def truthy : PyValue → Bool
  | .int n => n ≠ 0
  | .bool b => b
  | .float x => !x.isZero
  | .str s => s ≠ ""
  | .list xs => !xs.isEmpty

/-- A number in hexadecimal digits, with zeros up to a width. -/
def hex (width n : ℕ) : List Char :=
  List.replicate (width - (Nat.toDigits 16 n).length) '0' ++ Nat.toDigits 16 n

/-- A character as `repr` writes it in a string. -/
def reprChar (quote c : Char) : List Char :=
  if c = quote ∨ c = '\\' then ['\\', c]
  else if c = '\t' then "\\t".toList
  else if c = '\n' then "\\n".toList
  else if c = '\r' then "\\r".toList
  else if c.toNat < 32 ∨ c.toNat = 127 then "\\x".toList ++ hex 2 c.toNat
  else if c.toNat < 127 ∨ O.isPrintable c then [c]
  else if c.toNat < 256 then "\\x".toList ++ hex 2 c.toNat
  else if c.toNat < 65536 then "\\u".toList ++ hex 4 c.toNat
  else "\\U".toList ++ hex 8 c.toNat

/-- `repr` of a string: in double quotes if it has single ones only. -/
def reprStr (s : String) : String :=
  let quote := if '\x27' ∈ s.toList ∧ '\x22' ∉ s.toList then '\x22' else '\x27'
  String.ofList (quote :: s.toList.flatMap (reprChar O quote) ++ [quote])

mutual

/-- `repr(v)`. -/
def repr : PyValue → String
  | .int n => toString n
  | .bool b => if b then "True" else "False"
  | .float x => O.reprFloat x
  | .str s => reprStr O s
  | .list xs => "[" ++ ", ".intercalate (reprAll xs) ++ "]"

/-- `repr` of the elements of a list. -/
def reprAll : List PyValue → List String
  | [] => []
  | x :: xs => repr x :: reprAll xs

end

/-- `"%s" % v`. -/
def format : PyValue → String
  | .str s => s
  | v => repr O v

/-- `int(s)` of a text: `none` is a `ValueError`, of a text that is no integer or has too many digits. -/
def intOfStr (s : String) : Option ℤ :=
  if O.digitLimit.any fun most => most < ((PyText.strip s).toList.filter fun c => (O.decimal c).isSome).length then none
  else PyText.int O.decimal s

/-- `int(v)`; `none` when it raises. -/
def toInt : PyValue → Option ℤ
  | .int n => some n
  | .bool b => some b.toInt
  | .float (.num d) => some d.int
  | .float _ => none
  | .str s => intOfStr O s
  | .list _ => none

/-- An integer, or a truth value as one. -/
def PyValue.whole? : PyValue → Option ℤ
  | .int n => some n
  | .bool b => some b.toInt
  | _ => none

/-- A number as a double; an integer that is too large is an `OverflowError`. -/
def PyValue.double? : PyValue → Option Binary64
  | .int n => if limit ≤ |(n : ℚ)| then none else some (.round n)
  | .bool b => some (.round b.toInt)
  | .float x => some x
  | _ => none

/-- `v // w`, where `w` is not falsy; `none` when it raises. -/
def floorDiv (v w : PyValue) : Option PyValue :=
  match v.whole?, w.whole? with
  | some m, some n => some (.int (m.fdiv n))
  | _, _ => do
    let x ← v.double?
    let y ← w.double?
    some (.float (x.floorDiv y))

/-- `int(v) if v else None`, of a value that may be missing. -/
def toInt? : Option PyValue → Option (Option ℤ)
  | none => some none
  | some v => if truthy v then (toInt O v).map some else some none

/-- What is returned. -/
structure Meta where
  arch : PyValue
  nLayers : ℤ
  nHead : Option ℤ
  nHeadKv : ℤ
  nEmbd : Option ℤ
  headDim : ℤ

/-- `head_dim`; the outer `none` when the division raises. -/
def headDim (keyLength nEmbd nHead : Option PyValue) : Option (Option PyValue) :=
  match keyLength, nEmbd, nHead with
  | some d, _, _ => some (some d)
  | none, some e, some h => if truthy e && truthy h then (floorDiv e h).map some else some none
  | none, _, _ => some none

/-- What is made of the dictionary: the outer `none` when it raises, the inner one is `None`. -/
def summary (md : String → Option PyValue) : Option (Option Meta) :=
  match md "general.architecture" with
  | none => some none
  | some arch =>
    if truthy arch = false then some none
    else
      let a := fun suffix => md (format O arch ++ "." ++ suffix)
      match a "block_count", a "attention.head_count_kv" with
      | some nLayers, some nHeadKv => do
        match ← headDim (a "attention.key_length") (a "embedding_length") (a "attention.head_count") with
        | none => pure none
        | some d =>
          if truthy d = false then pure none
          else do
            let nLayers ← toInt O nLayers
            let nHead ← toInt? O (a "attention.head_count")
            let nHeadKv ← toInt O nHeadKv
            let nEmbd ← toInt? O (a "embedding_length")
            let d ← toInt O d
            pure (some ⟨arch, nLayers, nHead, nHeadKv, nEmbd, d⟩)
      | _, _ => some none

/-- `read_gguf_meta` of a file's bytes, with room for `depth` arrays within one another: the outer
`none` when it raises, the inner one is `None`. -/
def readGgufMeta (depth : ℕ) (bytes : List UInt8) : Option (Option Meta) :=
  if bytes.take 4 ≠ magic then some none
  else
    match ggufEntries O depth (bytes.drop 4) with
    | .ok (kvs, _) => summary O (dict kvs)
    | .error .value => some none
    | .error .recursion => none
    | .error .memory => none

/-! ### Well-formed headers -/

/-- A value in a header. -/
inductive GgufValue where
  /-- A scalar of a type, by its bytes as a number. -/
  | scalar (t : ScalarType) (bits : ℕ)
  | str (s : List UInt8)
  /-- An array with its element type. -/
  | arr (elemType : ℕ) (xs : List GgufValue)

namespace GgufValue

/-- The number of the value's type. -/
def vtype : GgufValue → ℕ
  | scalar t _ => t.code
  | str _ => stringCode
  | arr _ _ => arrayCode

mutual

/-- The bytes of a value. -/
def encode : GgufValue → List UInt8
  | scalar t bits => Bytes.toLittle t.width bits
  | str s => Bytes.toLittle 8 s.length ++ s
  | arr elemType xs => Bytes.toLittle 4 elemType ++ (Bytes.toLittle 8 xs.length ++ encodeAll xs)

/-- The bytes of the elements of an array. -/
def encodeAll : List GgufValue → List UInt8
  | [] => []
  | x :: xs => encode x ++ encodeAll xs

end

mutual

/-- The value as Python has it. -/
def value : GgufValue → PyValue
  | scalar t bits => unpack t (Bytes.toLittle t.width bits)
  | str s => .str (decode O s)
  | arr _ xs => .list (valueAll xs)

/-- The elements of an array as Python has them. -/
def valueAll : List GgufValue → List PyValue
  | [] => []
  | x :: xs => value x :: valueAll xs

end

/-- Numbers fit in their places, there is room for the strings, the elements of an array have its type,
and no more than `depth` arrays are within one another. -/
inductive WellFormed (room : ℕ) : ℕ → GgufValue → Prop
  | scalar {depth : ℕ} {t : ScalarType} {bits : ℕ} (h : bits < 256 ^ t.width) : WellFormed room depth (.scalar t bits)
  | str {depth : ℕ} {s : List UInt8} (h : s.length < 256 ^ 8) (hroom : s.length ≤ room) : WellFormed room depth (.str s)
  | arr {depth : ℕ} {elemType : ℕ} {xs : List GgufValue} (helem : elemType < 13) (hlength : xs.length < 256 ^ 8)
      (htype : ∀ x ∈ xs, x.vtype = elemType) (h : ∀ x ∈ xs, WellFormed room depth x) :
      WellFormed room (depth + 1) (.arr elemType xs)

theorem encodeAll_eq (xs : List GgufValue) : encodeAll xs = xs.flatMap encode := by
  induction xs with
  | nil => rfl
  | cons x xs ih => rw [encodeAll, ih, List.flatMap_cons]

theorem valueAll_eq (xs : List GgufValue) : valueAll O xs = xs.map (value O) := by
  induction xs with
  | nil => rfl
  | cons x xs ih => rw [valueAll, ih, List.map_cons]

theorem vtype_lt (v : GgufValue) : v.vtype < 13 := by
  cases v with
  | scalar t bits => exact t.code_lt
  | str s => exact (by decide : stringCode < 13)
  | arr elemType xs => exact (by decide : arrayCode < 13)

end GgufValue

/-- A header, its arrays at most `depth` within one another, and its strings no longer than there is
room for. -/
structure Header (room depth : ℕ) where
  version : ℕ
  tensors : ℕ
  entries : List (String × GgufValue)
  version_lt : version < 256 ^ 4
  tensors_lt : tensors < 256 ^ 8
  length_lt : entries.length < 256 ^ 8
  keys_nodup : (entries.map Prod.fst).Nodup
  key_length_lt : ∀ kv ∈ entries, (Bytes.encode kv.1).length < 256 ^ 8
  key_length_le : ∀ kv ∈ entries, (Bytes.encode kv.1).length ≤ room
  wellFormed : ∀ kv ∈ entries, kv.2.WellFormed room depth

/-- The bytes of an entry. -/
def encodeEntry (kv : String × GgufValue) : List UInt8 :=
  Bytes.toLittle 8 (Bytes.encode kv.1).length ++ Bytes.encode kv.1 ++ (Bytes.toLittle 4 kv.2.vtype ++ kv.2.encode)

namespace Header

variable {room depth : ℕ} (h : Header room depth)

/-- The bytes of a header after the magic number. -/
def body : List UInt8 :=
  Bytes.toLittle 4 h.version ++ (Bytes.toLittle 8 h.tensors ++ (Bytes.toLittle 8 h.entries.length ++ h.entries.flatMap encodeEntry))

/-- The bytes of a header. -/
def encode : List UInt8 := magic ++ h.body

/-- The value under a key. -/
def get? (k : String) : Option GgufValue := h.entries.lookup k

end Header

/-! ### Reading what was written -/

/-- A read that insists on its length. -/
theorem reads_exactly {α : Type} {code : List UInt8} {width : ℕ} (g : List UInt8 → α) (h : code.length = width) :
    Decoder.Reads .value
      (do
        let data ← Decoder.read width
        if data.length ≠ width then throw .value else pure (g data) : Read α) code (g code) := by
  constructor
  · intro tail
    have hread : (do
        let data ← Decoder.read width
        if data.length ≠ width then throw .value else pure (g data) : Read α) (code ++ tail) =
        (if ((code ++ tail).take width).length ≠ width then throw .value else pure (g ((code ++ tail).take width)) : Read α)
          ((code ++ tail).drop width) := rfl
    rw [hread, List.take_left' h, List.drop_left' h, if_neg (not_not.mpr h)]
    rfl
  · intro p hp hne
    have hlt : p.length < width := by
      rw [← h]
      exact lt_of_le_of_ne hp.length_le fun heq => hne (hp.eq_of_length heq)
    have hread : (do
        let data ← Decoder.read width
        if data.length ≠ width then throw .value else pure (g data) : Read α) p =
        (if (p.take width).length ≠ width then throw .value else pure (g (p.take width)) : Read α) (p.drop width) := rfl
    rw [hread, List.take_of_length_le hlt.le, if_pos hlt.ne]
    rfl

theorem reads_ggufBytes {code : List UInt8} {width : ℕ} (h : code.length = width) :
    Decoder.Reads .value (ggufBytes width) code code := reads_exactly id h

theorem reads_ggufNumber {width n : ℕ} (h : n < 256 ^ width) :
    Decoder.Reads .value (ggufNumber width) (Bytes.toLittle width n) n := by
  have hbytes := (reads_ggufBytes (Bytes.length_toLittle width n)).map (g := Bytes.ofLittle)
  rwa [Bytes.ofLittle_toLittle h] at hbytes

theorem reads_ggufString {s : List UInt8} (h : s.length < 256 ^ 8) (hroom : s.length ≤ O.room) :
    Decoder.Reads .value (ggufString O) (Bytes.toLittle 8 s.length ++ s) (decode O s) := by
  refine (reads_ggufNumber h).bind ?_
  rw [if_neg (not_lt.mpr hroom)]
  exact reads_exactly (decode O) rfl

theorem decode_encode (s : String) : decode O (Bytes.encode s) = s := by
  rw [decode, Bytes.decode_encode, Option.getD_some]

/-- A value is read from its bytes, recursively. -/
theorem reads_ggufValue {depth : ℕ} {v : GgufValue} (h : v.WellFormed O.room depth) :
    Decoder.Reads .value (ggufValue O depth v.vtype) v.encode (v.value O) := by
  induction h with
  | @scalar depth t bits hbits =>
    rw [GgufValue.vtype, ggufValue_scalar t.ofCode_code, GgufValue.encode, GgufValue.value]
    exact (reads_ggufBytes (Bytes.length_toLittle _ _)).map
  | @str depth s hs hroom =>
    rw [GgufValue.vtype, ggufValue_str, GgufValue.encode, GgufValue.value]
    exact (reads_ggufString O hs hroom).map
  | @arr depth elemType xs helem hlength htype hxs ih =>
    rw [GgufValue.vtype, ggufValue_arr, GgufValue.encode, GgufValue.value, GgufValue.encodeAll_eq, GgufValue.valueAll_eq]
    have hall : ∀ x ∈ xs, Decoder.Reads .value (ggufValue O depth elemType) x.encode (x.value O) := by
      intro x hx
      have hread := ih x hx
      rwa [htype x hx] at hread
    exact (reads_ggufNumber (lt_trans helem (by decide))).bind
      ((reads_ggufNumber hlength).bind (Decoder.Reads.times hall).map)

theorem reads_ggufEntry {depth : ℕ} {kv : String × GgufValue} (hkey : (Bytes.encode kv.1).length < 256 ^ 8)
    (hroom : (Bytes.encode kv.1).length ≤ O.room) (h : kv.2.WellFormed O.room depth) :
    Decoder.Reads .value (ggufEntry O depth) (encodeEntry kv) (kv.1, kv.2.value O) := by
  have hvtype : kv.2.vtype < 256 ^ 4 := lt_trans kv.2.vtype_lt (by decide)
  have hstring := reads_ggufString O hkey hroom
  rw [decode_encode] at hstring
  have hlast : Decoder.Reads .value (ggufValue O depth kv.2.vtype >>= fun v => pure (kv.1, v)) (kv.2.encode ++ [])
      (kv.1, kv.2.value O) := (reads_ggufValue O h).bind (.pure _)
  rw [List.append_nil] at hlast
  exact hstring.bind ((reads_ggufNumber hvtype).bind hlast)

variable {depth : ℕ}

theorem Header.reads_body (h : Header O.room depth) :
    Decoder.Reads .value (ggufEntries O depth) h.body (h.entries.map fun kv => (kv.1, kv.2.value O)) :=
  (reads_ggufNumber h.version_lt).bind ((reads_ggufNumber h.tensors_lt).bind ((reads_ggufNumber h.length_lt).bind
    (Decoder.Reads.times fun kv hkv =>
      reads_ggufEntry O (h.key_length_lt kv hkv) (h.key_length_le kv hkv) (h.wellFormed kv hkv))))

/-- With keys that differ the dictionary has each entry. -/
theorem dict_eq_lookup {kvs : List (String × PyValue)} (h : (kvs.map Prod.fst).Nodup) (k : String) :
    dict kvs k = kvs.lookup k := by
  induction kvs using List.reverseRecOn with
  | nil => rfl
  | append_singleton kvs kv ih =>
    obtain ⟨key, v⟩ := kv
    rw [List.map_append, List.nodup_append] at h
    rw [dict, List.foldl_concat, ← dict, List.lookup_append]
    by_cases hk : k = key
    · subst hk
      have hnone : kvs.lookup k = none :=
        Assoc.lookup_eq_none_iff.mpr fun hmem => h.2.2 k hmem k (List.mem_singleton_self _) rfl
      simp [hnone]
    · rw [Function.update_of_ne hk, ih h.1]
      have hne : (k == key) = false := beq_eq_false_iff_ne.mpr hk
      rw [List.lookup_cons, hne]
      exact Option.or_none.symm

/-- The reader finds the entries of a header, whatever follows it. -/
theorem readGgufMeta_encode (h : Header O.room depth) (tail : List UInt8) :
    readGgufMeta O depth (h.encode ++ tail) = summary O fun k => (h.get? k).map (GgufValue.value O) := by
  have hmagic : (h.encode ++ tail).take 4 = magic := by
    rw [Header.encode, List.append_assoc, List.take_left' length_magic]
  have hbody : (h.encode ++ tail).drop 4 = h.body ++ tail := by
    rw [Header.encode, List.append_assoc, List.drop_left' length_magic]
  have hmap : ∀ kvs : List (String × GgufValue), ∀ k,
      (kvs.map fun kv => (kv.1, kv.2.value O)).lookup k = (kvs.lookup k).map (GgufValue.value O) := by
    intro kvs k
    induction kvs with
    | nil => rfl
    | cons kv kvs ih =>
      rw [List.map_cons, List.lookup_cons, List.lookup_cons, ih]
      cases k == kv.1 <;> rfl
  have hkeys : ((h.entries.map fun kv => (kv.1, kv.2.value O)).map Prod.fst).Nodup := by
    rw [List.map_map]
    exact h.keys_nodup
  rw [readGgufMeta, if_neg (not_not.mpr hmagic), hbody, (h.reads_body O).whole]
  dsimp only
  congr 1
  funext k
  rw [dict_eq_lookup hkeys, hmap]
  rfl

/-- In a part of a header it finds nothing. -/
theorem readGgufMeta_cut (h : Header O.room depth) {p : List UInt8} (hp : p <+: h.encode) (hne : p ≠ h.encode) :
    readGgufMeta O depth p = some none := by
  rw [readGgufMeta]
  split_ifs with hmagic
  · rfl
  · obtain ⟨body, rfl⟩ : magic <+: p := ⟨p.drop 4, by rw [← not_not.mp hmagic, List.take_append_drop]⟩
    have hbody : body <+: h.body := (List.prefix_append_right_inj magic).mp hp
    have hshort : body ≠ h.body := fun heq => hne (by rw [heq, Header.encode])
    rw [List.drop_left' length_magic, (h.reads_body O).cut body hbody hshort]

/-! ### What is returned for a model -/

/-- A number of a header: it has no sign, or is missing. -/
def IsUnsigned (v : Option GgufValue) (n : Option ℕ) : Prop :=
  match v with
  | none => n = none
  | some (.scalar t bits) => t.unsigned = true ∧ n = some bits
  | some _ => False

/-- `key_length` when it is there, and the quotient of `embedding_length` and `head_count`
otherwise; zero if one of these is missing. -/
def dimension (keyLength nEmbd nHead : Option ℕ) : ℕ := keyLength.getD (nEmbd.getD 0 / nHead.getD 0)

theorem value_of_isUnsigned {v : Option GgufValue} {n : Option ℕ} (h : IsUnsigned v n)
    (hfits : ∀ x ∈ v, x.WellFormed O.room depth) : v.map (GgufValue.value O) = n.map fun n : ℕ => .int n := by
  rw [IsUnsigned.eq_def] at h
  split at h
  · rw [h]
    rfl
  · rename_i t bits
    obtain ⟨hsign, rfl⟩ := h
    have hbits : Bytes.ofLittle (Bytes.toLittle t.width bits) = bits := by
      cases hfits _ rfl with
      | scalar hbits => exact Bytes.ofLittle_toLittle hbits
    rw [Option.map_some, Option.map_some, GgufValue.value, unpack_unsigned hsign, hbits]
  · exact h.elim

theorem Header.wellFormed_get? (h : Header O.room depth) {k : String} : ∀ x ∈ h.get? k, x.WellFormed O.room depth := by
  intro x hx
  obtain ⟨l₁, l₂, hentries, -⟩ := List.lookup_eq_some_iff.mp hx
  exact h.wellFormed (k, x) (by rw [hentries]; simp)

theorem toInt?_int (n : Option ℕ) : toInt? O (n.map fun n : ℕ => .int n) = some ((n.filter (0 < ·)).map fun n => (n : ℤ)) := by
  cases n with
  | none => rfl
  | some n =>
    cases n with
    | zero => rfl
    | succ n => rfl

theorem headDim_int (keyLength nEmbd nHead : Option ℕ) :
    ∃ d, headDim (keyLength.map fun n : ℕ => .int n) (nEmbd.map fun n : ℕ => .int n) (nHead.map fun n : ℕ => .int n) = some d ∧
      (d = none ∧ dimension keyLength nEmbd nHead = 0 ∨ d = some (.int (dimension keyLength nEmbd nHead))) := by
  cases keyLength with
  | some k => exact ⟨_, rfl, .inr rfl⟩
  | none =>
    cases nEmbd with
    | none => exact ⟨none, rfl, .inl ⟨rfl, Nat.zero_div _⟩⟩
    | some e =>
      cases nHead with
      | none => exact ⟨none, rfl, .inl ⟨rfl, Nat.div_zero _⟩⟩
      | some n =>
        by_cases hzero : e = 0 ∨ n = 0
        · refine ⟨none, ?_, .inl ⟨rfl, ?_⟩⟩
          · rcases hzero with rfl | rfl <;> simp [headDim, truthy]
          · rcases hzero with rfl | rfl <;> simp [dimension]
        · rw [not_or] at hzero
          refine ⟨some (.int (e / n : ℕ)), ?_, .inr rfl⟩
          simp [headDim, truthy, hzero.1, hzero.2, floorDiv, PyValue.whole?, Int.fdiv_eq_ediv_of_nonneg]

/-- An optional entry of a header, and what is returned for it: `None` when it is missing or falsy, else what
`int` makes of it. -/
def IsOptional (v : Option GgufValue) (n : Option ℤ) : Prop := toInt? O (v.map (GgufValue.value O)) = some n

/-- A number without a sign is one; a zero is falsy. -/
theorem isOptional_of_isUnsigned {v : Option GgufValue} {n : Option ℕ} (h : IsUnsigned v n)
    (hfits : ∀ x ∈ v, x.WellFormed O.room depth) : IsOptional O v ((n.filter (0 < ·)).map fun n => (n : ℤ)) := by
  rw [IsOptional, value_of_isUnsigned O h hfits, toInt?_int]

/-- For a header with a named architecture and numbers without a sign, the reader returns the
numbers, unless there is no dimension of a head; for a part of the header it returns `None`. -/
theorem readGgufMeta_model (h : Header O.room depth) {A : String} {nLayers nHeadKv : ℕ} {keyLength e n : Option ℕ}
    {nEmbd nHead : Option ℤ} (hA : A ≠ "") (harch : h.get? "general.architecture" = some (.str (Bytes.encode A)))
    (hlayers : IsUnsigned (h.get? (A ++ "." ++ "block_count")) (some nLayers))
    (hkv : IsUnsigned (h.get? (A ++ "." ++ "attention.head_count_kv")) (some nHeadKv))
    (hkey : IsUnsigned (h.get? (A ++ "." ++ "attention.key_length")) keyLength)
    (hquotient : keyLength = none → IsUnsigned (h.get? (A ++ "." ++ "embedding_length")) e ∧
      IsUnsigned (h.get? (A ++ "." ++ "attention.head_count")) n)
    (hembd : IsOptional O (h.get? (A ++ "." ++ "embedding_length")) nEmbd)
    (hhead : IsOptional O (h.get? (A ++ "." ++ "attention.head_count")) nHead) :
    (∀ tail, readGgufMeta O depth (h.encode ++ tail) = some
      (if dimension keyLength e n = 0 then none
      else some
        { arch := .str A
          nLayers := nLayers
          nHead := nHead
          nHeadKv := nHeadKv
          nEmbd := nEmbd
          headDim := dimension keyLength e n })) ∧
      ∀ p, p <+: h.encode → p ≠ h.encode → readGgufMeta O depth p = some none := by
  refine ⟨fun tail => ?_, fun p hp hne => readGgufMeta_cut O h hp hne⟩
  have hint : ∀ {k n}, IsUnsigned (h.get? k) n → (h.get? k).map (GgufValue.value O) = n.map fun n : ℕ => .int n :=
    fun hn => value_of_isUnsigned O hn h.wellFormed_get?
  obtain ⟨d, hd, hcases⟩ : ∃ d, headDim (keyLength.map fun n : ℕ => .int n)
      ((h.get? (A ++ "." ++ "embedding_length")).map (GgufValue.value O))
      ((h.get? (A ++ "." ++ "attention.head_count")).map (GgufValue.value O)) = some d ∧
        (d = none ∧ dimension keyLength e n = 0 ∨ d = some (.int (dimension keyLength e n))) := by
    cases keyLength with
    | some k => exact ⟨_, rfl, .inr rfl⟩
    | none =>
      obtain ⟨he, hn⟩ := hquotient rfl
      rw [hint he, hint hn]
      exact headDim_int none e n
  have hembd' : toInt? O ((h.get? (A ++ "." ++ "embedding_length")).map (GgufValue.value O)) = some nEmbd := hembd
  have hhead' : toInt? O ((h.get? (A ++ "." ++ "attention.head_count")).map (GgufValue.value O)) = some nHead := hhead
  rw [readGgufMeta_encode, summary]
  simp only [harch, Option.map_some, GgufValue.value, decode_encode, format, hint hlayers, hint hkv, hint hkey, hembd', hhead']
  have harchTrue : truthy (.str A) = true := by simpa [truthy] using hA
  rw [harchTrue, if_neg (by decide), hd]
  rcases hcases with ⟨rfl, hzero⟩ | rfl
  · rw [if_pos hzero]
    rfl
  · by_cases hzero : dimension keyLength e n = 0
    · rw [if_pos hzero, hzero]
      rfl
    · have hdim : truthy (.int (dimension keyLength e n)) = true := by simpa [truthy] using hzero
      rw [if_neg hzero]
      simp [hdim, toInt]

/-- Only ASCII is known, and there is room for a KiB. -/
def Objects.none : Objects := ⟨fun _ => "", fun _ => "", fun _ => false, PyText.asciiDecimal, some 4300, 1024⟩

/-- The entries of a small model, with an array. -/
def smallEntries : List (String × GgufValue) :=
  [("general.architecture", .str (Bytes.encode "a")), ("a.block_count", .scalar .uint32 2),
    ("tokens", .arr stringCode [.str [104, 105], .str []]), ("a.attention.head_count", .scalar .uint32 4),
    ("a.attention.head_count_kv", .scalar .uint32 1), ("a.embedding_length", .scalar .uint32 64)]

/-- A `key_length` of zero. -/
def zeroKey : String × GgufValue := ("a.attention.key_length", .scalar .uint32 0)

theorem wellFormed_small : ∀ kv ∈ smallEntries ++ [zeroKey], kv.2.WellFormed Objects.none.room 1 := by
  intro kv hkv
  simp only [smallEntries, zeroKey, List.mem_append, List.mem_cons, List.not_mem_nil, or_false] at hkv
  rcases hkv with (rfl | rfl | rfl | rfl | rfl | rfl) | rfl
  · exact .str (by decide) (by decide)
  · exact .scalar (by decide)
  · refine .arr (by decide) (by decide) (by decide) ?_
    intro x hx
    simp only [List.mem_cons, List.not_mem_nil, or_false] at hx
    rcases hx with rfl | rfl <;> exact .str (by decide) (by decide)
  all_goals exact .scalar (by decide)

/-- The header of the small model. -/
def small : Header Objects.none.room 1 where
  version := 3
  tensors := 0
  entries := smallEntries
  version_lt := by decide
  tensors_lt := by decide
  length_lt := by decide
  keys_nodup := by decide
  key_length_lt := by decide
  key_length_le := by decide
  wellFormed kv hkv := wellFormed_small kv (List.mem_append_left _ hkv)

/-- The same with a `key_length` of zero. -/
def smallZeroKey : Header Objects.none.room 1 where
  version := 3
  tensors := 0
  entries := smallEntries ++ [zeroKey]
  version_lt := by decide
  tensors_lt := by decide
  length_lt := by decide
  keys_nodup := by decide
  key_length_lt := by decide
  key_length_le := by decide
  wellFormed := wellFormed_small

/-- The small model is read, with 16 for the dimension of a head. -/
theorem readGgufMeta_small : (∀ tail, readGgufMeta .none 1 (small.encode ++ tail) =
    some (some ⟨.str "a", 2, some 4, 1, some 64, 16⟩)) ∧
      ∀ p, p <+: small.encode → p ≠ small.encode → readGgufMeta .none 1 p = some none := by
  have hembd : IsUnsigned (small.get? "a.embedding_length") (some 64) := ⟨rfl, rfl⟩
  have hhead : IsUnsigned (small.get? "a.attention.head_count") (some 4) := ⟨rfl, rfl⟩
  exact @readGgufMeta_model .none 1 small "a" 2 1 none (some 64) (some 4) (some 64) (some 4) (by decide) rfl ⟨rfl, rfl⟩ ⟨rfl, rfl⟩
    rfl (fun _ => ⟨hembd, hhead⟩) (isOptional_of_isUnsigned .none hembd small.wellFormed_get?)
    (isOptional_of_isUnsigned .none hhead small.wellFormed_get?)

/-- With a `key_length` of zero and a quotient of 16 nothing is returned. -/
theorem readGgufMeta_smallZeroKey :
    (IsUnsigned (smallZeroKey.get? "a.embedding_length") (some 64) ∧ IsUnsigned (smallZeroKey.get? "a.attention.head_count") (some 4)) ∧
      ¬ ∃ m, readGgufMeta .none 1 smallZeroKey.encode = some (some m) := by
  refine ⟨⟨⟨rfl, rfl⟩, ⟨rfl, rfl⟩⟩, ?_⟩
  rintro ⟨m, hm⟩
  have hread := readGgufMeta_encode .none smallZeroKey []
  rw [List.append_nil, hm] at hread
  have hnone : summary .none (fun k => (smallZeroKey.get? k).map (GgufValue.value .none)) = some none := rfl
  rw [hnone] at hread
  cases hread

end Persona.Provision.Gguf
