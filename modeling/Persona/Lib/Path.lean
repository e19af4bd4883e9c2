import Mathlib.Data.List.Induction
import Mathlib.Data.List.Infix

/-!
# Paths

The parts of a path between its slashes, its lexical normal form, and the operations that
create directories and files. A path is the list of its parts from the root; a part `..` is
kept until the path is normalised.

A path that is read from a directory climbs some levels above it and then names what lies
below (`net`). It comes back into the directory when the names lead down again by the names
of the levels it climbed (`prefix_normalise_iff`).
-/

namespace Persona.Lib.Path

/-! ### Lexical paths -/

/-- The parts of a path; empty parts and dots are nothing. -/
def parts (s : String) : List String :=
  ((s.toList.splitOn '/').map String.ofList).filter fun c => c ≠ "" ∧ c ≠ "."

/-- What is appended without a separator goes to the last part. -/
theorem splitOn_append {α : Type*} [DecidableEq α] (sep : α) (xs : List α) :
    ∃ init last, xs.splitOn sep = init ++ [last] ∧ ∀ ys, sep ∉ ys → (xs ++ ys).splitOn sep = init ++ [last ++ ys] := by
  induction xs with
  | nil => exact ⟨[], [], List.splitOn_nil sep, fun ys hys => List.splitOn_eq_singleton hys⟩
  | cons x xs ih =>
    obtain ⟨init, last, hxs, hys⟩ := ih
    by_cases hx : x = sep
    · refine ⟨[] :: init, last, ?_, fun ys h => ?_⟩
      · simp [List.splitOn_cons_eq_if_modifyHead, hx, hxs]
      · simp [List.splitOn_cons_eq_if_modifyHead, hx, hys ys h]
    · cases init with
      | nil =>
        refine ⟨[], x :: last, ?_, fun ys h => ?_⟩
        · simp [List.splitOn_cons_eq_if_modifyHead, hx, hxs]
        · simp [List.splitOn_cons_eq_if_modifyHead, hx, hys ys h]
      | cons i is =>
        refine ⟨(x :: i) :: is, last, ?_, fun ys h => ?_⟩
        · simp [List.splitOn_cons_eq_if_modifyHead, hx, hxs]
        · simp [List.splitOn_cons_eq_if_modifyHead, hx, hys ys h]

theorem notMem_of_mem_splitOn {α : Type*} [DecidableEq α] {sep : α} {xs l : List α} (h : l ∈ xs.splitOn sep) : sep ∉ l := by
  induction xs generalizing l with
  | nil =>
    rw [List.splitOn_nil, List.mem_singleton] at h
    rw [h]
    exact List.not_mem_nil
  | cons x xs ih =>
    obtain ⟨l', ls, hxs⟩ := List.exists_cons_of_ne_nil (List.splitOn_ne_nil sep xs)
    rw [hxs] at ih
    rw [List.splitOn_cons_eq_if_modifyHead, hxs] at h
    split_ifs at h with hx
    · rcases List.mem_cons.mp h with rfl | h
      · exact List.not_mem_nil
      · exact ih h
    · rw [List.modifyHead_cons] at h
      rcases List.mem_cons.mp h with rfl | h
      · have hne : sep ≠ x := fun heq => hx (by rw [heq, beq_self_eq_true])
        exact List.not_mem_cons_of_ne_of_not_mem hne (ih List.mem_cons_self)
      · exact ih (List.mem_cons_of_mem _ h)

/-- What a part of a path is. -/
structure IsPart (c : String) : Prop where
  ne_empty : c ≠ ""
  ne_dot : c ≠ "."
  noSlash : '/' ∉ c.toList

theorem isPart_of_mem_parts {s c : String} (h : c ∈ parts s) : IsPart c := by
  obtain ⟨hmem, hc⟩ := List.mem_filter.mp h
  obtain ⟨l, hl, rfl⟩ := List.mem_map.mp hmem
  rw [decide_eq_true_eq] at hc
  refine ⟨hc.1, hc.2, ?_⟩
  rw [String.toList_ofList]
  exact notMem_of_mem_splitOn hl

/-- The text of an absolute path. -/
def text (p : List String) : List Char := '/' :: List.intercalate ['/'] (p.map String.toList)

/-- The parts of the text of a path are its parts. -/
theorem parts_text {p : List String} (h : ∀ c ∈ p, IsPart c) : parts (String.ofList (text p)) = p := by
  have hsplit : (text p).splitOn '/' = [] :: (List.intercalate ['/'] (p.map String.toList)).splitOn '/' := by
    simp [text, List.splitOn_cons_eq_if_modifyHead]
  rw [parts, String.toList_ofList, hsplit]
  cases p with
  | nil => simp [List.splitOn_nil]
  | cons c cs =>
    have hslash : ∀ l ∈ (c :: cs).map String.toList, '/' ∉ l := by
      intro l hl
      obtain ⟨d, hd, rfl⟩ := List.mem_map.mp hl
      exact (h d hd).noSlash
    have hback : ((c :: cs).map String.toList).map String.ofList = c :: cs := by simp
    rw [List.splitOn_intercalate '/' hslash (by simp), List.map_cons, hback, List.filter_cons_of_neg (by simp),
      List.filter_eq_self]
    intro d hd
    simpa using ⟨(h d hd).ne_empty, (h d hd).ne_dot⟩

/-- The path does not depend on where it is read from. -/
def isAbsolute (s : String) : Bool := s.toList.head? = some '/'

/-- A part of a path, read from a place. -/
def step (cur : List String) (c : String) : List String := if c = ".." then cur.dropLast else cur ++ [c]

/-- `normpath`. -/
def normalise (cs : List String) : List String := cs.foldl step []

/-- How many levels a path climbs above the place it is read from, and what it names there. -/
def netStep (net : ℕ × List String) (c : String) : ℕ × List String :=
  if c = ".." then (if net.2 = [] then (net.1 + 1, []) else (net.1, net.2.dropLast)) else (net.1, net.2 ++ [c])

def net (cs : List String) : ℕ × List String := cs.foldl netStep (0, [])

/-- A path lies in a directory, lexically. -/
def Inside (dir p : List String) : Prop := dir <+: normalise p ∧ normalise p ≠ dir

theorem normalise_concat (cs : List String) (c : String) : normalise (cs ++ [c]) = step (normalise cs) c := by
  rw [normalise, List.foldl_concat, ← normalise]

theorem net_concat (cs : List String) (c : String) : net (cs ++ [c]) = netStep (net cs) c := by
  rw [net, List.foldl_concat, ← net]

/-- A path without `..` is its normal form. -/
theorem normalise_of_plain {cs : List String} (h : ".." ∉ cs) : normalise cs = cs := by
  induction cs using List.reverseRecOn with
  | nil => rfl
  | append_singleton cs c ih =>
    rw [List.mem_append, not_or] at h
    have hc : c ≠ ".." := fun heq => h.2 (by rw [heq]; exact List.mem_singleton_self _)
    rw [normalise_concat, ih h.1, step, if_neg hc]

/-- Where a path leads from a directory. -/
theorem normalise_append {dir : List String} (h : ".." ∉ dir) (cs : List String) :
    normalise (dir ++ cs) = dir.take (dir.length - (net cs).1) ++ (net cs).2 := by
  induction cs using List.reverseRecOn with
  | nil =>
    rw [List.append_nil, normalise_of_plain h]
    simp [net]
  | append_singleton cs c ih =>
    rw [← List.append_assoc, normalise_concat, ih, net_concat, step, netStep]
    split_ifs with hc hnames
    · rw [hnames, List.append_nil, List.append_nil, List.dropLast_eq_take, List.length_take, List.take_take]
      congr 1
      omega
    · rw [List.dropLast_append_of_ne_nil hnames]
    · rw [List.append_assoc]

theorem normalise_eq_net (cs : List String) : normalise cs = (net cs).2 := by
  have h := @normalise_append [] (by simp) cs
  simpa using h

/-! ### Directories -/

/-- A directory by its absolute path, in normal form. -/
structure Directory where
  names : List String
  plain : ".." ∉ names
  /-- No part has a null character. -/
  valid : ∀ c ∈ names, '\x00' ∉ c.toList

namespace Directory

variable (dir : Directory)

/-- Where a path that is joined to the directory starts. -/
def start (absolute : Bool) : List String := if absolute then [] else dir.names

/-- The names of the levels that a path climbs: of all levels if it is absolute. -/
def climbed (absolute : Bool) (cs : List String) : List String :=
  if absolute then dir.names else dir.names.drop (dir.names.length - (net cs).1)

variable {dir}

theorem names_eq (dir : Directory) (absolute : Bool) (cs : List String) :
    ∃ base, dir.names = base ++ dir.climbed absolute cs ∧ normalise (dir.start absolute ++ cs) = base ++ (net cs).2 := by
  cases absolute with
  | true => exact ⟨[], rfl, by rw [start, if_pos rfl, List.nil_append, normalise_eq_net, List.nil_append]⟩
  | false =>
    refine ⟨dir.names.take (dir.names.length - (net cs).1), ?_, ?_⟩
    · rw [climbed, if_neg (by decide), List.take_append_drop]
    · rw [start, if_neg (by decide), normalise_append dir.plain]

/-- A path comes back into the directory when it leads down by the levels it climbed. -/
theorem prefix_normalise_iff {absolute : Bool} {cs : List String} :
    dir.names <+: normalise (dir.start absolute ++ cs) ↔ dir.climbed absolute cs <+: (net cs).2 := by
  obtain ⟨base, hnames, hnorm⟩ := names_eq dir absolute cs
  rw [hnorm]
  conv_lhs => rw [hnames]
  exact List.prefix_append_right_inj base

theorem normalise_prefix_iff {absolute : Bool} {cs : List String} :
    normalise (dir.start absolute ++ cs) <+: dir.names ↔ (net cs).2 <+: dir.climbed absolute cs := by
  obtain ⟨base, hnames, hnorm⟩ := names_eq dir absolute cs
  rw [hnorm]
  conv_lhs => rw [hnames]
  exact List.prefix_append_right_inj base

end Directory

/-! ### Files -/

/-- What there is at a place. -/
inductive Kind where
  | dir | file
  deriving DecidableEq

/-- A file system without links: what there is at a place, and where something may be created. -/
structure FileSystem where
  kind : List String → Option Kind
  permits : List String → Bool

namespace FileSystem

/-- No part of a path has a null character. -/
def valid (p : List String) : Bool := p.all fun c => '\x00' ∉ c.toList

/-- Something is at a place. -/
def set (fs : FileSystem) (q : List String) (k : Kind) : FileSystem := { fs with kind := Function.update fs.kind q (some k) }

/-- `open(p, "w")` succeeds: the path can be walked, and a file may be there. -/
def opens (fs : FileSystem) (p : List String) : Bool :=
  valid p && p.dropLast.inits.all (fun pre => fs.kind (normalise pre) = some .dir) &&
    fs.kind (normalise p) ≠ some .dir && fs.permits (normalise p)

/-- `mkdir(parents=True, exist_ok=True)` of a path, from the part `pre` of it on: the paths of the
directories that are created, and the file system afterwards unless it raises. -/
def makeDirs (fs : FileSystem) (pre : List String) : List String → List (List String) × Option FileSystem
  | [] => ([], some fs)
  | c :: cs =>
    match fs.kind (normalise (pre ++ [c])) with
    | some .dir => makeDirs fs (pre ++ [c]) cs
    | some .file => ([], none)
    | none =>
      if fs.permits (normalise (pre ++ [c])) then
        let r := makeDirs (fs.set (normalise (pre ++ [c])) .dir) (pre ++ [c]) cs
        ((pre ++ [c]) :: r.1, r.2)
      else ([], none)

/-- A directory and those it is in are there. -/
def Has (fs : FileSystem) (dir : Directory) : Prop := ∀ q, q <+: dir.names → fs.kind q = some .dir

/-- There are directories alone, and anything may be created. -/
def Free (fs : FileSystem) : Prop := (∀ q, fs.kind q ≠ some .file) ∧ ∀ q, fs.permits q = true

variable {fs fs' : FileSystem} {pre cs p q : List String} {k : Kind}

theorem opens_iff : fs.opens p = true ↔
    valid p = true ∧ (∀ pre, pre <+: p.dropLast → fs.kind (normalise pre) = some .dir) ∧
      fs.kind (normalise p) ≠ some .dir ∧ fs.permits (normalise p) = true := by
  simp [opens, List.mem_inits, and_assoc]

theorem kind_set_self : (fs.set q k).kind q = some k := Function.update_self _ _ _

theorem kind_set_of_ne (h : q ≠ p) (k : Kind) : (fs.set p k).kind q = fs.kind q := Function.update_of_ne h _ _

theorem kind_set_of_some (h : fs.kind q = some k) (hp : fs.kind p = none) (k' : Kind) : (fs.set p k').kind q = some k := by
  have hne : q ≠ p := by
    rintro rfl
    rw [h] at hp
    cases hp
  rw [kind_set_of_ne hne, h]

theorem Has.set {dir : Directory} (h : fs.Has dir) (hq : fs.kind q ≠ some .dir) : (fs.set q k).Has dir := by
  intro q' hq'
  have hne : q' ≠ q := by
    rintro rfl
    exact hq (h q' hq')
  rw [kind_set_of_ne hne]
  exact h q' hq'

/-- What is made is made on the way, where nothing was. -/
theorem mem_makeDirs (h : p ∈ (fs.makeDirs pre cs).1) :
    ∃ pre', p = pre ++ pre' ∧ pre' <+: cs ∧ fs.kind (normalise p) = none := by
  induction cs generalizing fs pre with
  | nil => cases h
  | cons c cs ih =>
    rw [makeDirs] at h
    split at h
    · obtain ⟨pre', rfl, hpre', hnone⟩ := ih h
      exact ⟨c :: pre', by simp, List.cons_prefix_cons.mpr ⟨rfl, hpre'⟩, hnone⟩
    · cases h
    · rename_i hkind
      split_ifs at h
      · rcases List.mem_cons.mp h with rfl | h
        · exact ⟨[c], rfl, List.cons_prefix_cons.mpr ⟨rfl, List.nil_prefix⟩, hkind⟩
        · obtain ⟨pre', rfl, hpre', hnone⟩ := ih h
          refine ⟨c :: pre', by simp, List.cons_prefix_cons.mpr ⟨rfl, hpre'⟩, ?_⟩
          cases hfs : fs.kind (normalise (pre ++ [c] ++ pre')) with
          | none => rfl
          | some k =>
            rw [kind_set_of_some hfs hkind] at hnone
            cases hnone
      · cases h

/-- Directories that are there stay. -/
theorem Has.makeDirs {dir : Directory} (h : fs.Has dir) (hmake : (fs.makeDirs pre cs).2 = some fs') : fs'.Has dir := by
  induction cs generalizing fs pre with
  | nil =>
    cases hmake
    exact h
  | cons c cs ih =>
    rw [FileSystem.makeDirs] at hmake
    split at hmake
    · exact ih h hmake
    · cases hmake
    · rename_i hkind
      split_ifs at hmake
      exact ih (h.set (by rw [hkind]; simp)) hmake

/-- The directories on the way of a path are those of its first part and of the rest. -/
theorem kind_cons_of {c : String} (hc : fs.kind (normalise (pre ++ [c])) = some .dir)
    (hcs : ∀ pre', pre' <+: cs → pre' ≠ [] → fs.kind (normalise (pre ++ [c] ++ pre')) = some .dir) :
    ∀ pre', pre' <+: c :: cs → pre' ≠ [] → fs.kind (normalise (pre ++ pre')) = some .dir := by
  intro pre' hpre' hne
  obtain ⟨d, tail, rfl⟩ := List.exists_cons_of_ne_nil hne
  obtain ⟨rfl, htail⟩ := List.cons_prefix_cons.mp hpre'
  by_cases hnil : tail = []
  · rw [hnil]
    exact hc
  · have := hcs tail htail hnil
    rwa [List.append_assoc, List.singleton_append] at this

/-- Where nothing is in the way all directories of a path are made. -/
theorem Free.makeDirs (h : fs.Free) (pre cs : List String) :
    ∃ fs', (fs.makeDirs pre cs).2 = some fs' ∧ fs'.Free ∧
      (∀ pre', pre' <+: cs → pre' ≠ [] → fs'.kind (normalise (pre ++ pre')) = some .dir) ∧
      (∀ q, fs.kind q = some .dir → fs'.kind q = some .dir) ∧
      ∀ q, fs'.kind q = some .dir → fs.kind q = some .dir ∨ ∃ p ∈ (fs.makeDirs pre cs).1, normalise p = q := by
  induction cs generalizing fs pre with
  | nil => exact ⟨fs, rfl, h, fun pre' hpre' hne => absurd (List.prefix_nil.mp hpre') hne, fun q hq => hq, fun q hq => .inl hq⟩
  | cons c cs ih =>
    cases hkind : fs.kind (normalise (pre ++ [c])) with
    | none =>
      have hfree : (fs.set (normalise (pre ++ [c])) .dir).Free := by
        refine ⟨fun q => ?_, h.2⟩
        by_cases hq : q = normalise (pre ++ [c])
        · rw [hq, kind_set_self]
          simp
        · rw [kind_set_of_ne hq]
          exact h.1 q
      obtain ⟨fs', hmake, hfree', hdirs, hold, hnew⟩ := ih hfree (pre ++ [c])
      have hstep : fs.makeDirs pre (c :: cs) = ((pre ++ [c]) :: ((fs.set (normalise (pre ++ [c])) .dir).makeDirs (pre ++ [c]) cs).1,
          ((fs.set (normalise (pre ++ [c])) .dir).makeDirs (pre ++ [c]) cs).2) := by
        rw [FileSystem.makeDirs, hkind]
        simp [h.2]
      refine ⟨fs', by rw [hstep, hmake], hfree', ?_, ?_, ?_⟩
      · exact kind_cons_of (hold _ kind_set_self) hdirs
      · exact fun q hq => hold q (kind_set_of_some hq hkind _)
      · intro q hq
        rw [hstep]
        rcases hnew q hq with hq | ⟨p, hp, rfl⟩
        · by_cases hself : q = normalise (pre ++ [c])
          · exact .inr ⟨_, List.mem_cons_self, hself.symm⟩
          · rw [kind_set_of_ne hself] at hq
            exact .inl hq
        · exact .inr ⟨p, List.mem_cons_of_mem _ hp, rfl⟩
    | some k =>
      cases k with
      | file => exact absurd hkind (h.1 _)
      | dir =>
        obtain ⟨fs', hmake, hfree', hdirs, hold, hnew⟩ := ih h (pre ++ [c])
        have hstep : fs.makeDirs pre (c :: cs) = fs.makeDirs (pre ++ [c]) cs := by rw [FileSystem.makeDirs, hkind]
        refine ⟨fs', by rw [hstep, hmake], hfree', ?_, hold, by rwa [hstep]⟩
        exact kind_cons_of (hold _ hkind) hdirs

end FileSystem

end Persona.Lib.Path
