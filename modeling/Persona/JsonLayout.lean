import Persona.JsonLex

/-!
# The texts of a value

A `Layout` of a value is any text of it: on one line or over several, with blanks wherever JSON allows
them, any escapes in its strings, and each key of a dictionary once. It is read back, whatever follows it
(`Layout.isText`). Where a bracket stands in such a text there begins the text of the value or of a part
of it, or the bracket is in a literal (`Layout.at_bracket`).
-/

namespace Persona.JsonText

open Persona.Lib.PyText (PyChar PyStr isLineBreak)

variable {F : Floats}

/-! ### Layouts -/

/-- A string literal of the text `k`. -/
def Literal (k : String) (c : List Char) : Prop := ∃ cs s, c = '"' :: cs ∧ scanString cs = some (s, []) ∧ stringText s = k

/-- Only blanks. -/
def Blanks (ws : List Char) : Prop := ∀ c ∈ ws, isBlank c = true

/-- Texts, with commas between them. -/
def commas : List (List Char) → List Char
  | [] => []
  | [c] => c
  | c :: d :: cs => c ++ ',' :: commas (d :: cs)

/-- An element of an array in a text, with the blanks around it. -/
structure Element where
  before : List Char
  text : List Char
  after : List Char
  value : Json

/-- The element with its blanks. -/
def Element.part (e : Element) : List Char := e.before ++ (e.text ++ e.after)

/-- An item of a dictionary in a text, with the blanks around its key and its value. -/
structure Member extends Element where
  key : String
  keyText : List Char
  beforeKey : List Char
  beforeColon : List Char

/-- The item with its blanks. -/
def Member.part (m : Member) : List Char := m.beforeKey ++ (m.keyText ++ (m.beforeColon ++ ':' :: m.toElement.part))

/-- The text is one of the value. -/
inductive Layout (F : Floats) : Json → List Char → Prop
  | atom {v : Json} {c : List Char} (h : scanAtom F c = some (v, [])) : Layout F v c
  | str {k : String} {c : List Char} (h : Literal k c) : Layout F (.str k) c
  | arrNil {ws : List Char} (hws : Blanks ws) : Layout F (.arr []) ('[' :: (ws ++ [']']))
  | arr {es : List Element} (hne : es ≠ []) (hblanks : ∀ e ∈ es, Blanks e.before ∧ Blanks e.after)
      (h : ∀ e ∈ es, Layout F e.value e.text) : Layout F (.arr (es.map Element.value)) ('[' :: (commas (es.map Element.part) ++ [']']))
  | objNil {ws : List Char} (hws : Blanks ws) : Layout F (.obj []) ('\x7b' :: (ws ++ ['\x7d']))
  | obj {ms : List Member} (hne : ms ≠ []) (hnodup : (ms.map Member.key).Nodup)
      (hkeys : ∀ m ∈ ms, Literal m.key m.keyText ∧ Blanks m.beforeKey ∧ Blanks m.beforeColon)
      (hblanks : ∀ m ∈ ms, Blanks m.before ∧ Blanks m.after) (h : ∀ m ∈ ms, Layout F m.value m.text) :
      Layout F (.obj (ms.map fun m => (m.key, m.value))) ('\x7b' :: (commas (ms.map Member.part) ++ ['\x7d']))

/-! ### Layouts are read back -/

theorem Literal.spec {k : String} {c : List Char} (h : Literal k c) : ∃ b s, c = '"' :: (b ++ ['"']) ∧ Body b ∧ stringText s = k ∧
    ∀ rest, scanString (b ++ '"' :: rest) = some (s, rest) := by
  obtain ⟨cs, s, rfl, hscan, hk⟩ := h
  obtain ⟨b, rfl, hbody, hb⟩ := scanString_body hscan
  exact ⟨b, s, rfl, hbody, hk, hb⟩

theorem isElements_commas {e : Element} {es : List Element} (hblanks : ∀ x ∈ e :: es, Blanks x.before ∧ Blanks x.after)
    (h : ∀ x ∈ e :: es, IsText F x.value x.text) : ∃ d, commas ((e :: es).map Element.part) = e.before ++ d ∧
      IsElements F ((e :: es).map Element.value) d := by
  induction es generalizing e with
  | nil => exact ⟨e.text ++ e.after, rfl, isElements_last (hblanks e List.mem_cons_self).2 (h e List.mem_cons_self)⟩
  | cons e' es ih =>
    obtain ⟨d, hd, hes⟩ := ih (fun x hx => hblanks x (List.mem_cons_of_mem _ hx)) fun x hx => h x (List.mem_cons_of_mem _ hx)
    refine ⟨e.text ++ (e.after ++ ',' :: (e'.before ++ d)), ?_, isElements_cons (hblanks e List.mem_cons_self).2
      (hblanks e' (by simp)).1 (h e List.mem_cons_self) hes⟩
    rw [← hd]
    simp [commas, Element.part]

theorem isMembers_commas {m : Member} {ms : List Member}
    (hkeys : ∀ x ∈ m :: ms, Literal x.key x.keyText ∧ Blanks x.beforeKey ∧ Blanks x.beforeColon)
    (hblanks : ∀ x ∈ m :: ms, Blanks x.before ∧ Blanks x.after) (h : ∀ x ∈ m :: ms, IsText F x.value x.text) :
    ∃ d, commas ((m :: ms).map Member.part) = m.beforeKey ++ d ∧ IsMembers F ((m :: ms).map fun x => (x.key, x.value)) d := by
  induction ms generalizing m with
  | nil =>
    obtain ⟨hkey, -, hcolon⟩ := hkeys m List.mem_cons_self
    obtain ⟨b, s, hb, hbody, hs, hscan⟩ := hkey.spec
    obtain ⟨hbefore, hafter⟩ := hblanks m List.mem_cons_self
    have hlast := isMembers_last hcolon hbefore hafter hbody hscan (h m List.mem_cons_self)
    rw [hs] at hlast
    refine ⟨_, ?_, hlast⟩
    simp [commas, Member.part, Element.part, hb]
  | cons m' ms ih =>
    obtain ⟨d, hd, hms⟩ := ih (fun x hx => hkeys x (List.mem_cons_of_mem _ hx)) (fun x hx => hblanks x (List.mem_cons_of_mem _ hx))
      fun x hx => h x (List.mem_cons_of_mem _ hx)
    obtain ⟨hkey, -, hcolon⟩ := hkeys m List.mem_cons_self
    obtain ⟨b, s, hb, hbody, hs, hscan⟩ := hkey.spec
    obtain ⟨hbefore, hafter⟩ := hblanks m List.mem_cons_self
    have hcons := isMembers_cons hcolon hbefore hafter (hkeys m' (by simp)).2.1 hbody hscan (h m List.mem_cons_self) hms
    rw [hs] at hcons
    refine ⟨_, ?_, hcons⟩
    rw [List.map_cons, List.map_cons, commas, ← List.map_cons, hd]
    simp [Member.part, Element.part, hb]

/-- **A text of a value is read as the value**, whatever follows it. -/
theorem Layout.isText {v : Json} {c : List Char} (h : Layout F v c) : IsText F v c := by
  induction h with
  | atom h =>
    obtain ⟨token, hc, hne, hchars, hv, hread⟩ := scanAtom_spec h
    rw [List.append_nil] at hc
    subst hc
    exact isText_atom hne hchars hv hread
  | str h =>
    obtain ⟨b, s, rfl, hbody, rfl, hscan⟩ := h.spec
    exact isText_str hbody hscan
  | arrNil hws => exact isText_arr_nil hws
  | @arr es hne hblanks h ih =>
    cases es with
    | nil => exact absurd rfl hne
    | cons e es =>
      obtain ⟨d, hd, hes⟩ := isElements_commas hblanks ih
      rw [hd]
      exact isText_arr (hblanks e List.mem_cons_self).1 hes
  | objNil hws => exact isText_obj_nil hws
  | @obj ms hne hnodup hkeys hblanks h ih =>
    cases ms with
    | nil => exact absurd rfl hne
    | cons m ms =>
      obtain ⟨d, hd, hms⟩ := isMembers_commas hkeys hblanks ih
      have htext := isText_obj (hkeys m List.mem_cons_self).2.1 hms
      rw [dict_of_nodup (by rw [List.map_map]; exact hnodup)] at htext
      rw [hd]
      exact htext

/-! ### Line breaks in literals -/

theorem toNat_of_isLineBreak {d : Char} (h : isLineBreak d = true) :
    d.toNat < 0x20 ∨ d.toNat = 0x85 ∨ d.toNat = 0x2028 ∨ d.toNat = 0x2029 := by
  simp only [isLineBreak, Bool.or_eq_true, Bool.and_eq_true, decide_eq_true_eq, beq_iff_eq] at h
  omega

theorem isLineBreak_of_hexValue {c : Char} {n : ℕ} (h : hexValue c = some n) : isLineBreak c = false := by
  have hrange : 48 ≤ c.toNat ∧ c.toNat ≤ 102 := by
    unfold hexValue at h
    split_ifs at h with h₁ h₂ h₃
    · exact ⟨UInt32.le_iff_toNat_le.mp h₁.1, (UInt32.le_iff_toNat_le.mp h₁.2).trans (by decide)⟩
    · exact ⟨le_trans (by decide) (UInt32.le_iff_toNat_le.mp h₂.1), UInt32.le_iff_toNat_le.mp h₂.2⟩
    · exact ⟨le_trans (by decide) (UInt32.le_iff_toNat_le.mp h₃.1), (UInt32.le_iff_toNat_le.mp h₃.2).trans (by decide)⟩
  by_contra hbreak
  rw [Bool.not_eq_false] at hbreak
  simp only [isLineBreak, Bool.or_eq_true, Bool.and_eq_true, decide_eq_true_eq, beq_iff_eq] at hbreak
  omega

theorem isLineBreak_of_simpleEscape {c u : Char} (h : simpleEscape c = some u) : isLineBreak c = false := by
  unfold simpleEscape at h
  split_ifs at h with h₁ h₂ h₃ h₄ h₅ h₆
  · rcases h₁ with rfl | rfl | rfl <;> rfl
  all_goals subst_vars; rfl

/-- A line break in a literal is in its string, and it is no control character. -/
theorem lineBreak_mem_of_scanString {cs : List Char} {s : PyStr} {rest : List Char} (h : scanString cs = some (s, rest)) {d : Char}
    (hd : d ∈ cs) (hbreak : isLineBreak d = true) : .scalar d ∈ s ∧ ¬ d.toNat < 0x20 ∨ d ∈ rest := by
  have hne : ∀ c : Char, isLineBreak c = false → d ≠ c := by
    rintro c hc rfl
    rw [hc] at hbreak
    cases hbreak
  have hreads := readsString h
  clear h
  induction hreads with
  | done => exact .inr ((List.mem_cons.mp hd).resolve_left (hne _ rfl))
  | @unit x y z w u cs rest s hunit _ ih =>
    have hdigits : ∀ c ∈ [x, y, z, w], d ≠ c := by
      intro c hc
      obtain ⟨n, hn⟩ := exists_hexValue hunit c hc
      exact hne c (isLineBreak_of_hexValue hn)
    simp only [List.forall_mem_cons] at hdigits
    obtain ⟨hx, hy, hz, hw, -⟩ := hdigits
    have hd : d ∈ cs := by simpa [hne '\\' rfl, hne 'u' rfl, hx, hy, hz, hw] using hd
    exact (ih hd).imp_left fun hmem => ⟨List.mem_cons_of_mem _ hmem.1, hmem.2⟩
  | @simple c u cs rest s hescape _ ih =>
    have hd : d ∈ cs := by simpa [hne '\\' rfl, hne c (isLineBreak_of_simpleEscape hescape)] using hd
    exact (ih hd).imp_left fun hmem => ⟨List.mem_cons_of_mem _ hmem.1, hmem.2⟩
  | @plain c cs rest s _ _ hcontrol _ ih =>
    rcases List.mem_cons.mp hd with rfl | hd
    · exact .inl ⟨List.mem_cons_self, hcontrol⟩
    · exact (ih hd).imp_left fun hmem => ⟨List.mem_cons_of_mem _ hmem.1, hmem.2⟩

theorem scalar_mem_joinSurrogates {s : PyStr} {d : Char} (h : .scalar d ∈ s) : .scalar d ∈ joinSurrogates s := by
  induction s using joinSurrogates.induct with
  | case1 a b s hab ih =>
    rw [joinSurrogates, if_pos hab]
    exact List.mem_cons_of_mem _ (ih (by simpa using h))
  | case2 a b s hab ih =>
    rw [joinSurrogates, if_neg hab]
    exact List.mem_cons_of_mem _ (ih ((List.mem_cons.mp h).resolve_left (by simp)))
  | case3 c s hne ih =>
    rw [joinSurrogates]
    · rcases List.mem_cons.mp h with rfl | h
      · exact List.mem_cons_self
      · exact List.mem_cons_of_mem _ (ih h)
    · exact hne
  | case4 => cases h

theorem mem_stringText {s : PyStr} {d : Char} (h : .scalar d ∈ s) : d ∈ (stringText s).toList := by
  rw [stringText, String.toList_ofList]
  exact List.mem_map.mpr ⟨_, scalar_mem_joinSurrogates h, rfl⟩

theorem outside_of_lineBreak {d : Char} (h : isLineBreak d = true) (hcontrol : ¬ d.toNat < 0x20) : outside d = false := by
  have hd : d = Char.ofNat d.toNat := (Char.ofNat_toNat d).symm
  rcases toNat_of_isLineBreak h with hlt | heq | heq | heq
  · exact absurd hlt hcontrol
  all_goals
    rw [heq] at hd
    rw [hd]
    decide

/-- A line break in a literal is in the text it is read as, and may not stand outside a literal. -/
theorem Literal.lineBreak {k : String} {c : List Char} (h : Literal k c) {d : Char} (hd : d ∈ c) (hbreak : isLineBreak d = true) :
    d ∈ k.toList ∧ outside d = false := by
  obtain ⟨cs, s, rfl, hscan, rfl⟩ := h
  have hd : d ∈ cs := (List.mem_cons.mp hd).resolve_left fun heq => by
    rw [heq] at hbreak
    cases hbreak
  obtain ⟨hmem, hcontrol⟩ := (lineBreak_mem_of_scanString hscan hd hbreak).resolve_right List.not_mem_nil
  exact ⟨mem_stringText hmem, outside_of_lineBreak hbreak hcontrol⟩

/-! ### Where a bracket stands -/

/-- What is read from a place in a text of the value, with `x` before it: a part of the value; or the place is
in a literal, whose text before the place has no line break but such as the value's strings hold. -/
def Inside (F : Floats) (v : Json) (x y : List Char) : Prop :=
  (∃ w t rest, y = t ++ rest ∧ IsText F w t ∧ sizeOf w ≤ sizeOf v ∧ (x ≠ [] → sizeOf w < sizeOf v)) ∨
  (Flipped y ∧ ∃ x₀ b, x = x₀ ++ '"' :: b ∧ ∀ d ∈ b, isLineBreak d = true → Holds d v ∧ outside d = false)

theorem Flipped.append {cs ds : List Char} (h : Flipped cs) (hds : Lexed ds) : Flipped (cs ++ ds) := by
  obtain ⟨hb, hcs⟩ := h
  rw [List.append_assoc, List.cons_append]
  exact .mk hb (hcs.append hds)

/-- From a part to the value. -/
theorem Inside.widen {v u : Json} {x y : List Char} (h : Inside F v x y) (pre : List Char) {post : List Char} (hpost : Lexed post)
    (hsize : sizeOf v < sizeOf u) (hholds : ∀ d, Holds d v → Holds d u) : Inside F u (pre ++ x) (y ++ post) := by
  rcases h with ⟨w, t, rest, rfl, ht, hle, -⟩ | ⟨hflip, x₀, b, rfl, hb⟩
  · exact .inl ⟨w, t, rest ++ post, List.append_assoc .., ht, (hle.trans_lt hsize).le, fun _ => hle.trans_lt hsize⟩
  · exact .inr ⟨hflip.append hpost, pre ++ x₀, b, (List.append_assoc ..).symm, fun d hd hbreak =>
      ⟨hholds d (hb d hd hbreak).1, (hb d hd hbreak).2⟩⟩

section

variable {o : Char} {x y : List Char}

/-- A character is in the first part or in the second. -/
theorem at_append {as bs : List Char} (h : as ++ bs = x ++ o :: y) :
    (∃ z, y = z ++ bs ∧ as = x ++ o :: z) ∨ ∃ z, x = as ++ z ∧ bs = z ++ o :: y := by
  rcases List.append_eq_append_iff.mp h with ⟨z, hx, hbs⟩ | ⟨z, has, hz⟩
  · exact .inr ⟨z, hx, hbs⟩
  · cases z with
    | nil => exact .inr ⟨[], by simpa using has.symm, by simpa using hz.symm⟩
    | cons c z =>
      obtain ⟨rfl, hy⟩ := List.cons.inj hz
      exact .inl ⟨z, hy, has⟩

theorem at_append_right {as bs : List Char} (h : as ++ bs = x ++ o :: y) (ho : o ∉ as) : ∃ z, x = as ++ z ∧ bs = z ++ o :: y := by
  refine (at_append h).resolve_left ?_
  rintro ⟨z, -, rfl⟩
  simp at ho

theorem at_append_left {as bs : List Char} (h : as ++ bs = x ++ o :: y) (ho : o ∉ bs) : ∃ z, y = z ++ bs ∧ as = x ++ o :: z := by
  refine (at_append h).resolve_right ?_
  rintro ⟨z, -, rfl⟩
  simp at ho

theorem lexed_commas {cs : List (List Char)} (h : ∀ c ∈ cs, Lexed c) : Lexed (commas cs) := by
  induction cs with
  | nil => exact .nil
  | cons c cs ih =>
    cases cs with
    | nil => exact h c List.mem_cons_self
    | cons d cs => exact (h c List.mem_cons_self).append (.char (by decide) (ih fun d hd => h d (List.mem_cons_of_mem _ hd)))

/-- A character between commas is in one of the texts. -/
theorem at_commas {cs : List (List Char)} (hcs : ∀ c ∈ cs, Lexed c) (h : commas cs = x ++ o :: y) (ho : o ≠ ',') :
    ∃ c ∈ cs, ∃ pre x₁ y₁ post, c = x₁ ++ o :: y₁ ∧ x = pre ++ x₁ ∧ y = y₁ ++ post ∧ Lexed post := by
  induction cs generalizing x with
  | nil => simp [commas] at h
  | cons c cs ih =>
    cases cs with
    | nil => exact ⟨c, List.mem_cons_self, [], x, y, [], h, rfl, by simp, .nil⟩
    | cons d cs =>
      have hrest : Lexed (',' :: commas (d :: cs)) :=
        .char (by decide) (lexed_commas fun c hc => hcs c (List.mem_cons_of_mem _ hc))
      rcases at_append h with ⟨z, rfl, rfl⟩ | ⟨z, rfl, hz⟩
      · exact ⟨_, List.mem_cons_self, [], x, z, _, rfl, rfl, rfl, hrest⟩
      · cases z with
        | nil => exact absurd (List.cons.inj hz).1.symm ho
        | cons e z =>
          obtain ⟨rfl, htail⟩ := List.cons.inj hz
          obtain ⟨c', hc', pre, x₁, y₁, post, rfl, rfl, hy, hpost⟩ := ih (fun c hc => hcs c (List.mem_cons_of_mem _ hc)) htail
          exact ⟨_, List.mem_cons_of_mem _ hc', c ++ ',' :: pre, x₁, y₁, post, rfl, by simp, hy, hpost⟩

/-- A character between two others and commas is the first of them, or in one of the texts. -/
theorem at_items {a b : Char} {cs : List (List Char)} (hcs : ∀ c ∈ cs, Lexed c) (hb : outside b = true)
    (h : a :: (commas cs ++ [b]) = x ++ o :: y) (hcomma : o ≠ ',') (hclose : o ≠ b) : x = [] ∨
    ∃ c ∈ cs, ∃ pre x₁ y₁ post, c = x₁ ++ o :: y₁ ∧ x = a :: (pre ++ x₁) ∧ y = y₁ ++ post ∧ Lexed post := by
  cases x with
  | nil => exact .inl rfl
  | cons e x =>
    obtain ⟨rfl, htail⟩ := List.cons.inj h
    obtain ⟨z, rfl, hin⟩ := at_append_left htail (by simpa using hclose)
    obtain ⟨c, hc, pre, x₁, y₁, post, hsplit, rfl, rfl, hpost⟩ := at_commas hcs hin hcomma
    exact .inr ⟨c, hc, pre, x₁, y₁, post ++ [b], hsplit, rfl, List.append_assoc .., hpost.append (.char hb .nil)⟩

end

section

variable {o : Char} {x y : List Char}

theorem IsOpening.ne (ho : IsOpening o) : o ≠ '"' ∧ o ≠ '\\' ∧ o ≠ ',' ∧ o ≠ ':' ∧ o ≠ ']' ∧ o ≠ '\x7d' ∧ isBlank o = false := by
  rcases ho with rfl | rfl <;> decide

theorem IsOpening.notMem_blanks (ho : IsOpening o) {ws : List Char} (hws : Blanks ws) : o ∉ ws := by
  intro hmem
  have hblank := hws o hmem
  rw [ho.ne.2.2.2.2.2.2] at hblank
  cases hblank

/-- An opening bracket around blanks is the first character. -/
theorem IsOpening.first (ho : IsOpening o) {a b : Char} {ws : List Char} (hws : Blanks ws) (hclose : o ≠ b)
    (h : a :: (ws ++ [b]) = x ++ o :: y) : x = [] := by
  cases x with
  | nil => rfl
  | cons e x =>
    have hmem : o ∈ ws ++ [b] := by
      rw [(List.cons.inj h).2]
      simp
    rcases List.mem_append.mp hmem with hmem | hmem
    · exact absurd hmem (ho.notMem_blanks hws)
    · exact absurd (List.mem_singleton.mp hmem) hclose

theorem Body.of_append {b : List Char} (h : Body (x ++ o :: b)) (ho : o ≠ '\\') : Body b := by
  generalize hc : x ++ o :: b = c at h
  induction h generalizing x with
  | nil => simp at hc
  | @plain d cs _ _ hcs ih =>
    cases x with
    | nil =>
      obtain ⟨-, rfl⟩ := List.cons.inj hc
      exact hcs
    | cons e x => exact ih (List.cons.inj hc).2
  | @escape d cs hcs ih =>
    match x, hc with
    | [], hc => exact absurd (List.cons.inj hc).1 ho
    | [e], hc =>
      obtain ⟨-, htail⟩ := List.cons.inj hc
      obtain ⟨-, rfl⟩ := List.cons.inj htail
      exact hcs
    | e :: e' :: x, hc => exact ih (List.cons.inj (List.cons.inj hc).2).2

theorem Literal.lexed {k : String} {c : List Char} (h : Literal k c) : Lexed c := by
  obtain ⟨b, s, rfl, hbody, -, -⟩ := h.spec
  exact .literal hbody .nil

/-- A bracket in a literal. -/
theorem Literal.at_bracket {k : String} (h : Literal k (x ++ o :: y)) (ho : IsOpening o) : Flipped (o :: y) ∧
    ∃ b, x = '"' :: b ∧ ∀ d ∈ b, isLineBreak d = true → d ∈ k.toList ∧ outside d = false := by
  have hbreak := fun d hd => h.lineBreak (d := d) hd
  obtain ⟨b, s, hb, hbody, -, -⟩ := h.spec
  cases x with
  | nil => exact absurd (List.cons.inj hb).1 ho.ne.1
  | cons e x =>
    obtain ⟨rfl, htail⟩ := List.cons.inj hb
    obtain ⟨z, rfl, rfl⟩ := at_append_left htail.symm (by simpa using ho.ne.1)
    refine ⟨Flipped.cons (.mk (hbody.of_append ho.ne.2.1) .nil) ⟨ho.ne.1, ho.ne.2.1⟩, x, rfl, fun d hd hline => ?_⟩
    exact hbreak d (by simp [hd]) hline

theorem lexed_part {e : Element} (hblanks : Blanks e.before ∧ Blanks e.after) (h : Lexed e.text) : Lexed e.part :=
  (lexed_of_blanks hblanks.1).append (h.append (lexed_of_blanks hblanks.2))

theorem lexed_member_part {m : Member} (hkey : Literal m.key m.keyText ∧ Blanks m.beforeKey ∧ Blanks m.beforeColon)
    (hblanks : Blanks m.before ∧ Blanks m.after) (h : Lexed m.text) : Lexed m.part :=
  (lexed_of_blanks hkey.2.1).append ((Literal.lexed hkey.1).append
    ((lexed_of_blanks hkey.2.2).append (.char (by decide) (lexed_part hblanks h))))

theorem at_part {e : Element} (hblanks : Blanks e.before ∧ Blanks e.after) (ho : IsOpening o) (h : e.part = x ++ o :: y) :
    ∃ x₁ y₁, x = e.before ++ x₁ ∧ y = y₁ ++ e.after ∧ e.text = x₁ ++ o :: y₁ := by
  obtain ⟨x₁, hx, htext⟩ := at_append_right h (ho.notMem_blanks hblanks.1)
  obtain ⟨y₁, hy, htext⟩ := at_append_left htext (ho.notMem_blanks hblanks.2)
  exact ⟨x₁, y₁, hx, hy, htext⟩

theorem inside_first {v : Json} (h : IsText F v (x ++ o :: y)) (hx : x = []) : Inside F v x (o :: y) := by
  subst hx
  exact .inl ⟨v, _, [], (List.append_nil _).symm, h, le_rfl, fun hne => absurd rfl hne⟩

/-- A bracket in an item is in its key, or in its value. -/
theorem at_member_part {m : Member} (hkey : Literal m.key m.keyText ∧ Blanks m.beforeKey ∧ Blanks m.beforeColon)
    (hblanks : Blanks m.before ∧ Blanks m.after) (ho : IsOpening o) (h : m.part = x ++ o :: y) :
    (∃ x₁ y₁, x = m.beforeKey ++ x₁ ∧ y = y₁ ++ (m.beforeColon ++ ':' :: m.toElement.part) ∧ m.keyText = x₁ ++ o :: y₁) ∨
    ∃ x₁ y₁, x = m.beforeKey ++ (m.keyText ++ (m.beforeColon ++ ':' :: (m.before ++ x₁))) ∧ y = y₁ ++ m.after ∧
      m.text = x₁ ++ o :: y₁ := by
  obtain ⟨x₁, rfl, hrest⟩ := at_append_right h (ho.notMem_blanks hkey.2.1)
  rcases at_append hrest with ⟨y₁, rfl, hliteral⟩ | ⟨x₂, rfl, hafterKey⟩
  · exact .inl ⟨x₁, y₁, rfl, rfl, hliteral⟩
  · obtain ⟨x₃, rfl, hafterColon⟩ := at_append_right hafterKey (ho.notMem_blanks hkey.2.2)
    cases x₃ with
    | nil => exact absurd (List.cons.inj hafterColon).1.symm ho.ne.2.2.2.1
    | cons e x₃ =>
      obtain ⟨rfl, helement⟩ := List.cons.inj hafterColon
      obtain ⟨x₄, y₁, rfl, rfl, htext⟩ := at_part hblanks ho helement
      exact .inr ⟨x₄, y₁, rfl, rfl, htext⟩

theorem Element.sizeOf_value_lt {es : List Element} {e : Element} (he : e ∈ es) :
    sizeOf e.value < sizeOf (Json.arr (es.map Element.value)) := by
  have hlt := List.sizeOf_lt_of_mem (List.mem_map_of_mem (f := Element.value) he)
  rw [Json.arr.sizeOf_spec]
  omega

theorem Member.sizeOf_value_lt {ms : List Member} {m : Member} (hm : m ∈ ms) :
    sizeOf m.value < sizeOf (Json.obj (ms.map fun m => (m.key, m.value))) := by
  have hlt := List.sizeOf_lt_of_mem (List.mem_map_of_mem (f := fun m : Member => (m.key, m.value)) hm)
  rw [Prod.mk.sizeOf_spec] at hlt
  rw [Json.obj.sizeOf_spec]
  omega

/-- **Where a bracket stands in a text of a value** there begins the text of the value or of a part of it, or the
bracket is in a literal. -/
theorem Layout.at_bracket {v : Json} {c : List Char} (h : Layout F v c) (ho : IsOpening o) (hc : c = x ++ o :: y) :
    Inside F v x (o :: y) := by
  induction h generalizing x y with
  | @atom v c h =>
    obtain ⟨token, hc', -, hchars, -, -⟩ := scanAtom_spec h
    rw [List.append_nil] at hc'
    subst hc'
    have ho' := hchars o (by rw [hc]; simp)
    rcases ho with rfl | rfl <;> cases ho'
  | @str k c h =>
    rw [hc] at h
    obtain ⟨hflip, b, rfl, hb⟩ := h.at_bracket ho
    exact .inr ⟨hflip, [], b, rfl, fun d hd hline => ⟨.str (hb d hd hline).1, (hb d hd hline).2⟩⟩
  | @arrNil ws hws =>
    have htext := isText_arr_nil (F := F) hws
    rw [hc] at htext
    exact inside_first htext (ho.first hws ho.ne.2.2.2.2.1 hc)
  | @arr es hne hblanks h ih =>
    have htext := (Layout.arr hne hblanks h).isText
    rw [hc] at htext
    have hlexed : ∀ c ∈ es.map Element.part, Lexed c := by
      intro c hc
      obtain ⟨e, he, rfl⟩ := List.mem_map.mp hc
      exact lexed_part (hblanks e he) (h e he).isText.lexed
    rcases at_items hlexed (by decide) hc ho.ne.2.2.1 ho.ne.2.2.2.2.1 with hx | ⟨c, hmem, pre, x₁, y₁, post, hcut, rfl, rfl, hpost⟩
    · exact inside_first htext hx
    · obtain ⟨e, he, rfl⟩ := List.mem_map.mp hmem
      obtain ⟨x₂, y₂, rfl, rfl, hvalue⟩ := at_part (hblanks e he) ho hcut
      have hwide := (ih e he hvalue).widen ('[' :: (pre ++ e.before)) ((lexed_of_blanks (hblanks e he).2).append hpost)
        (Element.sizeOf_value_lt he) fun d hd => .element (List.mem_map_of_mem he) hd
      simpa using hwide
  | @objNil ws hws =>
    have htext := isText_obj_nil (F := F) hws
    rw [hc] at htext
    exact inside_first htext (ho.first hws ho.ne.2.2.2.2.2.1 hc)
  | @obj ms hne hnodup hkeys hblanks h ih =>
    have htext := (Layout.obj hne hnodup hkeys hblanks h).isText
    rw [hc] at htext
    have hlexed : ∀ c ∈ ms.map Member.part, Lexed c := by
      intro c hc
      obtain ⟨m, hm, rfl⟩ := List.mem_map.mp hc
      exact lexed_member_part (hkeys m hm) (hblanks m hm) (h m hm).isText.lexed
    rcases at_items hlexed (by decide) hc ho.ne.2.2.1 ho.ne.2.2.2.2.2.1 with hx | ⟨c, hmem, pre, x₁, y₁, post, hcut, rfl, rfl, hpost⟩
    · exact inside_first htext hx
    · obtain ⟨m, hm, rfl⟩ := List.mem_map.mp hmem
      rcases at_member_part (hkeys m hm) (hblanks m hm) ho hcut with ⟨x₂, y₂, rfl, rfl, hliteral⟩ | ⟨x₂, y₂, rfl, rfl, hvalue⟩
      · -- the bracket is in the key
        have hkey := (hkeys m hm).1
        rw [hliteral] at hkey
        obtain ⟨hflip, b, rfl, hb⟩ := hkey.at_bracket ho
        have hcolon : Lexed (m.beforeColon ++ ':' :: m.toElement.part) :=
          (lexed_of_blanks (hkeys m hm).2.2).append (.char (by decide) (lexed_part (hblanks m hm) (h m hm).isText.lexed))
        have hwide := hflip.append (hcolon.append hpost)
        refine .inr ⟨by simpa using hwide, '\x7b' :: (pre ++ m.beforeKey), b, by simp, fun d hd hline => ?_⟩
        exact ⟨.key (List.mem_map_of_mem hm) (hb d hd hline).1, (hb d hd hline).2⟩
      · have hwide := (ih m hm hvalue).widen
          ('\x7b' :: (pre ++ (m.beforeKey ++ (m.keyText ++ (m.beforeColon ++ ':' :: m.before)))))
          ((lexed_of_blanks (hblanks m hm).2).append hpost) (Member.sizeOf_value_lt hm)
          fun d hd => .item (List.mem_map_of_mem hm) hd
        simpa using hwide

end

end Persona.JsonText
