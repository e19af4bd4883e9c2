import Persona.Lib.Firsts
import Persona.Lib.Markup
import Persona.Lib.PyText
import Persona.Lib.Regex

/-!
# Links in a message

`extract_urls` and `fetch_inline_urls` of `scripts/webui_patches/persona_inline_urls.py`: the
links of the user's last message are loaded one by one, and each page that could be loaded
becomes a file of the request. Texts are Python's in full generality.

`pages_of_message` says which pages these are: all the pages that can be loaded of links that
are the first of their words, in quotes or brackets or not (`pasted_of_brackets`), up to four, each once,
and otherwise only pages of links that stand in the message.

Not modelled: an emitter of events that fails, and a web interface whose parts cannot be
imported, where nothing is read.
-/

namespace Persona.WebUi

open Persona.Lib Persona.Lib.PyText

/-! ### The links of a text -/

/-- Whether `re.IGNORECASE` matches a character with one of the pattern. -/
def sameChar (p : Char) : PyChar → Bool
  | .scalar c => Markup.sameLetter p c
  | .surrogate _ => false

/-- The quotes and brackets that end a link. -/
def closers : List Char := ['<', '>', '"', '\'', '\x60', ')', ']', '\x7d', '‘', '’', '“', '”']

/-- A character of the class of `_URL_RE`. -/
def inUrl (c : PyChar) : Bool := !PyStr.isSpace c && !((closers.map PyChar.scalar).contains c)

/-- `https?://`. -/
def scheme : Regex PyChar :=
  .seq (Regex.word sameChar ['h', 't', 't', 'p']) (.seq (Regex.optional (sameChar 's')) (Regex.word sameChar [':', '/', '/']))

/-- `_URL_RE`. -/
def urlRe : Regex PyChar := .seq scheme (Regex.plus inUrl)

/-- A character of `_TRAILING`. -/
def isTrailing (c : PyChar) : Bool := (['.', ',', ';', ':', '!', '?', '…'].map PyChar.scalar).contains c

/-- `s.rstrip(_TRAILING)`. -/
def withoutTrailing (s : PyStr) : PyStr := (s.reverse.dropWhile isTrailing).reverse

/-- The loop of `extract_urls` over the matches. -/
def collectUrls (limit : ℤ) (out : List PyStr) : List PyStr → List PyStr
  | [] => out
  | m :: ms =>
    let url := withoutTrailing m
    let out := if url ≠ [] ∧ !out.contains url then out ++ [url] else out
    if limit ≤ out.length then out else collectUrls limit out ms

/-- `extract_urls`; no text is `None`. -/
def extractUrls (text : Option PyStr) (limit : ℤ) : List PyStr :=
  match text with
  | none => []
  | some text => if text = [] then [] else collectUrls limit [] (urlRe.findall text)

/-! ### The pages of the links -/

/-- What `process_web` does with a link: it raises an error, or answers, with the name of a collection or
without one. -/
inductive Page where
  | raises
  | answers (collectionName : Option PyStr)

/-- What is put to the files of the request. -/
structure WebFile where
  collectionName : PyStr
  name : PyStr
  type : PyStr
  urls : List PyStr
  queries : List PyStr
  deriving DecidableEq

/-- What the emitter is told. -/
inductive Status where
  | reading (url : PyStr)
  | couldNotRead (url : PyStr)
  | found (urls : List PyStr)
  deriving DecidableEq

/-- `form_data["files"]`: absent, something that has no `append`, or a list of files. -/
inductive Files (F : Type*) where
  | absent
  | other
  | list (files : List (F ⊕ WebFile))
  deriving DecidableEq

variable {F : Type*}

/-- `form_data.get("files", [])`, if it is a list. -/
def Files.get : Files F → Option (List (F ⊕ WebFile))
  | .absent => some []
  | .other => none
  | .list files => some files

/-- `fetch_inline_urls` in its loop: the files, the links that were read, what was emitted. -/
structure Fetching (F : Type*) where
  files : Option (List (F ⊕ WebFile))
  fetched : List PyStr
  statuses : List Status

/-- The file of a link. -/
def webFile (collectionName url : PyStr) : WebFile := ⟨collectionName, url, PyStr.ofString "web_search", [url], [url]⟩

/-- One link. -/
def Fetching.read (web : PyStr → Page) (s : Fetching F) (url : PyStr) : Fetching F :=
  let s := { s with statuses := s.statuses ++ [.reading url] }
  match web url with
  | .raises => { s with statuses := s.statuses ++ [.couldNotRead url] }
  | .answers collectionName =>
    let collectionName := collectionName.getD []
    if collectionName = [] then s
    else
      match s.files with
      | none => { s with statuses := s.statuses ++ [.couldNotRead url] }
      | some files =>
        { s with files := some (files ++ [.inr (webFile collectionName url)]), fetched := s.fetched ++ [url] }

/-- What `fetch_inline_urls` leaves: the files of the form, its answer, what was emitted. -/
structure Fetched (F : Type*) where
  files : Files F
  fetched : List PyStr
  statuses : List Status
  deriving DecidableEq

/-- `fetch_inline_urls`; `message` is the user's last one. -/
def fetchInlineUrls (web : PyStr → Page) (emitter : Bool) (message : Option PyStr) (files : Files F) : Fetched F :=
  let urls := extractUrls message 4
  if urls = [] then ⟨files, [], []⟩
  else
    let s := urls.foldl (Fetching.read web) ⟨files.get, [], []⟩
    let after : Files F := if s.fetched = [] then files else (s.files.map Files.list).getD files
    let statuses := if s.fetched = [] then s.statuses else s.statuses ++ [.found s.fetched]
    ⟨after, s.fetched, if emitter then statuses else []⟩

/-! ### What a link is -/

variable {text pre l m post url : PyStr} {c : PyChar} {p : Char}

/-- `http://` or `https://`, in capitals or not. -/
def IsScheme (w : PyStr) : Prop :=
  ∃ http sep, List.Forall₂ (fun p c => sameChar p c = true) ['h', 't', 't', 'p'] http ∧
    List.Forall₂ (fun p c => sameChar p c = true) [':', '/', '/'] sep ∧
    ((∃ s, sameChar 's' s = true ∧ w = http ++ s :: sep) ∨ w = http ++ sep)

/-- A scheme, and at least one character that a link can contain. -/
def IsLink (link : PyStr) : Prop :=
  ∃ w c body, IsScheme w ∧ inUrl c = true ∧ (∀ d ∈ body, inUrl d = true) ∧ link = w ++ c :: body

/-- A link stands at a place of a text, as far as it goes. -/
def Stands (text pre link : PyStr) : Prop :=
  IsLink link ∧ ∃ post, text = pre ++ (link ++ post) ∧ ∀ c ∈ post.head?, inUrl c = false

/-- A link without the signs of punctuation at its end. -/
def IsTrimmed (link url : PyStr) : Prop :=
  ∃ signs, link = url ++ signs ∧ (∀ c ∈ signs, isTrailing c = true) ∧ ∀ c ∈ url.getLast?, isTrailing c = false

/-- The address of a link of the text. -/
def Linked (text url : PyStr) : Prop := ∃ pre link, Stands text pre link ∧ IsTrimmed link url

/-- A link begins with the text. -/
def Begins (t : PyStr) : Prop := ∃ link rest, IsLink link ∧ t = link ++ rest

/-- The address of a link that is the first to begin in its word: no other begins between the last character
before it that a link cannot contain, or the beginning of the text, and the link. -/
def Pasted (text url : PyStr) : Prop :=
  ∃ before lead link, Stands text (before ++ lead) link ∧ (∀ c ∈ before.getLast?, inUrl c = false) ∧
    (∀ a b, lead = a ++ b → b ≠ [] → ¬Begins (b ++ link)) ∧ IsTrimmed link url

/-- A capital, or one of the characters outside ASCII that fold to a letter of it. -/
def FoldsToLetter (d : Char) : Prop := (65 ≤ d.toNat ∧ d.toNat ≤ 90) ∨ d.toNat ∈ [0x130, 0x131, 0x212A, 0x17F]

instance (d : Char) : Decidable (FoldsToLetter d) := inferInstanceAs (Decidable (_ ∨ _))

theorem eq_or_foldsToLetter (h : sameChar p c = true) : ∃ d, c = .scalar d ∧ (d = p ∨ FoldsToLetter d) := by
  cases c with
  | surrogate n => cases h
  | scalar d =>
    refine ⟨d, rfl, ?_⟩
    rcases Markup.sameLetter_cases h with h | ⟨hA, hZ, -⟩ | ⟨-, h⟩
    · exact .inl h
    · exact .inr (.inl ⟨hA, hZ⟩)
    · exact .inr (.inr h)

theorem scalar_notMem {signs : List Char} {d : Char} (hsigns : ∀ e ∈ signs, ¬FoldsToLetter e) (hd : FoldsToLetter d) :
    PyChar.scalar d ∉ signs.map PyChar.scalar := by
  intro hmem
  obtain ⟨e, he, heq⟩ := List.mem_map.mp hmem
  obtain rfl := PyChar.scalar.inj heq
  exact hsigns e he hd

/-- A character of a scheme is one that a link can contain. -/
theorem inUrl_of_sameChar (hp : p ∈ ['h', 't', 'p', 's', ':', '/']) (h : sameChar p c = true) : inUrl c = true := by
  have hletters : ∀ q ∈ ['h', 't', 'p', 's', ':', '/'], inUrl (.scalar q) = true := by decide
  obtain ⟨d, rfl, rfl | hd⟩ := eq_or_foldsToLetter h
  · exact hletters d hp
  · have hcloser : PyChar.scalar d ∉ closers.map PyChar.scalar := scalar_notMem (by decide) hd
    have hspace : isSpace d = false := by
      rw [← Bool.not_eq_true]
      simp only [FoldsToLetter, isSpace, Bool.or_eq_true, Bool.and_eq_true, decide_eq_true_eq, beq_iff_eq, List.mem_cons,
        List.not_mem_nil, or_false] at hd ⊢
      omega
    simp [inUrl, PyStr.isSpace, hspace, hcloser]

/-- The first character of a link is no punctuation. -/
theorem not_isTrailing_of_sameChar (h : sameChar 'h' c = true) : isTrailing c = false := by
  obtain ⟨d, rfl, rfl | hd⟩ := eq_or_foldsToLetter h
  · rfl
  · rw [isTrailing, ← Bool.not_eq_true, List.contains_iff_mem]
    exact scalar_notMem (by decide) hd

/-- No character is both an s and a colon. -/
theorem sameChar_colon (h : sameChar ':' c = true) : sameChar 's' c = false := by
  cases c with
  | surrogate n => rfl
  | scalar d =>
    rcases Markup.sameLetter_cases h with rfl | ⟨hA, hZ, hsum⟩ | ⟨hletter, -⟩
    · decide
    · have hcolon : ':'.toNat = 58 := rfl
      omega
    · exact absurd hletter (by decide)

/-- What follows the scheme of a text is what follows any scheme that it begins with. -/
theorem IsScheme.unique {w w' rest rest' : PyStr} (h : IsScheme w) (h' : IsScheme w') (heq : w ++ rest = w' ++ rest') :
    rest = rest' := by
  obtain ⟨http, sep, hhttp, hsep, hw⟩ := h
  obtain ⟨http', sep', hhttp', hsep', hw'⟩ := h'
  have hlength : http.length = http'.length := hhttp.length_eq.symm.trans hhttp'.length_eq
  have hseps : sep.length = sep'.length := hsep.length_eq.symm.trans hsep'.length_eq
  -- with the s in one of them only, the colon of the other would stand where it is
  have hno : ∀ {sep a b : PyStr} {s : PyChar}, List.Forall₂ (fun p c => sameChar p c = true) [':', '/', '/'] sep →
      sameChar 's' s = true → s :: a ≠ sep ++ b := by
    intro sep a b s hsep hs hab
    cases hsep with
    | cons hcolon _ =>
      obtain ⟨rfl, -⟩ := List.cons.inj hab
      rw [sameChar_colon hcolon] at hs
      cases hs
  rcases hw with ⟨s, hs, rfl⟩ | rfl <;> rcases hw' with ⟨s', hs', rfl⟩ | rfl <;>
    simp only [List.append_assoc, List.cons_append] at heq
  · have hrest := (List.append_inj heq hlength).2
    exact (List.append_inj (List.cons.inj hrest).2 hseps).2
  · exact absurd (List.append_inj heq hlength).2 (hno hsep' hs)
  · exact absurd (List.append_inj heq hlength).2.symm (hno hsep hs')
  · exact (List.append_inj (List.append_inj heq hlength).2 hseps).2

/-- The characters that stand for those of the pattern are some that a link can contain. -/
theorem inUrl_of_forall₂ {pat : List Char} {part : PyStr} (h : List.Forall₂ (fun p c => sameChar p c = true) pat part)
    (hpat : ∀ p ∈ pat, p ∈ ['h', 't', 'p', 's', ':', '/']) : ∀ c ∈ part, inUrl c = true := by
  induction h with
  | nil => simp
  | cons hpc _ ih =>
    rw [List.forall_mem_cons] at hpat ⊢
    exact ⟨inUrl_of_sameChar hpat.1 hpc, ih hpat.2⟩

theorem IsLink.all_inUrl (h : IsLink l) : ∀ c ∈ l, inUrl c = true := by
  obtain ⟨w, c, body, ⟨http, sep, hhttp, hsep, hw⟩, hc, hbody, rfl⟩ := h
  have hhttp := inUrl_of_forall₂ hhttp (by decide)
  have hsep := inUrl_of_forall₂ hsep (by decide)
  have hw : ∀ c ∈ w, inUrl c = true := by
    rcases hw with ⟨s, hs, rfl⟩ | rfl
    · exact List.forall_mem_append.mpr ⟨hhttp, List.forall_mem_cons.mpr ⟨inUrl_of_sameChar (by decide) hs, hsep⟩⟩
    · exact List.forall_mem_append.mpr ⟨hhttp, hsep⟩
  exact List.forall_mem_append.mpr ⟨hw, List.forall_mem_cons.mpr ⟨hc, hbody⟩⟩

/-! ### What the pattern finds -/

theorem reads_scheme : scheme.Reads IsScheme := by
  refine (Regex.reads_seq Regex.reads_word (Regex.reads_seq Regex.reads_optional Regex.reads_word)).of_iff fun w => ?_
  constructor
  · rintro ⟨http, sep, hhttp, hsep, ⟨s, hs, rfl⟩ | rfl⟩
    · exact ⟨http, s :: sep, hhttp, ⟨[s], sep, .inl ⟨s, hs, rfl⟩, hsep, rfl⟩, rfl⟩
    · exact ⟨http, sep, hhttp, ⟨[], sep, .inr rfl, hsep, rfl⟩, rfl⟩
  · rintro ⟨http, _, hhttp, ⟨_, sep, ⟨s, hs, rfl⟩ | rfl, hsep, rfl⟩, rfl⟩
    · exact ⟨http, sep, hhttp, hsep, .inl ⟨s, hs, rfl⟩⟩
    · exact ⟨http, _, hhttp, hsep, .inr rfl⟩

/-- The pattern matches links. -/
theorem reads_urlRe : urlRe.Reads IsLink := by
  refine (Regex.reads_seq reads_scheme Regex.reads_plus).of_iff fun l => ?_
  constructor
  · rintro ⟨w, c, body, hw, hc, hbody, rfl⟩
    exact ⟨w, c :: body, hw, ⟨c, body, hc, hbody, rfl⟩, rfl⟩
  · rintro ⟨w, _, hw, ⟨c, body, hc, hbody, rfl⟩, rfl⟩
    exact ⟨w, c, body, hw, hc, hbody, rfl⟩

/-- The first match at a place goes as far as the link does. -/
theorem head?_ends_urlRe (before : Option PyChar) (hl : IsLink l) (hpost : ∀ c ∈ post.head?, inUrl c = false) :
    ∃ b, (urlRe.ends (before, l ++ post)).head? = some (b, post) := by
  obtain ⟨b, hb⟩ := (reads_urlRe (before, l ++ post) post).mpr ⟨l, hl, rfl⟩
  obtain ⟨y, hy⟩ := Option.ne_none_iff_exists'.mp (mt List.head?_eq_none_iff.mp (List.ne_nil_of_mem hb))
  obtain ⟨z, hz, c, cs, hcs, -, hdrop⟩ := Regex.eq_of_head?_ends_seq_plus hy
  obtain ⟨w, hw, hsplit⟩ := reads_scheme.exists_of_mem hz
  obtain ⟨w', c', body, hw', -, hbody, rfl⟩ := hl
  have hrest : z.2 = c' :: (body ++ post) := hw.unique hw' (by rw [← hsplit]; simp)
  obtain ⟨rfl, rfl⟩ := List.cons.inj (hcs.symm.trans hrest)
  rw [List.dropWhile_append_of_pos hbody, Regex.dropWhile_of_head? hpost] at hdrop
  exact ⟨y.1, by rw [hy, ← hdrop]⟩

/-- What the pattern finds in a text stands there. -/
theorem stands_of_mem_findall (h : m ∈ urlRe.findall text) : ∃ pre, Stands text pre m := by
  obtain ⟨pre, rest, b, htext, hhead⟩ := Regex.exists_of_mem_findall h
  obtain ⟨z, hz, c, cs, hcs, hc, hrest⟩ := Regex.eq_of_head?_ends_seq_plus hhead
  obtain ⟨w, hw, hsplit⟩ := reads_scheme.exists_of_mem hz
  have hrest : rest = cs.dropWhile inUrl := hrest
  have hm : m = w ++ c :: cs.takeWhile inUrl := by
    have hwhole : m ++ rest = (w ++ c :: cs.takeWhile inUrl) ++ rest := by
      rw [hrest, List.append_assoc, List.cons_append, List.takeWhile_append_dropWhile, ← hcs, ← hsplit, hrest]
    exact List.append_cancel_right hwhole
  refine ⟨pre, ⟨w, c, _, hw, hc, fun d hd => List.mem_takeWhile_imp hd, hm⟩, rest, htext, fun d hd => ?_⟩
  rw [hrest] at hd
  have hnot := List.head?_dropWhile_not inUrl cs
  rw [Option.mem_def.mp hd] at hnot
  simpa using hnot

/-- A link does not run over what a link cannot contain. -/
theorem IsLink.prefix_of_append {s : PyStr} (hl : IsLink l) (hpost : ∀ c ∈ post.head?, inUrl c = false) {rest : PyStr}
    (heq : s ++ post = l ++ rest) : l <+: s := by
  refine List.prefix_of_prefix_length_le ⟨rest, heq.symm⟩ ⟨post, rfl⟩ ?_
  by_contra hlong
  obtain ⟨v, rfl⟩ : s <+: l := List.prefix_of_prefix_length_le ⟨post, heq⟩ ⟨rest, rfl⟩ (by omega)
  rw [List.append_assoc] at heq
  obtain rfl := List.append_cancel_left heq
  cases v with
  | nil => simp at hlong
  | cons d v =>
    have hin := hl.all_inUrl d (by simp)
    rw [hpost d rfl] at hin
    cases hin

/-- The first link of a word is found. -/
theorem mem_findall_of_stands {before lead : PyStr} (h : Stands text (before ++ lead) l)
    (hbefore : ∀ c ∈ before.getLast?, inUrl c = false) (hlead : ∀ a b, lead = a ++ b → b ≠ [] → ¬Begins (b ++ l)) :
    l ∈ urlRe.findall text := by
  obtain ⟨hl, post, rfl, hpost⟩ := h
  obtain ⟨b, hb⟩ := head?_ends_urlRe (before ++ lead).getLast? hl hpost
  have hne : l ≠ [] := by
    obtain ⟨w, c, body, -, -, -, rfl⟩ := hl
    simp
  refine Regex.mem_findall hne hb fun pre₁ pre₂ hsplit hne y hy => ?_
  obtain ⟨l', hl', hy⟩ := reads_urlRe.exists_of_mem hy
  dsimp only at hy
  have hword : (pre₂ ++ l) ++ post = l' ++ y.2 := by rw [List.append_assoc, hy]
  obtain ⟨tail, htail⟩ := hl'.prefix_of_append hpost hword
  by_contra hshort
  -- a match that runs into the link begins in its word, or holds the character before the word
  obtain ⟨a, hpre, hleadeq⟩ | ⟨a, hbeforeeq, hpre⟩ := List.append_eq_append_iff.mp hsplit
  · exact hlead a pre₂ hleadeq hne ⟨l', tail, hl', htail.symm⟩
  · cases a using List.reverseRecOn with
    | nil => exact hlead [] pre₂ (by simpa using hpre.symm) hne ⟨l', tail, hl', htail.symm⟩
    | append_singleton a c =>
      have hlength := congrArg List.length hy
      simp only [List.length_append] at hlength hshort
      obtain ⟨v, rfl⟩ : pre₂ <+: l' := List.prefix_of_prefix_length_le ⟨_, hy⟩ ⟨_, rfl⟩ (by omega)
      have hin := hl'.all_inUrl c (by simp [hpre])
      rw [hbefore c (by simp [hbeforeeq])] at hin
      cases hin

/-- A link in brackets is the first to begin in its word. -/
theorem pasted_of_brackets {before lead link : PyStr} (h : Stands text (before ++ lead) link)
    (hbefore : ∀ c ∈ before.getLast?, inUrl c = false) (hlead : ∀ c ∈ lead, c ∈ ['(', '[', '\x7b'].map PyChar.scalar)
    (htrimmed : IsTrimmed link url) : Pasted text url := by
  refine ⟨before, lead, link, h, hbefore, ?_, htrimmed⟩
  rintro a b rfl hne ⟨l, rest, ⟨w, c, body, ⟨http, sep, hhttp, -, hw⟩, -, -, rfl⟩, heq⟩
  -- the first character of a link is no bracket
  obtain ⟨d, b, rfl⟩ := List.exists_cons_of_ne_nil hne
  cases hhttp with
  | @cons _ first _ _ hfirst _ =>
    have hd : d = first := by
      rcases hw with ⟨s, -, rfl⟩ | rfl <;> exact (List.cons.inj heq).1
    obtain ⟨e, he, rfl⟩ := List.mem_map.mp (hlead d (by simp))
    have hbracket : ∀ e ∈ ['(', '[', '\x7b'], sameChar 'h' (.scalar e) = false := by decide
    rw [← hd, hbracket e he] at hfirst
    cases hfirst

/-! ### What is extracted -/

theorem isTrimmed_withoutTrailing : IsTrimmed m (withoutTrailing m) := by
  refine ⟨(m.reverse.takeWhile isTrailing).reverse, ?_, fun c hc => List.mem_takeWhile_imp (List.mem_reverse.mp hc), ?_⟩
  · rw [withoutTrailing, ← List.reverse_append, List.takeWhile_append_dropWhile, List.reverse_reverse]
  · intro c hc
    have hnot := List.head?_dropWhile_not isTrailing m.reverse
    rw [withoutTrailing, List.getLast?_reverse] at hc
    rw [Option.mem_def.mp hc] at hnot
    simpa using hnot

/-- There is one way to take the punctuation off. -/
theorem IsTrimmed.eq (h : IsTrimmed m url) : url = withoutTrailing m := by
  obtain ⟨signs, rfl, hsigns, hlast⟩ := h
  have hrev : ∀ c ∈ signs.reverse, isTrailing c = true := fun c hc => hsigns c (List.mem_reverse.mp hc)
  rw [withoutTrailing, List.reverse_append, List.dropWhile_append_of_pos hrev]
  have hstop : url.reverse.dropWhile isTrailing = url.reverse := by
    refine Regex.dropWhile_of_head? fun c hc => hlast c ?_
    rwa [List.head?_reverse] at hc
  rw [hstop, List.reverse_reverse]

theorem IsLink.withoutTrailing_ne_nil (h : IsLink m) : withoutTrailing m ≠ [] := by
  obtain ⟨w, c, body, ⟨http, sep, hhttp, -, hw⟩, -, -, rfl⟩ := h
  intro hnil
  obtain ⟨signs, hsplit, hsigns, -⟩ := isTrimmed_withoutTrailing (m := w ++ c :: body)
  rw [hnil, List.nil_append] at hsplit
  cases hhttp with
  | @cons _ first _ _ hfirst _ =>
    have hmem : first ∈ signs := by
      rw [← hsplit]
      rcases hw with ⟨s, -, rfl⟩ | rfl <;> simp
    have hsign := hsigns first hmem
    rw [not_isTrailing_of_sameChar hfirst] at hsign
    cases hsign

/-- The loop collects the first of the different addresses. -/
theorem collectUrls_eq {limit : ℕ} {out seen ms : List PyStr} (hout : out.length < limit)
    (hseen : ∀ u, u ∈ seen ↔ u ∈ out) (hne : ∀ m ∈ ms, withoutTrailing m ≠ []) :
    collectUrls limit out ms = out ++ (firsts id seen (ms.map withoutTrailing)).take (limit - out.length) := by
  induction ms generalizing out seen with
  | nil => simp [collectUrls]
  | cons m ms ih =>
    rw [List.forall_mem_cons] at hne
    rw [collectUrls, List.map_cons, firsts_cons, id_eq]
    by_cases hmem : withoutTrailing m ∈ out
    · have hfull : ¬(limit : ℤ) ≤ out.length := by omega
      have hcontains : out.contains (withoutTrailing m) = true := List.contains_iff_mem.mpr hmem
      simp only [hcontains, Bool.not_true, Bool.false_eq_true, and_false, if_false, if_neg hfull, (hseen _).mpr hmem,
        if_true]
      exact ih hout hseen hne.2
    · have hsplit : limit - out.length = limit - (out ++ [withoutTrailing m]).length + 1 := by
        rw [List.length_append, List.length_singleton]
        omega
      have hcontains : out.contains (withoutTrailing m) = false :=
        Bool.eq_false_iff.mpr (mt List.contains_iff_mem.mp hmem)
      simp only [hne.1, hcontains, Bool.not_false, ne_eq, not_false_eq_true, and_self, if_true, mt (hseen _).mp hmem,
        if_false]
      rw [hsplit, List.take_succ_cons, List.append_cons out (withoutTrailing m) (List.take _ _)]
      split_ifs with hfull
      · have hzero : limit - (out ++ [withoutTrailing m]).length = 0 := by omega
        rw [hzero, List.take_zero, List.append_nil]
      · have hseen' : ∀ u, u ∈ withoutTrailing m :: seen ↔ u ∈ out ++ [withoutTrailing m] := by
          intro u
          rw [List.mem_cons, List.mem_append, List.mem_singleton, hseen, or_comm]
        exact ih (by omega) hseen' hne.2

theorem extractUrls_eq (limit : ℕ) (hlimit : 0 < limit) :
    extractUrls (some text) limit = (firsts id [] ((urlRe.findall text).map withoutTrailing)).take limit := by
  rw [extractUrls]
  split_ifs with hnil
  · rw [hnil]
    exact List.take_nil.symm
  · refine collectUrls_eq hlimit (fun u => Iff.rfl) fun m hm => ?_
    obtain ⟨pre, hlink, -⟩ := stands_of_mem_findall hm
    exact hlink.withoutTrailing_ne_nil

/-- What is extracted of a message are addresses of links in it, each once and no more than four, and every
address of a link that is the first of its word, if there are no four others. -/
theorem extractUrls_spec (text : PyStr) :
    (∀ url ∈ extractUrls (some text) 4, Linked text url) ∧ (extractUrls (some text) 4).Nodup ∧
      (extractUrls (some text) 4).length ≤ 4 ∧
      ∀ url, Pasted text url → url ∈ extractUrls (some text) 4 ∨ (extractUrls (some text) 4).length = 4 := by
  have heq : extractUrls (some text) 4 = (firsts id [] ((urlRe.findall text).map withoutTrailing)).take 4 :=
    extractUrls_eq 4 (by decide)
  rw [heq]
  refine ⟨fun url hurl => ?_, ?_, List.length_take_le _ _, ?_⟩
  · obtain ⟨m, hm, rfl⟩ := List.mem_map.mp (mem_firsts_id.mp (List.mem_of_mem_take hurl)).1
    obtain ⟨pre, hstands⟩ := stands_of_mem_findall hm
    exact ⟨pre, m, hstands, isTrimmed_withoutTrailing⟩
  · have hnodup : ((firsts id [] ((urlRe.findall text).map withoutTrailing)).map id).Nodup := nodup_firsts
    rw [List.map_id] at hnodup
    exact hnodup.sublist (List.take_sublist _ _)
  · rintro url ⟨before, lead, link, hstands, hbefore, hlead, htrimmed⟩
    have hmem : url ∈ firsts id [] ((urlRe.findall text).map withoutTrailing) := by
      refine mem_firsts_id.mpr ⟨List.mem_map.mpr ⟨link, mem_findall_of_stands hstands hbefore hlead, htrimmed.eq.symm⟩, ?_⟩
      exact List.not_mem_nil
    rcases Nat.lt_or_ge (firsts id [] ((urlRe.findall text).map withoutTrailing)).length 4 with hshort | hlong
    · rw [List.take_of_length_le hshort.le]
      exact .inl hmem
    · rw [List.length_take, Nat.min_eq_left hlong]
      exact .inr rfl

/-! ### What is read -/

/-- The page of a link can be loaded, and put to the files. -/
def Readable (web : PyStr → Page) (files : Files F) (url : PyStr) : Prop :=
  files.get.isSome ∧ ∃ name, name ≠ [] ∧ web url = .answers (some name)

/-- The name of the collection of a page. -/
def collectionOf (web : PyStr → Page) (url : PyStr) : PyStr :=
  match web url with
  | .raises => []
  | .answers name => name.getD []

/-- The file of a link's page. -/
def fileOf (web : PyStr → Page) (url : PyStr) : F ⊕ WebFile := .inr (webFile (collectionOf web url) url)

variable {web : PyStr → Page} {files : Files F}

theorem readable_iff : Readable web files url ↔ files.get.isSome ∧ collectionOf web url ≠ [] := by
  rw [Readable, collectionOf]
  refine and_congr_right fun _ => ?_
  cases web url with
  | raises => simp
  | answers name => cases name <;> simp

/-- What one link does. -/
theorem Fetching.read_spec (web : PyStr → Page) (s : Fetching F) (url : PyStr) :
    (s.files.isSome ∧ collectionOf web url ≠ [] ∧
      (s.read web url).fetched = s.fetched ++ [url] ∧ (s.read web url).files = s.files.map (· ++ [fileOf web url])) ∨
    ((s.files.isSome → collectionOf web url = []) ∧ (s.read web url).fetched = s.fetched ∧
      (s.read web url).files = s.files) := by
  cases hweb : web url with
  | raises => exact .inr ⟨fun _ => by rw [collectionOf, hweb], by rw [Fetching.read, hweb], by rw [Fetching.read, hweb]⟩
  | answers name =>
    have hcollection : collectionOf web url = name.getD [] := by rw [collectionOf, hweb]
    by_cases hname : name.getD [] = []
    · refine .inr ⟨fun _ => hcollection.trans hname, ?_, ?_⟩ <;> simp only [Fetching.read, hweb, if_pos hname]
    · cases hfiles : s.files with
      | none =>
        refine .inr ⟨fun h => absurd h Bool.false_ne_true, ?_, ?_⟩ <;>
          simp only [Fetching.read, hweb, if_neg hname, hfiles]
      | some fs =>
        refine .inl ⟨rfl, hcollection ▸ hname, ?_, ?_⟩
        · simp only [Fetching.read, hweb, if_neg hname, hfiles]
        · simp only [Fetching.read, hweb, if_neg hname, hfiles, fileOf, hcollection, Option.map_some]

/-- What the links do one after the other. -/
theorem Fetching.foldl_read (web : PyStr → Page) (s : Fetching F) (urls : List PyStr) :
    (urls.foldl (Fetching.read web) s).fetched =
        s.fetched ++ urls.filter (fun url => s.files.isSome ∧ collectionOf web url ≠ []) ∧
      (urls.foldl (Fetching.read web) s).files =
        s.files.map (· ++ (urls.filter fun url => s.files.isSome ∧ collectionOf web url ≠ []).map (fileOf web)) := by
  induction urls generalizing s with
  | nil => simp
  | cons url urls ih =>
    obtain ⟨hfetched, hfiles⟩ := ih (s.read web url)
    rw [List.foldl_cons, hfetched, hfiles]
    rcases s.read_spec web url with ⟨hsome, hname, hread, hfile⟩ | ⟨hname, hread, hfile⟩
    · rw [hread, hfile, List.filter_cons_of_pos (by simp [hsome, hname])]
      simp only [Option.isSome_map, List.append_assoc, List.singleton_append, List.map_cons, Option.map_map,
        Function.comp_def, and_self]
    · rw [hread, hfile, List.filter_cons_of_neg (by simpa using hname)]
      exact ⟨rfl, rfl⟩

/-- What is read are the extracted links whose pages can be loaded, and each is put to the files. -/
theorem fetchInlineUrls_spec (web : PyStr → Page) (emitter : Bool) (message : Option PyStr) (files : Files F) :
    (fetchInlineUrls web emitter message files).fetched =
        (extractUrls message 4).filter (fun url => files.get.isSome ∧ collectionOf web url ≠ []) ∧
      (fetchInlineUrls web emitter message files).files.get =
        files.get.map (· ++ (fetchInlineUrls web emitter message files).fetched.map (fileOf web)) := by
  rw [fetchInlineUrls]
  by_cases hnone : extractUrls message 4 = []
  · simp [hnone]
  · obtain ⟨hfetched, hfiles⟩ := Fetching.foldl_read web ⟨files.get, [], []⟩ (extractUrls message 4)
    dsimp only at hfetched hfiles
    rw [List.nil_append] at hfetched
    rw [← hfetched] at hfiles
    dsimp only
    rw [if_neg hnone]
    refine ⟨hfetched, ?_⟩
    dsimp only
    split_ifs with hempty
    · simp [hempty]
    · rw [hfiles]
      cases hget : files.get with
      | none =>
        refine absurd (hfetched.trans ?_) hempty
        simp [hget]
      | some fs => rfl

/-- **The pages of the links of a message**: what is put to the files are pages of links of the message that can
be loaded, each link once and no more than four. Each link that is the first of its word, such as one in quotes or
brackets, and that can be loaded is among them, unless four other links are in the message. -/
theorem pages_of_message (web : PyStr → Page) (emitter : Bool) (text : PyStr) (files : Files F) :
    let after := fetchInlineUrls web emitter (some text) files
    (∀ url ∈ after.fetched, Linked text url ∧ Readable web files url) ∧
      after.fetched.Nodup ∧ after.fetched.length ≤ 4 ∧
      (∀ url, Pasted text url → Readable web files url → url ∈ after.fetched ∨
        ∃ others : List PyStr, others.Nodup ∧ others.length = 4 ∧ url ∉ others ∧ ∀ u ∈ others, Linked text u) ∧
      ∀ fs, files.get = some fs → after.files.get = some (fs ++ after.fetched.map (fileOf web)) := by
  intro after
  obtain ⟨hlinked, hnodup, hlength, hpasted⟩ := extractUrls_spec text
  obtain ⟨hfetched, hfiles⟩ := fetchInlineUrls_spec web emitter (some text) files
  have hmem : ∀ url, url ∈ after.fetched ↔ url ∈ extractUrls (some text) 4 ∧ Readable web files url := by
    intro url
    rw [hfetched, List.mem_filter, decide_eq_true_eq, readable_iff]
  have hsub : after.fetched.Sublist (extractUrls (some text) 4) := hfetched ▸ List.filter_sublist
  refine ⟨fun url hurl => ?_, hnodup.sublist hsub, hsub.length_le.trans hlength, fun url hurl hread => ?_, fun fs hfs => ?_⟩
  · exact ⟨hlinked url ((hmem url).mp hurl).1, ((hmem url).mp hurl).2⟩
  · by_cases hin : url ∈ extractUrls (some text) 4
    · exact .inl ((hmem url).mpr ⟨hin, hread⟩)
    · exact .inr ⟨_, hnodup, (hpasted url hurl).resolve_left hin, hin, hlinked⟩
  · rw [hfiles, hfs]
    rfl

end Persona.WebUi
