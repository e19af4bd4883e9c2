import Persona.Lib.Markup
import Persona.Lib.PyText

/-!
# Thread keys

`_v1_conversation_id` and `_v1_injected_context` of `services/api/server.py`. A request
on `/v1` that names no conversation is keyed by a hash of its user, its first system
message and its first user message, joined by NUL characters. Texts are Python's in full
generality, lone surrogates included, which are encoded as question marks.

The system message that belongs to a thread is its own system prompt, while the first one
may be a retrieval message that a client put in front for one turn; and a text may have
NUL characters of its own. `keys_iff` says of any two requests whether the key tells
their threads apart and no more, SHA-256 being a parameter without a collision on the two.
-/

namespace Persona.Api

open Persona.Lib.PyText Persona.Lib

/-- `OA_Message.role`. -/
inductive Role where
  | system | user | assistant
  deriving DecidableEq

/-- `OA_Message`. -/
structure OAMessage (T : Type*) where
  role : Role
  content : T

/-- What `_v1_conversation_id` reads of a request. -/
structure ChatReq where
  messages : List (OAMessage PyStr)
  conversationId : Option PyStr
  user : Option PyStr

/-- The settings of the injected context. -/
structure ExternalContext where
  /-- `EXTERNAL_CONTEXT_ENABLED`. -/
  enabled : Bool
  /-- `EXTERNAL_CONTEXT_MAX_CHARS`. -/
  maxChars : ℤ

/-- Whether `re.IGNORECASE` matches a character with one of a pattern. -/
def same (p : Char) : PyChar → Bool
  | .scalar c => Markup.sameLetter p c
  | .surrogate _ => false

/-- `"\n\n".join`. -/
def joinBlank (ss : List PyStr) : PyStr := (PyStr.ofString "\n\n").intercalate ss

variable (E : ExternalContext)

/-- `_v1_injected_context`. -/
def injectedContext (messages : List (OAMessage PyStr)) : PyStr :=
  if E.enabled = false then []
  else
    let blob := joinBlank ((messages.filter fun m => m.role = .system ∧ PyStr.strip m.content ≠ []).map OAMessage.content)
    if blob = [] then []
    else
      -- the blanks that the pattern leaves out at both ends are those of `strip`
      let found := (Markup.bodies same "<context>" "</context>" blob).map PyStr.strip
      let ctx := joinBlank (found.filter (· ≠ []))
      if ctx = [] then []
      else if E.maxChars < ctx.length then
        PyStr.rstrip (PyStr.upTo E.maxChars ctx) ++ PyStr.ofString "\n...[context truncated]..."
      else ctx

/-- The content of the first message with a role, or the empty text. -/
def firstContent (role : Role) (messages : List (OAMessage PyStr)) : PyStr :=
  ((messages.find? fun m => m.role = role).map OAMessage.content).getD []

variable (hexdigest : ByteArray → String) (r r' : ChatReq)

/-- `(req.conversation_id or "").strip()`. -/
def explicitId : PyStr := PyStr.strip (r.conversationId.getD [])

/-- `(req.user or "").strip()`. -/
def strippedUser : PyStr := PyStr.strip (r.user.getD [])

/-- The NUL character. -/
def nul : Char := Char.ofNat 0

/-- `seed`. -/
def seed : ByteArray :=
  PyStr.encode (strippedUser r ++ .scalar nul :: (firstContent .system r.messages ++ .scalar nul :: firstContent .user r.messages))

/-- `hashlib.sha256(seed).hexdigest()[:16]`. -/
def digest : List Char := (hexdigest (seed r)).toList.take 16

/-- `_v1_conversation_id`. -/
def conversationId : PyStr :=
  if explicitId r ≠ [] then explicitId r else PyStr.ofString "owui-" ++ (digest hexdigest r).map .scalar

/-! ### Threads -/

/-- The first system message that is not an injected retrieval message, or the empty text. -/
def ownSystem (messages : List (OAMessage PyStr)) : PyStr :=
  ((messages.find? fun m => m.role = .system ∧ injectedContext E [m] = []).map OAMessage.content).getD []

/-- What a thread is known by: its user, its own system prompt and its first user message. -/
structure Thread where
  user : PyStr
  system : PyStr
  firstUser : PyStr
  deriving DecidableEq

/-- The thread of a request. -/
def threadOf : Thread := ⟨strippedUser r, ownSystem E r.messages, firstContent .user r.messages⟩

/-- The parts of a text between its NUL characters, as they are encoded. -/
def pieces (s : PyStr) : List (List Char) := (s.map PyStr.replaced).splitOn nul

/-- The parts of the user, the first system message and the first user message. -/
def piecesOf : List (List Char) :=
  pieces (strippedUser r) ++ (pieces (firstContent .system r.messages) ++ pieces (firstContent .user r.messages))

/-- The condition on two requests: if they are of one thread, their first system messages are
encoded alike; if not, their parts differ. -/
def Keyed : Prop :=
  if threadOf E r = threadOf E r' then
    (firstContent .system r.messages).map PyStr.replaced = (firstContent .system r'.messages).map PyStr.replaced
  else piecesOf r ≠ piecesOf r'

/-! ### The seed -/

variable {r r'}

theorem splitOn_append_nul (xs ys : List Char) : (xs ++ nul :: ys).splitOn nul = xs.splitOn nul ++ ys.splitOn nul := by
  simp only [List.splitOn_eq_splitOnP]
  apply List.splitOnP_append_cons
  simp

theorem splitOn_nul_injective : Function.Injective fun xs : List Char => xs.splitOn nul := by
  intro xs ys h
  have hjoin := congrArg [nul].intercalate h
  simpa only [List.intercalate_splitOn] using hjoin

/-- What the seed encodes. -/
def seedText (r : ChatReq) : List Char :=
  (strippedUser r).map PyStr.replaced ++ nul ::
    ((firstContent .system r.messages).map PyStr.replaced ++ nul :: (firstContent .user r.messages).map PyStr.replaced)

theorem seed_eq_iff : seed r = seed r' ↔ seedText r = seedText r' := by
  simp [seed, seedText, PyStr.encode_eq_iff, PyStr.replaced]

/-- **The seed determines the parts**, and nothing more. -/
theorem seed_eq_iff_pieces : seed r = seed r' ↔ piecesOf r = piecesOf r' := by
  have hsplit : ∀ r : ChatReq, (seedText r).splitOn nul = piecesOf r := by
    intro r
    rw [seedText, splitOn_append_nul, splitOn_append_nul]
    rfl
  rw [seed_eq_iff, ← splitOn_nul_injective.eq_iff]
  simp only [hsplit]

/-- Of two requests with one user and one first user message, the seeds are equal exactly when
the first system messages are encoded alike. -/
theorem seed_eq_iff_system (huser : strippedUser r = strippedUser r')
    (hfirst : firstContent .user r.messages = firstContent .user r'.messages) : seed r = seed r' ↔
      (firstContent .system r.messages).map PyStr.replaced = (firstContent .system r'.messages).map PyStr.replaced := by
  rw [seed_eq_iff, seedText, seedText, huser, hfirst, List.append_cancel_left_eq, List.cons.injEq,
    List.append_left_inj]
  simp

/-! ### Keys and threads -/

variable {hexdigest}

/-- No key is empty. -/
theorem conversationId_ne_nil (hexdigest : ByteArray → String) (r : ChatReq) : conversationId hexdigest r ≠ [] := by
  unfold conversationId
  split_ifs with h
  · exact h
  · have howui : PyStr.ofString "owui-" ≠ [] := by decide
    simp [howui]

/-- Without a collision, two keys are equal exactly when the seeds are. -/
theorem conversationId_eq_iff (hr : explicitId r = []) (hr' : explicitId r' = [])
    (hfree : digest hexdigest r = digest hexdigest r' → seed r = seed r') :
    conversationId hexdigest r = conversationId hexdigest r' ↔ seed r = seed r' := by
  have hinj : Function.Injective PyChar.scalar := fun _ _ => PyChar.scalar.inj
  simp only [conversationId, hr, hr', ne_eq, not_true_eq_false, if_false, List.append_cancel_left_eq,
    (List.map_injective_iff.mpr hinj).eq_iff]
  constructor
  · exact hfree
  · intro h
    rw [digest, digest, h]

/-- **Thread keys identify threads**: two requests have one key just when they are of one
thread, if and only if they are `Keyed`. -/
theorem keys_iff (E : ExternalContext) (hr : explicitId r = []) (hr' : explicitId r' = [])
    (hfree : digest hexdigest r = digest hexdigest r' → seed r = seed r') :
    (conversationId hexdigest r = conversationId hexdigest r' ↔ threadOf E r = threadOf E r') ↔ Keyed E r r' := by
  rw [conversationId_eq_iff hr hr' hfree, Keyed]
  split_ifs with hthread
  · have huser : strippedUser r = strippedUser r' := congrArg Thread.user hthread
    have hfirst : firstContent .user r.messages = firstContent .user r'.messages := congrArg Thread.firstUser hthread
    rw [iff_true_right hthread, seed_eq_iff_system huser hfirst]
  · rw [iff_false_right hthread, seed_eq_iff_pieces]

/-- A request whose first system message is its own and whose texts have neither NUL characters
nor surrogates. -/
structure Plain (E : ExternalContext) (r : ChatReq) : Prop where
  own : ownSystem E r.messages = firstContent .system r.messages
  plain : ∀ s ∈ [strippedUser r, firstContent .system r.messages, firstContent .user r.messages], ∀ c ∈ s,
    ∃ d, c = .scalar d ∧ d ≠ nul

/-- A text without NUL characters and surrogates is its one part. -/
theorem pieces_of_plain {s : PyStr} (h : ∀ c ∈ s, ∃ d, c = .scalar d ∧ d ≠ nul) : pieces s = [s.map PyStr.replaced] := by
  apply List.splitOn_eq_singleton
  intro hmem
  obtain ⟨c, hc, hnul⟩ := List.mem_map.mp hmem
  obtain ⟨d, rfl, hd⟩ := h c hc
  exact hd hnul

theorem map_replaced_inj {s t : PyStr} (hs : ∀ c ∈ s, ∃ d, c = .scalar d ∧ d ≠ nul)
    (ht : ∀ c ∈ t, ∃ d, c = .scalar d ∧ d ≠ nul) (h : s.map PyStr.replaced = t.map PyStr.replaced) : s = t := by
  have hback : ∀ s : PyStr, (∀ c ∈ s, ∃ d, c = .scalar d ∧ d ≠ nul) → (s.map PyStr.replaced).map .scalar = s := by
    intro s hs
    rw [List.map_map]
    refine (List.map_congr_left fun c hc => ?_).trans (List.map_id _)
    obtain ⟨d, rfl, -⟩ := hs c hc
    rfl
  rw [← hback s hs, ← hback t ht, h]

/-- Two plain requests are keyed. -/
theorem keyed_of_plain (h : Plain E r) (h' : Plain E r') : Keyed E r r' := by
  have hp := h.plain
  have hp' := h'.plain
  simp only [List.forall_mem_cons] at hp hp'
  obtain ⟨hu, hs, hf, -⟩ := hp
  obtain ⟨hu', hs', hf', -⟩ := hp'
  rw [Keyed]
  split_ifs with hthread
  · have hown : ownSystem E r.messages = ownSystem E r'.messages := congrArg Thread.system hthread
    rw [← h.own, ← h'.own, hown]
  · intro hpieces
    apply hthread
    rw [piecesOf, piecesOf, pieces_of_plain hu, pieces_of_plain hs, pieces_of_plain hf, pieces_of_plain hu',
      pieces_of_plain hs', pieces_of_plain hf'] at hpieces
    simp only [List.singleton_append, List.cons.injEq, and_true] at hpieces
    rw [threadOf, threadOf, h.own, h'.own, map_replaced_inj hu hu' hpieces.1, map_replaced_inj hs hs' hpieces.2.1,
      map_replaced_inj hf hf' hpieces.2.2]

/-- A request with these messages, and nothing else. -/
def requestOf (messages : List (OAMessage PyStr)) : ChatReq := ⟨messages, none, none⟩

/-- A first message of a thread. -/
def hi : ChatReq := requestOf [⟨.user, PyStr.ofString "hi"⟩]

/-- The same, with a retrieval message in front. -/
def groundedHi : ChatReq :=
  requestOf [⟨.system, PyStr.ofString "<context>news</context>"⟩, ⟨.user, PyStr.ofString "hi"⟩]

/-- The setting as it is by default. -/
def byDefault : ExternalContext := ⟨true, 24000⟩

/-- SHA-256 of the two seeds. -/
def sha256 (bytes : ByteArray) : String :=
  if bytes.data = (seed hi).data then "38543551a4d17220f0c8b7320ba7d12ddd9125a691bf395a49b4ff9345ef759a"
  else if bytes.data = (seed groundedHi).data then "a4f77a79f34fc43c138e84b916806d6d23b83b9dbc2eaf3345b2a0320cc4d299"
  else ""

theorem seed_hi_ne : seed hi ≠ seed groundedHi := by
  rw [Ne, seed_eq_iff]
  decide

theorem digest_hi_ne : digest sha256 hi ≠ digest sha256 groundedHi := by
  have hne : (seed groundedHi).data ≠ (seed hi).data := fun h => seed_hi_ne (ByteArray.ext h).symm
  simp only [digest, sha256, if_pos, if_neg hne]
  decide

theorem keys_hi : (conversationId sha256 hi = conversationId sha256 groundedHi ↔
    threadOf byDefault hi = threadOf byDefault groundedHi) ↔ Keyed byDefault hi groundedHi := by
  have hnone : explicitId hi = [] := by decide
  have hnone' : explicitId groundedHi = [] := by decide
  exact keys_iff byDefault hnone hnone' fun heq => absurd heq digest_hi_ne

/-- The thread is one, and has two keys. -/
theorem not_keys : ¬ (conversationId sha256 hi = conversationId sha256 groundedHi ↔
    threadOf byDefault hi = threadOf byDefault groundedHi) := by
  intro h
  have hthread : threadOf byDefault hi = threadOf byDefault groundedHi := by decide
  have hnone : explicitId hi = [] := by decide
  have hnone' : explicitId groundedHi = [] := by decide
  have hkey := (conversationId_eq_iff hnone hnone' fun heq => absurd heq digest_hi_ne).mp (h.mpr hthread)
  exact seed_hi_ne hkey

/-- Two threads with one key: a NUL character of the system prompt is taken for the end of it. -/
example : seed (requestOf [⟨.system, [.scalar 'a', .scalar nul]⟩, ⟨.user, [.scalar 'b']⟩]) =
    seed (requestOf [⟨.system, [.scalar 'a']⟩, ⟨.user, [.scalar nul, .scalar 'b']⟩]) := by
  rw [seed_eq_iff_pieces]
  decide

end Persona.Api
