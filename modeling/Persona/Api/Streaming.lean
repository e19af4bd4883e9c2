import Persona.Lib.PyText
import Persona.Lib.Regex
import Mathlib.Data.List.Basic

/-!
# Streamed answers

The answer of `v1_chat_completions`: as one object, or with `stream` as server-sent events,
which `event_stream` yields: the role, the reasoning, the reply piece by piece, a last event
with the finish reason, and `[DONE]`. The pieces are found with a regular expression.

Texts are Python's in full generality. JSON is a parameter that encodes a chunk as an object
on one line, from which it can be decoded again.
-/

namespace Persona.Api.Streaming

open Persona.Lib Persona.Lib.PyText

/-- What every chunk of an answer has. -/
structure Base where
  id : PyStr
  created : ℤ
  model : PyStr

/-- The `delta` of a chunk. -/
inductive Delta where
  | role (role : PyStr)
  | reasoningContent (text : PyStr)
  | content (piece : PyStr)
  | empty

/-- A chunk, with its one choice. -/
structure Chunk where
  base : Base
  delta : Delta
  finishReason : Option PyStr

/-- The JSON of chunks. -/
structure Codec where
  /-- `json.dumps(obj, ensure_ascii=False)`. -/
  dumps : Chunk → PyStr
  /-- `json.loads`. -/
  loads : PyStr → Option Chunk
  loads_dumps : ∀ c, loads (dumps c) = some c
  /-- An object begins with a brace. -/
  head?_dumps : ∀ c, (dumps c).head? = some (.scalar '\x7b')
  /-- Line breaks are escaped. -/
  newline_notMem : ∀ c, .scalar '\n' ∉ dumps c

variable (J : Codec) (base : Base) (reply thought : PyStr) (preserve : Bool)

/-! ### The two answers -/

/-- `_sse`. -/
def sse (obj : Chunk) : PyStr := .ofString "data: " ++ J.dumps obj ++ .ofString "\n\n"

/-- `\S+\s*|\s+`. -/
def pieceRegex : Regex PyChar :=
  .alt (.seq (.plus fun c => !PyStr.isSpace c) (.many PyStr.isSpace)) (.plus PyStr.isSpace)

/-- The chunks of `event_stream`. -/
def chunks : List Chunk :=
  [⟨base, .role (.ofString "assistant"), none⟩] ++
    (if preserve ∧ thought ≠ [] then [⟨base, .reasoningContent thought, none⟩] else []) ++
    (((pieceRegex.findall reply).filter (· ≠ [])).map fun piece => ⟨base, .content piece, none⟩) ++
    [⟨base, .empty, some (.ofString "stop")⟩]

/-- `event_stream`: what it yields. -/
def eventStream : List PyStr :=
  (chunks base reply thought preserve).map (sse J) ++ [PyStr.ofString "data: [DONE]\n\n"]

/-- `message`. -/
structure Message where
  role : PyStr
  content : PyStr
  reasoningContent : Option PyStr

/-- The one choice of an answer that is not streamed. -/
structure Choice where
  message : Message
  finishReason : PyStr

/-- What `v1_chat_completions` returns of the reply. -/
def choice : Choice where
  message :=
    { role := .ofString "assistant"
      content := reply
      reasoningContent := if preserve ∧ thought ≠ [] then some thought else none }
  finishReason := .ofString "stop"

/-! ### What a client receives -/

/-- An event. -/
inductive Received where
  | chunk (c : Chunk)
  | done
  /-- Its data is neither. -/
  | other

/-- The event in a line: its data, after `data: `. -/
def received (line : PyStr) : Option Received :=
  if PyStr.ofString "data: " <+: line then
    let data := line.drop 6
    if data = PyStr.ofString "[DONE]" then some .done
    else some ((J.loads data).elim .other .chunk)
  else none

/-- The events in the body of an answer. -/
def events (body : PyStr) : List Received := (body.splitOn (.scalar '\n')).filterMap (received J)

/-- The text that an event adds to the content. -/
def Received.content : Received → Option PyStr
  | .chunk ⟨_, .content piece, _⟩ => some piece
  | _ => none

/-- The reasoning that an event carries. -/
def Received.reasoning : Received → Option PyStr
  | .chunk ⟨_, .reasoningContent text, _⟩ => some text
  | _ => none

/-- The finish reason of an event. -/
def Received.finishReason : Received → Option PyStr
  | .chunk c => c.finishReason
  | _ => none

/-- The events say what the choice says, and stand in the order of the protocol. -/
structure Agrees (es : List Received) (c : Choice) : Prop where
  content : (es.filterMap Received.content).flatten = c.message.content
  reasoning : es.filterMap Received.reasoning = c.message.reasoningContent.toList
  first : ∃ base, es.head? = some (.chunk ⟨base, .role c.message.role, none⟩)
  last : ∃ front base, es = front ++ [.chunk ⟨base, .empty, some c.finishReason⟩, .done] ∧
    ∀ e ∈ front, ∃ d, e = .chunk ⟨base, d, none⟩

/-! ### The pieces -/

/-- Wherever there is a character, a piece begins. -/
theorem pieceRegex_matches (before : Option PyChar) (c : PyChar) (cs : PyStr) :
    ∃ y, (pieceRegex.ends (before, c :: cs)).head? = some y ∧ y.2.length ≤ cs.length := by
  have hne : pieceRegex.ends (before, c :: cs) ≠ [] := by
    cases hc : PyStr.isSpace c with
    | false =>
      apply List.append_ne_nil_of_left_ne_nil
      exact Regex.ends_seq_many_ne_nil (Regex.ends_plus_ne_nil (by rw [hc]; rfl))
    | true =>
      apply List.append_ne_nil_of_right_ne_nil
      exact Regex.ends_plus_ne_nil hc
  refine ⟨_, List.head?_eq_some_head hne, ?_⟩
  rcases List.mem_append.mp (List.head_mem hne) with h | h
  · obtain ⟨z, hz, hy⟩ := List.mem_flatMap.mp h
    exact Nat.le_trans (Regex.suffix_of_mem_ends hy).length_le (Regex.length_of_mem_ends_one hz).2
  · exact (Regex.length_of_mem_ends_one h).2

/-- The pieces are the reply. -/
theorem flatten_pieces : ((pieceRegex.findall reply).filter (· ≠ [])).flatten = reply := by
  have hfilter : ((pieceRegex.findall reply).filter (· ≠ [])).flatten = (pieceRegex.findall reply).flatten := by
    simpa using List.flatten_filter_ne_nil (L := pieceRegex.findall reply)
  rw [hfilter, Regex.findall_flatten pieceRegex_matches]

/-! ### The events -/

variable {J}

/-- A line and the empty one after it. -/
theorem events_append {line rest : PyStr} (h : .scalar '\n' ∉ line) :
    events J (line ++ .ofString "\n\n" ++ rest) = (received J line).toList ++ events J rest := by
  have hbreaks : PyStr.ofString "\n\n" = [.scalar '\n', .scalar '\n'] := rfl
  have hline : line.splitOn (.scalar '\n') = [line] := List.splitOn_eq_singleton h
  have hsplit : (line ++ .ofString "\n\n" ++ rest).splitOn (.scalar '\n') = line :: [] :: rest.splitOn (.scalar '\n') := by
    have happend : ∀ xs ys : PyStr, (xs ++ .scalar '\n' :: ys).splitOn (.scalar '\n') =
        xs.splitOn (.scalar '\n') ++ ys.splitOn (.scalar '\n') := by
      intro xs ys
      simp only [List.splitOn_eq_splitOnP]
      exact List.splitOnP_append_cons xs ys (by simp)
    have hlist : line ++ .ofString "\n\n" ++ rest = line ++ .scalar '\n' :: ([] ++ .scalar '\n' :: rest) := by
      simp [hbreaks]
    rw [hlist, happend, happend, hline]
    rfl
  rw [events, hsplit, List.filterMap_cons, List.filterMap_cons]
  have hempty : received J [] = none := rfl
  rw [hempty]
  cases received J line <;> rfl

theorem received_sse (c : Chunk) : received J (.ofString "data: " ++ J.dumps c) = some (.chunk c) := by
  have hlen : (PyStr.ofString "data: ").length = 6 := rfl
  have hne : J.dumps c ≠ .ofString "[DONE]" := by
    intro h
    have hhead := J.head?_dumps c
    rw [h] at hhead
    revert hhead
    decide
  rw [received, if_pos (List.prefix_append _ _), ← hlen, List.drop_left]
  simp only [hne, if_false, J.loads_dumps, Option.elim_some]

/-- The events of what the stream yields. -/
theorem events_eventStream : events J (eventStream J base reply thought preserve).flatten =
    (chunks base reply thought preserve).map .chunk ++ [.done] := by
  have hdone : events J (PyStr.ofString "data: [DONE]\n\n") = [.done] := by
    have hsplit : (PyStr.ofString "data: [DONE]\n\n").splitOn (.scalar '\n') =
        [PyStr.ofString "data: [DONE]", [], []] := by
      decide
    rw [events, hsplit]
    rfl
  rw [eventStream]
  generalize chunks base reply thought preserve = cs
  induction cs with
  | nil => simpa using hdone
  | cons c cs ih =>
    have hline : PyChar.scalar '\n' ∉ PyStr.ofString "data: " ++ J.dumps c := by
      rw [List.mem_append]
      exact not_or_intro (by decide) (J.newline_notMem c)
    rw [List.map_cons, List.cons_append, List.flatten_cons, sse, events_append hline, received_sse, ih]
    rfl

/-- What is read off the events, part by part. -/
theorem filterMap_events (f : Received → Option PyStr) :
    ((chunks base reply thought preserve).map Received.chunk ++ [Received.done]).filterMap f =
      (f (.chunk ⟨base, .role (PyStr.ofString "assistant"), none⟩)).toList ++
        (if preserve ∧ thought ≠ [] then (f (.chunk ⟨base, .reasoningContent thought, none⟩)).toList else []) ++
        (((pieceRegex.findall reply).filter (· ≠ [])).filterMap fun piece => f (.chunk ⟨base, .content piece, none⟩)) ++
        (f (.chunk ⟨base, .empty, some (PyStr.ofString "stop")⟩)).toList ++ (f .done).toList := by
  have hone : ∀ r, [r].filterMap f = (f r).toList := by
    intro r
    cases hr : f r <;> simp [hr]
  rw [chunks]
  split_ifs
  · simp only [List.map_append, List.filterMap_append, List.map_cons, List.map_nil, hone, List.map_map, List.filterMap_map]
    rfl
  · simp only [List.map_append, List.filterMap_append, List.map_cons, List.map_nil, hone, List.map_map, List.filterMap_map,
      List.filterMap_nil]
    rfl

/-- **The streamed answer agrees** with the one that is not streamed. -/
theorem stream_agrees (J : Codec) (base : Base) (reply thought : PyStr) (preserve : Bool) :
    Agrees (events J (eventStream J base reply thought preserve).flatten) (choice reply thought preserve) := by
  rw [events_eventStream]
  constructor
  · rw [filterMap_events]
    simp only [Received.content, Option.toList_none, ite_self, List.nil_append, List.append_nil, List.filterMap_some]
    exact flatten_pieces reply
  · rw [filterMap_events, choice]
    simp only [Received.reasoning, Option.toList_none, Option.toList_some, List.nil_append, List.append_nil,
      List.filterMap_none]
    split_ifs <;> rfl
  · exact ⟨base, rfl⟩
  · refine ⟨_, base, by rw [chunks, List.map_append, List.append_assoc]; rfl, ?_⟩
    intro e he
    obtain ⟨c, hc, rfl⟩ := List.mem_map.mp he
    simp only [List.mem_append, List.mem_singleton, List.mem_map] at hc
    rcases hc with (rfl | hc) | ⟨piece, -, rfl⟩
    · exact ⟨_, rfl⟩
    · split_ifs at hc
      · obtain rfl := List.mem_singleton.mp hc
        exact ⟨_, rfl⟩
      · cases hc
    · exact ⟨_, rfl⟩

end Persona.Api.Streaming
