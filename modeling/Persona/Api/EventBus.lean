import Persona.JsonText
import Persona.Lib.Bytes
import Mathlib.Data.List.Perm.Basic
import Mathlib.Data.List.Induction

/-!
# The event bus

`LoopbackBus`: a publisher opens a connection, writes one frame and closes; the listener
reads the frame, checks the token and dispatches the event to the handlers. A frame is the
length of a JSON text in four bytes and the text. The bytes come in any pieces.

A handler gets the payload itself, not a copy, and so may change it for those after it. It
returns, raises an `Exception`, or raises what is none (`SystemExit`, `CancelledError`), which
`_dispatch` does not catch.

Each handler that listens is called once with what was published, unless one before it does
not let it through, or the event is named `*`: its handlers are then on both of the lists that
`_dispatch` joins (`delivery_iff`).
-/

namespace Persona.Api.EventBus

open Persona Persona.Lib Persona.JsonText

/-- The items of a dictionary. -/
abbrev Dict := List (String × Json)

/-- `_MAX_FRAME`. -/
def maxFrame : ℕ := 2 ^ 20

/-- How a handler ends. -/
inductive Outcome where
  | returns
  /-- With an `Exception`. -/
  | raises
  /-- With an exception that is no `Exception`. -/
  | breaks
  deriving DecidableEq

/-- What a handler does with an event and a payload: how it ends, and the payload it leaves. -/
abbrev Handler := String → Dict → Outcome × Dict

/-- A handler is called. -/
structure Call where
  handler : Handler
  event : String
  payload : Dict

/-- The bus: its token and its handlers. -/
structure LoopbackBus where
  token : String
  /-- `_handlers.get(event, [])`. -/
  handlers : String → List Handler

namespace LoopbackBus

/-- `__init__`. -/
def init (token : String) : LoopbackBus := ⟨token, fun _ => []⟩

/-- `subscribe`. -/
def subscribe (bus : LoopbackBus) (event : String) (handler : Handler) : LoopbackBus :=
  { bus with handlers := Function.update bus.handlers event (bus.handlers event ++ [handler]) }

end LoopbackBus

/-! ### The publisher -/

/-- What can go wrong on the way. -/
structure Network where
  /-- The connection opens in time. -/
  connects : Bool
  /-- `drain` comes back in time. -/
  drains : Bool

variable (F : Floats)

/-- `frame_obj`. -/
def frameObj (bus : LoopbackBus) (event : String) (payload : Option Dict) : Json :=
  .obj [("event", .str event), ("payload", .obj (payload.getD [])), ("token", .str bus.token)]

/-- `blob`. -/
def blob (bus : LoopbackBus) (event : String) (payload : Option Dict) : List UInt8 :=
  Bytes.encode (dumps F (frameObj bus event payload))

/-- `publish`: what it returns, and the bytes it writes to the connection. -/
def publish (net : Network) (bus : LoopbackBus) (event : String) (payload : Option Dict) : Bool × List UInt8 :=
  let blob := blob F bus event payload
  if maxFrame < blob.length then (false, [])
  else if net.connects then (net.drains, Bytes.toBig 4 blob.length ++ blob)
  else (false, [])

/-! ### The listener -/

/-- The handlers are called one after the other, with one payload. -/
def invoke (event : String) : List Handler → Dict → List Call
  | [], _ => []
  | h :: hs, payload =>
    ⟨h, event, payload⟩ :: if (h event payload).1 = .breaks then [] else invoke event hs (h event payload).2

/-- `_dispatch`. -/
def dispatch (bus : LoopbackBus) (event : String) (payload : Dict) : List Call :=
  invoke event (bus.handlers event ++ bus.handlers "*") payload

/-- The length is none of a frame. -/
def badLength (n : ℕ) : Bool := n = 0 || maxFrame < n

/-- `msg.get("token", "") != self.token`. -/
def badToken (bus : LoopbackBus) (msg : Dict) : Bool :=
  match (msg.lookup "token").getD (.str "") with
  | .str token => token ≠ bus.token
  | _ => true

/-- `msg.get("payload") or {}`, when it is a dictionary. -/
def payloadOf (msg : Dict) : Dict :=
  match Json.get msg "payload" with
  | .obj payload => payload
  | _ => []

variable (P : Python)

/-- `_handle_conn`: the calls that a connection leads to. -/
def handleConn (bus : LoopbackBus) (reader : Reader UInt8) : List Call :=
  match reader.readExactly 4 with
  | none => []
  | some (hdr, reader) =>
    if badLength (Bytes.ofBig hdr) then []
    else
      match reader.readExactly (Bytes.ofBig hdr) with
      | none => []
      | some (data, _) =>
        match (Bytes.decode data).bind (loads F) with
        | some (.obj msg) =>
          if badToken bus msg then []
          else dispatch bus (P.toStr ((Json.get msg "event").or (.str ""))) (payloadOf msg)
        | _ => []

/-! ### What is delivered -/

variable {F}

/-- A payload that has a JSON text. -/
structure Payload (F : Floats) where
  items : Dict
  encodable : Encodable F (.obj items)

/-- A listener with its subscriptions, in the order in which they were made. -/
def listening (token : String) (subs : List (String × Handler)) : LoopbackBus :=
  subs.foldl (fun bus sub => bus.subscribe sub.1 sub.2) (.init token)

/-- A call for each registration that an event is for. -/
def due (subs : List (String × Handler)) (event : String) (payload : Dict) : List Call :=
  (subs.filter fun sub => sub.1 = event || sub.1 = "*").map fun sub => ⟨sub.2, event, payload⟩

variable (F) in
/-- What the bus promises of an event that is published with one token to a listener with another. -/
structure Delivery (token token' : String) (subs : List (String × Handler)) (event : String) (payload : Payload F) :
    Prop where
  /-- What is handed over leads to each call once. -/
  once : token = token' → ∀ net bytes, publish F net (.init token) event payload.items = (true, bytes) →
    ∀ reader : Reader UInt8, reader.contents = bytes →
      (handleConn F P (listening token' subs) reader).Perm (due subs event payload.items)
  /-- With another token no handler is called. -/
  gated : token ≠ token' → ∀ net, ∀ reader : Reader UInt8,
    reader.contents <+: (publish F net (.init token) event payload.items).2 →
      handleConn F P (listening token' subs) reader = []
  /-- A frame that is cut short leads to no call. -/
  cut : ∀ net, ∀ reader : Reader UInt8, reader.contents <+: (publish F net (.init token) event payload.items).2 →
    reader.contents ≠ (publish F net (.init token) event payload.items).2 →
      handleConn F P (listening token' subs) reader = []
  /-- What is sent has a length that is not rejected. -/
  length : ∀ net bytes, (publish F net (.init token) event payload.items).2 = bytes → bytes ≠ [] →
    badLength (Bytes.ofBig (bytes.take 4)) = false ∧ Bytes.ofBig (bytes.take 4) = (bytes.drop 4).length

/-- A handler lets an event through to the next. -/
def Passes (event : String) (payload : Dict) (h : Handler) : Prop :=
  (h event payload).1 ≠ .breaks ∧ (h event payload).2 = payload

theorem handlers_listening (token : String) (subs : List (String × Handler)) (event : String) :
    (listening token subs).handlers event = (subs.filter fun sub => sub.1 = event).map Prod.snd := by
  induction subs using List.reverseRecOn with
  | nil => rfl
  | append_singleton subs sub ih =>
    rw [listening, List.foldl_concat, ← listening, LoopbackBus.subscribe, List.filter_append, List.map_append, ← ih]
    by_cases h : sub.1 = event
    · subst h
      simp
    · simp [Function.update_of_ne (Ne.symm h), h]

theorem token_listening (token : String) (subs : List (String × Handler)) : (listening token subs).token = token := by
  induction subs using List.reverseRecOn with
  | nil => rfl
  | append_singleton subs sub ih => rwa [listening, List.foldl_concat, ← listening]

/-! ### Frames -/

/-- The frame of a text. -/
def frame (blob : List UInt8) : List UInt8 := Bytes.toBig 4 blob.length ++ blob

theorem encodable_frameObj (bus : LoopbackBus) (event : String) (payload : Payload F) :
    Encodable F (frameObj bus event payload.items) := by
  refine .obj (by simp) ?_
  intro kv hkv
  simp only [List.mem_cons, List.not_mem_nil, or_false] at hkv
  rcases hkv with rfl | rfl | rfl
  · exact .str event
  · exact payload.encodable
  · exact .str bus.token

theorem blob_ne_nil (bus : LoopbackBus) (event : String) (payload : Payload F) : blob F bus event payload.items ≠ [] := by
  obtain ⟨c, rest, hdump, -⟩ := begins_dump (encodable_frameObj bus event payload)
  rw [blob, ne_eq, Bytes.encode_eq_nil_iff, dumps, hdump]
  simp

theorem loads_blob (bus : LoopbackBus) (event : String) (payload : Payload F) :
    (Bytes.decode (blob F bus event payload.items)).bind (loads F) = some (frameObj bus event payload.items) := by
  rw [blob, Bytes.decode_encode, Option.bind_some, loads_dumps (encodable_frameObj bus event payload)]

theorem length_lt {blob : List UInt8} (h : ¬ maxFrame < blob.length) : blob.length < 256 ^ 4 :=
  lt_of_le_of_lt (not_lt.mp h) (by decide)

/-- What `publish` writes is nothing or the frame. -/
theorem publish_cases (net : Network) (bus : LoopbackBus) (event : String) (payload : Payload F) :
    publish F net bus event payload.items = (false, []) ∨
      ¬ maxFrame < (blob F bus event payload.items).length ∧
        publish F net bus event payload.items = (net.drains, frame (blob F bus event payload.items)) := by
  rw [publish]
  split_ifs with hmax hconnects
  · exact .inl rfl
  · exact .inr ⟨hmax, rfl⟩
  · exact .inl rfl

/-- What the listener reads from the object of a frame. -/
theorem read_frameObj (bus : LoopbackBus) (event token : String) (payload : Dict) :
    let msg : Dict := [("event", .str event), ("payload", .obj payload), ("token", .str token)]
    badToken bus msg = decide (token ≠ bus.token) ∧ P.toStr ((Json.get msg "event").or (.str "")) = event ∧
      payloadOf msg = payload := by
  refine ⟨by simp [badToken, List.lookup_cons], ?_, by simp [payloadOf, Json.get, List.lookup_cons]⟩
  by_cases hempty : event = "" <;> simp [Json.get, Json.or, Json.truthy, hempty]

/-- A frame that has arrived is what was published. -/
theorem handleConn_frame {bus bus' : LoopbackBus} {event : String} {payload : Payload F} {reader : Reader UInt8}
    (hmax : ¬ maxFrame < (blob F bus event payload.items).length)
    (h : reader.contents = frame (blob F bus event payload.items)) :
    handleConn F P bus' reader = if bus.token = bus'.token then dispatch bus' event payload.items else [] := by
  obtain ⟨reader', hhdr, hrest⟩ := Reader.readExactly_append h
  rw [Bytes.length_toBig] at hhdr
  obtain ⟨reader'', hdata, -⟩ := Reader.readExactly_append (hrest.trans (List.append_nil _).symm)
  have hlength := Bytes.ofBig_toBig (length_lt hmax)
  have hgood : badLength (blob F bus event payload.items).length = false := by
    have hpos := List.length_pos_iff.mpr (blob_ne_nil bus event payload)
    simp [badLength, hmax, Nat.ne_of_gt hpos]
  rw [handleConn, hhdr]
  obtain ⟨hgate, hevent, hpayload⟩ := read_frameObj P bus' event bus.token payload.items
  simp only [hlength, hgood, Bool.false_eq_true, if_false, hdata, loads_blob, frameObj, Option.getD_some, hgate, hevent,
    hpayload, decide_eq_true_eq]
  exact ite_not _ _ _

/-- A frame that is cut short is not read. -/
theorem handleConn_cut {blob : List UInt8} {bus : LoopbackBus} {reader : Reader UInt8} (hmax : ¬ maxFrame < blob.length)
    (hpre : reader.contents <+: frame blob) (hne : reader.contents ≠ frame blob) : handleConn F P bus reader = [] := by
  rw [handleConn]
  by_cases hlen : reader.contents.length < 4
  · rw [Reader.readExactly_of_lt hlen]
  · have hhdr : Bytes.toBig 4 blob.length <+: reader.contents :=
      List.prefix_of_prefix_length_le (List.prefix_append _ _) hpre (by rw [Bytes.length_toBig]; omega)
    obtain ⟨rest, hrest⟩ := hhdr
    obtain ⟨reader', hread, hcontents⟩ := Reader.readExactly_append hrest.symm
    rw [Bytes.length_toBig] at hread
    rw [← hrest, frame] at hpre hne
    have hshort : rest.length < blob.length := by
      have hle := (List.prefix_append_right_inj _).mp hpre
      have hlt := hle.length_le
      rcases hlt.lt_or_eq with hlt | heq
      · exact hlt
      · exact absurd (congrArg _ (hle.eq_of_length heq)) hne
    rw [← hcontents] at hshort
    simp only [hread, Bytes.ofBig_toBig (length_lt hmax), Reader.readExactly_of_lt hshort, ite_self]

/-! ### The calls -/

section Calls

variable {event : String} {payload : Dict}

/-- The calls that leave the payload alone go through the handlers. -/
theorem invoke_eq_map {xs ys : List Handler} (hpass : ∀ h ∈ xs.dropLast, Passes event payload h)
    (hstop : ys ≠ [] → ∃ h ∈ xs.getLast?, (h event payload).1 = .breaks) :
    invoke event (xs ++ ys) payload = xs.map fun h => ⟨h, event, payload⟩ := by
  induction xs with
  | nil =>
    by_cases hys : ys = []
    · rw [hys]
      rfl
    · obtain ⟨h, hh, -⟩ := hstop hys
      cases hh
  | cons h xs ih =>
    cases xs with
    | nil =>
      rw [List.singleton_append, invoke]
      split_ifs with hbreaks
      · rfl
      · by_cases hys : ys = []
        · rw [hys]
          rfl
        · obtain ⟨h', hh', hbreaks'⟩ := hstop hys
          obtain rfl : h = h' := by simpa using hh'
          exact absurd hbreaks' hbreaks
    | cons h' xs =>
      rw [List.dropLast_cons_cons] at hpass
      obtain ⟨hgo, hsame⟩ := hpass h List.mem_cons_self
      have hrest := ih (fun x hx => hpass x (List.mem_cons_of_mem h hx)) (fun hys => by simpa using hstop hys)
      rw [List.cons_append, invoke, if_neg hgo, hsame, hrest]
      rfl

/-- Calls that are as many as the handlers and all have the payload went through them. -/
theorem passes_of_invoke {xs ys : List Handler} (hne : ys ≠ [] → xs ≠ [])
    (hlength : (invoke event (xs ++ ys) payload).length = xs.length)
    (hsame : ∀ c ∈ invoke event (xs ++ ys) payload, c.payload = payload) :
    (∀ h ∈ xs.dropLast, Passes event payload h) ∧ (ys ≠ [] → ∃ h ∈ xs.getLast?, (h event payload).1 = .breaks) := by
  induction xs with
  | nil => exact ⟨fun h hh => (List.not_mem_nil hh).elim, fun hys => absurd rfl (hne hys)⟩
  | cons h xs ih =>
    rw [List.cons_append, invoke] at hlength hsame
    split_ifs at hlength hsame with hbreaks
    · -- the first handler breaks, and so is the only one
      obtain rfl : xs = [] := by simpa using hlength.symm
      exact ⟨fun x hx => (List.not_mem_nil hx).elim, fun _ => ⟨h, rfl, hbreaks⟩⟩
    · have hnext : xs ++ ys ≠ [] → (h event payload).2 = payload := by
        intro hmore
        obtain ⟨h', rest, hrest⟩ := List.exists_cons_of_ne_nil hmore
        refine hsame ⟨h', event, (h event payload).2⟩ (List.mem_cons_of_mem _ ?_)
        rw [hrest, invoke]
        exact List.mem_cons_self
      cases xs with
      | nil =>
        -- nothing may follow the last handler
        cases ys with
        | nil => exact ⟨fun x hx => (List.not_mem_nil hx).elim, fun hys => absurd rfl hys⟩
        | cons y ys => simp [invoke] at hlength
      | cons h' xs =>
        have hkept := hnext (List.cons_ne_nil _ _)
        rw [hkept] at hlength hsame
        obtain ⟨hpass, hstop⟩ := ih (fun _ => List.cons_ne_nil _ _) (by simpa using hlength)
          (fun c hc => hsame c (List.mem_cons_of_mem _ hc))
        refine ⟨fun x hx => ?_, fun hys => by simpa using hstop hys⟩
        rw [List.dropLast_cons_cons, List.mem_cons] at hx
        rcases hx with rfl | hx
        · exact ⟨hbreaks, hkept⟩
        · exact hpass x hx

/-- The calls are one for each of the handlers exactly when these let the event through. -/
theorem invoke_perm_iff {xs ys : List Handler} (hne : ys ≠ [] → xs ≠ []) :
    (invoke event (xs ++ ys) payload).Perm (xs.map fun h => ⟨h, event, payload⟩) ↔
      (∀ h ∈ xs.dropLast, Passes event payload h) ∧ (ys ≠ [] → ∃ h ∈ xs.getLast?, (h event payload).1 = .breaks) := by
  constructor
  · intro hperm
    refine passes_of_invoke hne (by simpa using hperm.length_eq) ?_
    intro c hc
    obtain ⟨h, -, rfl⟩ := List.mem_map.mp (hperm.mem_iff.mp hc)
    rfl
  · rintro ⟨hpass, hstop⟩
    rw [invoke_eq_map hpass hstop]

end Calls

/-- The handlers that an event is for. -/
def heard (bus : LoopbackBus) (event : String) : List Handler :=
  if event = "*" then bus.handlers "*" else bus.handlers event ++ bus.handlers "*"

/-- The handlers that an event is dispatched to a second time. -/
def again (bus : LoopbackBus) (event : String) : List Handler := if event = "*" then bus.handlers "*" else []

/-- Each handler lets the event through to the next, and the last one breaks if there are
handlers to be called a second time. -/
def Undisturbed (bus : LoopbackBus) (event : String) (payload : Dict) : Prop :=
  (∀ h ∈ (heard bus event).dropLast, Passes event payload h) ∧
    (again bus event ≠ [] → ∃ h ∈ (heard bus event).getLast?, (h event payload).1 = .breaks)

theorem dispatch_eq (bus : LoopbackBus) (event : String) (payload : Dict) :
    dispatch bus event payload = invoke event (heard bus event ++ again bus event) payload := by
  rw [dispatch, heard, again]
  split_ifs with h
  · rw [h]
  · rw [List.append_nil]

/-- The registrations that an event is for are the handlers it is for. -/
theorem due_perm (token : String) (subs : List (String × Handler)) (event : String) (payload : Dict) :
    (due subs event payload).Perm ((heard (listening token subs) event).map fun h => ⟨h, event, payload⟩) := by
  have hmap : ∀ l : List (String × Handler), l.map (fun sub => (⟨sub.2, event, payload⟩ : Call)) =
      (l.map Prod.snd).map fun h => ⟨h, event, payload⟩ := fun l => by rw [List.map_map]; rfl
  rw [due, hmap]
  refine List.Perm.map _ ?_
  rw [heard, handlers_listening, handlers_listening]
  split_ifs with h
  · subst h
    simp
  · -- the two kinds of registrations are apart
    rw [← List.map_append]
    refine List.Perm.map _ ?_
    have hsplit := (List.filter_append_perm (fun sub => decide (sub.1 = event))
      (subs.filter fun sub => sub.1 = event || sub.1 = "*")).symm
    rw [List.filter_filter, List.filter_filter] at hsplit
    refine hsplit.trans (List.Perm.of_eq ?_)
    congr 1 <;> refine List.filter_congr ?_ <;> intro sub _
    · by_cases hsub : sub.1 = event <;> simp [hsub]
    · by_cases hsub : sub.1 = event <;> simp [hsub, h]

theorem dispatch_perm_iff (token : String) (subs : List (String × Handler)) (event : String) (payload : Dict) :
    (dispatch (listening token subs) event payload).Perm (due subs event payload) ↔
      Undisturbed (listening token subs) event payload := by
  have hne : again (listening token subs) event ≠ [] → heard (listening token subs) event ≠ [] := by
    rw [again, heard]
    split_ifs <;> simp
  rw [dispatch_eq, Undisturbed, ← invoke_perm_iff hne]
  constructor
  · exact fun h => h.trans (due_perm token subs event payload)
  · exact fun h => h.trans (due_perm token subs event payload).symm

/-- A promise that is kept on a frame that fits is kept by the handlers. -/
theorem Delivery.undisturbed {token : String} {subs : List (String × Handler)} {event : String} {payload : Payload F}
    (h : Delivery F P token token subs event payload)
    (hmax : ¬ maxFrame < (blob F (.init token) event payload.items).length) :
    Undisturbed (listening token subs) event payload.items := by
  have hpublish : publish F ⟨true, true⟩ (.init token) event payload.items =
      (true, frame (blob F (.init token) event payload.items)) := by
    rw [publish]
    simp only [if_neg hmax, if_true]
    rfl
  have hcontents : (⟨[], [frame (blob F (.init token) event payload.items)]⟩ : Reader UInt8).contents =
      frame (blob F (.init token) event payload.items) := by simp [Reader.contents]
  have hcalls := h.once rfl _ _ hpublish _ hcontents
  rw [handleConn_frame P hmax hcontents, token_listening, LoopbackBus.init, if_pos rfl] at hcalls
  exact (dispatch_perm_iff _ _ _ _).mp hcalls

/-- The bus keeps its promise exactly when, with one token and an event that is not too long,
the handlers let the event through and none of them is to be called a second time. -/
theorem delivery_iff (token token' : String) (subs : List (String × Handler)) (event : String) (payload : Payload F) :
    Delivery F P token token' subs event payload ↔
      (token = token' → ¬ maxFrame < (blob F (.init token) event payload.items).length →
        Undisturbed (listening token' subs) event payload.items) := by
  constructor
  · rintro h rfl hmax
    exact h.undisturbed P hmax
  · intro h
    have hcut : ∀ net, ∀ reader : Reader UInt8,
        reader.contents <+: (publish F net (.init token) event payload.items).2 →
          reader.contents ≠ (publish F net (.init token) event payload.items).2 →
            handleConn F P (listening token' subs) reader = [] := by
      intro net reader hpre hne
      rcases publish_cases net (.init token) event payload with hpublish | ⟨hmax, hpublish⟩
      · rw [hpublish] at hpre hne
        exact absurd (List.prefix_nil.mp hpre) hne
      · rw [hpublish] at hpre hne
        exact handleConn_cut P hmax hpre hne
    refine ⟨?_, ?_, hcut, ?_⟩
    · intro htoken net bytes hbytes reader hreader
      rcases publish_cases net (.init token) event payload with hpublish | ⟨hmax, hpublish⟩
      · rw [hpublish] at hbytes
        cases hbytes
      · rw [hpublish] at hbytes
        obtain ⟨-, rfl⟩ := Prod.mk.inj hbytes
        rw [handleConn_frame P hmax hreader, token_listening, LoopbackBus.init, if_pos htoken]
        exact (dispatch_perm_iff _ _ _ _).mpr (h htoken hmax)
    · intro htoken net reader hpre
      by_cases hwhole : reader.contents = (publish F net (.init token) event payload.items).2
      · rcases publish_cases net (.init token) event payload with hpublish | ⟨hmax, hpublish⟩
        · rw [hpublish] at hwhole
          rw [handleConn, Reader.readExactly_of_lt (by rw [hwhole]; decide)]
        · rw [hpublish] at hwhole
          rw [handleConn_frame P hmax hwhole, token_listening, LoopbackBus.init, if_neg htoken]
      · exact hcut net reader hpre hwhole
    · intro net bytes hbytes hne
      rcases publish_cases net (.init token) event payload with hpublish | ⟨hmax, hpublish⟩
      · rw [hpublish] at hbytes
        exact absurd hbytes.symm hne
      · rw [hpublish] at hbytes
        subst hbytes
        have hwidth : (Bytes.toBig 4 (blob F (.init token) event payload.items).length).length = 4 := Bytes.length_toBig _ _
        have hpos := List.length_pos_iff.mpr (blob_ne_nil (.init token) event payload)
        rw [frame, List.take_left' hwidth, List.drop_left' hwidth, Bytes.ofBig_toBig (length_lt hmax)]
        exact ⟨by simp [badLength, hmax, Nat.ne_of_gt hpos], rfl⟩

/-- A handler that does nothing. -/
def idle : Handler := fun _ payload => (.returns, payload)

/-- An event named `*` is dispatched twice to who listens to all events. -/
theorem not_delivery :
    ¬ Delivery .none (.ofTable []) "t" "t" [("*", idle)] "*" ⟨[], .obj (by decide) fun _ h => (List.not_mem_nil h).elim⟩ := by
  intro h
  have hmax : ¬ maxFrame < (blob .none (.init "t") "*" (some [])).length := by decide
  obtain ⟨-, hstop⟩ := h.undisturbed _ hmax
  have hheard : heard (listening "t" [("*", idle)]) "*" = [idle] := rfl
  obtain ⟨handler, hlast, hbreaks⟩ := hstop (List.cons_ne_nil idle [])
  rw [hheard, List.getLast?_singleton] at hlast
  obtain rfl : idle = handler := by simpa using hlast
  cases hbreaks

end Persona.Api.EventBus
