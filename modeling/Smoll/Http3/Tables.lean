/-
# `Smoll.Http3.Tables` — the tables of the client agree

A stream is in `_request_events` exactly if it is in `_request_waiter`, and the
future there is its own, and not set.  So `pop` finds its keys and no future is
set twice, whatever events come and however the coroutines take turns: all
that an event ever raises comes from a websocket (`tables_agree`).

`Received` says once what an event can do to the requests; `Tables.step` is the
step of the induction.
-/
import Smoll.Http3.Client

namespace Smoll.Http3

open OrderedDict

/-! ## Events and streams -/

/-- The stream of headers and data. -/
def H3Event.streamId : H3Event → Option Nat
  | .headersReceived _ streamId _ _ | .dataReceived _ streamId _ _ => some streamId
  | _ => none

/-- It is the last one of its stream. -/
def H3Event.ended : H3Event → Bool
  | .headersReceived _ _ streamEnded _ | .dataReceived _ _ streamEnded _ => streamEnded
  | _ => false

variable {WS : Type} {out : Outside WS} {cfg : Config}

/-! ## What a move does -/

/-- The files, if nothing is raised. -/
def written : Except PyError (List (Text × Bytes)) → List (Text × Bytes)
  | .error _ => []
  | .ok files => files

def raises : Except PyError (List (Text × Bytes)) → List PyError
  | .error e => [e]
  | .ok _ => []

/-- Every move, with what must hold for it and where it leads. -/
inductive Stepped (out : Outside WS) (cfg : Config) (s : State WS) : Move → State WS → Prop
  | request {url parsed data streamId} : URL.parse out url = .ok parsed → streamId ∉ s.opened →
      Stepped out cfg s (.request url data streamId) (s.request out url parsed data streamId)
  | websocket {url parsed subprotocols streamId} : URL.parse out url = .ok parsed →
      streamId ∉ s.opened →
      Stepped out cfg s (.websocket url subprotocols streamId)
        (s.websocket out parsed subprotocols streamId)
  | noUrl {url e} : URL.parse out url = .error e →
      Stepped out cfg s (.noUrl url) { s with failed := s.failed ++ [e] }
  | event {e} : Stepped out cfg s (.event e) (s.event out e)
  | finish {i files elapsed task events} : s.tasks[i]? = some task →
      s.client.futures[i]? = some (some events) → task.finished = false →
      Stepped out cfg s (.finish i files elapsed)
        { s with
          tasks := s.tasks.set i { task with finished := true }
          written := s.written ++ written (performed out cfg files elapsed task.url events)
          failed := s.failed ++ raises (performed out cfg files elapsed task.url events) }
  | pushes {files} : s.tasks.all Task.finished → s.failed = [] →
      Stepped out cfg s (.pushes files) (s.pushes cfg files)
  | recv {streamId message queue subprotocol connection} :
      s.client.websockets.lookup streamId = some ⟨message :: queue, subprotocol, connection⟩ →
      Stepped out cfg s (.recv streamId)
        { s with
          received := s.received ++ [(streamId, message)]
          client := { s.client with
            websockets := set s.client.websockets streamId ⟨queue, subprotocol, connection⟩ } }
  | send {streamId message websocket} : s.client.websockets.lookup streamId = some websocket →
      Stepped out cfg s (.send streamId message)
        (s.transmit streamId websocket (out.sendText websocket.websocket message) false)
  | close {streamId code reason websocket} :
      s.client.websockets.lookup streamId = some websocket →
      Stepped out cfg s (.close streamId code reason)
        (s.transmit streamId websocket (out.sendClose websocket.websocket code reason) true)

theorem stepped {s s' : State WS} {move : Move} (h : step out cfg move s = some s') :
    Stepped out cfg s move s' := by
  cases move with
  | request url data streamId =>
      simp only [step] at h
      split at h
      · cases h
      · next parsed hparsed =>
          rw [Option.ite_none_left_eq_some] at h
          rcases h with ⟨hnew, h⟩
          cases h
          exact .request hparsed hnew
  | websocket url subprotocols streamId =>
      simp only [step] at h
      split at h
      · cases h
      · next parsed hparsed =>
          rw [Option.ite_none_left_eq_some] at h
          rcases h with ⟨hnew, h⟩
          cases h
          exact .websocket hparsed hnew
  | noUrl url =>
      simp only [step] at h
      split at h
      · next hparsed =>
          cases h
          exact .noUrl hparsed
      · cases h
  | event e =>
      cases h
      exact .event
  | finish i files elapsed =>
      simp only [step] at h
      split at h
      · next task events htask hfuture =>
          rw [Option.ite_none_left_eq_some] at h
          rcases h with ⟨hopen, h⟩
          cases h
          have hstepped : Stepped out cfg s (.finish i files elapsed) _ :=
            .finish htask hfuture (Bool.eq_false_iff.mpr hopen)
          unfold State.finish
          cases hdone : performed out cfg files elapsed task.url events with
          | error e => simpa [hdone, written, raises] using hstepped
          | ok files => simpa [hdone, written, raises] using hstepped
      · cases h
  | pushes files =>
      simp only [step, Option.ite_none_right_eq_some] at h
      rcases h with ⟨⟨htasks, hfailed⟩, h⟩
      cases h
      exact .pushes htasks hfailed
  | recv streamId =>
      simp only [step] at h
      split at h
      · next hws =>
          cases h
          exact .recv hws
      · cases h
  | send streamId message =>
      rcases Option.map_eq_some_iff.mp h with ⟨websocket, hws, rfl⟩
      exact .send hws
  | close streamId code reason =>
      rcases Option.map_eq_some_iff.mp h with ⟨websocket, hws, rfl⟩
      exact .close hws

/-! ## What an event does -/

/-- The requests are left alone. -/
structure SameRequests (c c' : HttpClient WS) : Prop where
  requestEvents : c'.requestEvents = c.requestEvents
  requestWaiter : c'.requestWaiter = c.requestWaiter
  futures : c'.futures = c.futures
  websockets : ∀ streamId, (c'.websockets.lookup streamId).isSome =
    (c.websockets.lookup streamId).isSome

/-- Raised by a websocket. -/
def FromWebsocket (e : PyError) : Prop := e = .unicodeDecode ∨ ∃ message, e = .wsproto message

theorem WebSocket.subprotocolOf_raises {e : PyError} (headers : List (Bytes × Bytes)) :
    ∀ {w w' : WebSocket WS}, w.subprotocolOf headers = (w', some e) → FromWebsocket e := by
  induction headers with
  | nil =>
      intro w w' h
      cases h
  | cons header headers ih =>
      intro w w' h
      rw [subprotocolOf] at h
      split at h
      · split at h
        · exact ih h
        · cases h
          exact .inl rfl
      · exact ih h

theorem WebSocket.httpEventReceived_raises {w : WebSocket WS} {event : H3Event} {e : PyError}
    (h : (w.httpEventReceived out event).2 = some e) : FromWebsocket e := by
  cases event with
  | headersReceived headers streamId streamEnded pushId =>
      simp only [httpEventReceived] at h
      split at h
      · cases h
      · next heq =>
          cases h
          exact subprotocolOf_raises headers heq
  | dataReceived data streamId streamEnded pushId =>
      simp only [httpEventReceived] at h
      split at h
      · cases h
      · next message _ =>
          cases h
          exact .inr ⟨message, rfl⟩
  | pushPromiseReceived headers pushId streamId => cases h
  | other => cases h

/-- What an event does to the requests: it is collected, it answers one, or it is for another. -/
inductive Received (c : HttpClient WS) (event : H3Event) :
    HttpClient WS × Option PyError → Prop
  | collected {streamId events} : event.streamId = some streamId → event.ended = false →
      c.requestEvents.lookup streamId = some events →
      Received c event
        ({ c with requestEvents := set c.requestEvents streamId (events ++ [event]) }, none)
  | answered {streamId events waiter} : event.streamId = some streamId → event.ended = true →
      c.requestEvents.lookup streamId = some events →
      c.requestWaiter.lookup streamId = some waiter →
      Received c event
        ({ c with
            requestWaiter := pop c.requestWaiter streamId
            requestEvents := pop (set c.requestEvents streamId (events ++ [event])) streamId
            futures := c.futures.set waiter (some (events ++ [event])) }, none)
  | elsewhere {c' e} : (∀ streamId, event.streamId = some streamId →
        c.requestEvents.lookup streamId = none) →
      SameRequests c c' → (∀ e', e = some e' → FromWebsocket e') →
      Received c event (c', e)

theorem isSome_lookup_set {κ ν : Type*} [DecidableEq κ] {dict : List (κ × ν)} {key : κ} {w : ν}
    (h : dict.lookup key = some w) (v : ν) (k : κ) :
    ((set dict key v).lookup k).isSome = (dict.lookup k).isSome := by
  rw [lookup_set]
  split
  · next hk => rw [hk, h]; rfl
  · rfl

theorem received_spec {c : HttpClient WS} {event : H3Event} {streamId : Nat} {streamEnded : Bool}
    {pushId : Option Nat} (hstream : event.streamId = some streamId)
    (hended : event.ended = streamEnded)
    (hwaiter : ∀ events, c.requestEvents.lookup streamId = some events →
      ∃ waiter, c.requestWaiter.lookup streamId = some waiter ∧ c.futures[waiter]? = some none) :
    Received c event (c.received out event streamId streamEnded pushId) := by
  unfold HttpClient.received
  cases hevents : c.requestEvents.lookup streamId with
  | some events =>
      rcases hwaiter events hevents with ⟨waiter, hwaiter, hpending⟩
      cases streamEnded with
      | false => exact .collected hstream hended hevents
      | true =>
          have hanswered := Received.answered hstream hended hevents hwaiter
          simpa [hwaiter, HttpClient.setResult, hpending] using hanswered
  | none =>
      have helse : ∀ k, event.streamId = some k → c.requestEvents.lookup k = none := by
        intro k hk
        rw [hstream] at hk
        cases hk
        exact hevents
      cases hws : c.websockets.lookup streamId with
      | some websocket =>
          refine .elsewhere helse ⟨rfl, rfl, rfl, isSome_lookup_set hws _⟩ ?_
          intro e he
          exact WebSocket.httpEventReceived_raises he
      | none =>
          cases pushId with
          | none => exact .elsewhere helse ⟨rfl, rfl, rfl, fun _ => rfl⟩ nofun
          | some pushId =>
              cases hpush : c.pushes.lookup pushId with
              | some events =>
                  simp only [hpush]
                  exact .elsewhere helse ⟨rfl, rfl, rfl, fun _ => rfl⟩ nofun
              | none =>
                  simp only [hpush]
                  exact .elsewhere helse ⟨rfl, rfl, rfl, fun _ => rfl⟩ nofun

theorem httpEventReceived_spec (out : Outside WS) {c : HttpClient WS}
    (hwaiter : ∀ streamId events, c.requestEvents.lookup streamId = some events →
      ∃ waiter, c.requestWaiter.lookup streamId = some waiter ∧ c.futures[waiter]? = some none)
    (event : H3Event) : Received c event (c.httpEventReceived out event) := by
  cases event with
  | headersReceived headers streamId streamEnded pushId =>
      exact received_spec rfl rfl (hwaiter streamId)
  | dataReceived data streamId streamEnded pushId =>
      exact received_spec rfl rfl (hwaiter streamId)
  | pushPromiseReceived headers pushId streamId =>
      exact .elsewhere nofun ⟨rfl, rfl, rfl, fun _ => rfl⟩ nofun
  | other => exact .elsewhere nofun ⟨rfl, rfl, rfl, fun _ => rfl⟩ nofun

/-! ## The tables -/

/-- Frames for another stream. -/
theorem filter_append_of_ne {streamId : Nat} (sent : List Frame) {new : List Frame}
    (h : ∀ frame ∈ new, frame.streamId ≠ streamId) :
    (sent ++ new).filter (·.streamId = streamId) = sent.filter (·.streamId = streamId) := by
  rw [List.filter_append]
  have hnil : new.filter (·.streamId = streamId) = [] := by
    rw [List.filter_eq_nil_iff]
    intro frame hframe
    simpa using h frame hframe
  rw [hnil, List.append_nil]

structure Tables (s : State WS) : Prop where
  length : s.client.futures.length = s.tasks.length
  agree : ∀ streamId, (s.client.requestEvents.lookup streamId).isSome =
    (s.client.requestWaiter.lookup streamId).isSome
  pending : ∀ streamId i, s.client.requestWaiter.lookup streamId = some i →
    s.client.futures[i]? = some none ∧ s.tasks[i]?.map Task.streamId = some streamId
  waiting : ∀ i streamId, s.client.futures[i]? = some none →
    s.tasks[i]?.map Task.streamId = some streamId →
    s.client.requestWaiter.lookup streamId = some i
  opened : ∀ streamId, (s.client.requestEvents.lookup streamId).isSome ∨
    (s.client.websockets.lookup streamId).isSome → streamId ∈ s.opened
  apart : ∀ streamId, (s.client.requestEvents.lookup streamId).isSome →
    s.client.websockets.lookup streamId = none
  sent : ∀ frame ∈ s.sent, frame.streamId ∈ s.opened
  raised : ∀ e ∈ s.raised, FromWebsocket e

namespace Tables

variable {s s' : State WS}

theorem init : Tables (State.init : State WS) where
  length := rfl
  agree := fun _ => rfl
  pending := nofun
  waiting := nofun
  opened := fun _ h => h.elim nofun nofun
  apart := nofun
  sent := nofun
  raised := nofun

/-- A stream that was not opened is in no table. -/
theorem fresh (h : Tables s) {streamId : Nat} (hnew : streamId ∉ s.opened) :
    s.client.requestEvents.lookup streamId = none ∧
      s.client.requestWaiter.lookup streamId = none ∧
      s.client.websockets.lookup streamId = none := by
  have hnone : s.client.requestEvents.lookup streamId = none := by
    rw [← Option.not_isSome_iff_eq_none]
    intro hsome
    exact hnew (h.opened streamId (.inl hsome))
  refine ⟨hnone, ?_, ?_⟩
  · rw [← Option.not_isSome_iff_eq_none, ← h.agree, hnone]
    nofun
  · rw [← Option.not_isSome_iff_eq_none]
    intro hsome
    exact hnew (h.opened streamId (.inr hsome))

/-- A future that a stream waits for. -/
theorem pending_of_events (h : Tables s) (streamId : Nat) (events : List H3Event)
    (hevents : s.client.requestEvents.lookup streamId = some events) :
    ∃ waiter, s.client.requestWaiter.lookup streamId = some waiter ∧
      s.client.futures[waiter]? = some none := by
  have hsome : (s.client.requestWaiter.lookup streamId).isSome := by
    rw [← h.agree, hevents]
    rfl
  rcases Option.isSome_iff_exists.mp hsome with ⟨i, hi⟩
  exact ⟨i, hi, (h.pending streamId i hi).1⟩

/-- A move that leaves the requests alone but for events that are collected, and opens no stream
for a websocket but a new one. -/
theorem of_same (h : Tables s)
    (hevents : ∀ streamId, (s'.client.requestEvents.lookup streamId).isSome =
      (s.client.requestEvents.lookup streamId).isSome)
    (hwaiter : s'.client.requestWaiter = s.client.requestWaiter)
    (hfutures : s'.client.futures = s.client.futures)
    (htasks : s'.tasks.map Task.streamId = s.tasks.map Task.streamId)
    (hopened : ∀ streamId ∈ s.opened, streamId ∈ s'.opened)
    (hws : ∀ streamId, (s'.client.websockets.lookup streamId).isSome →
      (s.client.websockets.lookup streamId).isSome ∨
        streamId ∈ s'.opened ∧ streamId ∉ s.opened)
    (hsent : ∀ frame ∈ s'.sent, frame ∈ s.sent ∨ frame.streamId ∈ s'.opened)
    (hraised : ∀ e ∈ s'.raised, e ∈ s.raised ∨ FromWebsocket e) : Tables s' where
  length := by
    have hlen := congrArg List.length htasks
    rw [List.length_map, List.length_map] at hlen
    rw [hfutures, hlen, h.length]
  agree := by
    intro streamId
    rw [hevents, hwaiter]
    exact h.agree streamId
  pending := by
    intro streamId i hi
    rw [hwaiter] at hi
    rw [hfutures, ← List.getElem?_map, htasks, List.getElem?_map]
    exact h.pending streamId i hi
  waiting := by
    intro i streamId hi htask
    rw [hfutures] at hi
    rw [← List.getElem?_map, htasks, List.getElem?_map] at htask
    rw [hwaiter]
    exact h.waiting i streamId hi htask
  opened := by
    intro streamId hsome
    rw [hevents] at hsome
    rcases hsome with hsome | hsome
    · exact hopened _ (h.opened streamId (.inl hsome))
    · rcases hws streamId hsome with hold | hnew
      · exact hopened _ (h.opened streamId (.inr hold))
      · exact hnew.1
  apart := by
    intro streamId hsome
    rw [hevents] at hsome
    rw [← Option.not_isSome_iff_eq_none]
    intro hsome'
    rcases hws streamId hsome' with hold | hnew
    · rw [h.apart streamId hsome] at hold
      cases hold
    · exact hnew.2 (h.opened streamId (.inl hsome))
  sent := by
    intro frame hframe
    rcases hsent frame hframe with hold | hnew
    · exact hopened _ (h.sent frame hold)
    · exact hnew
  raised := by
    intro e he
    rcases hraised e he with hold | hnew
    · exact h.raised e hold
    · exact hnew

theorem request (h : Tables s) (url : Text) (parsed : URL) (data : Option Text) {streamId : Nat}
    (hnew : streamId ∉ s.opened) : Tables (s.request out url parsed data streamId) := by
  rcases h.fresh hnew with ⟨hevents, hwaiter, hws⟩
  constructor
  · show (s.client.futures ++ [none]).length = (s.tasks ++ [_]).length
    rw [List.length_append, List.length_append, h.length]
    rfl
  · intro k
    show ((set s.client.requestEvents streamId []).lookup k).isSome =
      ((set s.client.requestWaiter streamId s.client.futures.length).lookup k).isSome
    rw [lookup_set, lookup_set]
    split
    · rfl
    · exact h.agree k
  · intro k i hk
    show (s.client.futures ++ [none])[i]? = some none ∧
      (s.tasks ++ [⟨url, data, streamId, false⟩])[i]?.map Task.streamId = some k
    replace hk : (set s.client.requestWaiter streamId s.client.futures.length).lookup k = some i :=
      hk
    rw [lookup_set] at hk
    split at hk
    · next heq =>
        cases hk
        rw [List.getElem?_concat_length, h.length, List.getElem?_concat_length, heq]
        exact ⟨rfl, rfl⟩
    · rcases h.pending k i hk with ⟨hpending, htask⟩
      have hlt : i < s.client.futures.length := List.getElem?_eq_some_iff.mp hpending |>.1
      rw [List.getElem?_append_left hlt, List.getElem?_append_left (h.length ▸ hlt)]
      exact ⟨hpending, htask⟩
  · intro i k hi htask
    show (set s.client.requestWaiter streamId s.client.futures.length).lookup k = some i
    replace hi : (s.client.futures ++ [none])[i]? = some none := hi
    replace htask : (s.tasks ++ [⟨url, data, streamId, false⟩])[i]?.map Task.streamId = some k :=
      htask
    have hle : i < (s.client.futures ++ [none]).length := List.getElem?_eq_some_iff.mp hi |>.1
    rw [List.length_append, List.length_singleton] at hle
    rcases Nat.lt_succ_iff_lt_or_eq.mp hle with hlt | rfl
    · rw [List.getElem?_append_left hlt] at hi
      rw [List.getElem?_append_left (h.length ▸ hlt)] at htask
      have hold := h.waiting i k hi htask
      rw [lookup_set_of_ne _ (fun heq => by rw [heq, hwaiter] at hold; cases hold)]
      exact hold
    · rw [h.length, List.getElem?_concat_length] at htask
      cases htask
      exact lookup_set_self _ _ _
  · intro k hsome
    show k ∈ s.opened ++ [streamId]
    by_cases hk : k = streamId
    · rw [hk]
      exact List.mem_append_right _ (List.mem_singleton_self _)
    · refine List.mem_append_left _ (h.opened k ?_)
      rcases hsome with hsome | hsome
      · replace hsome : ((set s.client.requestEvents streamId []).lookup k).isSome := hsome
        rw [lookup_set_of_ne _ hk] at hsome
        exact .inl hsome
      · exact .inr hsome
  · intro k hsome
    show s.client.websockets.lookup k = none
    by_cases hk : k = streamId
    · rw [hk]
      exact hws
    · replace hsome : ((set s.client.requestEvents streamId []).lookup k).isSome := hsome
      rw [lookup_set_of_ne _ hk] at hsome
      exact h.apart k hsome
  · intro frame hframe
    show frame.streamId ∈ s.opened ++ [streamId]
    rcases List.mem_append.mp hframe with hold | hframe
    · exact List.mem_append_left _ (h.sent frame hold)
    · refine List.mem_append_right _ (List.mem_singleton.mpr ?_)
      rcases List.mem_pair.mp hframe with rfl | rfl
      · rfl
      · rfl
  · exact h.raised

/-- The last event of a stream. -/
theorem answered (h : Tables s) {streamId waiter : Nat} (events : List H3Event)
    (hwaiter : s.client.requestWaiter.lookup streamId = some waiter) :
    Tables { s with client := { s.client with
      requestWaiter := pop s.client.requestWaiter streamId
      requestEvents := pop (set s.client.requestEvents streamId events) streamId
      futures := s.client.futures.set waiter (some events) } } := by
  have hevents : ∀ k, (pop (set s.client.requestEvents streamId events) streamId).lookup k =
      if k = streamId then none else s.client.requestEvents.lookup k := by
    intro k
    rw [lookup_pop]
    split
    · rfl
    · next hk => exact lookup_set_of_ne _ hk _
  have hne : ∀ i, (s.client.futures.set waiter (some events))[i]? = some none →
      i ≠ waiter ∧ s.client.futures[i]? = some none := by
    intro i hi
    rw [List.getElem?_set] at hi
    split at hi
    · split at hi
      · cases hi
      · cases hi
    · next hne => exact ⟨fun heq => hne heq.symm, hi⟩
  constructor
  · rw [List.length_set]
    exact h.length
  · intro k
    show ((pop _ streamId).lookup k).isSome = ((pop _ streamId).lookup k).isSome
    rw [hevents, lookup_pop]
    split
    · rfl
    · exact h.agree k
  · intro k i hk
    replace hk : (pop s.client.requestWaiter streamId).lookup k = some i := hk
    rw [lookup_pop] at hk
    split at hk
    · cases hk
    · next hne =>
        rcases h.pending k i hk with ⟨hpending, htask⟩
        refine ⟨?_, htask⟩
        show (s.client.futures.set waiter (some events))[i]? = some none
        rw [List.getElem?_set_ne]
        · exact hpending
        · rintro rfl
          rw [(h.pending streamId waiter hwaiter).2] at htask
          exact hne (Option.some.inj htask).symm
  · intro i k hi htask
    rcases hne i hi with ⟨hi', hpending⟩
    have hold := h.waiting i k hpending htask
    show (pop s.client.requestWaiter streamId).lookup k = some i
    rw [lookup_pop_of_ne]
    · exact hold
    · rintro rfl
      rw [hwaiter] at hold
      exact hi' (Option.some.inj hold).symm
  · intro k hsome
    refine h.opened k ?_
    rcases hsome with hsome | hsome
    · rw [hevents] at hsome
      split at hsome
      · cases hsome
      · exact .inl hsome
    · exact .inr hsome
  · intro k hsome
    rw [hevents] at hsome
    split at hsome
    · cases hsome
    · exact h.apart k hsome
  · exact h.sent
  · exact h.raised

theorem event (h : Tables s) (e : H3Event) : Tables (s.event out e) := by
  have hspec := httpEventReceived_spec out h.pending_of_events e
  unfold State.event
  generalize s.client.httpEventReceived out e = done at hspec ⊢
  cases hspec with
  | elsewhere _ hsame hraised =>
      refine h.of_same (fun k => by rw [hsame.requestEvents]) hsame.requestWaiter hsame.futures rfl
        (fun _ => id) (fun k hk => .inl ?_) (fun _ => .inl) ?_
      · rw [← hsame.websockets]
        exact hk
      · intro e' he'
        rcases List.mem_append.mp he' with he' | he'
        · exact .inl he'
        · exact .inr (hraised e' (Option.mem_toList.mp he'))
  | collected _ _ hevents =>
      refine h.of_same (isSome_lookup_set hevents _) rfl rfl rfl (fun _ => id) (fun _ => .inl)
        (fun _ => .inl) ?_
      intro e' he'
      replace he' : e' ∈ s.raised ++ [] := he'
      rw [List.append_nil] at he'
      exact .inl he'
  | answered _ _ _ hwaiter =>
      simp only [Option.toList_none, List.append_nil]
      exact h.answered _ hwaiter

theorem transmit (h : Tables s) {streamId : Nat} {websocket : WebSocket WS}
    (hws : s.client.websockets.lookup streamId = some websocket)
    (made : Except Text (Bytes × WS)) (endStream : Bool) :
    Tables (s.transmit streamId websocket made endStream) := by
  cases made with
  | error message =>
      exact h.of_same (fun _ => rfl) rfl rfl rfl (fun _ => id) (fun _ => .inl) (fun _ => .inl)
        (fun _ => .inl)
  | ok made =>
      refine h.of_same (fun _ => rfl) rfl rfl rfl (fun _ => id) (fun k hk => .inl ?_) ?_
        (fun _ => .inl)
      · rw [← isSome_lookup_set hws]
        exact hk
      · intro frame hframe
        rcases List.mem_append.mp hframe with hold | hframe
        · exact .inl hold
        · rw [List.mem_singleton.mp hframe]
          exact .inr (h.opened streamId (.inr (Option.isSome_iff_exists.mpr ⟨websocket, hws⟩)))

/-- Every move keeps the tables in order. -/
theorem step (h : Tables s) {move : Move} (hstep : Http3.step out cfg move s = some s') :
    Tables s' := by
  cases stepped hstep with
  | request _ hnew => exact h.request _ _ _ hnew
  | noUrl _ =>
      exact h.of_same (fun _ => rfl) rfl rfl rfl (fun _ => id) (fun _ => .inl) (fun _ => .inl)
        (fun _ => .inl)
  | @websocket url parsed subprotocols streamId _ hnew =>
      refine h.of_same (fun _ => rfl) rfl rfl rfl (fun _ => List.mem_append_left _) ?_ ?_
        (fun _ => .inl)
      · intro k hk
        by_cases hkey : k = streamId
        · rw [hkey]
          exact .inr ⟨List.mem_append_right _ (List.mem_singleton_self _), hnew⟩
        · replace hk : ((set s.client.websockets streamId (WebSocket.new out)).lookup k).isSome :=
            hk
          rw [lookup_set_of_ne _ hkey] at hk
          exact .inl hk
      · intro frame hframe
        rcases List.mem_append.mp hframe with hold | hframe
        · exact .inl hold
        · rw [List.mem_singleton.mp hframe]
          exact .inr (List.mem_append_right _ (List.mem_singleton_self _))
  | event => exact h.event _
  | @finish i files elapsed task events htask _ _ =>
      refine h.of_same (fun _ => rfl) rfl rfl ?_ (fun _ => id) (fun _ => .inl) (fun _ => .inl)
        (fun _ => .inl)
      show (s.tasks.set i { task with finished := true }).map Task.streamId = _
      rw [List.map_set]
      refine List.ext_getElem? fun k => ?_
      by_cases hik : i = k
      · subst hik
        rw [List.getElem?_set_self', List.getElem?_map, htask]
        rfl
      · exact List.getElem?_set_ne hik
  | pushes _ _ =>
      exact h.of_same (fun _ => rfl) rfl rfl rfl (fun _ => id) (fun _ => .inl) (fun _ => .inl)
        (fun _ => .inl)
  | recv hws =>
      refine h.of_same (fun _ => rfl) rfl rfl rfl (fun _ => id) (fun k hk => .inl ?_)
        (fun _ => .inl) (fun _ => .inl)
      rw [← isSome_lookup_set hws]
      exact hk
  | send hws => exact h.transmit hws _ _
  | close hws => exact h.transmit hws _ _

end Tables

theorem tables_of_run {moves : List Move} {s : State WS}
    (h : Sched.run (step out cfg) moves State.init = some s) : Tables s :=
  Sched.run_invariant (fun _ ht hstep => ht.step hstep) h Tables.init

/-! ## What a coroutine raises -/

/-- Not raised by the tables. -/
def Outer (e : PyError) : Prop := e ≠ .keyError ∧ e ≠ .invalidState

theorem parse_raises {url : Text} {e : PyError} (h : URL.parse out url = .error e) : Outer e := by
  unfold URL.parse at h
  split at h
  · cases h
    exact ⟨nofun, nofun⟩
  · cases h

theorem outputResponse_raises {files : Files} {path : Text} {events : List H3Event} {e : PyError}
    (h : outputResponse cfg files path events = .error e) : Outer e := by
  unfold outputResponse at h
  split at h
  · cases h
  · split at h
    · cases h
      exact ⟨nofun, nofun⟩
    · cases h

theorem performed_raises {files : Files} {elapsed : Int} {url : Text} {events : List H3Event}
    {e : PyError} (h : performed out cfg files elapsed url events = .error e) : Outer e := by
  unfold performed at h
  split at h
  · cases h
    exact ⟨nofun, nofun⟩
  · split at h
    · cases h
      exact ⟨nofun, nofun⟩
    · exact outputResponse_raises h

theorem promised_raises {headers : List (Bytes × Bytes)} {e : PyError} :
    ∀ {got : Text × Text}, promised headers got = .error e → Outer e := by
  induction headers with
  | nil =>
      intro got h
      cases h
  | cons header headers ih =>
      intro got h
      simp only [promised] at h
      split at h
      · split at h
        · exact ih h
        · cases h
          exact ⟨nofun, nofun⟩
      · split at h
        · split at h
          · exact ih h
          · cases h
            exact ⟨nofun, nofun⟩
        · exact ih h

theorem described_raises {events : List H3Event} {e : PyError} :
    ∀ {got : Text × Text}, described events got = .error e → Outer e := by
  induction events with
  | nil =>
      intro got h
      cases h
  | cons event events ih =>
      intro got h
      cases event with
      | pushPromiseReceived headers pushId streamId =>
          simp only [described] at h
          split at h
          · exact ih h
          · next hpromised =>
              cases h
              exact promised_raises hpromised
      | headersReceived _ _ _ _ => exact ih h
      | dataReceived _ _ _ _ => exact ih h
      | other => exact ih h

theorem processHttpPushes_outer {files : Files} {pushes : List (Nat × List H3Event)} {e : PyError}
    (h : (processHttpPushes cfg files pushes).2 = some e) : Outer e := by
  induction pushes with
  | nil => cases h
  | cons push pushes ih =>
      simp only [processHttpPushes] at h
      cases hpush : processHttpPush cfg files push.2 with
      | ok written =>
          rw [hpush] at h
          exact ih h
      | error e' =>
          rw [hpush] at h
          cases h
          unfold processHttpPush at hpush
          split at hpush
          · next hdescribed =>
              cases hpush
              exact described_raises hdescribed
          · exact outputResponse_raises hpush

theorem failed_transmit (s : State WS) (streamId : Nat) (websocket : WebSocket WS)
    (made : Except Text (Bytes × WS)) (endStream : Bool) :
    ∀ e ∈ (s.transmit streamId websocket made endStream).failed, e ∈ s.failed ∨ Outer e := by
  intro e he
  cases made with
  | error message =>
      rcases List.mem_append.mp he with he | he
      · exact .inl he
      · rw [List.mem_singleton.mp he]
        exact .inr ⟨nofun, nofun⟩
  | ok made => exact .inl he

theorem failed_step {move : Move} {s s' : State WS} (hstep : step out cfg move s = some s') :
    ∀ e ∈ s'.failed, e ∈ s.failed ∨ Outer e := by
  intro e he
  cases stepped hstep with
  | request _ _ => exact .inl he
  | websocket _ _ => exact .inl he
  | noUrl hparse =>
      rcases List.mem_append.mp he with he | he
      · exact .inl he
      · rw [List.mem_singleton.mp he]
        exact .inr (parse_raises hparse)
  | event => exact .inl he
  | @finish i files elapsed task events _ _ _ =>
      rcases List.mem_append.mp he with he | he
      · exact .inl he
      · cases hdone : performed out cfg files elapsed task.url events with
        | error e' =>
            rw [hdone] at he
            rw [List.mem_singleton.mp he]
            exact .inr (performed_raises hdone)
        | ok files =>
            rw [hdone] at he
            cases he
  | pushes _ _ =>
      rcases List.mem_append.mp he with he | he
      · exact .inl he
      · exact .inr (processHttpPushes_outer (Option.mem_toList.mp he))
  | recv _ => exact .inl he
  | send _ => exact failed_transmit s _ _ _ _ e he
  | close _ => exact failed_transmit s _ _ _ _ e he

theorem failed_of_run {moves : List Move} {s : State WS}
    (h : Sched.run (step out cfg) moves State.init = some s) : ∀ e ∈ s.failed, Outer e := by
  refine Sched.run_invariant (P := fun s => ∀ e ∈ s.failed, Outer e) ?_ h nofun
  intro move s s' _ hfailed hstep e he
  exact (failed_step hstep e he).elim (hfailed e) id

/-! ## In every run -/

/-- No event is lost to a key that is not there or a future that is set: a future waits exactly
while its stream is in both tables, and what an event raises comes from a websocket. -/
theorem tables_agree {moves : List Move} {s : State WS}
    (h : Sched.run (step out cfg) moves State.init = some s) :
    (∀ streamId, (s.client.requestEvents.lookup streamId).isSome =
        (s.client.requestWaiter.lookup streamId).isSome) ∧
      (∀ streamId i, s.client.requestWaiter.lookup streamId = some i ↔
        s.client.futures[i]? = some none ∧ s.tasks[i]?.map Task.streamId = some streamId) ∧
      (∀ e ∈ s.raised, e = .unicodeDecode ∨ ∃ message, e = .wsproto message) ∧
      ∀ e ∈ s.raised ++ s.failed, e ≠ .keyError ∧ e ≠ .invalidState := by
  have htables := tables_of_run h
  refine ⟨htables.agree, ?_, htables.raised, ?_⟩
  · intro streamId i
    constructor
    · intro hi
      exact htables.pending streamId i hi
    · intro hi
      exact htables.waiting i streamId hi.1 hi.2
  · intro e he
    rcases List.mem_append.mp he with he | he
    · rcases htables.raised e he with rfl | ⟨message, rfl⟩
      · exact ⟨nofun, nofun⟩
      · exact ⟨nofun, nofun⟩
    · exact failed_of_run h e he

/-- A request that is answered, one that waits, and a URL that is none. -/
theorem tables_agree_two : ∃ s : State (List Text),
    Sched.run (step plain ⟨false, none⟩)
      [.request "https://h/a".toList none 0, .request "https://h/b".toList none 4,
        .noUrl "https://[h/c".toList,
        .event (.dataReceived [97] 4 false none), .event (.headersReceived [] 0 true none)]
      State.init = some s ∧
    (s.client.requestWaiter.lookup 4 = some 1 ↔
      s.client.futures[1]? = some none ∧ s.tasks[1]?.map Task.streamId = some 4) ∧
    s.failed.length = 1 ∧ ∀ e ∈ s.raised ++ s.failed, e ≠ .keyError ∧ e ≠ .invalidState := by
  have h : Sched.run (step plain ⟨false, none⟩)
      [.request "https://h/a".toList none 0, .request "https://h/b".toList none 4,
        .noUrl "https://[h/c".toList,
        .event (.dataReceived [97] 4 false none), .event (.headersReceived [] 0 true none)]
      State.init = some _ := rfl
  obtain ⟨_, hwaiting, _, houter⟩ := tables_agree h
  exact ⟨_, h, hwaiting 4 1, rfl, houter⟩

end Smoll.Http3
