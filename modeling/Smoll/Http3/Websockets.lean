/-
# `Smoll.Http3.Websockets` — a websocket among other streams is like one alone

`Alone` is a websocket that has the connection to itself and whose queue nobody
reads: it sees the events of its stream and what is sent on it, and nothing
else.  In the client, where its events are mixed with all others and `recv`
takes messages out at any time, the websocket is the same up to its queue, and
what `recv` returned, followed by what still waits, is the queue of the one
alone (`websocket_alone`): no message is lost, doubled, reordered or taken from
another stream.

`WebSocket.prepend` carries it: nothing the websocket does looks at its queue,
so messages put in front of it stay there.
-/
import Smoll.Http3.Tables

namespace Smoll.Http3

open OrderedDict

variable {WS : Type} {out : Outside WS} {cfg : Config}

namespace WebSocket

/-- Messages put in front of the queue. -/
def prepend (messages : List Text) (self : WebSocket WS) : WebSocket WS :=
  { self with queue := messages ++ self.queue }

theorem prepend_nil (w : WebSocket WS) : w.prepend [] = w := rfl

theorem websocketEventReceived_prepend (messages : List Text) (w : WebSocket WS) (e : WsEvent) :
    (w.prepend messages).websocketEventReceived e =
      (w.websocketEventReceived e).prepend messages := by
  cases e with
  | textMessage data =>
      simp only [prepend, websocketEventReceived, List.append_assoc]
  | other => rfl

theorem subprotocolOf_prepend (messages : List Text) (headers : List (Bytes × Bytes)) :
    ∀ w : WebSocket WS, (w.prepend messages).subprotocolOf headers =
      ((w.subprotocolOf headers).1.prepend messages, (w.subprotocolOf headers).2) := by
  induction headers with
  | nil =>
      intro w
      rfl
  | cons header headers ih =>
      intro w
      simp only [subprotocolOf]
      split
      · split
        · next subprotocol _ => exact ih { w with subprotocol := some subprotocol }
        · rfl
      · exact ih w

theorem foldl_prepend (messages : List Text) (events : List WsEvent) :
    ∀ w : WebSocket WS, events.foldl websocketEventReceived (w.prepend messages) =
      (events.foldl websocketEventReceived w).prepend messages := by
  induction events with
  | nil =>
      intro w
      rfl
  | cons e events ih =>
      intro w
      rw [List.foldl_cons, List.foldl_cons, websocketEventReceived_prepend, ih]

theorem drain_prepend (messages : List Text) (w : WebSocket WS) :
    (w.prepend messages).drain out = (w.drain out).prepend messages :=
  foldl_prepend messages _ { w with websocket := (out.events w.websocket).2 }

/-- Nothing here looks at the queue. -/
theorem httpEventReceived_prepend (messages : List Text) (w : WebSocket WS) (e : H3Event) :
    (w.prepend messages).httpEventReceived out e =
      ((w.httpEventReceived out e).1.prepend messages, (w.httpEventReceived out e).2) := by
  cases e with
  | headersReceived headers streamId streamEnded pushId =>
      simp only [httpEventReceived, subprotocolOf_prepend]
      rcases w.subprotocolOf headers with ⟨w', raised⟩
      cases raised with
      | none => exact congrArg (·, none) (drain_prepend messages w')
      | some e => rfl
  | dataReceived data streamId streamEnded pushId =>
      simp only [httpEventReceived]
      have hsame : (w.prepend messages).websocket = w.websocket := rfl
      rw [hsame]
      cases out.receiveData w.websocket data with
      | ok websocket => exact congrArg (·, none) (drain_prepend messages { w with websocket })
      | error message => rfl
  | pushPromiseReceived headers pushId streamId =>
      exact congrArg (·, none) (drain_prepend messages w)
  | other => exact congrArg (·, none) (drain_prepend messages w)

end WebSocket

/-! ## Alone -/

/-- A websocket, and what was sent on its stream. -/
structure Alone (WS : Type) where
  websocket : WebSocket WS
  sent : List Frame

namespace Alone

def start (out : Outside WS) (url : URL) (subprotocols : List Text) (streamId : Nat) : Alone WS :=
  ⟨WebSocket.new out, [.headers streamId (websocketHeaders out url subprotocols)]⟩

def transmit (self : Alone WS) (streamId : Nat) (made : Except Text (Bytes × WS))
    (endStream : Bool) : Alone WS :=
  match made with
  | .error _ => self
  | .ok (data, connection) =>
      ⟨{ self.websocket with websocket := connection },
        self.sent ++ [.data streamId data endStream]⟩

/-- What it sees of a move. -/
def next (out : Outside WS) (streamId : Nat) (self : Alone WS) : Move → Alone WS
  | .event e =>
      if e.streamId = some streamId then
        { self with websocket := (self.websocket.httpEventReceived out e).1 }
      else self
  | .send k message =>
      if k = streamId then
        self.transmit streamId (out.sendText self.websocket.websocket message) false
      else self
  | .close k code reason =>
      if k = streamId then
        self.transmit streamId (out.sendClose self.websocket.websocket code reason) true
      else self
  | _ => self

end Alone

/-! ## In the client -/

/-- What `recv` returned on a stream. -/
def State.recvd (s : State WS) (streamId : Nat) : List Text :=
  (s.received.filter (·.1 = streamId)).map Prod.snd

theorem websockets_setResult (c : HttpClient WS) (waiter : Nat) (result : List H3Event) :
    (c.setResult waiter result).1.websockets = c.websockets := by
  unfold HttpClient.setResult
  split
  · rfl
  · rfl

/-- An event changes the websocket of its stream, and no other. -/
theorem websockets_event {c : HttpClient WS} {e : H3Event} {streamId : Nat}
    (hevents : c.requestEvents.lookup streamId = none) :
    (c.httpEventReceived out e).1.websockets.lookup streamId =
      if e.streamId = some streamId then
        (c.websockets.lookup streamId).map fun w => (w.httpEventReceived out e).1
      else c.websockets.lookup streamId := by
  have hreceived : ∀ k ended pushId,
      (c.received out e k ended pushId).1.websockets.lookup streamId =
        if some k = some streamId then
          (c.websockets.lookup streamId).map fun w => (w.httpEventReceived out e).1
        else c.websockets.lookup streamId := by
    intro k ended pushId
    unfold HttpClient.received
    by_cases hk : k = streamId
    · subst hk
      rw [if_pos rfl, hevents]
      cases hws : c.websockets.lookup k with
      | some w => exact lookup_set_self _ _ _
      | none =>
          cases pushId with
          | none => exact hws
          | some pushId =>
              simp only []
              split
              · exact hws
              · exact hws
    · rw [if_neg (fun heq => hk (Option.some.inj heq))]
      cases c.requestEvents.lookup k with
      | some events =>
          simp only []
          split
          · split
            · rfl
            · rw [websockets_setResult]
          · rfl
      | none =>
          cases hws : c.websockets.lookup k with
          | some w => exact lookup_set_of_ne _ (Ne.symm hk) _
          | none =>
              cases pushId with
              | none => rfl
              | some pushId =>
                  simp only []
                  split
                  · rfl
                  · rfl
  cases e with
  | headersReceived headers k ended pushId => exact hreceived k ended pushId
  | dataReceived data k ended pushId => exact hreceived k ended pushId
  | pushPromiseReceived headers pushId k => rfl
  | other => rfl

/-- A websocket of the client, but for its queue the one alone. -/
structure Runs (streamId : Nat) (alone : Alone WS) (s : State WS) : Prop where
  tables : Tables s
  opened : streamId ∈ s.opened
  websocket : ∃ w, s.client.websockets.lookup streamId = some w ∧
    w.prepend (s.recvd streamId) = alone.websocket
  sent : s.sent.filter (·.streamId = streamId) = alone.sent

namespace Runs

variable {streamId : Nat} {alone : Alone WS} {s s' : State WS}

/-- Its stream is no request's. -/
theorem requestEvents (h : Runs streamId alone s) :
    s.client.requestEvents.lookup streamId = none := by
  rcases h.websocket with ⟨w, hw, _⟩
  rw [← Option.not_isSome_iff_eq_none]
  intro hsome
  rw [h.tables.apart streamId hsome] at hw
  cases hw

theorem event (h : Runs streamId alone s) (e : H3Event) :
    Runs streamId (alone.next out streamId (.event e)) (s.event out e) := by
  rcases h.websocket with ⟨w, hw, halone⟩
  have hlookup : (s.event out e).client.websockets.lookup streamId = _ :=
    websockets_event h.requestEvents
  rw [Alone.next]
  by_cases he : e.streamId = some streamId
  · rw [if_pos he, hw] at hlookup
    rw [if_pos he]
    refine ⟨h.tables.event e, h.opened, ⟨_, hlookup, ?_⟩, h.sent⟩
    show ((w.httpEventReceived out e).1).prepend (s.recvd streamId) =
      (alone.websocket.httpEventReceived out e).1
    rw [← halone, WebSocket.httpEventReceived_prepend]
  · rw [if_neg he] at hlookup
    rw [if_neg he]
    exact ⟨h.tables.event e, h.opened, ⟨w, hlookup.trans hw, halone⟩, h.sent⟩

/-- `send` and `close`, on any stream. -/
theorem transmit (h : Runs streamId alone s) {k : Nat} {websocket : WebSocket WS}
    (hws : s.client.websockets.lookup k = some websocket)
    (make : WS → Except Text (Bytes × WS)) (endStream : Bool) :
    Runs streamId
      (if k = streamId then alone.transmit streamId (make alone.websocket.websocket) endStream
        else alone)
      (s.transmit k websocket (make websocket.websocket) endStream) := by
  have htables := h.tables.transmit hws (make websocket.websocket) endStream
  rcases h.websocket with ⟨w, hw, halone⟩
  by_cases hk : k = streamId
  · subst hk
    obtain rfl : websocket = w := Option.some.inj (hws.symm.trans hw)
    have hsame : alone.websocket.websocket = websocket.websocket := by
      rw [← halone]
      rfl
    rw [if_pos rfl, hsame]
    cases hmade : make websocket.websocket with
    | error message =>
        rw [hmade] at htables
        exact ⟨htables, h.opened, ⟨websocket, hw, halone⟩, h.sent⟩
    | ok made =>
        rw [hmade] at htables
        refine ⟨htables, h.opened, ⟨_, lookup_set_self _ _ _, ?_⟩, ?_⟩
        · show _ = { alone.websocket with websocket := made.2 }
          rw [← halone]
          rfl
        · show (s.sent ++ [_]).filter (fun frame : Frame => frame.streamId = k) = _ ++ [_]
          rw [List.filter_append, h.sent, List.filter_singleton, Frame.streamId,
            decide_eq_true rfl]
          rfl
  · rw [if_neg hk]
    cases hmade : make websocket.websocket with
    | error message =>
        rw [hmade] at htables
        exact ⟨htables, h.opened, ⟨w, hw, halone⟩, h.sent⟩
    | ok made =>
        rw [hmade] at htables
        refine ⟨htables, h.opened, ⟨w, (lookup_set_of_ne _ (Ne.symm hk) _).trans hw, halone⟩, ?_⟩
        refine (filter_append_of_ne _ ?_).trans h.sent
        intro frame hframe
        rw [List.mem_singleton.mp hframe]
        exact hk

theorem recv (h : Runs streamId alone s) {k : Nat} {message : Text} {queue : List Text}
    {subprotocol : Option Text} {connection : WS}
    (hws : s.client.websockets.lookup k = some ⟨message :: queue, subprotocol, connection⟩)
    (htables : Tables s')
    (hs' : s' = { s with
      received := s.received ++ [(k, message)]
      client := { s.client with
        websockets := set s.client.websockets k ⟨queue, subprotocol, connection⟩ } }) :
    Runs streamId alone s' := by
  subst hs'
  rcases h.websocket with ⟨w, hw, halone⟩
  by_cases hk : k = streamId
  · subst hk
    obtain rfl := Option.some.inj (hws.symm.trans hw)
    refine ⟨htables, h.opened, ⟨_, lookup_set_self _ _ _, ?_⟩, h.sent⟩
    -- the message goes from the queue to what was returned
    rw [← halone]
    show WebSocket.prepend (((s.received ++ [(k, message)]).filter _).map _) _ = _
    rw [List.filter_append, List.map_append, List.filter_singleton, decide_eq_true rfl]
    exact congrArg (WebSocket.mk · subprotocol connection) (List.append_assoc _ [message] queue)
  · refine ⟨htables, h.opened, ⟨w, (lookup_set_of_ne _ (Ne.symm hk) _).trans hw, ?_⟩, h.sent⟩
    rw [← halone]
    show WebSocket.prepend (((s.received ++ [(k, message)]).filter _).map _) _ = _
    rw [List.filter_append, List.filter_singleton, decide_eq_false hk]
    exact congrArg (fun l => w.prepend (List.map _ l)) (List.append_nil _)

theorem step (h : Runs streamId alone s) {move : Move}
    (hstep : Http3.step out cfg move s = some s') :
    Runs streamId (alone.next out streamId move) s' := by
  have htables := h.tables.step hstep
  cases stepped hstep with
  | @request url parsed data k _ hnew =>
      have hne : k ≠ streamId := fun heq => hnew (heq ▸ h.opened)
      refine ⟨htables, List.mem_append_left _ h.opened, h.websocket, ?_⟩
      refine (filter_append_of_ne _ ?_).trans h.sent
      intro frame hframe
      rcases List.mem_pair.mp hframe with rfl | rfl
      · exact hne
      · exact hne
  | @websocket url parsed subprotocols k _ hnew =>
      have hne : k ≠ streamId := fun heq => hnew (heq ▸ h.opened)
      rcases h.websocket with ⟨w, hw, halone⟩
      refine ⟨htables, List.mem_append_left _ h.opened,
        ⟨w, (lookup_set_of_ne _ hne.symm _).trans hw, halone⟩, ?_⟩
      refine (filter_append_of_ne _ ?_).trans h.sent
      intro frame hframe
      rw [List.mem_singleton.mp hframe]
      exact hne
  | noUrl _ => exact ⟨htables, h.opened, h.websocket, h.sent⟩
  | event => exact h.event _
  | finish _ _ _ => exact ⟨htables, h.opened, h.websocket, h.sent⟩
  | pushes _ _ => exact ⟨htables, h.opened, h.websocket, h.sent⟩
  | recv hws => exact h.recv hws htables rfl
  | @send k message websocket hws => exact h.transmit hws (out.sendText · message) false
  | @close k code reason websocket hws => exact h.transmit hws (out.sendClose · code reason) true

end Runs

/-- Messages are received on streams that were opened. -/
theorem received_opened {moves : List Move} {s : State WS}
    (h : Sched.run (step out cfg) moves State.init = some s) :
    ∀ streamId message, (streamId, message) ∈ s.received → streamId ∈ s.opened := by
  have hboth : Tables s ∧ ∀ streamId message, (streamId, message) ∈ s.received →
      streamId ∈ s.opened := by
    refine Sched.run_invariant (P := fun s => Tables s ∧ ∀ streamId message,
      (streamId, message) ∈ s.received → streamId ∈ s.opened) ?_ h ⟨Tables.init, nofun⟩
    rintro move s s' _ ⟨htables, hreceived⟩ hstep
    refine ⟨htables.step hstep, ?_⟩
    cases stepped hstep with
    | request _ _ => exact fun k m hm => List.mem_append_left _ (hreceived k m hm)
    | websocket _ _ => exact fun k m hm => List.mem_append_left _ (hreceived k m hm)
    | noUrl _ => exact hreceived
    | event => exact hreceived
    | finish _ _ _ => exact hreceived
    | pushes _ _ => exact hreceived
    | @recv k message queue subprotocol connection hws =>
        intro k' m hm
        rcases List.mem_append.mp hm with hold | hnew
        · exact hreceived k' m hold
        · cases List.mem_singleton.mp hnew
          exact htables.opened k (.inr (Option.isSome_iff_exists.mpr ⟨_, hws⟩))
    | send _ =>
        unfold State.transmit
        split
        · exact hreceived
        · exact hreceived
    | close _ =>
        unfold State.transmit
        split
        · exact hreceived
        · exact hreceived
  exact hboth.2

/-- What is sent on the stream, what `recv` returned followed by what waits, and the state of the
websocket are those of a websocket that has the connection to itself. -/
theorem websocket_alone {before after : List Move} {url : Text} {subprotocols : List Text}
    {streamId : Nat} {s : State WS}
    (h : Sched.run (step out cfg) (before ++ .websocket url subprotocols streamId :: after)
      State.init = some s) :
    ∃ parsed websocket alone, URL.parse out url = .ok parsed ∧
      s.client.websockets.lookup streamId = some websocket ∧
      alone = after.foldl (Alone.next out streamId) (.start out parsed subprotocols streamId) ∧
      { websocket with queue := s.recvd streamId ++ websocket.queue } = alone.websocket ∧
      s.sent.filter (·.streamId = streamId) = alone.sent := by
  rcases Sched.run_append.mp h with ⟨s₀, hbefore, hrest⟩
  rcases Option.bind_eq_some_iff.mp hrest with ⟨s₁, hopen, hafter⟩
  have htables := tables_of_run hbefore
  have htables₁ := htables.step hopen
  cases stepped hopen with
  | @websocket _ parsed _ _ hparsed hnew =>
      have hnone : s₀.recvd streamId = [] := by
        rw [State.recvd, List.map_eq_nil_iff, List.filter_eq_nil_iff]
        intro r hr hid
        exact hnew (of_decide_eq_true hid ▸ received_opened hbefore r.1 r.2 hr)
      have hsent : s₀.sent.filter (·.streamId = streamId) = [] := by
        rw [List.filter_eq_nil_iff]
        intro frame hframe hid
        exact hnew (of_decide_eq_true hid ▸ htables.sent frame hframe)
      have hstart : Runs streamId (Alone.start out parsed subprotocols streamId)
          (s₀.websocket out parsed subprotocols streamId) := by
        refine ⟨htables₁, List.mem_append_right _ (List.mem_singleton_self _),
          ⟨_, lookup_set_self _ _ _, ?_⟩, ?_⟩
        · show WebSocket.prepend (s₀.recvd streamId) _ = _
          rw [hnone, WebSocket.prepend_nil]
          rfl
        · show (s₀.sent ++ [_]).filter (fun frame : Frame => frame.streamId = streamId) = _
          rw [List.filter_append, hsent, List.filter_singleton, Frame.streamId,
            decide_eq_true rfl]
          rfl
      have hruns : Runs streamId
          (after.foldl (Alone.next out streamId) (.start out parsed subprotocols streamId)) s :=
        Sched.run_foldl (fun hruns hstep => hruns.step hstep) hafter hstart
      rcases hruns.websocket with ⟨websocket, hws, halone⟩
      exact ⟨parsed, websocket, _, hparsed, hws, rfl, halone, hruns.sent⟩

/-- A message is read while another comes, and a request beside. -/
theorem websocket_alone_chat : ∃ s : State (List Text),
    Sched.run (step plain ⟨false, none⟩)
      ([] ++ .websocket "wss://h/ws".toList [] 0 ::
        [.request "https://h/a".toList none 4, .event (.headersReceived [] 0 false none),
          .event (.dataReceived [0x81, 1, 72] 0 false none), .recv 0,
          .event (.dataReceived [72] 4 true none),
          .event (.dataReceived [0x81, 1, 73] 0 false none)])
      State.init = some s ∧
    ∃ websocket, s.client.websockets.lookup 0 = some websocket ∧
      s.recvd 0 ++ websocket.queue = ["H".toList, "I".toList] := by
  have h : Sched.run (step plain ⟨false, none⟩)
      ([] ++ .websocket "wss://h/ws".toList [] 0 ::
        [.request "https://h/a".toList none 4, .event (.headersReceived [] 0 false none),
          .event (.dataReceived [0x81, 1, 72] 0 false none), .recv 0,
          .event (.dataReceived [72] 4 true none),
          .event (.dataReceived [0x81, 1, 73] 0 false none)])
      State.init = some _ := rfl
  rcases websocket_alone h with ⟨parsed, websocket, alone, hparsed, hws, halone, hqueue, _⟩
  refine ⟨_, h, websocket, hws, ?_⟩
  have hlone : alone.websocket.queue = ["H".toList, "I".toList] := by
    cases hparsed
    rw [halone]
    rfl
  rw [← hlone, ← hqueue]

end Smoll.Http3
