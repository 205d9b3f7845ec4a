/-
# `Smoll.Http3.Answers` — each request is answered by its own stream

However the events of all streams are mixed, and whatever the coroutines do in
between, the future of a request is set to the events of its stream up to the
one that ends it, in the order they came, and it is not set before
(`answered_by_its_stream`).

`Serves` is the invariant, for one request: a collector (`Streams.Phase`) that
sees the moves on its stream only agrees with the tables after every move.
-/
import Smoll.Http3.Tables
import Smoll.Lib.Streams

namespace Smoll.Http3

open OrderedDict Streams

/-! ## The moves on a stream -/

def Move.eventOn (streamId : Nat) : Move → Option H3Event
  | .event e => if e.streamId = some streamId then some e else none
  | _ => none

/-- The headers and data that come on a stream. -/
def eventsOn (streamId : Nat) (moves : List Move) : List H3Event :=
  moves.filterMap (Move.eventOn streamId)

def Move.isRequest : Move → Bool
  | .request _ _ _ => true
  | _ => false

/-- How many requests are made. -/
def requests (moves : List Move) : Nat := moves.countP Move.isRequest

/-- A collector that sees the events of one stream. -/
def observe (streamId : Nat) (phase : Phase H3Event) (move : Move) : Phase H3Event :=
  match move.eventOn streamId with
  | some e => phase.next H3Event.ended e
  | none => phase

theorem observe_event_of_ne {streamId : Nat} {e : H3Event} (h : e.streamId ≠ some streamId)
    (phase : Phase H3Event) : observe streamId phase (.event e) = phase := by
  rw [observe, Move.eventOn, if_neg h]

theorem observe_event {streamId : Nat} {e : H3Event} (h : e.streamId = some streamId)
    (phase : Phase H3Event) :
    observe streamId phase (.event e) = phase.next H3Event.ended e := by
  rw [observe, Move.eventOn, if_pos h]

theorem foldl_observe (streamId : Nat) (moves : List Move) (phase : Phase H3Event) :
    moves.foldl (observe streamId) phase =
      (eventsOn streamId moves).foldl (Phase.next H3Event.ended) phase := by
  induction moves generalizing phase with
  | nil => rfl
  | cons move moves ih =>
      rw [List.foldl_cons, ih]
      simp only [eventsOn, List.filterMap_cons, observe]
      cases move.eventOn streamId with
      | none => rfl
      | some e => rfl

variable {WS : Type} {out : Outside WS} {cfg : Config}

/-! ## One request -/

/-- The future of the request and the tables hold what its collector has. -/
def Holds (c : HttpClient WS) (streamId i : Nat) : Phase H3Event → Prop
  | .collecting events => c.requestEvents.lookup streamId = some events ∧
      c.requestWaiter.lookup streamId = some i ∧ c.futures[i]? = some none
  | .closed events => c.requestEvents.lookup streamId = none ∧ c.futures[i]? = some (some events)

/-- Request `i` was made with these arguments on its stream, and `phase` has been collected. -/
structure Serves (url : Text) (data : Option Text) (streamId i : Nat) (frames : List Frame)
    (phase : Phase H3Event) (s : State WS) : Prop where
  tables : Tables s
  opened : streamId ∈ s.opened
  websocket : s.client.websockets.lookup streamId = none
  sent : s.sent.filter (·.streamId = streamId) = frames
  task : ∃ finished, s.tasks[i]? = some ⟨url, data, streamId, finished⟩
  holds : Holds s.client streamId i phase

/-- The answer of the collector is in the future. -/
theorem Holds.future {c : HttpClient WS} {streamId i : Nat} {phase : Phase H3Event}
    (h : Holds c streamId i phase) : c.futures[i]? = some phase.answer := by
  cases phase with
  | collecting events => exact h.2.2
  | closed events => exact h.2

theorem Holds.of_same {c c' : HttpClient WS} {streamId i : Nat} {phase : Phase H3Event}
    (h : Holds c streamId i phase)
    (hevents : c'.requestEvents.lookup streamId = c.requestEvents.lookup streamId)
    (hwaiter : c'.requestWaiter.lookup streamId = c.requestWaiter.lookup streamId)
    (hfuture : c'.futures[i]? = c.futures[i]?) : Holds c' streamId i phase := by
  cases phase with
  | collecting events => exact ⟨hevents.trans h.1, hwaiter.trans h.2.1, hfuture.trans h.2.2⟩
  | closed events => exact ⟨hevents.trans h.1, hfuture.trans h.2⟩

/-- While the stream is in the tables its collector is open. -/
theorem Holds.collecting {c : HttpClient WS} {streamId i : Nat} {phase : Phase H3Event}
    {events : List H3Event} (h : Holds c streamId i phase)
    (hevents : c.requestEvents.lookup streamId = some events) :
    phase = .collecting events ∧ c.requestWaiter.lookup streamId = some i ∧
      c.futures[i]? = some none := by
  cases phase with
  | collecting events' =>
      rw [h.1] at hevents
      cases hevents
      exact ⟨rfl, h.2⟩
  | closed events' =>
      rw [h.1] at hevents
      cases hevents

theorem Holds.event {c : HttpClient WS} {done : HttpClient WS × Option PyError} {e : H3Event}
    {streamId i : Nat} {phase : Phase H3Event} (h : Holds c streamId i phase)
    (hother : ∀ k, k ≠ streamId → c.requestWaiter.lookup k ≠ some i)
    (hspec : Received c e done) : Holds done.1 streamId i (observe streamId phase (.event e)) := by
  cases hspec with
  | @collected k events hk hended hevents =>
      by_cases hkey : k = streamId
      · subst hkey
        obtain ⟨rfl, hwaiter, hpending⟩ := h.collecting hevents
        rw [observe_event hk, Phase.next, if_neg (by rw [hended]; exact Bool.false_ne_true)]
        exact ⟨lookup_set_self _ _ _, hwaiter, hpending⟩
      · rw [observe_event_of_ne (by rw [hk]; exact fun heq => hkey (Option.some.inj heq))]
        exact h.of_same (lookup_set_of_ne _ (Ne.symm hkey) _) rfl rfl
  | @answered k events waiter hk hended hevents hwaiter =>
      by_cases hkey : k = streamId
      · subst hkey
        obtain ⟨rfl, hwaiter', hpending⟩ := h.collecting hevents
        obtain rfl : i = waiter := Option.some.inj (hwaiter'.symm.trans hwaiter)
        rw [observe_event hk, Phase.next, if_pos hended]
        have hlt : i < c.futures.length := (List.getElem?_eq_some_iff.mp hpending).1
        exact ⟨lookup_pop_self _ _, List.getElem?_set_self hlt⟩
      · rw [observe_event_of_ne (by rw [hk]; exact fun heq => hkey (Option.some.inj heq))]
        refine h.of_same ?_ (lookup_pop_of_ne _ (Ne.symm hkey)) ?_
        · exact (lookup_pop_of_ne _ (Ne.symm hkey)).trans (lookup_set_of_ne _ (Ne.symm hkey) _)
        · refine List.getElem?_set_ne ?_
          rintro rfl
          exact hother k hkey hwaiter
  | @elsewhere c' e' hnone hsame _ =>
      have hsame' : Holds c' streamId i phase :=
        h.of_same (by rw [hsame.requestEvents]) (by rw [hsame.requestWaiter])
          (by rw [hsame.futures])
      by_cases hk : e.streamId = some streamId
      · rw [observe_event hk]
        cases phase with
        | collecting events =>
            have hevents := h.1
            rw [hnone streamId hk] at hevents
            cases hevents
        | closed events => exact hsame'
      · rw [observe_event_of_ne hk]
        exact hsame'

namespace Serves

variable {url : Text} {data : Option Text} {streamId i : Nat} {frames : List Frame}
  {phase : Phase H3Event} {s s' : State WS}

/-- A move that leaves the stream alone. -/
theorem of_same (h : Serves url data streamId i frames phase s) (htables : Tables s')
    (hopened : ∀ k ∈ s.opened, k ∈ s'.opened)
    (hwebsocket : s'.client.websockets.lookup streamId = s.client.websockets.lookup streamId)
    (hsent : s'.sent.filter (·.streamId = streamId) = s.sent.filter (·.streamId = streamId))
    (htask : ∃ finished, s'.tasks[i]? = some ⟨url, data, streamId, finished⟩)
    (hevents : s'.client.requestEvents.lookup streamId = s.client.requestEvents.lookup streamId)
    (hwaiter : s'.client.requestWaiter.lookup streamId = s.client.requestWaiter.lookup streamId)
    (hfuture : s'.client.futures[i]? = s.client.futures[i]?) :
    Serves url data streamId i frames phase s' where
  tables := htables
  opened := hopened _ h.opened
  websocket := hwebsocket.trans h.websocket
  sent := hsent.trans h.sent
  task := htask
  holds := h.holds.of_same hevents hwaiter hfuture

theorem transmit (h : Serves url data streamId i frames phase s) {k : Nat}
    {websocket : WebSocket WS} (hws : s.client.websockets.lookup k = some websocket)
    (made : Except Text (Bytes × WS)) (endStream : Bool) :
    Serves url data streamId i frames phase (s.transmit k websocket made endStream) := by
  have hne : streamId ≠ k := by
    rintro rfl
    rw [h.websocket] at hws
    cases hws
  have htables := h.tables.transmit hws made endStream
  cases made with
  | error message =>
      exact h.of_same htables (fun _ => id) rfl rfl h.task rfl rfl rfl
  | ok made =>
      refine h.of_same htables (fun _ => id) (lookup_set_of_ne _ hne _) ?_ h.task rfl rfl rfl
      refine filter_append_of_ne _ ?_
      intro frame hframe
      rw [List.mem_singleton.mp hframe]
      exact hne.symm

theorem event (h : Serves url data streamId i frames phase s) (e : H3Event) :
    Serves url data streamId i frames (observe streamId phase (.event e)) (s.event out e) := by
  have hspec := httpEventReceived_spec out h.tables.pending_of_events e
  have hother : ∀ k, k ≠ streamId → s.client.requestWaiter.lookup k ≠ some i := by
    intro k hk hwaiter
    rcases h.task with ⟨finished, htask⟩
    have hown := (h.tables.pending k i hwaiter).2
    rw [htask] at hown
    exact hk (Option.some.inj hown).symm
  refine ⟨h.tables.event e, h.opened, ?_, h.sent, h.task, h.holds.event hother hspec⟩
  show (s.client.httpEventReceived out e).1.websockets.lookup streamId = none
  have hws := h.websocket
  rw [← Option.not_isSome_iff_eq_none] at hws ⊢
  generalize s.client.httpEventReceived out e = done at hspec ⊢
  cases hspec with
  | collected _ _ _ => exact hws
  | answered _ _ _ _ => exact hws
  | elsewhere _ hsame _ =>
      rw [hsame.websockets]
      exact hws

/-- Every move keeps it, with what the collector makes of the move. -/
theorem step (h : Serves url data streamId i frames phase s) {move : Move}
    (hstep : Http3.step out cfg move s = some s') :
    Serves url data streamId i frames (observe streamId phase move) s' := by
  have htables := h.tables.step hstep
  cases stepped hstep with
  | @request url' parsed' data' k _ hnew =>
      have hne : streamId ≠ k := fun heq => hnew (heq ▸ h.opened)
      have hlt : i < s.tasks.length := by
        rcases h.task with ⟨finished, htask⟩
        exact (List.getElem?_eq_some_iff.mp htask).1
      refine h.of_same htables (fun _ => List.mem_append_left _) rfl ?_ ?_
        (lookup_set_of_ne _ hne _) (lookup_set_of_ne _ hne _) ?_
      · refine filter_append_of_ne _ ?_
        intro frame hframe
        rcases List.mem_pair.mp hframe with rfl | rfl
        · exact hne.symm
        · exact hne.symm
      · rcases h.task with ⟨finished, htask⟩
        exact ⟨finished, (List.getElem?_append_left hlt).trans htask⟩
      · exact List.getElem?_append_left (h.tables.length ▸ hlt)
  | @websocket url' parsed' subprotocols k _ hnew =>
      have hne : streamId ≠ k := fun heq => hnew (heq ▸ h.opened)
      refine h.of_same htables (fun _ => List.mem_append_left _) (lookup_set_of_ne _ hne _) ?_
        h.task rfl rfl rfl
      refine filter_append_of_ne _ ?_
      intro frame hframe
      rw [List.mem_singleton.mp hframe]
      exact hne.symm
  | noUrl _ => exact h.of_same htables (fun _ => id) rfl rfl h.task rfl rfl rfl
  | event => exact h.event _
  | pushes _ _ => exact h.of_same htables (fun _ => id) rfl rfl h.task rfl rfl rfl
  | @finish j files elapsed task events htask _ _ =>
      refine h.of_same htables (fun _ => id) rfl rfl ?_ rfl rfl rfl
      rcases h.task with ⟨finished, htask'⟩
      by_cases hji : j = i
      · subst hji
        rw [htask] at htask'
        cases htask'
        exact ⟨true, List.getElem?_set_self (List.getElem?_eq_some_iff.mp htask).1⟩
      · exact ⟨finished, (List.getElem?_set_ne hji).trans htask'⟩
  | recv hws =>
      refine h.of_same htables (fun _ => id) (lookup_set_of_ne _ ?_ _) rfl h.task rfl rfl rfl
      rintro rfl
      rw [h.websocket] at hws
      cases hws
  | send hws => exact h.transmit hws _ _
  | close hws => exact h.transmit hws _ _

/-- It begins with the request. -/
theorem start (h : Tables s) (url : Text) (parsed : URL) (data : Option Text)
    (hnew : streamId ∉ s.opened) :
    Serves url data streamId s.tasks.length
      [.headers streamId (requestHeaders out (httpRequest parsed data)),
        .data streamId (httpRequest parsed data).content true]
      (.collecting []) (s.request out url parsed data streamId) where
  tables := h.request url parsed data hnew
  opened := List.mem_append_right _ (List.mem_singleton_self _)
  websocket := (h.fresh hnew).2.2
  sent := by
    have hnil : s.sent.filter (·.streamId = streamId) = [] := by
      rw [List.filter_eq_nil_iff]
      intro frame hframe hid
      exact hnew (of_decide_eq_true hid ▸ h.sent frame hframe)
    show (s.sent ++ [_, _]).filter (fun frame : Frame => frame.streamId = streamId) = [_, _]
    rw [List.filter_append, hnil, List.nil_append, List.filter_eq_self]
    intro frame hframe
    rcases List.mem_pair.mp hframe with rfl | rfl
    · exact decide_eq_true rfl
    · exact decide_eq_true rfl
  task := ⟨false, List.getElem?_concat_length⟩
  holds := by
    refine ⟨lookup_set_self _ _ _, ?_, ?_⟩
    · rw [← h.length]
      exact lookup_set_self _ _ _
    · rw [← h.length]
      exact List.getElem?_concat_length

end Serves

/-! ## Whole runs -/

variable {moves : List Move} {s s' : State WS}

@[simp] theorem tasks_transmit (s : State WS) (streamId : Nat) (websocket : WebSocket WS)
    (made : Except Text (Bytes × WS)) (endStream : Bool) :
    (s.transmit streamId websocket made endStream).tasks = s.tasks := by
  cases made with
  | error message => rfl
  | ok made => rfl

/-- A coroutine is made by a request, and keeps what it was called with. -/
theorem tasks_step {move : Move} (hstep : step out cfg move s = some s') :
    s'.tasks.length = s.tasks.length + requests [move] ∧
      ∀ (i : Nat) (task : Task), s.tasks[i]? = some task →
        ∃ task' : Task, s'.tasks[i]? = some task' ∧ task'.url = task.url := by
  have hsame : ∀ (i : Nat) (task : Task), s.tasks[i]? = some task →
      ∃ task' : Task, s.tasks[i]? = some task' ∧ task'.url = task.url :=
    fun i task htask => ⟨task, htask, rfl⟩
  cases stepped hstep with
  | request _ _ =>
      refine ⟨List.length_append, ?_⟩
      intro i task htask
      have hlt := (List.getElem?_eq_some_iff.mp htask).1
      exact ⟨task, (List.getElem?_append_left hlt).trans htask, rfl⟩
  | websocket _ _ => exact ⟨rfl, hsame⟩
  | noUrl _ => exact ⟨rfl, hsame⟩
  | event => exact ⟨rfl, hsame⟩
  | pushes _ _ => exact ⟨rfl, hsame⟩
  | @finish j files elapsed task events htask _ _ =>
      refine ⟨List.length_set, ?_⟩
      intro i task' htask'
      by_cases hji : j = i
      · subst hji
        rw [htask] at htask'
        cases htask'
        exact ⟨_, List.getElem?_set_self (List.getElem?_eq_some_iff.mp htask).1, rfl⟩
      · exact ⟨task', (List.getElem?_set_ne hji).trans htask', rfl⟩
  | recv _ => exact ⟨rfl, hsame⟩
  | send _ =>
      rw [tasks_transmit]
      exact ⟨rfl, hsame⟩
  | close _ =>
      rw [tasks_transmit]
      exact ⟨rfl, hsame⟩

theorem tasks_run (h : Sched.run (step out cfg) moves s = some s') :
    s'.tasks.length = s.tasks.length + requests moves ∧
      ∀ (i : Nat) (task : Task), s.tasks[i]? = some task → ∃ task' : Task, s'.tasks[i]? = some task' ∧
        task'.url = task.url := by
  induction moves generalizing s with
  | nil =>
      cases h
      exact ⟨rfl, fun i task htask => ⟨task, htask, rfl⟩⟩
  | cons move moves ih =>
      rcases Option.bind_eq_some_iff.mp h with ⟨s₁, hstep, hrun⟩
      rcases tasks_step hstep with ⟨hlen, htasks⟩
      rcases ih hrun with ⟨hlen', htasks'⟩
      constructor
      · have hcount : requests ([move] ++ moves) = requests [move] + requests moves :=
          List.countP_append
        rw [hlen', hlen, Nat.add_assoc, ← hcount]
        rfl
      · intro i task htask
        rcases htasks i task htask with ⟨task₁, htask₁, hurl₁⟩
        rcases htasks' i task₁ htask₁ with ⟨task₂, htask₂, hurl₂⟩
        exact ⟨task₂, htask₂, hurl₂.trans hurl₁⟩

/-- A request and its collector, from the request on. -/
theorem serves_run {before after : List Move} {url : Text} {data : Option Text} {streamId : Nat}
    (h : Sched.run (step out cfg) (before ++ .request url data streamId :: after) State.init =
      some s) :
    ∃ parsed, URL.parse out url = .ok parsed ∧ Serves url data streamId (requests before)
      [.headers streamId (requestHeaders out (httpRequest parsed data)),
        .data streamId (httpRequest parsed data).content true]
      (after.foldl (observe streamId) (.collecting [])) s := by
  rcases Sched.run_append.mp h with ⟨s₀, hbefore, hrest⟩
  rcases Option.bind_eq_some_iff.mp hrest with ⟨s₁, hrequest, hafter⟩
  cases stepped hrequest with
  | @request _ parsed _ _ hparsed hnew =>
      have hlen : s₀.tasks.length = requests before :=
        (tasks_run hbefore).1.trans (Nat.zero_add _)
      refine ⟨parsed, hparsed, ?_⟩
      rw [← hlen]
      exact Sched.run_foldl (fun hserves hstep => hserves.step hstep) hafter
        (Serves.start (tables_of_run hbefore) url parsed data hnew)

/-! ## Answers -/

/-- The future of a request is set to the events of its stream up to the last, and not before, and
on its stream the client sends the request and nothing else. -/
theorem answered_by_its_stream {before after : List Move} {url : Text} {data : Option Text}
    {streamId : Nat}
    (h : Sched.run (step out cfg) (before ++ .request url data streamId :: after) State.init =
      some s) :
    s.client.futures[requests before]? = some (upTo H3Event.ended (eventsOn streamId after)) ∧
      ∃ parsed, URL.parse out url = .ok parsed ∧
        s.sent.filter (·.streamId = streamId) =
          [.headers streamId (requestHeaders out (httpRequest parsed data)),
            .data streamId (httpRequest parsed data).content true] := by
  rcases serves_run h with ⟨parsed, hparsed, hserves⟩
  refine ⟨?_, parsed, hparsed, hserves.sent⟩
  rw [hserves.holds.future, foldl_observe, answer_foldl]

/-- Two requests whose events are mixed. -/
theorem answered_by_its_stream_mixed : ∃ s : State (List Text),
    Sched.run (step plain ⟨false, none⟩)
      ([.request "https://h/a".toList none 0] ++ .request "https://h/b".toList none 4 ::
        [.event (.dataReceived [97] 4 false none), .event (.headersReceived [] 0 true none),
          .event (.dataReceived [98] 4 true none)])
      State.init = some s ∧
    s.client.futures[1]? =
      some (some [.dataReceived [97] 4 false none, .dataReceived [98] 4 true none]) := by
  have h : Sched.run (step plain ⟨false, none⟩)
      ([.request "https://h/a".toList none 0] ++ .request "https://h/b".toList none 4 ::
        [.event (.dataReceived [97] 4 false none), .event (.headersReceived [] 0 true none),
          .event (.dataReceived [98] 4 true none)])
      State.init = some _ := rfl
  exact ⟨_, h, (answered_by_its_stream h).1⟩

end Smoll.Http3
