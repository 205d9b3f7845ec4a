/-
# `Smoll.Http3.Pushes` — a push is collected from its promise on

Nobody waits for a pushed response: its events come on a stream of the server,
with the id of the push, and are kept with the promise that came before.  What
is kept is what came since the last promise of that id, and
`process_http_pushes` writes it under the path that the promise names, if no
header that cannot be decoded and no path that cannot be opened has stopped it
before (`pushed_and_written`).  An event that overtakes its promise is dropped.
-/
import Smoll.Http3.Tables

namespace Smoll.Http3

open OrderedDict

/-- The push that headers or data belong to. -/
def H3Event.pushId : H3Event → Option Nat
  | .headersReceived _ _ _ pushId | .dataReceived _ _ _ pushId => pushId
  | _ => none

/-- The push that it promises. -/
def H3Event.promises : H3Event → Option Nat
  | .pushPromiseReceived _ pushId _ => some pushId
  | _ => none

def Move.ofPush (pushId : Nat) : Move → Option H3Event
  | .event e => if e.pushId = some pushId then some e else none
  | _ => none

/-- The headers and data of a push. -/
def eventsOfPush (pushId : Nat) (moves : List Move) : List H3Event :=
  moves.filterMap (Move.ofPush pushId)

variable {WS : Type} {out : Outside WS} {cfg : Config}

/-- What the branch for headers and data does to the pushes. -/
theorem pushes_received (out : Outside WS) (c : HttpClient WS) (e : H3Event) (streamId : Nat)
    (ended : Bool) (id : Option Nat) :
    (c.received out e streamId ended id).1.pushes = c.pushes ∨
      ∃ pushId events, id = some pushId ∧ c.pushes.lookup pushId = some events ∧
        (c.received out e streamId ended id).1.pushes = set c.pushes pushId (events ++ [e]) := by
  unfold HttpClient.received
  cases c.requestEvents.lookup streamId with
  | some events =>
      refine .inl ?_
      simp only []
      split
      · split
        · rfl
        · unfold HttpClient.setResult
          split
          · rfl
          · rfl
      · rfl
  | none =>
      cases c.websockets.lookup streamId with
      | some w => exact .inl rfl
      | none =>
          cases id with
          | none => exact .inl rfl
          | some id =>
              simp only []
              split
              · next events hevents => exact .inr ⟨id, events, rfl, hevents, rfl⟩
              · exact .inl rfl

/-- An event on a stream that the client did not open, or a promise of another push. -/
theorem pushes_event {c : HttpClient WS} {e : H3Event} {pushId : Nat}
    {events : List H3Event} (hevents : c.pushes.lookup pushId = some events)
    (hpromise : e.promises ≠ some pushId)
    (hfree : e.pushId = some pushId → ∀ k, e.streamId = some k →
      c.requestEvents.lookup k = none ∧ c.websockets.lookup k = none) :
    (c.httpEventReceived out e).1.pushes.lookup pushId =
      some (events ++ ((Move.event e).ofPush pushId).toList) := by
  have hreceived : ∀ k ended id, e.pushId = id →
      (e.pushId = some pushId → c.requestEvents.lookup k = none ∧ c.websockets.lookup k = none) →
      (c.received out e k ended id).1.pushes.lookup pushId =
        some (events ++ ((Move.event e).ofPush pushId).toList) := by
    intro k ended id hid hfree
    rw [Move.ofPush]
    by_cases hpush : e.pushId = some pushId
    · obtain rfl : id = some pushId := hid.symm.trans hpush
      unfold HttpClient.received
      rw [if_pos hpush, (hfree hpush).1, (hfree hpush).2]
      simp only [hevents]
      exact lookup_set_self _ _ _
    · rw [if_neg hpush, Option.toList_none, List.append_nil]
      rcases pushes_received out c e k ended id with hsame | ⟨id', events', hid', _, hset⟩
      · rw [hsame]
        exact hevents
      · have hne : pushId ≠ id' := by
          intro heq
          exact hpush (by rw [hid, hid', heq])
        rw [hset, lookup_set_of_ne _ hne]
        exact hevents
  cases e with
  | headersReceived headers k ended id => exact hreceived k ended id rfl (fun h => hfree h k rfl)
  | dataReceived data k ended id => exact hreceived k ended id rfl (fun h => hfree h k rfl)
  | pushPromiseReceived headers id k =>
      have hne : pushId ≠ id := fun heq => hpromise (congrArg some heq.symm)
      have hsame : ((set (set c.pushes id []) id [.pushPromiseReceived headers id k]).lookup pushId) =
          some events := by
        rw [lookup_set_of_ne _ hne, lookup_set_of_ne _ hne, hevents]
      rw [Move.ofPush, if_neg nofun, Option.toList_none, List.append_nil]
      exact hsame
  | other =>
      rw [Move.ofPush, if_neg nofun, Option.toList_none, List.append_nil]
      exact hevents

@[simp] theorem pushes_transmit (s : State WS) (streamId : Nat) (websocket : WebSocket WS)
    (made : Except Text (Bytes × WS)) (endStream : Bool) :
    (s.transmit streamId websocket made endStream).client.pushes = s.client.pushes := by
  cases made with
  | error message => rfl
  | ok made => rfl

theorem opened_transmit (s : State WS) (streamId : Nat) (websocket : WebSocket WS)
    (made : Except Text (Bytes × WS)) (endStream : Bool) :
    (s.transmit streamId websocket made endStream).opened = s.opened := by
  cases made with
  | error message => rfl
  | ok made => rfl

theorem opened_step {s s' : State WS} {move : Move} (hstep : step out cfg move s = some s') :
    ∀ k ∈ s.opened, k ∈ s'.opened := by
  intro k hk
  cases stepped hstep with
  | request _ _ => exact List.mem_append_left _ hk
  | websocket _ _ => exact List.mem_append_left _ hk
  | noUrl _ => exact hk
  | event => exact hk
  | finish _ _ _ => exact hk
  | pushes _ _ => exact hk
  | recv _ => exact hk
  | send _ =>
      rw [opened_transmit]
      exact hk
  | close _ =>
      rw [opened_transmit]
      exact hk

theorem opened_run {s s' : State WS} {moves : List Move}
    (h : Sched.run (step out cfg) moves s = some s') : ∀ k ∈ s.opened, k ∈ s'.opened := by
  intro k hk
  exact Sched.run_invariant (P := fun s => k ∈ s.opened)
    (fun _ hk hstep => opened_step hstep k hk) h hk

/-- What is kept of a push grows by its events. -/
theorem pushes_run {moves : List Move} {pushId : Nat} {s s' : State WS} {events : List H3Event}
    (h : Sched.run (step out cfg) moves s = some s') (htables : Tables s)
    (hevents : s.client.pushes.lookup pushId = some events)
    (hlast : ∀ e, .event e ∈ moves → e.promises ≠ some pushId)
    (hstreams : ∀ e k, .event e ∈ moves → e.pushId = some pushId → e.streamId = some k →
      k ∉ s'.opened) :
    s'.client.pushes.lookup pushId = some (events ++ eventsOfPush pushId moves) := by
  induction moves generalizing s events with
  | nil =>
      cases h
      rw [hevents, eventsOfPush, List.filterMap_nil, List.append_nil]
  | cons move moves ih =>
      rcases Option.bind_eq_some_iff.mp h with ⟨s₁, hstep, hrun⟩
      have hnext : s₁.client.pushes.lookup pushId =
          some (events ++ (move.ofPush pushId).toList) := by
        have hother : s.client.pushes.lookup pushId =
            some (events ++ (none : Option H3Event).toList) :=
          hevents.trans (congrArg some (List.append_nil _).symm)
        cases stepped hstep with
        | request _ _ => exact hother
        | websocket _ _ => exact hother
        | noUrl _ => exact hother
        | @event e =>
            refine pushes_event hevents (hlast e List.mem_cons_self) ?_
            intro hpush k hk
            have hnew : k ∉ s.opened := by
              intro hopened
              exact hstreams e k List.mem_cons_self hpush hk (opened_run h k hopened)
            exact ⟨(htables.fresh hnew).1, (htables.fresh hnew).2.2⟩
        | finish _ _ _ => exact hother
        | pushes _ _ => exact hother
        | recv _ => exact hother
        | send _ =>
            rw [pushes_transmit]
            exact hother
        | close _ =>
            rw [pushes_transmit]
            exact hother
      have hrest := ih hrun (htables.step hstep) hnext
        (fun e he => hlast e (List.mem_cons_of_mem _ he))
        (fun e k he => hstreams e k (List.mem_cons_of_mem _ he))
      rw [hrest, List.append_assoc]
      congr 2
      rw [eventsOfPush, eventsOfPush, List.filterMap_cons]
      cases move.ofPush pushId with
      | none => rfl
      | some e => rfl

/-! ## Behind its promise -/

/-- A push is kept behind its promise, which came in one of these moves. -/
def Kept (moves : List Move) (pushId : Nat) (events : List H3Event) : Prop :=
  ∃ headers streamId rest, events = .pushPromiseReceived headers pushId streamId :: rest ∧
    (∀ e ∈ rest, e.promises = none) ∧
    .event (.pushPromiseReceived headers pushId streamId) ∈ moves

theorem Kept.concat {moves : List Move} {pushId : Nat} {events : List H3Event} {e : H3Event}
    (h : Kept moves pushId events) (he : e.promises = none) : Kept moves pushId (events ++ [e]) := by
  rcases h with ⟨headers, streamId, rest, rfl, hrest, hmem⟩
  refine ⟨headers, streamId, rest ++ [e], rfl, ?_, hmem⟩
  intro e' he'
  rcases List.mem_append.mp he' with he' | he'
  · exact hrest e' he'
  · rw [List.mem_singleton.mp he']
    exact he

theorem kept_event {moves : List Move} {c : HttpClient WS} {e : H3Event} (he : .event e ∈ moves)
    (hkept : ∀ push ∈ c.pushes, Kept moves push.1 push.2) :
    ∀ push ∈ (c.httpEventReceived out e).1.pushes, Kept moves push.1 push.2 := by
  have hreceived : ∀ streamId ended id, e.promises = none →
      ∀ push ∈ (c.received out e streamId ended id).1.pushes, Kept moves push.1 push.2 := by
    intro streamId ended id hno push hpush
    rcases pushes_received out c e streamId ended id with hsame | ⟨pushId, events, _, hevents, hset⟩
    · rw [hsame] at hpush
      exact hkept push hpush
    · rw [hset] at hpush
      rcases mem_of_mem_set hpush with rfl | hold
      · exact (hkept _ (mem_of_lookup hevents)).concat hno
      · exact hkept push hold
  cases e with
  | headersReceived headers k ended id => exact hreceived k ended id rfl
  | dataReceived data k ended id => exact hreceived k ended id rfl
  | pushPromiseReceived headers pushId k =>
      intro push hpush
      have hset : push ∈ set (set c.pushes pushId []) pushId [.pushPromiseReceived headers pushId k] :=
        hpush
      rw [set_set] at hset
      rcases mem_of_mem_set hset with rfl | hold
      · exact ⟨headers, k, [], rfl, nofun, he⟩
      · exact hkept push hold
  | other => exact hkept

theorem kept_step {moves : List Move} {move : Move} {s s' : State WS} (hmove : move ∈ moves)
    (hkept : ∀ push ∈ s.client.pushes, Kept moves push.1 push.2)
    (hstep : step out cfg move s = some s') :
    ∀ push ∈ s'.client.pushes, Kept moves push.1 push.2 := by
  cases stepped hstep with
  | request _ _ => exact hkept
  | websocket _ _ => exact hkept
  | noUrl _ => exact hkept
  | event => exact kept_event hmove hkept
  | finish _ _ _ => exact hkept
  | pushes _ _ => exact hkept
  | recv _ => exact hkept
  | send _ =>
      rw [pushes_transmit]
      exact hkept
  | close _ =>
      rw [pushes_transmit]
      exact hkept

theorem kept_of_run {run moves : List Move} {s : State WS}
    (h : Sched.run (step out cfg) moves State.init = some s) (hrun : ∀ move ∈ moves, move ∈ run) :
    ∀ push ∈ s.client.pushes, Kept run push.1 push.2 :=
  Sched.run_invariant (P := fun s => ∀ push ∈ s.client.pushes, Kept run push.1 push.2)
    (fun hmove hkept hstep => kept_step (hrun _ hmove) hkept hstep) h nofun

/-! ## The files -/

theorem described_of_no_promise {events : List H3Event} (got : Text × Text)
    (h : ∀ e ∈ events, e.promises = none) : described events got = .ok got := by
  induction events with
  | nil => rfl
  | cons e events ih =>
      have hrest := ih (fun e' he' => h e' (List.mem_cons_of_mem _ he'))
      cases e with
      | headersReceived headers k ended id => exact hrest
      | dataReceived data k ended id => exact hrest
      | pushPromiseReceived headers id k => exact nomatch h _ List.mem_cons_self
      | other => exact hrest

theorem promises_of_mem_eventsOfPush {e : H3Event} {pushId : Nat} {moves : List Move}
    (h : e ∈ eventsOfPush pushId moves) : e.promises = none := by
  rcases List.mem_filterMap.mp h with ⟨move, _, hmove⟩
  cases move with
  | event e' =>
      rw [Move.ofPush, Option.ite_none_right_eq_some] at hmove
      rcases hmove with ⟨hpush, hmove⟩
      cases hmove
      cases e with
      | headersReceived _ _ _ _ => rfl
      | dataReceived _ _ _ _ => rfl
      | pushPromiseReceived _ _ _ => cases hpush
      | other => rfl
  | request _ _ _ => cases hmove
  | websocket _ _ _ => cases hmove
  | noUrl _ => cases hmove
  | finish _ _ _ => cases hmove
  | pushes _ => cases hmove
  | recv _ => cases hmove
  | send _ _ => cases hmove
  | close _ _ _ => cases hmove

theorem processHttpPushes_of_error {files : Files} {push : Nat × List H3Event} {e : PyError}
    (h : processHttpPush cfg files push.2 = .error e) (pushes : List (Nat × List H3Event)) :
    processHttpPushes cfg files (push :: pushes) = ([], some e) := by
  rw [processHttpPushes, h]

theorem processHttpPushes_of_ok {files : Files} {push : Nat × List H3Event}
    {written : List (Text × Bytes)} (h : processHttpPush cfg files push.2 = .ok written)
    (pushes : List (Nat × List H3Event)) :
    processHttpPushes cfg files (push :: pushes) =
      (written ++ (processHttpPushes cfg files pushes).1, (processHttpPushes cfg files pushes).2) := by
  rw [processHttpPushes, h]

/-- The first push that raises something stops it; those in front of it are written. -/
theorem processHttpPushes_stops {files : Files} {pushes : List (Nat × List H3Event)} {e : PyError}
    (h : (processHttpPushes cfg files pushes).2 = some e) :
    ∃ before push after, pushes = before ++ push :: after ∧
      processHttpPush cfg files push.2 = .error e ∧
      processHttpPushes cfg files before = ((processHttpPushes cfg files pushes).1, none) := by
  induction pushes with
  | nil => cases h
  | cons push pushes ih =>
      cases hpush : processHttpPush cfg files push.2 with
      | error e' =>
          rw [processHttpPushes_of_error hpush] at h ⊢
          cases h
          exact ⟨[], push, pushes, rfl, hpush, rfl⟩
      | ok written =>
          rw [processHttpPushes_of_ok hpush] at h ⊢
          rcases ih h with ⟨before, push', after, rfl, hraises, hwritten⟩
          refine ⟨push :: before, push', after, rfl, hraises, ?_⟩
          rw [processHttpPushes_of_ok hpush, hwritten]

/-- A push that is written, and where. -/
theorem processHttpPush_eq_ok {files : Files} {events : List H3Event} {dir : Text}
    {written : List (Text × Bytes)} (hdir : cfg.outputDir = some dir)
    (h : processHttpPush cfg files events = .ok written) :
    ∃ method path, described events ([], []) = .ok (method, path) ∧
      written = [(pathIn dir path, writeResponse cfg.includeHeaders events)] := by
  unfold processHttpPush at h
  split at h
  · cases h
  · next method path hdescribed =>
      unfold outputResponse at h
      rw [hdir] at h
      simp only [] at h
      split at h
      · cases h
      · cases h
        exact ⟨method, path, hdescribed, rfl⟩

/-- Unless it is stopped it writes every push. -/
theorem mem_processHttpPushes {files : Files} {pushes : List (Nat × List H3Event)} {pushId : Nat}
    {dir : Text} {events : List H3Event} (hdir : cfg.outputDir = some dir)
    (h : (processHttpPushes cfg files pushes).2 = none) (hmem : (pushId, events) ∈ pushes) :
    ∃ method path, described events ([], []) = .ok (method, path) ∧
      (pathIn dir path, writeResponse cfg.includeHeaders events) ∈
        (processHttpPushes cfg files pushes).1 := by
  induction pushes with
  | nil => cases hmem
  | cons push pushes ih =>
      cases hpush : processHttpPush cfg files push.2 with
      | error e =>
          rw [processHttpPushes_of_error hpush] at h
          cases h
      | ok written =>
          rw [processHttpPushes_of_ok hpush] at h ⊢
          rcases List.mem_cons.mp hmem with rfl | hmem
          · rcases processHttpPush_eq_ok hdir hpush with ⟨method, path, hdescribed, rfl⟩
            exact ⟨method, path, hdescribed, List.mem_cons_self⟩
          · rcases ih h hmem with ⟨method, path, hdescribed, hwritten⟩
            exact ⟨method, path, hdescribed, List.mem_append_right _ hwritten⟩

/-- What is written is a push, where its promise says. -/
theorem exists_of_mem_processHttpPushes {files : Files} {pushes : List (Nat × List H3Event)}
    {dir : Text} {file : Text × Bytes} (hdir : cfg.outputDir = some dir)
    (h : file ∈ (processHttpPushes cfg files pushes).1) :
    ∃ push ∈ pushes, ∃ method path, described push.2 ([], []) = .ok (method, path) ∧
      file.1 = pathIn dir path := by
  induction pushes with
  | nil => cases h
  | cons push pushes ih =>
      cases hpush : processHttpPush cfg files push.2 with
      | error e =>
          rw [processHttpPushes_of_error hpush] at h
          cases h
      | ok written =>
          rw [processHttpPushes_of_ok hpush] at h
          rcases List.mem_append.mp h with h | h
          · rcases processHttpPush_eq_ok hdir hpush with ⟨method, path, hdescribed, rfl⟩
            rw [List.mem_singleton.mp h]
            exact ⟨push, List.mem_cons_self, method, path, hdescribed, rfl⟩
          · rcases ih h with ⟨push', hpush', hfile⟩
            exact ⟨push', List.mem_cons_of_mem _ hpush', hfile⟩

/-- What is kept of a push is its last promise and what came for it since, on streams that the
client did not open; and that is what is written, under the path of the promise.  What is raised on
the way loses this push and those behind, and none in front. -/
theorem pushed_and_written {before after : List Move} {headers : List (Bytes × Bytes)}
    {pushId streamId : Nat} {dir : Text} {s : State WS} (hdir : cfg.outputDir = some dir)
    (h : Sched.run (step out cfg)
      (before ++ .event (.pushPromiseReceived headers pushId streamId) :: after) State.init = some s)
    (hlast : ∀ e, .event e ∈ after → e.promises ≠ some pushId)
    (hstreams : ∀ e k, .event e ∈ after → e.pushId = some pushId → e.streamId = some k →
      k ∉ s.opened) :
    s.client.pushes.lookup pushId =
        some (.pushPromiseReceived headers pushId streamId :: eventsOfPush pushId after) ∧
      ∀ files : Files,
        ((processHttpPushes cfg files s.client.pushes).2 = none →
          ∃ method path, promised headers ([], []) = .ok (method, path) ∧
            (pathIn dir path, writeResponse cfg.includeHeaders (eventsOfPush pushId after)) ∈
              (processHttpPushes cfg files s.client.pushes).1) ∧
        ∀ e, (processHttpPushes cfg files s.client.pushes).2 = some e →
          ∃ front push back, s.client.pushes = front ++ push :: back ∧
            processHttpPush cfg files push.2 = .error e ∧
            processHttpPushes cfg files front =
              ((processHttpPushes cfg files s.client.pushes).1, none) := by
  rcases Sched.run_append.mp h with ⟨s₀, hbefore, hrest⟩
  rcases Option.bind_eq_some_iff.mp hrest with ⟨s₁, hpromise, hafter⟩
  have htables := (tables_of_run hbefore).step hpromise
  cases hpromise
  have hkept := pushes_run hafter htables (lookup_set_self _ _ _) hlast hstreams
  rw [List.singleton_append] at hkept
  refine ⟨hkept, fun files => ⟨fun hok => ?_, fun e => processHttpPushes_stops⟩⟩
  rcases mem_processHttpPushes hdir hok (mem_of_lookup hkept) with ⟨method, path, hgot, hwritten⟩
  refine ⟨method, path, ?_, hwritten⟩
  simp only [described] at hgot
  split at hgot
  · next got hpromised =>
      rw [described_of_no_promise got (fun e => promises_of_mem_eventsOfPush)] at hgot
      cases hgot
      exact hpromised
  · cases hgot

/-- The headers of a promise. -/
def promiseOf (path : Text) : List (Bytes × Bytes) :=
  [(encode ":method".toList, encode "GET".toList), (encode ":path".toList, encode path)]

/-- Two promises, and the events of the second beside those of a request. -/
def sampleMoves : List Move :=
  [.request "https://h/a".toList none 0,
      .event (.pushPromiseReceived (promiseOf "/x".toList) 5 0)] ++
    .event (.pushPromiseReceived (promiseOf "/b/page".toList) 7 0) ::
      [.event (.dataReceived [97] 3 false (some 7)), .event (.dataReceived [98] 0 true none),
        .event (.dataReceived [99] 3 true (some 7))]

/-- The page is written if both files can be opened, and lost if the first cannot. -/
theorem pushed_and_written_page : ∃ s : State (List Text),
    Sched.run (step plain ⟨false, some "d".toList⟩) sampleMoves State.init = some s ∧
    s.client.pushes.lookup 7 = some [.pushPromiseReceived (promiseOf "/b/page".toList) 7 0,
      .dataReceived [97] 3 false (some 7), .dataReceived [99] 3 true (some 7)] ∧
    ("d/page".toList, [97, 99]) ∈
      (processHttpPushes ⟨false, some "d".toList⟩ (fun _ => none) s.client.pushes).1 ∧
    ∃ front push back, s.client.pushes = front ++ push :: back ∧
      processHttpPush ⟨false, some "d".toList⟩ (fun _ => some "Permission denied".toList) push.2 =
        .error (.opening "Permission denied".toList) := by
  have h : Sched.run (step plain ⟨false, some "d".toList⟩) sampleMoves State.init = some _ := rfl
  obtain ⟨hkept, hfiles⟩ := pushed_and_written rfl h (by
    intro e he
    rcases List.mem_cons.mp he with heq | he
    · cases heq
      nofun
    rcases List.mem_pair.mp he with heq | heq
    · cases heq
      nofun
    · cases heq
      nofun) (by
    intro e k he _ hk
    rcases List.mem_cons.mp he with heq | he
    · cases heq
      cases hk
      decide
    rcases List.mem_pair.mp he with heq | heq
    · cases heq
      contradiction
    · cases heq
      cases hk
      decide)
  refine ⟨_, h, hkept, ?_, ?_⟩
  · obtain ⟨method, path, hpromised, hwritten⟩ := (hfiles fun _ => none).1 (by decide +kernel)
    have hpath : promised (promiseOf "/b/page".toList) ([], []) =
        .ok ("GET".toList, "/b/page".toList) := by decide +kernel
    rw [hpath] at hpromised
    cases hpromised
    exact hwritten
  · obtain ⟨front, push, back, hsplit, hraises, _⟩ :=
      (hfiles fun _ => some "Permission denied".toList).2 (.opening "Permission denied".toList)
        (by decide +kernel)
    exact ⟨front, push, back, hsplit, hraises⟩

end Smoll.Http3
